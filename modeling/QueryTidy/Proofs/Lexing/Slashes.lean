import QueryTidy.Proofs.Lexing.Breaks

/-! Which slashes open a regular expression and which divide. Main statement:
`slash_of_tokenize`. -/
namespace QueryTidy.Token

def RegexLiteral (t : Text) : Prop := ∃ x, InRegex x ∧ t = '/' :: (x ++ ['/'])

def OpensValue (token : Token) : Prop :=
  token.kind ∈ [.whitespace, .newline, .pipe, .operator, .keyword] ∨
    token.kind = .punctuation ∧ token.text ∈ [['('], ['['], [','], [':']]

variable {previous : Option Token} {t u x rest : Text}

theorem allowsRegex_iff : allowsRegex previous = true ↔ ∀ token ∈ previous, OpensValue token := by
  cases previous with
  | none => simp [allowsRegex]
  | some token =>
    obtain ⟨kind, t⟩ := token
    cases kind <;> simp [allowsRegex, OpensValue]

theorem InRegex.inString (h : InRegex x) : InString '/' x ∧ '\n' ∉ x := by
  induction h with
  | nil => exact ⟨.nil, by simp⟩
  | @single c t hc _ ih =>
    obtain ⟨⟨hs, hb⟩, hn⟩ : (c ≠ '/' ∧ c ≠ '\\') ∧ c ≠ '\n' := by simpa using hc
    exact ⟨.single (by simp [hs, hb]) ih.1, by simp [hn.symm, ih.2]⟩
  | @pair c t hc _ ih =>
    have hn : c ≠ '\n' := by simpa using hc
    exact ⟨.pair rfl ih.1, by simp [hn.symm, ih.2]⟩

theorem regexTail?_eq_some_iff {s : Split} :
    regexTail? t = some s ↔ ∃ x, InRegex x ∧ s.taken = x ++ ['/'] ∧ t = s.taken ++ s.rest := by
  obtain ⟨taken, rest⟩ := s
  constructor
  · intro h
    obtain rfl : taken ++ rest = t := whole_regexTail? h
    obtain ⟨he, hn⟩ := (regexTail?_append_iff taken rest).1 h
    obtain ⟨x, hx, rfl⟩ := (ends_quoteScan_iff (by decide)).1 he
    exact ⟨x, inRegex_of_inString hx fun hm => hn (List.mem_append_left _ hm), rfl, rfl⟩
  · rintro ⟨x, hx, rfl, rfl⟩
    apply (regexTail?_append_iff _ rest).2
    exact ⟨(ends_quoteScan_iff (by decide)).2 ⟨x, hx.inString.1, rfl⟩, by simp [hx.inString.2]⟩

theorem slashAhead_iff :
    slashAhead false u = true ↔ ∃ x rest, InRegex x ∧ u = x ++ '/' :: rest := by
  have hn := regexTail?_eq_none_iff u
  constructor
  · intro h
    cases hr : regexTail? u with
    | none => simp [hn.1 hr] at h
    | some s =>
      obtain ⟨x, hx, hs, hu⟩ := regexTail?_eq_some_iff.1 hr
      exact ⟨x, s.rest, hx, by simpa [hs] using hu⟩
  · rintro ⟨x, rest, hx, hu⟩
    have hr : regexTail? u = some ⟨x ++ ['/'], rest⟩ :=
      regexTail?_eq_some_iff.2 ⟨x, hx, rfl, by simpa using hu⟩
    by_contra hs
    simp [hn.2 (by simpa using hs)] at hr

theorem literal_prefix_iff :
    RegexLiteral t ∧ t <+: '/' :: u ↔ ∃ s, regexTail? u = some s ∧ t = '/' :: s.taken := by
  constructor
  · rintro ⟨⟨x, hx, rfl⟩, rest, hr⟩
    refine ⟨⟨x ++ ['/'], rest⟩, regexTail?_eq_some_iff.2 ⟨x, hx, rfl, ?_⟩, rfl⟩
    exact (List.cons.inj hr).2.symm
  · rintro ⟨s, hs, rfl⟩
    obtain ⟨x, hx, ht, rfl⟩ := regexTail?_eq_some_iff.1 hs
    exact ⟨⟨x, hx, by rw [ht]⟩, s.rest, rfl⟩

theorem lexeme_slash (allowed : Bool) (hs : u.head? ≠ some '*') :
    lexeme allowed '/' u =
      ((if allowed then regexTail? u else none).map (.regex, ·)).getD (.operator, ⟨[], u⟩) := by
  have hp : lexeme allowed '/' u = lexeme.plain allowed '/' u :=
    lexeme_eq_plain (by decide) (by decide) (by decide) (by simp) (fun _ => hs) (by simp)
  have hd : isDigit '/' = false ∧ isLetter '/' = false := by decide
  have hsym : symbol '/' u = (.operator, ⟨[], u⟩) := by
    simp [symbol, doubleOperators, singleOperators]
  rw [hp, lexeme.plain]
  simp only [true_and]
  split <;> simp_all

theorem kind_first_slash (hs : u.head? ≠ some '*') :
    (first previous '/' u).kind = .regex ↔
      allowsRegex previous = true ∧ ∃ x, RegexLiteral x ∧ x <+: '/' :: u := by
  rw [first, lexeme_slash _ hs]
  simp only [literal_prefix_iff]
  cases allowsRegex previous <;> cases regexTail? u <;> simp

theorem literal_iff_first (hs : u.head? ≠ some '*') (h : (first previous '/' u).kind = .regex) :
    RegexLiteral x ∧ x <+: '/' :: u ↔ x = (first previous '/' u).text := by
  have ha := ((kind_first_slash hs).1 h).1
  rw [first, lexeme_slash _ hs, ha] at h ⊢
  rw [literal_prefix_iff]
  cases hr : regexTail? u <;> simp_all

theorem first_division (hs : u.head? ≠ some '*') (h : (first previous '/' u).kind ≠ .regex) :
    first previous '/' u = ⟨.operator, ['/']⟩ ∧ afterFirst previous '/' u = u := by
  rw [first, lexeme_slash _ hs] at h ⊢
  rw [afterFirst, lexeme_slash _ hs]
  cases ha : allowsRegex previous <;> cases hr : regexTail? u <;> simp_all

theorem lexFrom_behind {before after : List Token} {token : Token}
    (h : lexFrom previous t = before ++ token :: after) :
    lexFrom (before.getLast?.or previous) ((token :: after).flatMap text) = token :: after := by
  have hl := (lexFrom_eq_iff.1 h).1
  exact lexFrom_of_lexes hl.split

/-- A slash that opens no comment opens a regular expression where the token before it leaves
room for one and the line has a closing slash. Otherwise it divides, and the reading goes on
behind it as it does where no regular expression may start. -/
theorem slash_of_tokenize {before after : List Token} {token : Token}
    (h : tokenize t = before ++ token :: after) (ht : t = before.flatMap text ++ '/' :: u)
    (hs : u.head? ≠ some '*') :
    (token.kind = .regex ↔
      (∀ previous ∈ before.getLast?, OpensValue previous) ∧
        ∃ x, RegexLiteral x ∧ x <+: '/' :: u) ∧
      (token.kind = .regex → ∀ x, RegexLiteral x ∧ x <+: '/' :: u ↔ x = token.text) ∧
      (token.kind ≠ .regex → token = ⟨.operator, ['/']⟩ ∧ after = lexFrom (some token) u ∧
        ∀ previous, allowsRegex previous = false →
          token :: after = lexFrom previous ('/' :: u)) := by
  have hl := lexFrom_behind h
  have hw : (token :: after).flatMap text = '/' :: u := by
    have hf := flatMap_text_lexFrom none t
    rw [← tokenize, h, List.flatMap_append, ht] at hf
    exact List.append_cancel_left hf
  rw [hw, Option.or_none, lexFrom] at hl
  obtain ⟨rfl, rfl⟩ := List.cons.inj hl
  refine ⟨?_, fun hk x => literal_iff_first hs hk, ?_⟩
  · rw [← allowsRegex_iff]
    exact kind_first_slash hs
  · intro hk
    obtain ⟨h1, h2⟩ := first_division hs hk
    refine ⟨h1, by rw [h2], ?_⟩
    intro previous hp
    have hk' : (first previous '/' u).kind ≠ .regex := by simp [kind_first_slash hs, hp]
    obtain ⟨h3, h4⟩ := first_division hs hk'
    rw [lexFrom, h1, h2, h3, h4]

/-- A backslash before a line break takes nothing along, so the first slash divides; a backslash
before a slash does, so the next one is closed by the third. -/
theorem slash_of_tokenize_two_lines :
    let before : List Token := [⟨.identifier, ['x']⟩, ⟨.whitespace, [' ']⟩]
    let between : List Token :=
      [⟨.identifier, ['a']⟩, ⟨.punctuation, ['\\']⟩, ⟨.newline, ['\n']⟩]
    tokenize "x /a\\\n/b\\/c/d".toList =
        before ++ ⟨.operator, ['/']⟩ :: (between ++
          ⟨.regex, "/b\\/c/".toList⟩ :: [⟨.identifier, ['d']⟩]) ∧
      (¬ ∃ x, RegexLiteral x ∧ x <+: "/a\\\n/b\\/c/d".toList) ∧
      ∀ x, RegexLiteral x ∧ x <+: "/b\\/c/d".toList ↔ x = "/b\\/c/".toList := by
  intro before between
  have h : tokenize "x /a\\\n/b\\/c/d".toList = before ++ ⟨.operator, ['/']⟩ :: (between ++
      ⟨.regex, "/b\\/c/".toList⟩ :: [⟨.identifier, ['d']⟩]) := by decide +kernel
  refine ⟨h, ?_, ?_⟩
  · intro hx
    have hk := (slash_of_tokenize (u := "a\\\n/b\\/c/d".toList) h rfl (by decide)).1.2
      ⟨by simp [before, OpensValue], hx⟩
    cases hk
  · have hd := h.trans (List.append_assoc before (⟨.operator, ['/']⟩ :: between) _).symm
    exact (slash_of_tokenize (u := "b\\/c/d".toList) hd rfl (by decide)).2.1 rfl

end QueryTidy.Token
