import QueryTidy.Proofs.Lexing.Replay

/-! Replacing some tokens of a text by others. The tokens in front are read before the new text as
they were, unless the last of them goes on in it; the tokens behind are read as they were, unless
a regular expression may start there now and might not before, or the other way round. Main
statements: `lexesBefore_letter_iff`, `lexes_splice_iff`, `map_text_tokenize_iff`. -/
namespace QueryTidy.Token

variable {allowed allowed' : Bool} {kind kind' : Kind} {t t' u v rest rest' : Text} {c d : Char}
  {previous previous' : Option Token} {tokens more : List Token}

def TakesLetters (token : Token) : Prop :=
  token.kind ∈ [.keyword, .identifier, .number] ∧ token.text.head? ≠ some '\x60'

instance : DecidablePred TakesLetters := fun _ => inferInstanceAs (Decidable (_ ∧ _))

theorem Reads.head_behind_word (h : Reads allowed kind t rest)
    (hk : kind = .keyword ∨ kind = .identifier) (ht : t.head? ≠ some '\x60') :
    rest.head?.all (!isWordChar ·) := by
  cases h with
  | word _ _ hr => exact hr
  | backticks => simp at ht
  | _ => simp at hk

theorem Reads.head_behind_number (h : Reads allowed .number t rest) :
    rest.head?.all (!isLetter ·) := by
  generalize hk : Kind.number = kind at h
  cases h with
  | @number c x _ hc hx =>
    have hw (t : Text) :
        ((Split.run (fun d => isDigit d || d == '.') t).andThen exponent).whole = t := by
      rw [Split.whole_andThen _ _ whole_exponent, Split.whole_run]
    rw [numberTail_eq_takeOne] at hx
    obtain ⟨u, v, -, -, hv⟩ :=
      (Split.andThen_append_iff (whole_takeOne _ (Split.whole_run _) hw)).1 hx
    exact ((Split.run_append_iff _ _ _).1 hv).2
  | word _ _ _ _ hw => split at hw <;> simp_all
  | _ => simp at hk

theorem Reads.not_takesLetters (h : Reads allowed kind t (d :: v)) (hd : isLetter d) :
    ¬ TakesLetters ⟨kind, t⟩ := by
  rintro ⟨hk, ht⟩
  simp only [List.mem_cons, List.not_mem_nil, or_false] at hk
  obtain hk | hk | rfl := hk
  · simpa [isWordChar, hd] using h.head_behind_word (.inl hk) ht
  · simpa [isWordChar, hd] using h.head_behind_word (.inr hk) ht
  · simpa [hd] using h.head_behind_number

theorem Reads.change_behind (h : Reads allowed kind t rest) (hr : rest ≠ [])
    (hh : rest'.head? = rest.head? ∨
      ¬ TakesLetters ⟨kind, t⟩ ∧ rest.head? ≠ some '\n' ∧ rest'.head?.any isLetter)
    (hd : rest'.take 2 = ['.', '.'] → rest.take 2 = ['.', '.'])
    (hs : slashAhead false rest = false → slashAhead false rest' = false) :
    Reads allowed kind t rest' := by
  have all {p : Char → Bool} (hp : ∀ c, isLetter c → p c = true) (h : rest.head?.all p) :
      rest'.head?.all p := by
    obtain he | ⟨-, -, hl⟩ := hh
    · rwa [he]
    · cases hc : rest'.head? <;> simp_all
  have ne {c : Char} (hc : isLetter c = false) (h : rest.head? ≠ some c) :
      rest'.head? ≠ some c := by
    obtain he | ⟨-, -, hl⟩ := hh
    · rwa [he]
    · intro he
      simp [he, hc] at hl
  have double {c : Char} (h : c :: rest.take 1 ∉ doubleOperators) :
      c :: rest'.take 1 ∉ doubleOperators := by
    rw [List.take_one] at h ⊢
    obtain he | ⟨-, -, hl⟩ := hh
    · rwa [he]
    · intro hm
      cases hc : rest'.head? with
      | none => simp [hc] at hl
      | some e =>
        rw [hc] at hm hl
        obtain ⟨-, -, -, -, -, hs, -⟩ := double_chars hm
        simp_all [isSymbolic, startsWord]
  have closed {σ : Type} {scan : Scan σ} {s : σ} {x : Text} (hx : scan.Delimits s x rest) :
      scan.Delimits s x rest' := hx.change_rest fun he => absurd he hr
  cases h with
  | newline => exact .newline
  | blanks hc hx hb =>
    refine .blanks hc hx (all ?_ hb)
    intro c hc
    simpa using not_isBlank_of_class hc (by decide)
  | lineComment hx hb =>
    refine .lineComment hx ?_
    obtain he | ⟨-, hn, -⟩ := hh
    · rwa [he]
    · cases rest with
      | nil => exact absurd rfl hr
      | cons c u => simp_all
  | blockComment hx => exact .blockComment (closed hx)
  | string hq hx => exact .string hq (closed hx)
  | marked hp hq hx => exact .marked hp hq (closed hx)
  | regex ha hx he hn => exact .regex ha hx he hn
  | number hc hx =>
    obtain he | ⟨ht, -⟩ := hh
    · exact .number hc (looksAtHead_numberTail _ _ _ _ (.inr he) hx)
    · exact absurd ⟨by simp, by simpa using ne_of_class hc rfl⟩ ht
  | word hc hx hw hf hk =>
    obtain he | ⟨ht, -⟩ := hh
    · exact .word hc hx (he ▸ hw) (fun hp hn => he ▸ hf hp hn) hk
    · refine absurd ⟨?_, by simpa using ne_of_class hc rfl⟩ ht
      rw [hk]
      split <;> simp
  | backticks hx => exact .backticks (closed hx)
  | pipe h1 h2 => exact .pipe (ne rfl h1) (ne rfl h2)
  | pipeInto => exact .pipeInto
  | concat => exact .concat
  | spread => exact .spread
  | double hd => exact .double hd
  | single hc hd hm hx hl =>
    exact .single hc (double hd) (fun he => ne rfl (hm he)) (fun he => ne rfl (hx he))
      (fun he ha => hs (hl he ha))
  | mark hc hp ho hx ht => exact .mark hc hp ho (double hx) (fun he h2 => ht he (hd h2))

def LexesBefore (rest : Text) : Option Token → List Token → Prop
  | _, [] => True
  | previous, token :: tokens =>
    Reads (allowsRegex previous) token.kind token.text (tokens.flatMap text ++ rest) ∧
      LexesBefore rest (some token) tokens

theorem lexes_append_iff :
    Lexes previous (tokens ++ more) ↔
      LexesBefore (more.flatMap text) previous tokens ∧
        Lexes (tokens.getLast?.or previous) more := by
  induction tokens generalizing previous with
  | nil => simp [LexesBefore]
  | cons token tokens ih =>
    rw [List.cons_append, Lexes, LexesBefore, ih, List.flatMap_append, and_assoc]
    cases h : tokens.getLast? <;> simp [List.getLast?_cons, h]

theorem LexesBefore.eq_nil (h : LexesBefore rest previous tokens) (ht : tokens.flatMap text = []) :
    tokens = [] := by
  cases tokens with
  | nil => rfl
  | cons token tokens =>
    rw [List.flatMap_cons, List.append_eq_nil_iff] at ht
    exact absurd ht.1 h.1.ne_nil

theorem LexesBefore.not_takesLetters (h : LexesBefore (d :: v) previous tokens) (hd : isLetter d) :
    ∀ token ∈ tokens.getLast?, ¬ TakesLetters token := by
  induction tokens generalizing previous with
  | nil => simp
  | cons token tokens ih =>
    cases tokens with
    | nil => simpa using h.1.not_takesLetters hd
    | cons second tokens => simpa using ih h.2

/-- Tokens in front of a text are read alike in front of one that starts with a letter, unless the
last of them takes letters. -/
theorem LexesBefore.before_letter (h : LexesBefore (c :: u) previous tokens) (hc : c ≠ '\n')
    (hd : isLetter d) (hs : ∀ s, slashAhead s (c :: u) = slashAhead s (d :: v))
    (hl : ∀ token ∈ tokens.getLast?, ¬ TakesLetters token) :
    LexesBefore (d :: v) previous tokens := by
  have hdot : d ≠ '.' := ne_of_class hd rfl
  induction tokens generalizing previous with
  | nil => trivial
  | cons token tokens ih =>
    obtain ⟨hr, ht⟩ := h
    cases tokens with
    | nil =>
      refine ⟨hr.change_behind (by simp) (.inr ⟨hl token rfl, by simpa using hc, ?_⟩) ?_ ?_, trivial⟩
      · simpa using hd
      · simp [hdot]
      · simp [hs]
    | cons second tokens =>
      refine ⟨?_, ih ht (by simpa using hl)⟩
      generalize hx : (second :: tokens).flatMap text = x at hr ⊢
      have hne : x ≠ [] := by
        intro he
        simpa using ht.eq_nil (hx.trans he)
      obtain ⟨e, y, rfl⟩ := List.exists_cons_of_ne_nil hne
      refine hr.change_behind (by simp) (.inl (by simp)) ?_ ?_
      -- A dot and a letter are no two dots, so both stand in front of the text that changes.
      · cases y <;> simp [hdot]
      · intro hf
        cases hstate : slashState false (e :: y) with
        | none => rwa [slashAhead_append_of_none hstate] at hf ⊢
        | some s => rwa [slashAhead_append_of_some hstate, ← hs, ← slashAhead_append_of_some hstate]

theorem lexesBefore_letter_iff (h : LexesBefore (c :: u) previous tokens) (hc : c ≠ '\n')
    (hd : isLetter d) (hs : ∀ s, slashAhead s (c :: u) = slashAhead s (d :: v)) :
    LexesBefore (d :: v) previous tokens ↔ ∀ token ∈ tokens.getLast?, ¬ TakesLetters token :=
  ⟨fun h' => h'.not_takesLetters hd, h.before_letter hc hd hs⟩

theorem lexes_previous_iff (h : Lexes previous tokens) :
    Lexes previous' tokens ↔
      allowsRegex previous = allowsRegex previous' ∨ ¬ StartsRegex (tokens.flatMap text) := by
  rw [← lexFrom_eq_lexFrom_iff, lexFrom_of_lexes h, eq_comm, lexFrom_eq_iff]
  simp

theorem Reads.unique (h : Reads allowed kind t rest) (h' : Reads allowed kind' t' rest')
    (he : t ++ rest = t' ++ rest') : kind = kind' ∧ t = t' ∧ rest = rest' := by
  obtain ⟨c, x, rfl⟩ := List.exists_cons_of_ne_nil h.ne_nil
  obtain ⟨c', x', rfl⟩ := List.exists_cons_of_ne_nil h'.ne_nil
  obtain ⟨rfl, hx⟩ := List.cons.inj he
  have hl := lexeme_append_iff.2 h
  have hl' := lexeme_append_iff.2 h'
  rw [List.append_eq, List.append_eq] at hx
  rw [hx, hl'] at hl
  simp_all

theorem Reads.at_end (h : Reads allowed kind t rest) (ht : t ≠ ['/']) : Reads true kind t [] := by
  by_cases hk : kind = .whitespace
  · subst hk
    exact reads_blanks h.ne_nil h.of_whitespace.1 rfl
  · refine h.change_rest hk ⟨fun _ => rfl, fun _ => rfl, .inl rfl, fun _ => rfl⟩ (fun _ => rfl) ?_
    intro he
    exact absurd he ht

theorem Reads.kind_unique (h : Reads allowed kind t rest) (h' : Reads allowed' kind' t rest') :
    kind = kind' := by
  by_cases ht : t = ['/']
  · subst ht
    rw [h.kind_of_slash, h'.kind_of_slash]
  · exact ((h.at_end ht).unique (h'.at_end ht) rfl).1

def IsToken (token : Token) : Prop := ∃ allowed rest, Reads allowed token.kind token.text rest

theorem Lexes.isToken (h : Lexes previous tokens) : ∀ token ∈ tokens, IsToken token := by
  intro token hm
  obtain ⟨before, after, rfl⟩ := List.append_of_mem hm
  exact ⟨_, _, h.split.1⟩

theorem IsToken.eq {a b : Token} (ha : IsToken a) (hb : IsToken b) (h : a.text = b.text) :
    a = b := by
  obtain ⟨kind, t⟩ := a
  obtain ⟨kind', t'⟩ := b
  obtain rfl : t = t' := h
  obtain ⟨_, _, ha⟩ := ha
  obtain ⟨_, _, hb⟩ := hb
  exact congrArg (Token.mk · t) (ha.kind_unique hb)

theorem eq_of_map_text (ht : ∀ token ∈ tokens, IsToken token) (hm : ∀ token ∈ more, IsToken token)
    (h : tokens.map text = more.map text) : tokens = more := by
  induction tokens generalizing more with
  | nil => exact (List.map_eq_nil_iff.1 h.symm).symm
  | cons token tokens ih =>
    obtain ⟨second, more, rfl, he, h⟩ := List.map_eq_cons_iff.1 h.symm
    rw [List.forall_mem_cons] at ht hm
    rw [ht.1.eq hm.1 he.symm, ih ht.2 hm.2 h.symm]

theorem map_text_tokenize_iff (ht : ∀ token ∈ tokens, IsToken token) :
    (tokenize (tokens.flatMap text)).map text = tokens.map text ↔ Lexes none tokens := by
  constructor
  · intro h
    have hl := lexes_lexFrom none (tokens.flatMap text)
    have he := eq_of_map_text hl.isToken ht h
    rwa [he] at hl
  · intro h
    rw [tokenize, lexFrom_of_lexes h]

theorem LexesBefore.eq_singleton {token : Token} (h : LexesBefore rest previous tokens)
    (ht : tokens.flatMap text = token.text)
    (hr : Reads (allowsRegex previous) token.kind token.text rest) : tokens = [token] := by
  cases tokens with
  | nil => exact absurd ht.symm hr.ne_nil
  | cons first tokens =>
    rw [List.flatMap_cons] at ht
    obtain ⟨-, he, hrest⟩ := h.1.unique hr (by rw [← ht, List.append_assoc])
    have hn : tokens.flatMap text = [] := by simpa using hrest
    rw [h.2.eq_nil hn, IsToken.eq ⟨_, _, h.1⟩ ⟨_, _, hr⟩ he]

def Slashless (t : Text) : Prop := t ≠ [] ∧ ∀ c ∈ t, c ≠ '\n' ∧ c ≠ '/' ∧ c ≠ '\\'

theorem Slashless.slashAhead_append (h : Slashless t) (s : Bool) (rest : Text) :
    slashAhead s (t ++ rest) = slashAhead false rest :=
  slashAhead_append_of_some (slashState_plain h.1 h.2 s) rest

/-- Tokens between other ones can be replaced by tokens that start with a letter just when the
token in front takes no letters, the new ones are read before what follows, and a regular
expression that follows may start behind the new ones if it might behind the old ones. -/
theorem lexes_splice_iff {before inside new after : List Token}
    (h : Lexes none (before ++ (inside ++ after))) (hi : Slashless (inside.flatMap text))
    (hn : Slashless (new.flatMap text)) (hl : (new.flatMap text).head?.any isLetter) :
    Lexes none (before ++ (new ++ after)) ↔
      (∀ token ∈ before.getLast?, ¬ TakesLetters token) ∧
        LexesBefore (after.flatMap text) before.getLast? new ∧
          (allowsRegex inside.getLast? = allowsRegex new.getLast? ∨
            ¬ StartsRegex (after.flatMap text)) := by
  have last {tokens : List Token} (ht : Slashless (tokens.flatMap text)) (p : Option Token) :
      tokens.getLast?.or p = tokens.getLast? := by
    cases tokens with
    | nil => exact absurd rfl ht.1
    | cons token tokens => simp [List.getLast?_cons]
  simp only [lexes_append_iff, List.flatMap_append, Option.or_none, last hi, last hn] at h ⊢
  obtain ⟨hb, -, ha⟩ := h
  have hs (s : Bool) : slashAhead s (inside.flatMap text ++ after.flatMap text) =
      slashAhead s (new.flatMap text ++ after.flatMap text) := by
    rw [hi.slashAhead_append, hn.slashAhead_append]
  obtain ⟨c, x, hx⟩ := List.exists_cons_of_ne_nil hi.1
  obtain ⟨d, y, hy⟩ := List.exists_cons_of_ne_nil hn.1
  have hc : c ≠ '\n' := (hi.2 c (by simp [hx])).1
  have hd : isLetter d := by simpa [hy] using hl
  rw [hx, hy, List.cons_append, List.cons_append] at hs
  rw [hx, List.cons_append] at hb
  rw [hy, List.cons_append, lexesBefore_letter_iff hb hc hd hs, lexes_previous_iff ha]

theorem map_text_splice_iff {before inside after : List Token} {new : Text}
    (ht : tokenize t = before ++ (inside ++ after)) (hi : Slashless (inside.flatMap text))
    (hn : Slashless new) (hl : new.head?.any isLetter) :
    (tokenize (before.flatMap text ++ (new ++ after.flatMap text))).map text =
        before.map text ++ ((tokenize new).map text ++ after.map text) ↔
      (∀ token ∈ before.getLast?, ¬ TakesLetters token) ∧
        LexesBefore (after.flatMap text) before.getLast? (tokenize new) ∧
          (allowsRegex inside.getLast? = allowsRegex (tokenize new).getLast? ∨
            ¬ StartsRegex (after.flatMap text)) := by
  have h : Lexes none (before ++ (inside ++ after)) := ht ▸ lexes_lexFrom none t
  have hnew : (tokenize new).flatMap text = new := flatMap_text_lexFrom none new
  have hall : ∀ token ∈ before ++ (tokenize new ++ after), IsToken token := by
    have h1 := h.isToken
    have h2 := (lexes_lexFrom none new).isToken
    simp only [List.forall_mem_append] at h1 ⊢
    exact ⟨h1.1, h2, h1.2.2⟩
  have hm := map_text_tokenize_iff hall
  simp only [List.flatMap_append, List.map_append, hnew] at hm
  rw [hm]
  exact lexes_splice_iff h hi (hnew.symm ▸ hn) (hnew.symm ▸ hl)

end QueryTidy.Token
