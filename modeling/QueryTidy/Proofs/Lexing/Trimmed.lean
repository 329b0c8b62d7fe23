import QueryTidy.Proofs.Layout.LineEnds
import QueryTidy.Proofs.Lexing.Breaks

/-! Reading a text whose line ends were tidied. Main statements: `Reads.trim`,
`tokenize_append_break`. -/
namespace QueryTidy.Token
open Layout (trimLines trimLines_nil trimLines_cons trimLines_cons_of_not_blank trimLines_eq_self
  trimLines_append_of_last trimLines_append_of_end trimLines_append_of_blanks mem_of_mem_trimLines)

namespace Scan
variable {σ : Type}

def IgnoresBlanks (scan : Scan σ) : Prop :=
  ∀ s b, isBlank b → ∃ s', scan s b = some s' ∧ scan s' '\n' = scan s '\n'

theorem ends_trimLines {scan : Scan σ} (h : scan.IgnoresBlanks) {s : σ} {x : Text}
    (hx : scan.ends s x = true) : scan.ends s (trimLines x) = true := by
  induction x generalizing s with
  | nil => exact hx
  | cons c x ih =>
    rw [trimLines_cons]
    rw [ends] at hx
    split
    · rename_i hc
      obtain ⟨s', hs, hn⟩ := h s c hc.1
      rw [hs] at hx
      have hi := ih hx
      cases ht : trimLines x with
      | nil => simp [ht, ends] at hi
      | cons d u =>
        obtain rfl : d = '\n' := by simpa [ht] using hc.2
        simpa only [ht, ends, hn] using hi
    · rw [ends]
      cases hs : scan s c with
      | none =>
        rw [hs] at hx
        obtain rfl : x = [] := by simpa using hx
        rfl
      | some s' =>
        rw [hs] at hx
        exact ih hx

theorem runsOn_trimLines {scan : Scan σ} (h : scan.IgnoresBlanks) {s : σ} {x : Text}
    (hx : scan.runsOn s x = true) : scan.runsOn s (trimLines x) = true := by
  induction x generalizing s with
  | nil => rfl
  | cons c x ih =>
    rw [trimLines_cons]
    rw [runsOn] at hx
    split
    · rename_i hc
      obtain ⟨s', hs, hn⟩ := h s c hc.1
      rw [hs] at hx
      have hi := ih hx
      cases ht : trimLines x with
      | nil => rfl
      | cons d u =>
        obtain rfl : d = '\n' := by simpa [ht] using hc.2
        simpa only [ht, runsOn, hn] using hi
    · rw [runsOn]
      cases hs : scan s c with
      | none => simp [hs] at hx
      | some s' =>
        rw [hs] at hx
        exact ih hx

theorem Delimits.trim {scan : Scan σ} (h : scan.IgnoresBlanks) {s : σ} {x rest : Text}
    (hd : scan.Delimits s x rest) : scan.Delimits s (trimLines x) (trimLines rest) := by
  obtain hd | ⟨rfl, hd⟩ := hd
  · exact .inl (ends_trimLines h hd)
  · exact .inr ⟨rfl, runsOn_trimLines h hd⟩

theorem exists_last_of_ends {scan : Scan σ} {s : σ} {x : Text} (h : scan.ends s x = true) :
    ∃ s' c, x.getLast? = some c ∧ scan s' c = none := by
  induction x generalizing s with
  | nil => cases h
  | cons c x ih =>
    rw [ends] at h
    cases hs : scan s c with
    | none =>
      rw [hs] at h
      obtain rfl : x = [] := by simpa using h
      exact ⟨s, c, rfl, hs⟩
    | some s' =>
      rw [hs] at h
      obtain ⟨s'', d, hd, hn⟩ := ih h
      exact ⟨s'', d, by simp [List.getLast?_cons, hd], hn⟩

theorem runsOn_append_break {scan : Scan σ} (h : ∀ s, (scan s '\n').isSome) {s : σ} {x : Text}
    (hx : scan.runsOn s x = true) : scan.runsOn s (x ++ ['\n']) = true := by
  induction x generalizing s with
  | nil =>
    obtain ⟨s', hs⟩ := Option.isSome_iff_exists.1 (h s)
    simp [runsOn, hs]
  | cons c x ih =>
    rw [List.cons_append, runsOn]
    rw [runsOn] at hx
    cases hs : scan s c with
    | none => simp [hs] at hx
    | some s' =>
      rw [hs] at hx
      exact ih hx

end Scan

theorem quoteScan_ignoresBlanks {q : Char} (hq : isQuote q) : (quoteScan q).IgnoresBlanks := by
  intro s b hb
  have h1 : b ≠ q := fun h => not_isBlank_of_class hq (by decide) (h ▸ hb)
  have h2 : b ≠ '\\' := ne_of_class hb rfl
  have h3 : '\n' ≠ q := (ne_of_class hq rfl).symm
  cases s <;> simp [quoteScan, h1, h2, h3]

theorem blockScan_ignoresBlanks : blockScan.IgnoresBlanks := by
  intro s b hb
  have h1 : b ≠ '/' := ne_of_class hb rfl
  have h2 : b ≠ '*' := ne_of_class hb rfl
  simp [blockScan, h1, h2]

theorem backtickScan_ignoresBlanks : backtickScan.IgnoresBlanks := by
  intro s b hb
  have h1 : b ≠ '\x60' := ne_of_class hb rfl
  simp [backtickScan, h1]

theorem head_trimLines {c : Char} (hc : isBlank c = false) (t : Text) :
    (trimLines (c :: t)).head? = some c := by
  rw [trimLines_cons_of_not_blank hc]
  rfl

theorem headAlike_trimLines (t : Text) : HeadAlike t (trimLines t) := by
  cases t with
  | nil => exact .inr rfl
  | cons c t =>
    cases hc : isBlank c with
    | false => exact .inr (head_trimLines hc t)
    | true =>
      left
      rw [trimLines_cons]
      split
      · rename_i h
        cases ht : trimLines t with
        | nil => rfl
        | cons d u =>
          obtain rfl : d = '\n' := by simpa [ht] using h.2
          rfl
      · simp [isGap, hc]

theorem slashAhead_trimLines {s : Bool} {t : Text} (h : slashAhead s t = false) :
    slashAhead s (trimLines t) = false := by
  induction t generalizing s with
  | nil => rfl
  | cons c t ih =>
    rw [trimLines_cons]
    split
    · rename_i hc
      cases ht : trimLines t with
      | nil => rfl
      | cons d u =>
        obtain rfl : d = '\n' := by simpa [ht] using hc.2
        simp [slashAhead]
    · rw [slashAhead] at h ⊢
      by_cases hn : c = '\n'
      · simp [hn]
      cases s with
      | true =>
        simp only [if_neg hn, if_true] at h ⊢
        exact ih h
      | false =>
        by_cases hs : c = '/'
        · simp [hs] at h
        · simp only [if_neg hn, if_neg hs, Bool.false_eq_true, if_false] at h ⊢
          exact ih h

theorem continues_trimLines (rest : Text) : Continues rest (trimLines rest) where
  ends := by
    intro he
    subst he
    rfl
  breaks := by
    intro h
    cases rest with
    | nil => rfl
    | cons c t =>
      obtain rfl : c = '\n' := by simpa using h
      simp [head_trimLines (by decide : isBlank '\n' = false)]
  starts := by
    cases rest with
    | nil => exact .inl rfl
    | cons c t =>
      cases hc : isBlank c with
      | false =>
        rw [trimLines_cons_of_not_blank hc]
        exact .inr ⟨c, t, _, rfl, rfl, headAlike_trimLines t⟩
      | true =>
        left
        obtain h | h := headAlike_trimLines (c :: t)
        · exact h
        · simp [h, isGap, hc]
  slash := slashAhead_trimLines

variable {allowed : Bool} {kind : Kind} {t rest : Text}

def OnLine (t : Text) : Prop := '\n' ∉ t ∧ t.getLast?.all (!isBlank ·)

theorem onLine_of_class {p : Char → Bool} (hp : ∀ c ∈ t, p c)
    (hb : p ' ' = false ∧ p '\t' = false ∧ p '\r' = false ∧ p '\n' = false) : OnLine t := by
  constructor
  · intro h
    simpa [hb] using hp _ h
  · cases hl : t.getLast? with
    | none => rfl
    | some c =>
      have hc := hp c (List.mem_of_getLast? hl)
      simpa using not_isBlank_of_class hc ⟨hb.1, hb.2.1, hb.2.2.1⟩

theorem onLine_regex {x : Text} (he : (quoteScan '/').ends false x = true) (hx : '\n' ∉ x) :
    OnLine ('/' :: x) := by
  obtain ⟨s, c, hl, hc⟩ := Scan.exists_last_of_ends he
  obtain rfl : c = '/' := by cases s <;> simp_all [quoteScan]
  refine ⟨by simp [hx], ?_⟩
  simp [List.getLast?_cons, hl, isBlank]

theorem onLine_symbols (h : t.all isSymbolic = true) : OnLine t :=
  onLine_of_class (List.all_eq_true.1 h) (by decide)

theorem onLine_word {c : Char} {x : Text} (hc : startsWord c) (hx : ∀ d ∈ x, isWordChar d) :
    OnLine (c :: x) := by
  refine onLine_of_class (p := isWordChar) ?_ (by decide)
  intro d hd
  obtain rfl | hd := List.mem_cons.1 hd
  · simp_all [startsWord, isWordChar]
    grind
  · exact hx d hd

theorem Reads.onLine (h : Reads allowed kind t rest)
    (hk : kind ∉ [.whitespace, .newline, .lineComment, .blockComment, .string, .identifier]) :
    OnLine t := by
  cases h with
  | regex _ _ he hx => exact onLine_regex he hx
  | @number c x _ hc hx =>
    have hr : Reads allowed .number (c :: x) rest := .number hc hx
    exact onLine_of_class hr.of_number (by decide)
  | word hc hx => exact onLine_word hc hx
  | double hd => exact onLine_symbols (by simp [double_chars hd])
  | single hc => exact onLine_symbols (by simp [single_char hc])
  | mark hc => exact onLine_symbols (by simp [hc])
  | pipe => exact onLine_symbols rfl
  | pipeInto => exact onLine_symbols rfl
  | concat => exact onLine_symbols rfl
  | spread => exact onLine_symbols rfl
  | _ => simp at hk

theorem Scan.Delimits.last_or_end {σ : Type} {scan : Scan σ} {s : σ} {x : Text}
    (hd : scan.Delimits s x rest) (hs : ∀ s c, scan s c = none → isBlank c = false) (y : Text) :
    (y ++ x).getLast?.all (!isBlank ·) ∨ rest = [] := by
  obtain h | ⟨h, -⟩ := hd
  · obtain ⟨s', c, hl, hc⟩ := exists_last_of_ends h
    left
    simp [List.getLast?_append, hl, hs s' c hc]
  · exact .inr h

theorem not_isBlank_of_quoteScan {q : Char} (hq : isQuote q) (s : Bool) (c : Char)
    (h : quoteScan q s c = none) : isBlank c = false := by
  obtain rfl : c = q := by cases s <;> simp_all [quoteScan]
  simpa using not_isBlank_of_class hq (by decide)

/-- A token ends with no blank, unless the line ends behind it. -/
theorem Reads.last_or_end (h : Reads allowed kind t rest) (hk : kind ≠ .whitespace) :
    t.getLast?.all (!isBlank ·) ∨ rest.head?.all (· == '\n') := by
  have ho := h.onLine
  have delimited {σ : Type} {scan : Scan σ} {s : σ} {x y : Text}
      (hs : ∀ s c, scan s c = none → isBlank c = false) (hd : scan.Delimits s x rest) :
      (y ++ x).getLast?.all (!isBlank ·) ∨ rest.head?.all (· == '\n') := by
    obtain h | rfl := hd.last_or_end hs y
    · exact .inl h
    · exact .inr rfl
  cases h with
  | newline => exact .inl rfl
  | blanks => exact absurd rfl hk
  | lineComment _ hb => exact .inr hb
  | blockComment hx => exact delimited (y := ['/', '*']) (by simp_all [blockScan, isBlank]) hx
  | string hq hx => exact delimited (y := [_]) (not_isBlank_of_quoteScan hq) hx
  | marked _ hq hx => exact delimited (y := [_, _]) (not_isBlank_of_quoteScan hq) hx
  | word hc hx => exact .inl (onLine_word hc hx).2
  | backticks hx => exact delimited (y := ['\x60']) (by simp_all [backtickScan, isBlank]) hx
  | _ => exact .inl (ho (by simp)).2

theorem Reads.trimLines_append (h : Reads allowed kind t rest) (hk : kind ≠ .whitespace) :
    trimLines (t ++ rest) = trimLines t ++ trimLines rest := by
  obtain hl | hr := h.last_or_end hk
  · exact trimLines_append_of_last hl rest
  · refine trimLines_append_of_end t ?_
    cases rest with
    | nil => rfl
    | cons c u =>
      obtain rfl : c = '\n' := by simpa using hr
      simp [head_trimLines (by decide : isBlank '\n' = false)]

/-- Trimming the lines of a text trims its tokens, one by one. -/
theorem Reads.trim (h : Reads allowed kind t rest) (hk : kind ≠ .whitespace) :
    Reads allowed kind (trimLines t) (trimLines rest) := by
  have hc := continues_trimLines rest
  have ho := h.onLine
  have hself (ht : OnLine t) : Reads allowed kind (trimLines t) (trimLines rest) := by
    rw [trimLines_eq_self ht.1 ht.2]
    refine h.change_rest hk hc ?_ (fun _ ha => ha)
    intro he
    subst he
    exact h.allowed_of_regex
  have plain {p : Char → Bool} {c : Char} (hp : p c = true)
      (hb : p ' ' = false ∧ p '\t' = false ∧ p '\r' = false) (t : Text) :
      trimLines (c :: t) = c :: trimLines t :=
    trimLines_cons_of_not_blank (by simpa using not_isBlank_of_class hp hb) t
  cases h with
  | newline => exact .newline
  | blanks => exact absurd rfl hk
  | lineComment hx hb =>
    rw [trimLines_cons_of_not_blank rfl, trimLines_cons_of_not_blank rfl]
    refine .lineComment (fun hm => hx (mem_of_mem_trimLines hm)) ?_
    cases rest with
    | nil => rfl
    | cons c u =>
      obtain rfl : c = '\n' := by simpa using hb
      exact hc.breaks rfl
  | blockComment hx =>
    rw [trimLines_cons_of_not_blank rfl, trimLines_cons_of_not_blank rfl]
    exact .blockComment (hx.trim blockScan_ignoresBlanks)
  | string hq hx =>
    rw [plain hq (by decide)]
    exact .string hq (hx.trim (quoteScan_ignoresBlanks hq))
  | marked hp hq hx =>
    rw [trimLines_cons_of_not_blank (by obtain rfl | rfl := hp <;> rfl), plain hq (by decide)]
    exact .marked hp hq (hx.trim (quoteScan_ignoresBlanks hq))
  | word hc hx => exact hself (onLine_word hc hx)
  | backticks hx =>
    rw [trimLines_cons_of_not_blank rfl]
    exact .backticks (hx.trim backtickScan_ignoresBlanks)
  | _ => exact hself (ho (by simp))

def trimmed (token : Token) : Token :=
  match token.kind with
  | .whitespace | .newline | .punctuation | .operator => token
  | _ => { token with text := trimLines token.text }

@[simp]
theorem trimmed_kind (token : Token) : (trimmed token).kind = token.kind := by
  unfold trimmed
  split <;> rfl

theorem trimmed_of_kind {token : Token}
    (hk : token.kind ∈ [.whitespace, .newline, .punctuation, .operator]) :
    trimmed token = token := by
  unfold trimmed
  split <;> simp_all

theorem Reads.text_trimmed {token : Token} (h : Reads allowed token.kind token.text rest)
    (hk : token.kind ≠ .whitespace) : (trimmed token).text = trimLines token.text := by
  have ho := h.onLine
  unfold trimmed
  split
  · contradiction
  · rename_i hn
    rw [hn] at h
    rw [h.of_newline]
    rfl
  · rename_i hp
    have hl := ho (by simp [hp])
    exact (trimLines_eq_self hl.1 hl.2).symm
  · rename_i hp
    have hl := ho (by simp [hp])
    exact (trimLines_eq_self hl.1 hl.2).symm
  · rfl

theorem allowsRegex_trimmed (token : Token) :
    allowsRegex (some (trimmed token)) = allowsRegex (some token) := by
  by_cases hk : token.kind ∈ [.whitespace, .newline, .punctuation, .operator]
  · rw [trimmed_of_kind hk]
  · simp only [allowsRegex, trimmed_kind]
    split <;> simp_all

def BlanksInside : List Token → Prop
  | [] => True
  | token :: tokens =>
    (token.kind = .whitespace → tokens.head?.any (·.kind ≠ .newline)) ∧ BlanksInside tokens

theorem head_behind_blanks {previous : Option Token} {tokens : List Token}
    (h : Lexes previous tokens) (hn : tokens.head?.any (·.kind ≠ .newline))
    (hb : (tokens.flatMap text).head?.all (!isBlank ·)) :
    ∃ c, c ≠ '\n' ∧ isBlank c = false ∧ (tokens.flatMap text).head? = some c := by
  cases tokens with
  | nil => cases hn
  | cons token tokens =>
    obtain ⟨c, x, hx⟩ := List.exists_cons_of_ne_nil h.1.ne_nil
    refine ⟨c, ?_, ?_, ?_⟩
    · intro he
      subst he
      have hk := h.1.kind_of_break (by simp [hx])
      simp [hk] at hn
    · simpa [hx] using hb
    · simp [hx]

/-- The tokens of a trimmed text are the trimmed tokens. -/
theorem lexes_trimmed {previous : Option Token} {tokens : List Token} (h : Lexes previous tokens)
    (hb : BlanksInside tokens) :
    trimLines (tokens.flatMap text) = (tokens.map trimmed).flatMap text ∧
      ∀ p, allowsRegex p = allowsRegex previous → Lexes p (tokens.map trimmed) := by
  induction tokens generalizing previous with
  | nil => exact ⟨rfl, fun _ _ => trivial⟩
  | cons token tokens ih =>
    obtain ⟨hr, ht⟩ := h
    obtain ⟨hw, hb⟩ := hb
    obtain ⟨he, hl⟩ := ih ht hb
    have hl' := hl _ (allowsRegex_trimmed token)
    simp only [List.flatMap_cons, List.map_cons, Lexes, trimmed_kind, ← he]
    by_cases hk : token.kind = .whitespace
    · rw [trimmed_of_kind (by simp [hk])] at hl' ⊢
      rw [hk] at hr ⊢
      obtain ⟨h1, h2⟩ := hr.of_whitespace
      obtain ⟨c, hc, hn, hh⟩ := head_behind_blanks ht (hw hk) h2
      have hh' : (trimLines (tokens.flatMap text)).head? = some c := by
        obtain ⟨u, hu⟩ := List.head?_eq_some_iff.1 hh
        rw [hu]
        exact head_trimLines hn u
      refine ⟨trimLines_append_of_blanks h1 (by simp [hh', hc]), ?_⟩
      intro p hp
      exact ⟨reads_blanks hr.ne_nil h1 (by simp [hh', hn]), hl'⟩
    · rw [hr.text_trimmed hk]
      refine ⟨hr.trimLines_append hk, ?_⟩
      intro p hp
      rw [hp]
      exact ⟨hr.trim hk, hl'⟩

theorem Scan.Delimits.append_break {σ : Type} {scan : Scan σ} {s : σ} {x : Text}
    (hd : scan.Delimits s x []) (hs : ∀ s, (scan s '\n').isSome) :
    scan.Delimits s x ['\n'] ∨ scan.Delimits s (x ++ ['\n']) [] := by
  obtain h | ⟨-, h⟩ := hd
  · exact .inl (.inl h)
  · exact .inr (.inr ⟨rfl, runsOn_append_break hs h⟩)

theorem isSome_quoteScan_break {q : Char} (hq : isQuote q) (s : Bool) :
    (quoteScan q s '\n').isSome := by
  have h : '\n' ≠ q := (ne_of_class hq rfl).symm
  cases s <;> simp [quoteScan, h]

theorem Reads.append_final_break (h : Reads allowed kind t []) :
    Reads allowed kind t ['\n'] ∨
      kind ∈ [.blockComment, .string, .identifier] ∧ Reads allowed kind (t ++ ['\n']) [] := by
  have hb := h.before_break
  cases h with
  | blockComment hx =>
    obtain hx | hx := hx.append_break (by simp [blockScan])
    · exact .inl (.blockComment hx)
    · exact .inr ⟨by simp, .blockComment hx⟩
  | string hq hx =>
    obtain hx | hx := hx.append_break (isSome_quoteScan_break hq)
    · exact .inl (.string hq hx)
    · exact .inr ⟨by simp, .string hq hx⟩
  | marked hp hq hx =>
    obtain hx | hx := hx.append_break (isSome_quoteScan_break hq)
    · exact .inl (.marked hp hq hx)
    · exact .inr ⟨by simp, .marked hp hq hx⟩
  | backticks hx =>
    obtain hx | hx := hx.append_break (by simp [backtickScan])
    · exact .inl (.backticks hx)
    · exact .inr ⟨by simp, .backticks hx⟩
  | word hc hx _ _ hk => exact .inl (.word hc hx rfl (fun _ _ => rfl) hk)
  | _ => exact .inl (hb (by simp) [])

theorem lexes_append_break {previous : Option Token} {tokens : List Token}
    (h : Lexes previous tokens) :
    Lexes previous (tokens ++ [⟨.newline, ['\n']⟩]) ∨
      ∃ front last, tokens = front ++ [last] ∧
        last.kind ∈ [.blockComment, .string, .identifier] ∧
        Lexes previous (front ++ [{ last with text := last.text ++ ['\n'] }]) := by
  induction tokens generalizing previous with
  | nil => exact .inl ⟨.newline, trivial⟩
  | cons token tokens ih =>
    obtain ⟨hr, ht⟩ := h
    cases tokens with
    | nil =>
      obtain hr | ⟨hk, hr⟩ := hr.append_final_break
      · exact .inl ⟨hr, .newline, trivial⟩
      · exact .inr ⟨[], token, rfl, hk, hr, trivial⟩
    | cons second tokens =>
      have hr' := hr.append_break (by simp [ht.1.ne_nil]) []
      obtain hl | ⟨front, last, he, hk, hl⟩ := ih ht
      · left
        refine ⟨?_, hl⟩
        simpa using hr'
      · right
        refine ⟨token :: front, last, by simp [he], hk, ?_, hl⟩
        rw [he] at hr'
        simpa using hr'

theorem tokenize_append_break (t : Text) :
    tokenize (t ++ ['\n']) = tokenize t ++ [⟨.newline, ['\n']⟩] ∨
      ∃ front last, tokenize t = front ++ [last] ∧
        last.kind ∈ [.blockComment, .string, .identifier] ∧
        tokenize (t ++ ['\n']) = front ++ [{ last with text := last.text ++ ['\n'] }] := by
  have hf := flatMap_text_lexFrom none t
  obtain h | ⟨front, last, he, hk, h⟩ := lexes_append_break (lexes_lexFrom none t)
  · left
    exact lexFrom_eq_iff.2 ⟨h, by simp [tokenize, hf]⟩
  · right
    refine ⟨front, last, he, hk, lexFrom_eq_iff.2 ⟨h, ?_⟩⟩
    rw [he] at hf
    simp [← hf]

end QueryTidy.Token
