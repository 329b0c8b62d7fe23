import QueryTidy.Proofs.Lexing.Lookahead

/-! First and last characters of tokens, as far as the layout depends on them. -/
namespace QueryTidy.Token

variable {allowed : Bool} {kind : Kind} {t rest : Text}

theorem isGap_eq_false_of_class {p : Char → Bool} {c : Char} (hc : p c = true)
    (hp : p ' ' = false ∧ p '\t' = false ∧ p '\r' = false ∧ p '\n' = false) :
    isGap c = false := by
  cases h : isGap c with
  | false => rfl
  | true =>
    have hf : ∀ d, isGap d → p d = false := forall_gap hp.1 hp.2.1 hp.2.2.1 hp.2.2.2
    simp [hf c h] at hc

theorem Reads.head_not_gap (h : Reads allowed kind t rest) (hw : kind ≠ .whitespace)
    (hn : kind ≠ .newline) : t.head?.all (!isGap ·) := by
  cases h with
  | newline => exact absurd rfl hn
  | blanks => exact absurd rfl hw
  | string hq => simp [isGap_eq_false_of_class hq (by decide)]
  | marked hp => obtain rfl | rfl := hp <;> rfl
  | number hc => simp [isGap_eq_false_of_class hc (by decide)]
  | word hc => simp [isGap_eq_false_of_class hc (by decide)]
  | double hd => simp [isGap_eq_false_of_class (double_chars hd).1 (by decide)]
  | single hc => simp [isGap_eq_false_of_class (single_char hc).1 (by decide)]
  | mark hc => simp [isGap_eq_false_of_class hc (by decide)]
  | _ => rfl

theorem Reads.of_whitespace (h : Reads allowed .whitespace t rest) :
    (∀ c ∈ t, isBlank c) ∧ rest.head?.all (!isBlank ·) := by
  generalize hk : Kind.whitespace = kind at h
  cases h with
  | blanks hc hx hr =>
    refine ⟨?_, hr⟩
    intro c hm
    obtain rfl | hm := List.mem_cons.1 hm
    · exact hc
    · exact hx c hm
  | word _ _ _ _ hw => split at hw <;> simp_all
  | _ => simp at hk

theorem reads_blanks (ht : t ≠ []) (hb : ∀ c ∈ t, isBlank c) (hr : rest.head?.all (!isBlank ·)) :
    Reads allowed .whitespace t rest := by
  obtain ⟨c, x, rfl⟩ := List.exists_cons_of_ne_nil ht
  exact .blanks (hb c (by simp)) (fun d hd => hb d (List.mem_cons_of_mem c hd)) hr

theorem Reads.of_newline (h : Reads allowed .newline t rest) : t = ['\n'] := by
  generalize hk : Kind.newline = kind at h
  cases h with
  | newline => rfl
  | word _ _ _ _ hw => split at hw <;> simp_all
  | _ => simp at hk

theorem Reads.allowed_of_regex (h : Reads allowed .regex t rest) : allowed = true := by
  generalize hk : Kind.regex = kind at h
  cases h with
  | regex ha => exact ha
  | word _ _ _ _ hw => split at hw <;> simp_all
  | _ => simp at hk

theorem slashState_plain {x : Text} (hx : x ≠ [])
    (hp : ∀ c ∈ x, c ≠ '\n' ∧ c ≠ '/' ∧ c ≠ '\\') (s : Bool) : slashState s x = some false := by
  induction x generalizing s with
  | nil => exact absurd rfl hx
  | cons c x ih =>
    have hc := hp c (by simp)
    have h : slashState false x = some false := by
      cases x with
      | nil => rfl
      | cons d x => exact ih (by simp) (fun e he => hp e (List.mem_cons_of_mem c he)) false
    cases s <;> simp [slashState, hc, h]

theorem slashState_blanks {x : Text} (hx : x ≠ []) (hb : ∀ c ∈ x, isBlank c) (s : Bool) :
    slashState s x = some false := by
  refine slashState_plain hx ?_ s
  intro c hc
  have h := hb c hc
  exact ⟨ne_of_class h rfl, ne_of_class h rfl, ne_of_class h rfl⟩

theorem Reads.kind_of_break (h : Reads allowed kind t rest) (ht : t.head? = some '\n') :
    kind = .newline := by
  by_cases hn : kind = .newline
  · exact hn
  by_cases hw : kind = .whitespace
  · subst hw
    have hb := h.of_whitespace.1 '\n' (List.mem_of_mem_head? ht)
    cases hb
  · have hg := h.head_not_gap hw hn
    rw [ht] at hg
    cases hg

theorem Reads.kind_of_slash (h : Reads allowed kind ['/'] rest) : kind = .operator := by
  cases h with
  | blanks hc => cases hc
  | string hq => cases hq
  | regex _ _ he => simp [Scan.ends] at he
  | number hc => cases hc
  | word hc => cases hc
  | single => rfl
  | mark _ _ hs => simp [singleOperators] at hs

theorem Reads.head_plain (h : Reads allowed kind t rest) (hr : kind ≠ .regex)
    (hb : kind ≠ .blockComment) (hp : kind ≠ .punctuation) (hs : t ≠ ['/']) :
    ∀ c ∈ t.head?, c ≠ '/' ∧ c ≠ '\\' := by
  have class_ne {p : Char → Bool} {c : Char} (hc : p c = true)
      (hp : p '/' = false ∧ p '\\' = false) : c ≠ '/' ∧ c ≠ '\\' :=
    ⟨ne_of_class hc hp.1, ne_of_class hc hp.2⟩
  cases h with
  | blockComment => exact absurd rfl hb
  | regex => exact absurd rfl hr
  | mark => exact absurd rfl hp
  | blanks hc => simpa using class_ne hc (by decide)
  | string hq => simpa using class_ne hq (by decide)
  | marked hm => obtain rfl | rfl := hm <;> simp
  | number hc => simpa using class_ne hc (by decide)
  | word hc => simpa using class_ne hc (by decide)
  | double hd =>
    obtain ⟨-, -, -, h1, h2, -⟩ := double_chars hd
    simpa using ⟨h1, h2⟩
  | single hc =>
    have h1 := (single_char hc).2.2.2
    have h2 : _ ≠ '/' := fun he => hs (congrArg (fun c => [c]) he)
    simpa using ⟨h2, h1⟩
  | _ => simp

/-- A token that ends with a backslash is the mark itself or runs to a closing mark. -/
theorem Reads.of_last_backslash (h : Reads allowed kind t rest) (hl : t.getLast? = some '\\') :
    kind ∈ [.lineComment, .blockComment, .string, .regex, .identifier, .number] ∨
      kind = .punctuation ∧ t = ['\\'] := by
  cases h with
  | newline => simp at hl
  | blanks hc hx =>
    obtain rfl | hm := List.mem_cons.1 (List.mem_of_getLast? hl)
    · cases hc
    · cases hx _ hm
  | word hc hx =>
    obtain rfl | hm := List.mem_cons.1 (List.mem_of_getLast? hl)
    · cases hc
    · cases hx _ hm
  | pipe => simp at hl
  | pipeInto => simp at hl
  | concat => simp at hl
  | spread => simp at hl
  | double hd =>
    obtain ⟨-, -, -, -, -, -, -, h1⟩ := double_chars hd
    simp [h1] at hl
  | single hc =>
    have h1 := (single_char hc).2.2.2
    simp [h1] at hl
  | mark =>
    right
    simpa using hl
  | _ => simp

def TakesOnly (p : Char → Bool) (read : Text → Split) : Prop :=
  ∀ t, ∀ c ∈ (read t).taken, p c

theorem takesOnly_run {p q : Char → Bool} (h : ∀ c, q c → p c) : TakesOnly p (Split.run q) := by
  intro t c hc
  exact h c (List.all_eq_true.1 List.all_takeWhile c hc)

theorem TakesOnly.andThen {p : Char → Bool} {read next : Text → Split} (hr : TakesOnly p read)
    (hn : TakesOnly p next) : TakesOnly p fun t => (read t).andThen next := by
  intro t c hc
  obtain hc | hc := List.mem_append.1 hc
  · exact hr t c hc
  · exact hn _ c hc

theorem TakesOnly.takeOne {p q : Char → Bool} {next other : Text → Split} (h : ∀ c, q c → p c)
    (hn : TakesOnly p next) (ho : TakesOnly p other) : TakesOnly p (takeOne q next other) := by
  intro t c hc
  cases t with
  | nil => exact ho [] c hc
  | cons d u =>
    simp only [Token.takeOne] at hc
    split at hc
    · rename_i hd
      obtain rfl | hc := List.mem_cons.1 hc
      · exact h c hd
      · exact hn u c hc
    · exact ho _ c hc

def isNumeric (c : Char) : Bool := isWordChar c || c == '.' || c == '+' || c == '-'

theorem isLetter_of_hex {c : Char} (h : isHexDigit c) : isDigit c || isLetter c := by
  simp only [isHexDigit, isLetter, Bool.or_eq_true, Bool.and_eq_true, decide_eq_true_eq] at h ⊢
  obtain (h | h) | h := h
  · exact .inl h
  · exact .inr (.inl ⟨h.1, Char.le_trans h.2 (by decide)⟩)
  · exact .inr (.inr ⟨h.1, Char.le_trans h.2 (by decide)⟩)

theorem takesOnly_numberTail (c : Char) : TakesOnly isNumeric (numberTail c) := by
  have digit (d : Char) (h : isDigit d) : isNumeric d := by simp [isNumeric, isWordChar, h]
  have letter (d : Char) (h : isLetter d) : isNumeric d := by simp [isNumeric, isWordChar, h]
  have exp : TakesOnly isNumeric exponent := by
    rw [exponent_eq_takeOne]
    refine .takeOne ?_ (.takeOne ?_ (takesOnly_run digit) (takesOnly_run digit)) ?_
    · intro d h
      obtain rfl | rfl := of_decide_eq_true h <;> rfl
    · intro d h
      obtain rfl | rfl := of_decide_eq_true h <;> rfl
    · intro t d h
      cases h
  rw [numberTail_eq_takeOne]
  refine .andThen (.takeOne ?_ (takesOnly_run ?_) (.andThen (takesOnly_run ?_) exp))
    (takesOnly_run letter)
  · intro d h
    obtain ⟨-, rfl | rfl⟩ := of_decide_eq_true h <;> rfl
  · intro d h
    have hd := isLetter_of_hex h
    simp_all [isNumeric, isWordChar]
    grind
  · intro d h
    obtain h | h := Bool.or_eq_true _ _ ▸ h
    · exact digit d h
    · simp_all [isNumeric]

theorem Reads.of_number (h : Reads allowed .number t rest) : ∀ c ∈ t, isNumeric c := by
  generalize hk : Kind.number = kind at h
  cases h with
  | @number d x _ hd hx =>
    intro c hc
    obtain rfl | hc := List.mem_cons.1 hc
    · simp [isNumeric, isWordChar, hd]
    · refine takesOnly_numberTail d (x ++ rest) c ?_
      rw [hx]
      exact hc
  | word _ _ _ _ hw => split at hw <;> simp_all
  | _ => simp at hk

end QueryTidy.Token
