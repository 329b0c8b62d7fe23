import QueryTidy.Proofs.Lexing.Delimited
import QueryTidy.Token.Lexer

/-! What stands at the head of a text, said for each kind of token, and token lists that are the
reading of their own text. Main statements: `lexeme_append_iff`, `lexFrom_eq_iff`. -/
namespace QueryTidy.Token

def startsWord (c : Char) : Bool := isLetter c || c == '_'

def isSymbolic (c : Char) : Bool :=
  !(c == '\n' || isBlank c || isQuote c || isDigit c || startsWord c || c == '\x60')

/-- In `Reads allowed kind t rest`, the text `t` is a token of this kind before `rest`. A regular
expression may start there only if `allowed`. -/
inductive Reads (allowed : Bool) : Kind → Text → Text → Prop
  | newline {rest} : Reads allowed .newline ['\n'] rest
  | blanks {c x rest} : isBlank c → (∀ d ∈ x, isBlank d) → rest.head?.all (!isBlank ·) →
      Reads allowed .whitespace (c :: x) rest
  | lineComment {x rest} : '\n' ∉ x → rest.head?.all (· == '\n') →
      Reads allowed .lineComment ('-' :: '-' :: x) rest
  | blockComment {x rest} : blockScan.Delimits false x rest →
      Reads allowed .blockComment ('/' :: '*' :: x) rest
  | string {q x rest} : isQuote q → (quoteScan q).Delimits false x rest →
      Reads allowed .string (q :: x) rest
  | marked {p q x rest} : p = 'f' ∨ p = 'r' → isQuote q → (quoteScan q).Delimits false x rest →
      Reads allowed .string (p :: q :: x) rest
  | regex {x rest} : allowed → x.head? ≠ some '*' → (quoteScan '/').ends false x → '\n' ∉ x →
      Reads allowed .regex ('/' :: x) rest
  | number {c x rest} : isDigit c → numberTail c (x ++ rest) = ⟨x, rest⟩ →
      Reads allowed .number (c :: x) rest
  | word {kind c x rest} : startsWord c → (∀ d ∈ x, isWordChar d) →
      rest.head?.all (!isWordChar ·) →
      ((c = 'f' ∨ c = 'r') → x = [] → rest.head?.all (!isQuote ·)) →
      kind = (if isKeyword (c :: x) then .keyword else .identifier) →
      Reads allowed kind (c :: x) rest
  | backticks {x rest} : backtickScan.Delimits () x rest →
      Reads allowed .identifier ('\x60' :: x) rest
  | pipe {rest} : rest.head? ≠ some '>' → rest.head? ≠ some '|' → Reads allowed .pipe ['|'] rest
  | pipeInto {rest} : Reads allowed .pipe ['|', '>'] rest
  | concat {rest} : Reads allowed .operator ['|', '|'] rest
  | spread {rest} : Reads allowed .operator ['.', '.', '.'] rest
  | double {c d rest} : [c, d] ∈ doubleOperators → Reads allowed .operator [c, d] rest
  | single {c rest} : c ∈ singleOperators → c :: rest.take 1 ∉ doubleOperators →
      (c = '-' → rest.head? ≠ some '-') → (c = '/' → rest.head? ≠ some '*') →
      (c = '/' → allowed → slashAhead false rest = false) → Reads allowed .operator [c] rest
  | mark {c rest} : isSymbolic c → c ≠ '|' → c ∉ singleOperators →
      c :: rest.take 1 ∉ doubleOperators → (c = '.' → rest.take 2 ≠ ['.', '.']) →
      Reads allowed .punctuation [c] rest

theorem Split.run_append_iff (p : Char → Bool) (x rest : Text) :
    Split.run p (x ++ rest) = ⟨x, rest⟩ ↔ (∀ c ∈ x, p c) ∧ rest.head?.all (!p ·) := by
  rw [Split.run, Split.mk.injEq]
  induction x with
  | nil => cases rest with
    | nil => simp
    | cons c t => cases hc : p c <;> simp [hc]
  | cons c x ih => cases hc : p c <;> simp [hc, ih]

theorem ne_of_class {p : Char → Bool} {c d : Char} (hc : p c = true) (hd : p d = false) :
    c ≠ d := by
  intro he
  subst he
  simp [hc] at hd

theorem double_chars {c d : Char} (h : [c, d] ∈ doubleOperators) :
    isSymbolic c ∧ c ≠ '|' ∧ c ≠ '.' ∧ c ≠ '/' ∧ c ≠ '\\' ∧ isSymbolic d ∧ d ≠ '-' ∧
      d ≠ '\\' := by
  simp only [doubleOperators, List.mem_cons, List.cons.injEq, and_true, List.not_mem_nil,
    or_false] at h
  obtain h | h | h | h | h | h | h | h | h | h := h <;> obtain ⟨rfl, rfl⟩ := h <;> decide

theorem single_char {c : Char} (h : c ∈ singleOperators) :
    isSymbolic c ∧ c ≠ '|' ∧ c ≠ '.' ∧ c ≠ '\\' := by
  simp only [singleOperators, List.mem_cons, List.not_mem_nil, or_false] at h
  obtain rfl | rfl | rfl | rfl | rfl | rfl | rfl | rfl | rfl | rfl := h <;> decide

theorem isDigit_eq_false_of_startsWord {c : Char} (h : startsWord c) : isDigit c = false := by
  simp only [startsWord, isLetter, Bool.or_eq_true, Bool.and_eq_true, decide_eq_true_eq,
    beq_iff_eq, Char.le_def, UInt32.le_iff_toNat_le] at h
  simp only [isDigit, Bool.and_eq_false_iff, decide_eq_false_iff_not, Char.le_def,
    UInt32.le_iff_toNat_le]
  obtain (h | h) | rfl := h
  · have ha : 97 ≤ c.val.toNat := h.1
    right
    change ¬ c.val.toNat ≤ 57
    omega
  · have ha : 65 ≤ c.val.toNat := h.1
    right
    change ¬ c.val.toNat ≤ 57
    omega
  · decide

theorem not_isBlank_of_class {p : Char → Bool} {c : Char} (hc : p c = true)
    (hp : p ' ' = false ∧ p '\t' = false ∧ p '\r' = false) : ¬ isBlank c := by
  intro h
  simp only [isBlank, Bool.or_eq_true, beq_iff_eq] at h
  obtain (rfl | rfl) | rfl := h <;> simp_all

theorem not_isQuote_of_class {p : Char → Bool} {c : Char} (hc : p c = true)
    (hp : p '\x22' = false ∧ p '\x27' = false) : ¬ isQuote c := by
  intro h
  simp only [isQuote, Bool.or_eq_true, beq_iff_eq] at h
  obtain rfl | rfl := h <;> simp_all

theorem Split.eq_of_first_append (seen : Text) {x rest : Text}
    (hs : (x ++ rest).take seen.length = seen)
    (h : Split.first seen.length (x ++ rest) = ⟨x, rest⟩) : x = seen :=
  (congrArg Split.taken h).symm.trans hs

theorem reads_of_symbol {allowed : Bool} {kind : Kind} {c : Char} {x rest : Text}
    (hc : isSymbolic c) (hm : c = '-' → (x ++ rest).head? ≠ some '-')
    (hs : c = '/' → (x ++ rest).head? ≠ some '*')
    (ha : c = '/' → allowed → slashAhead false (x ++ rest) = false)
    (h : symbol c (x ++ rest) = (kind, ⟨x, rest⟩)) : Reads allowed kind (c :: x) rest := by
  rw [symbol] at h
  split at h
  · subst c
    split at h
    · rename_i hd
      obtain ⟨rfl, ht⟩ := Prod.mk.inj h
      obtain rfl := Split.eq_of_first_append ['>'] (by simp [List.take_one, hd]) ht
      exact .pipeInto
    split at h
    · rename_i hd
      obtain ⟨rfl, ht⟩ := Prod.mk.inj h
      obtain rfl := Split.eq_of_first_append ['|'] (by simp [List.take_one, hd]) ht
      exact .concat
    · obtain ⟨rfl, ht⟩ := Prod.mk.inj h
      obtain ⟨rfl, -⟩ := Split.mk.inj ht
      exact .pipe ‹_› ‹_›
  rename_i hp
  split at h
  · rename_i hd
    obtain ⟨rfl, hd⟩ := hd
    obtain ⟨rfl, ht⟩ := Prod.mk.inj h
    obtain rfl := Split.eq_of_first_append ['.', '.'] hd ht
    exact .spread
  rename_i hd
  split at h
  · rename_i ho
    obtain ⟨rfl, ht⟩ := Prod.mk.inj h
    cases hx : x ++ rest with
    | nil => simp [hx, doubleOperators] at ho
    | cons d t =>
      rw [hx] at ho
      obtain rfl := Split.eq_of_first_append [d] (by simp [hx]) ht
      exact .double (by simpa using ho)
  rename_i ho
  split at h
  · obtain ⟨rfl, ht⟩ := Prod.mk.inj h
    obtain ⟨rfl, -⟩ := Split.mk.inj ht
    exact .single ‹_› ho hm hs ha
  · obtain ⟨rfl, ht⟩ := Prod.mk.inj h
    obtain ⟨rfl, -⟩ := Split.mk.inj ht
    exact .mark hc hp ‹_› ho (fun hc ht => hd ⟨hc, ht⟩)

theorem reads_of_plain {allowed : Bool} {kind : Kind} {c : Char} {x rest : Text}
    (hn : c ≠ '\n') (hb : ¬ isBlank c) (hq : ¬ isQuote c)
    (hm : ¬ (c = '-' ∧ (x ++ rest).head? = some '-'))
    (hs : ¬ (c = '/' ∧ (x ++ rest).head? = some '*'))
    (hf : (c = 'f' ∨ c = 'r') → (x ++ rest).head?.all (!isQuote ·))
    (h : lexeme.plain allowed c (x ++ rest) = (kind, ⟨x, rest⟩)) :
    Reads allowed kind (c :: x) rest := by
  rw [lexeme.plain] at h
  split at h
  · rename_i s hr
    split at hr
    · rename_i hc
      obtain ⟨rfl, ha⟩ := hc
      obtain ⟨rfl, rfl⟩ := Prod.mk.inj h
      obtain ⟨he, hx⟩ := (regexTail?_append_iff x rest).1 hr
      refine .regex ha ?_ he hx
      intro hh
      cases x with
      | nil => simp at hh
      | cons d x => simp_all
    · cases hr
  · rename_i hr
    split at h
    · obtain ⟨rfl, ht⟩ := Prod.mk.inj h
      exact .number ‹_› ht
    split at h
    · obtain ⟨hk, ht⟩ := Prod.mk.inj h
      obtain ⟨hx, hw⟩ := (Split.run_append_iff _ _ _).1 ht
      refine .word ‹_› hx hw ?_ ?_
      · intro hc he
        subst he
        exact hf hc
      · rw [← hk, ht]
    split at h
    · rename_i hc
      subst hc
      obtain ⟨rfl, ht⟩ := Prod.mk.inj h
      rw [backtickTail_eq_read, Scan.read_append_iff] at ht
      exact .backticks ht
    · refine reads_of_symbol ?_ ?_ ?_ ?_ h
      · simp_all [isSymbolic, startsWord]
      · intro he hd
        subst he
        exact hm ⟨rfl, hd⟩
      · intro he hd
        subst he
        exact hs ⟨rfl, hd⟩
      · intro he ha
        subst he
        rw [if_pos ⟨rfl, ha⟩] at hr
        exact (regexTail?_eq_none_iff _).1 hr

theorem reads_of_lexeme {allowed : Bool} {kind : Kind} {c : Char} {x rest : Text}
    (h : lexeme allowed c (x ++ rest) = (kind, ⟨x, rest⟩)) : Reads allowed kind (c :: x) rest := by
  unfold lexeme at h
  split at h
  · obtain ⟨rfl, ht⟩ := Prod.mk.inj h
    obtain ⟨rfl, -⟩ := Split.mk.inj ht
    subst c
    exact .newline
  rename_i hn
  split at h
  · obtain ⟨rfl, ht⟩ := Prod.mk.inj h
    obtain ⟨hx, hr⟩ := (Split.run_append_iff _ _ _).1 ht
    exact .blanks ‹_› hx hr
  rename_i hb
  split at h
  · rename_i hd
    obtain ⟨rfl, hd⟩ := hd
    obtain ⟨rfl, ht⟩ := Prod.mk.inj h
    obtain ⟨hx, hr⟩ := (Split.run_append_iff _ _ _).1 ht
    cases x with
    | nil => simp_all
    | cons d x =>
      obtain rfl : d = '-' := by simpa using hd
      refine .lineComment ?_ (by simpa [bne] using hr)
      intro hm
      simpa using hx _ (List.mem_cons_of_mem _ hm)
  rename_i hm
  split at h
  · rename_i hs
    obtain ⟨rfl, hs⟩ := hs
    obtain ⟨rfl, ht⟩ := Prod.mk.inj h
    cases x with
    | nil =>
      cases rest with
      | nil => simp at hs
      | cons d t => simp [Split.first, Split.andThen, Split.after] at ht
    | cons d x =>
      obtain rfl : d = '*' := by simpa using hs
      refine .blockComment ((Scan.read_append_iff _ _ _ _).1 ?_)
      rw [← blockTail_eq_read]
      cases hb : blockTail (x ++ rest)
      simpa [Split.first, Split.andThen, Split.after, hb] using ht
  rename_i hs
  split at h
  · obtain ⟨rfl, ht⟩ := Prod.mk.inj h
    rw [quotedTail_eq_read, Scan.read_append_iff] at ht
    exact .string ‹_› ht
  rename_i hq
  split at h
  · rename_i q u hu
    split at h
    · rename_i hc
      obtain ⟨hp, hq'⟩ := hc
      obtain ⟨rfl, ht⟩ := Prod.mk.inj h
      cases x with
      | nil => simp [Split.after] at ht
      | cons d x =>
        obtain ⟨rfl, rfl⟩ := List.cons.inj hu
        refine .marked hp hq' ((Scan.read_append_iff _ _ _ _).1 ?_)
        rw [← quotedTail_eq_read]
        cases hb : quotedTail d (x ++ rest)
        simpa [Split.after, hb] using ht
    · rename_i hc
      refine reads_of_plain hn hb hq hm hs ?_ h
      intro hp
      simp_all
  · rename_i hu
    refine reads_of_plain hn hb hq hm hs ?_ h
    simp [hu]

theorem lexeme_eq_plain {allowed : Bool} {c : Char} {t : Text}
    (hn : c ≠ '\n') (hb : ¬ isBlank c) (hq : ¬ isQuote c)
    (hm : c = '-' → t.head? ≠ some '-') (hs : c = '/' → t.head? ≠ some '*')
    (hf : (c = 'f' ∨ c = 'r') → t.head?.all (!isQuote ·)) :
    lexeme allowed c t = lexeme.plain allowed c t := by
  have hm' : ¬ (c = '-' ∧ t.head? = some '-') := fun h => hm h.1 h.2
  have hs' : ¬ (c = '/' ∧ t.head? = some '*') := fun h => hs h.1 h.2
  rw [lexeme.eq_def, if_neg hn, if_neg hb, if_neg hm', if_neg hs', if_neg hq]
  cases t with
  | nil => rfl
  | cons q u =>
    have hf' : ¬ ((c = 'f' ∨ c = 'r') ∧ isQuote q) := by
      intro h
      obtain ⟨hc, h⟩ := h
      simpa [h] using hf hc
    simp only [if_neg hf']

theorem lexeme_eq_symbol {allowed : Bool} {c : Char} {t : Text} (hc : isSymbolic c)
    (hm : c = '-' → t.head? ≠ some '-') (hs : c = '/' → t.head? ≠ some '*')
    (ha : c = '/' → allowed → slashAhead false t = false) :
    lexeme allowed c t = symbol c t := by
  have h1 (d : Char) (hd : isSymbolic d = false) : c ≠ d := ne_of_class hc hd
  simp only [isSymbolic, startsWord, Bool.not_or, Bool.and_eq_true, Bool.not_eq_true'] at hc
  obtain ⟨⟨⟨⟨⟨hn, hb⟩, hq⟩, hd⟩, hw⟩, ht⟩ := hc
  rw [lexeme_eq_plain (h1 _ rfl) (by simp [hb]) (by simp [hq]) hm hs
    (fun h => absurd h (by simp [h1 'f' rfl, h1 'r' rfl])), lexeme.plain]
  have hr : (if c = '/' ∧ allowed then regexTail? t else none) = none := by
    split
    · rename_i h
      exact (regexTail?_eq_none_iff _).2 (ha h.1 h.2)
    · rfl
  simp_all

theorem lexeme_of_reads {allowed : Bool} {kind : Kind} {c : Char} {x rest : Text}
    (h : Reads allowed kind (c :: x) rest) :
    lexeme allowed c (x ++ rest) = (kind, ⟨x, rest⟩) := by
  cases h with
  | newline => simp [lexeme]
  | blanks hc hx hr =>
    rw [lexeme.eq_def, if_neg (ne_of_class hc rfl), if_pos hc,
      (Split.run_append_iff _ _ _).2 ⟨hx, hr⟩]
  | @lineComment x _ hx hr =>
    have h : Split.run (· != '\n') ('-' :: x ++ rest) = ⟨'-' :: x, rest⟩ := by
      refine (Split.run_append_iff _ _ _).2 ⟨?_, by simpa [bne] using hr⟩
      simp
      grind
    simpa [lexeme, isBlank] using h
  | blockComment hx =>
    rw [← Scan.read_append_iff, ← blockTail_eq_read] at hx
    simp [lexeme, isBlank, Split.first, Split.andThen, Split.after, hx]
  | string hq hx =>
    rw [← Scan.read_append_iff, ← quotedTail_eq_read] at hx
    have h1 : c ≠ '-' := ne_of_class hq rfl
    have h2 : c ≠ '/' := ne_of_class hq rfl
    have h3 : ¬ isBlank c := not_isBlank_of_class hq (by decide)
    rw [lexeme.eq_def, if_neg (ne_of_class hq rfl), if_neg h3, if_neg (fun h => h1 h.1),
      if_neg (fun h => h2 h.1), if_pos hq, hx]
  | marked hp hq hx =>
    rw [← Scan.read_append_iff, ← quotedTail_eq_read] at hx
    have h1 : isBlank 'f' = false ∧ isBlank 'r' = false := by decide
    have h2 : isQuote 'f' = false ∧ isQuote 'r' = false := by decide
    obtain rfl | rfl := hp <;> simp [lexeme, h1, h2, hq, hx, Split.after]
  | regex ha hh he hx =>
    rw [lexeme_eq_plain (by decide) (by decide) (by decide) (by simp) _ (by simp)]
    · rw [lexeme.plain, if_pos ⟨rfl, ha⟩, (regexTail?_append_iff x rest).2 ⟨he, hx⟩]
    · intro _
      cases x with
      | nil => simp [Scan.ends] at he
      | cons d x => simpa using hh
  | number hc hx =>
    have h1 (d : Char) (hd : isDigit d = false) : c ≠ d := ne_of_class hc hd
    rw [lexeme_eq_plain (h1 _ rfl) (not_isBlank_of_class hc (by decide))
      (not_isQuote_of_class hc (by decide)) (fun h => absurd h (h1 _ rfl))
      (fun h => absurd h (h1 _ rfl)) (fun h => absurd h (by simp [h1 'f' rfl, h1 'r' rfl]))]
    rw [lexeme.plain, if_neg (fun h => h1 _ rfl h.1)]
    simp [hc, hx]
  | word hc hx hr hf hk =>
    have h1 (d : Char) (hd : startsWord d = false) : c ≠ d := ne_of_class hc hd
    have h2 := isDigit_eq_false_of_startsWord hc
    rw [lexeme_eq_plain (h1 _ rfl) (not_isBlank_of_class hc (by decide))
      (not_isQuote_of_class hc (by decide)) (fun h => absurd h (h1 _ rfl))
      (fun h => absurd h (h1 _ rfl)) _]
    · rw [startsWord] at hc
      rw [lexeme.plain, if_neg (fun h => h1 _ rfl h.1)]
      simp [h2, hc, word, (Split.run_append_iff _ _ _).2 ⟨hx, hr⟩, hk]
    · intro hp
      cases x with
      | nil => exact hf hp rfl
      | cons d x =>
        have hd : isWordChar d := hx d (by simp)
        simpa using not_isQuote_of_class hd (by decide)
  | backticks hx =>
    rw [← Scan.read_append_iff, ← backtickTail_eq_read] at hx
    rw [lexeme_eq_plain (by decide) (by decide) (by decide) (by simp) (by simp) (by simp)]
    have h1 : isDigit '\x60' = false ∧ isLetter '\x60' = false := by decide
    simp [lexeme.plain, h1, hx]
  | pipe h1 h2 =>
    rw [lexeme_eq_symbol (by decide) (by simp) (by simp) (by simp)]
    simp [symbol, h1, h2]
  | pipeInto =>
    rw [lexeme_eq_symbol (by decide) (by simp) (by simp) (by simp)]
    simp [symbol, Split.first]
  | concat =>
    rw [lexeme_eq_symbol (by decide) (by simp) (by simp) (by simp)]
    simp [symbol, Split.first]
  | spread =>
    rw [lexeme_eq_symbol (by decide) (by simp) (by simp) (by simp)]
    simp [symbol, Split.first]
  | double h =>
    obtain ⟨hc, hp, ht, hs, -, -, hm, -⟩ := double_chars h
    rw [lexeme_eq_symbol hc (by simp [hm]) (by simp [hs]) (by simp [hs])]
    simp [symbol, Split.first, hp, ht, h]
  | single hc hd hm hs ha =>
    obtain ⟨hc', hp, ht, -⟩ := single_char hc
    rw [List.nil_append, lexeme_eq_symbol hc' hm hs ha]
    simp [symbol, hp, ht, hc, hd]
  | mark hc hp ho hd ht =>
    have ht' : ¬ (c = '.' ∧ rest.take 2 = ['.', '.']) := fun h => ht h.1 h.2
    rw [lexeme_eq_symbol hc _ _ _]
    · simp only [List.nil_append, symbol, if_neg hp, if_neg ht', if_neg hd, if_neg ho]
    all_goals
      intro he
      subst he
      simp [singleOperators] at ho

theorem lexeme_append_iff {allowed : Bool} {kind : Kind} {c : Char} {x rest : Text} :
    lexeme allowed c (x ++ rest) = (kind, ⟨x, rest⟩) ↔ Reads allowed kind (c :: x) rest :=
  ⟨reads_of_lexeme, lexeme_of_reads⟩

theorem Reads.ne_nil {allowed : Bool} {kind : Kind} {t rest : Text}
    (h : Reads allowed kind t rest) : t ≠ [] := by
  cases h <;> simp

theorem reads_first (previous : Option Token) (c : Char) (t : Text) :
    Reads (allowsRegex previous) (first previous c t).kind (first previous c t).text
      (afterFirst previous c t) := by
  have h := lexeme_append (allowsRegex previous) c t
  simp only [first, afterFirst]
  generalize hl : lexeme (allowsRegex previous) c t = read at h ⊢
  obtain ⟨kind, x, rest⟩ := read
  subst t
  exact lexeme_append_iff.1 hl

def Lexes : Option Token → List Token → Prop
  | _, [] => True
  | previous, token :: tokens =>
    Reads (allowsRegex previous) token.kind token.text (tokens.flatMap text) ∧
      Lexes (some token) tokens

theorem lexFrom_of_lexes {previous : Option Token} {tokens : List Token}
    (h : Lexes previous tokens) : lexFrom previous (tokens.flatMap text) = tokens := by
  induction tokens generalizing previous with
  | nil => simp [lexFrom]
  | cons token tokens ih =>
    obtain ⟨hr, hl⟩ := h
    obtain ⟨kind, t⟩ := token
    cases t with
    | nil => exact absurd rfl hr.ne_nil
    | cons c x =>
      have hc := lexeme_append_iff.2 hr
      have hf : first previous c (x ++ tokens.flatMap text) = ⟨kind, c :: x⟩ := by
        simp [first, hc]
      have ha : afterFirst previous c (x ++ tokens.flatMap text) = tokens.flatMap text := by
        simp [afterFirst, hc]
      rw [List.flatMap_cons, List.cons_append, lexFrom]
      simp only [hf, ha, ih hl]

theorem lexes_lexFrom (previous : Option Token) (t : Text) :
    Lexes previous (lexFrom previous t) := by
  fun_induction lexFrom previous t with
  | case1 => trivial
  | case2 previous c t token ih =>
    refine ⟨?_, ih⟩
    rw [flatMap_text_lexFrom]
    exact reads_first previous c t

/-- Cutting a text gives the one list of tokens that is read off it. -/
theorem lexFrom_eq_iff {previous : Option Token} {t : Text} {tokens : List Token} :
    lexFrom previous t = tokens ↔ Lexes previous tokens ∧ tokens.flatMap text = t := by
  constructor
  · intro he
    subst he
    exact ⟨lexes_lexFrom previous t, flatMap_text_lexFrom previous t⟩
  · intro h
    obtain ⟨h, rfl⟩ := h
    exact lexFrom_of_lexes h

end QueryTidy.Token
