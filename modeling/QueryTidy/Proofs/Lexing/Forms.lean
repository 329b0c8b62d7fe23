import Mathlib.Data.List.Infix
import QueryTidy.Proofs.Lexing.Shape

/-! What the tokens of each kind look like, and that no token could go on. Main statement:
`form_of_tokenize`. -/
namespace QueryTidy.Token

/-- Single characters in `plain`, and pairs of a backslash and a character in `paired`. -/
inductive Escaped (plain paired : Char → Bool) : Text → Prop
  | nil : Escaped plain paired []
  | single {c t} : plain c → Escaped plain paired t → Escaped plain paired (c :: t)
  | pair {c t} : paired c → Escaped plain paired t → Escaped plain paired ('\\' :: c :: t)

def InString (q : Char) (t : Text) : Prop :=
  Escaped (fun c => c != q && c != '\\') (fun _ => true) t

def InRegex (t : Text) : Prop :=
  Escaped (fun c => c != '/' && c != '\\' && c != '\n') (· != '\n') t

def Longest (p : Char → Bool) (t rest : Text) : Prop := (∀ c ∈ t, p c) ∧ rest.head?.all (!p ·)

inductive Exponent : Text → Text → Prop
  | missing {rest} : rest.head?.all (! ['e', 'E'].contains ·) → Exponent [] rest
  | unsigned {e digits rest} : e ∈ ['e', 'E'] →
      (digits ++ rest).head?.all (! ['+', '-'].contains ·) → Longest isDigit digits rest →
      Exponent (e :: digits) rest
  | signed {e s digits rest} : e ∈ ['e', 'E'] → s ∈ ['+', '-'] → Longest isDigit digits rest →
      Exponent (e :: s :: digits) rest

inductive Number : Text → Text → Prop
  | hexadecimal {x digits unit rest} : x ∈ ['x', 'X'] →
      Longest isHexDigit digits (unit ++ rest) → Longest isLetter unit rest →
      Number ('0' :: x :: (digits ++ unit)) rest
  | decimal {c digits exponent unit rest} : isDigit c →
      (c = '0' → (digits ++ (exponent ++ (unit ++ rest))).head?.all (! ['x', 'X'].contains ·)) →
      Longest (fun d => isDigit d || d == '.') digits (exponent ++ (unit ++ rest)) →
      Exponent exponent (unit ++ rest) → Longest isLetter unit rest →
      Number (c :: (digits ++ (exponent ++ unit))) rest

def longSymbols : List Text :=
  doubleOperators ++ [['|', '>'], ['|', '|'], ['.', '.', '.'], ['-', '-'], ['/', '*']]

def operators : List Text :=
  [['|', '|'], ['.', '.', '.']] ++ doubleOperators ++ singleOperators.map ([·])

def NoLonger (t rest : Text) : Prop := ∀ x, x ≠ [] → x <+: rest → t ++ x ∉ longSymbols

inductive Unclosed : Kind → Text → Prop
  | blockComment {x} : ¬ ['*', '/'] <:+: x → Unclosed .blockComment ('/' :: '*' :: x)
  | string {mark q x} : mark ∈ [[], ['f'], ['r']] → isQuote q → InString q x →
      Unclosed .string (mark ++ q :: x)
  | stringEscape {mark q x} : mark ∈ [[], ['f'], ['r']] → isQuote q → InString q x →
      Unclosed .string (mark ++ q :: (x ++ ['\\']))
  | backticks {x} : '\x60' ∉ x → Unclosed .identifier ('\x60' :: x)

/-- The forms of tokens before other tokens, `after`, or at the end. -/
inductive Form (after : List Token) : Kind → Text → Prop
  | newline : Form after .newline ['\n']
  | whitespace {t} : t ≠ [] → (∀ c ∈ t, isBlank c) → after.head?.all (·.kind ≠ .whitespace) →
      Form after .whitespace t
  | lineComment {x} : '\n' ∉ x → after.head?.all (·.kind = .newline) →
      Form after .lineComment ('-' :: '-' :: x)
  | blockComment {x} : ¬ ['*', '/'] <:+: x ++ ['*'] →
      Form after .blockComment ('/' :: '*' :: (x ++ ['*', '/']))
  | string {mark q x} : mark ∈ [[], ['f'], ['r']] → isQuote q → InString q x →
      Form after .string (mark ++ q :: (x ++ [q]))
  | regex {x} : InRegex x → Form after .regex ('/' :: (x ++ ['/']))
  | keyword {c x} : startsWord c → Longest isWordChar x (after.flatMap text) →
      String.ofList ((c :: x).map Char.toLower) ∈ keywords → Form after .keyword (c :: x)
  | identifier {c x} : startsWord c → Longest isWordChar x (after.flatMap text) →
      (c :: x ∈ [['f'], ['r']] → (after.flatMap text).head?.all (!isQuote ·)) →
      String.ofList ((c :: x).map Char.toLower) ∉ keywords → Form after .identifier (c :: x)
  | backticks {x} : '\x60' ∉ x → Form after .identifier ('\x60' :: (x ++ ['\x60']))
  | number {t} : Number t (after.flatMap text) → Form after .number t
  | pipe {t} : t ∈ [['|'], ['|', '>']] → NoLonger t (after.flatMap text) → Form after .pipe t
  | operator {t} : t ∈ operators → NoLonger t (after.flatMap text) → Form after .operator t
  | punctuation {c} : isSymbolic c → c ≠ '|' → c ∉ singleOperators →
      NoLonger [c] (after.flatMap text) → Form after .punctuation [c]
  | unclosed {kind t} : Unclosed kind t → after = [] → Form after kind t

variable {q : Char} {x y rest : Text}

theorem InString.scan_append (h : InString q y) (hq : q ≠ '\\') (x : Text) :
    (quoteScan q).ends false (y ++ x) = (quoteScan q).ends false x ∧
      (quoteScan q).runsOn false (y ++ x) = (quoteScan q).runsOn false x := by
  induction h with
  | nil => exact ⟨rfl, rfl⟩
  | @single c t hc _ ih =>
    obtain ⟨h1, h2⟩ : c ≠ q ∧ c ≠ '\\' := by simpa using hc
    simpa [Scan.ends, Scan.runsOn, quoteScan, h1, h2] using ih
  | pair _ _ ih => simpa [Scan.ends, Scan.runsOn, quoteScan, hq.symm] using ih

/-- A text goes up to its first quote; without one it is all inside, up to a backslash that takes
nothing along. -/
theorem inString_cases (q : Char) (x : Text) :
    (∃ y z, InString q y ∧ x = y ++ q :: z) ∨ InString q x ∨
      ∃ y, InString q y ∧ x = y ++ ['\\'] := by
  have plain {c : Char} {x : Text} (h1 : c ≠ q) (h2 : c ≠ '\\') (h : InString q x) :
      InString q (c :: x) := .single (by simp [h1, h2]) h
  fun_induction quotedTail q x with
  | case1 => exact .inr (.inl .nil)
  | case2 c =>
    by_cases h1 : c = q
    · exact .inl ⟨[], [], .nil, by simp [h1]⟩
    by_cases h2 : c = '\\'
    · exact .inr (.inr ⟨[], .nil, by simp [h2]⟩)
    · exact .inr (.inl (plain h1 h2 .nil))
  | case3 d t => exact .inl ⟨[], d :: t, .nil, rfl⟩
  | case4 d t _ ih =>
    obtain ⟨y, z, hy, rfl⟩ | hy | ⟨y, hy, rfl⟩ := ih
    · exact .inl ⟨'\\' :: d :: y, z, .pair rfl hy, rfl⟩
    · exact .inr (.inl (.pair rfl hy))
    · exact .inr (.inr ⟨'\\' :: d :: y, .pair rfl hy, rfl⟩)
  | case5 c d t h1 h2 ih =>
    obtain ⟨y, z, hy, he⟩ | hy | ⟨y, hy, he⟩ := ih
    · exact .inl ⟨c :: y, z, plain h1 h2 hy, by simp [he]⟩
    · exact .inr (.inl (plain h1 h2 hy))
    · exact .inr (.inr ⟨c :: y, plain h1 h2 hy, by simp [he]⟩)

theorem ends_quoteScan_iff (hq : q ≠ '\\') :
    (quoteScan q).ends false x = true ↔ ∃ y, InString q y ∧ x = y ++ [q] := by
  constructor
  · intro h
    obtain ⟨y, z, hy, rfl⟩ | hx | ⟨y, hy, rfl⟩ := inString_cases q x
    · rw [(hy.scan_append hq _).1] at h
      obtain rfl : z = [] := by simpa [Scan.ends, quoteScan] using h
      exact ⟨y, hy, rfl⟩
    · have hn := (hx.scan_append hq []).1
      rw [List.append_nil, h] at hn
      cases hn
    · rw [(hy.scan_append hq _).1] at h
      simp [Scan.ends, quoteScan, hq.symm] at h
  · intro h
    obtain ⟨y, hy, rfl⟩ := h
    rw [(hy.scan_append hq _).1]
    simp [Scan.ends, quoteScan]

theorem runsOn_quoteScan_iff (hq : q ≠ '\\') :
    (quoteScan q).runsOn false x = true ↔ InString q x ∨ ∃ y, InString q y ∧ x = y ++ ['\\'] := by
  constructor
  · intro h
    obtain ⟨y, z, hy, rfl⟩ | hx | ho := inString_cases q x
    · rw [(hy.scan_append hq _).2] at h
      simp [Scan.runsOn, quoteScan] at h
    · exact .inl hx
    · exact .inr ho
  · intro h
    obtain hx | ⟨y, hy, rfl⟩ := h
    · have hn := (hx.scan_append hq []).2
      rwa [List.append_nil] at hn
    · rw [(hy.scan_append hq _).2]
      simp [Scan.runsOn, quoteScan, hq.symm]

theorem inRegex_of_inString (h : InString '/' y) (hn : '\n' ∉ y) : InRegex y := by
  induction h with
  | nil => exact .nil
  | single hc _ ih =>
    rw [List.mem_cons, not_or] at hn
    refine .single ?_ (ih hn.2)
    simpa [Ne.symm hn.1] using hc
  | pair _ _ ih =>
    simp only [List.mem_cons, not_or] at hn
    exact .pair (by simpa using Ne.symm hn.2.1) (ih hn.2.2)

theorem Scan.ends_concat {σ : Type} (scan : Scan σ) (s : σ) (x : Text) (c : Char) :
    scan.ends s (x ++ [c]) = (scan.runsOn s x && !scan.runsOn s (x ++ [c])) := by
  induction x generalizing s with
  | nil => cases h : scan s c <;> simp [ends, runsOn, h]
  | cons d x ih => cases h : scan s d <;> simp [ends, runsOn, h, ih]

theorem Scan.ends_iff {σ : Type} {scan : Scan σ} {s : σ} :
    scan.ends s x = true ↔
      ∃ y c, x = y ++ [c] ∧ scan.runsOn s y = true ∧ scan.runsOn s (y ++ [c]) = false := by
  constructor
  · intro h
    obtain rfl | ⟨y, c, rfl⟩ := List.eq_nil_or_concat x
    · cases h
    · rw [List.concat_eq_append] at *
      rw [ends_concat] at h
      exact ⟨y, c, rfl, by simpa using h⟩
  · intro h
    obtain ⟨y, c, rfl, h1, h2⟩ := h
    simp [ends_concat, h1, h2]

theorem runsOn_blockScan_iff (starred : Bool) :
    blockScan.runsOn starred x = true ↔ ¬ ['*', '/'] <:+: (if starred then '*' :: x else x) := by
  induction x generalizing starred with
  | nil => cases starred <;> simp [Scan.runsOn, List.infix_cons_iff]
  | cons c x ih =>
    have hn : blockScan.runsOn (c = '*') x = true ↔ ¬ ['*', '/'] <:+: c :: x := by
      rw [ih]
      by_cases hc : c = '*'
      · simp [hc]
      · simp [hc, List.infix_cons_iff, Ne.symm hc]
    cases starred with
    | false => simpa [Scan.runsOn, blockScan] using hn
    | true =>
      by_cases hc : c = '/'
      · simp [Scan.runsOn, blockScan, hc, List.infix_cons_iff]
      · simpa [Scan.runsOn, blockScan, hc, List.infix_cons_iff (a := '*'), Ne.symm hc] using hn

theorem ends_blockScan_iff :
    blockScan.ends false x = true ↔
      ∃ y, x = y ++ ['*', '/'] ∧ ¬ ['*', '/'] <:+: y ++ ['*'] := by
  simp only [Scan.ends_iff, runsOn_blockScan_iff, ← Bool.not_eq_true, not_not]
  constructor
  · intro h
    obtain ⟨y, c, rfl, h1, h2⟩ := h
    obtain ⟨z, hz⟩ | h2 := List.infix_concat_iff.1 h2
    · have hc : z ++ ['*'] ++ ['/'] = y ++ [c] := by simpa using hz
      obtain ⟨rfl, rfl⟩ := List.append_singleton_inj.1 hc
      exact ⟨z, by simp, h1⟩
    · exact absurd h2 h1
  · intro h
    obtain ⟨y, rfl, h⟩ := h
    exact ⟨y ++ ['*'], '/', by simp, h, ⟨y, [], by simp⟩⟩

theorem runsOn_backtickScan_iff : backtickScan.runsOn () x = true ↔ '\x60' ∉ x := by
  induction x with
  | nil => simp [Scan.runsOn]
  | cons c x ih =>
    by_cases hc : c = '\x60'
    · simp [Scan.runsOn, backtickScan, hc]
    · simpa [Scan.runsOn, backtickScan, hc, Ne.symm hc] using ih

theorem ends_backtickScan_iff :
    backtickScan.ends () x = true ↔ ∃ y, x = y ++ ['\x60'] ∧ '\x60' ∉ y := by
  simp only [Scan.ends_iff, runsOn_backtickScan_iff, ← Bool.not_eq_true, not_not]
  constructor
  · intro h
    obtain ⟨y, c, rfl, h1, h2⟩ := h
    obtain rfl : '\x60' = c := by simpa [h1] using h2
    exact ⟨y, rfl, h1⟩
  · intro h
    obtain ⟨y, rfl, h⟩ := h
    exact ⟨y, '\x60', rfl, h, by simp⟩

theorem longest_iff {p : Char → Bool} :
    Longest p x rest ↔ Split.run p (x ++ rest) = ⟨x, rest⟩ := (Split.run_append_iff p x rest).symm

theorem exponent_of_append (h : exponent (x ++ rest) = ⟨x, rest⟩) : Exponent x rest := by
  rw [exponent_eq_takeOne] at h
  obtain ⟨e, u, rfl, he, h⟩ | ⟨hn, h⟩ := takeOne_append_iff.1 h
  · have he : e ∈ ['e', 'E'] := by simpa using he
    obtain ⟨s, digits, rfl, hs, h⟩ | ⟨hs, h⟩ := takeOne_append_iff.1 h
    · exact .signed he (by simpa using hs) (longest_iff.2 h)
    · exact .unsigned he (by simpa using hs) (longest_iff.2 h)
  · obtain ⟨rfl, -⟩ := Split.mk.inj h
    exact .missing (by simpa using hn)

theorem number_of_numberTail {c : Char} (hc : isDigit c)
    (h : numberTail c (x ++ rest) = ⟨x, rest⟩) : Number (c :: x) rest := by
  have hw (t : Text) :
      ((Split.run (fun d => isDigit d || d == '.') t).andThen exponent).whole = t := by
    rw [Split.whole_andThen _ _ whole_exponent, Split.whole_run]
  rw [numberTail_eq_takeOne] at h
  obtain ⟨u, unit, rfl, hu, hl⟩ :=
    (Split.andThen_append_iff (whole_takeOne _ (Split.whole_run _) hw)).1 h
  obtain ⟨x, digits, rfl, hx, hd⟩ | ⟨hx, h⟩ := takeOne_append_iff.1 hu
  · obtain ⟨rfl, hx⟩ := of_decide_eq_true hx
    exact .hexadecimal (by simpa using hx) (longest_iff.2 hd) (longest_iff.2 hl)
  · obtain ⟨digits, exponent, rfl, hd, he⟩ := (Split.andThen_append_iff (Split.whole_run _)).1 h
    rw [List.append_assoc]
    refine .decimal hc ?_ (longest_iff.2 hd) (exponent_of_append he) (longest_iff.2 hl)
    intro h0
    simpa [h0] using hx

theorem noLonger_of_single {c : Char} (hd : c :: rest.take 1 ∉ doubleOperators)
    (hp : c = '|' → rest.head? ≠ some '>' ∧ rest.head? ≠ some '|')
    (ht : c = '.' → rest.take 2 ≠ ['.', '.']) (hm : c = '-' → rest.head? ≠ some '-')
    (hs : c = '/' → rest.head? ≠ some '*') : NoLonger [c] rest := by
  intro x hx hr hl
  obtain ⟨d, x, rfl⟩ := List.exists_cons_of_ne_nil hx
  obtain ⟨u, rfl⟩ := hr
  rw [longSymbols, List.mem_append] at hl
  obtain hl | hl := hl
  · obtain rfl : x = [] := by
      cases x with
      | nil => rfl
      | cons e x => simp [doubleOperators] at hl
    exact hd hl
  · simp at *
    grind

theorem noLonger_of_length {t : Text} (ht : 2 ≤ t.length) (hn : t ≠ ['.', '.']) :
    NoLonger t rest := by
  intro x hx _ hl
  have hp := List.length_pos_iff.2 hx
  have hlong : ∀ u ∈ longSymbols, 3 ≤ u.length → u = ['.', '.', '.'] := by decide
  have he := hlong _ hl (by rw [List.length_append]; omega)
  have htwo : t.length = 2 := by
    have hlen := congrArg List.length he
    simp only [List.length_append, List.length_cons, List.length_nil] at hlen
    omega
  have htake : (t ++ x).take 2 = t := List.take_left' htwo
  rw [he] at htake
  exact hn htake.symm

theorem isKeyword_iff {t : Text} (ht : ∀ c ∈ t, isWordChar c) :
    isKeyword t = true ↔ String.ofList (t.map Char.toLower) ∈ keywords := by
  have hl : t.flatMap lowerChar = t.map Char.toLower := by
    rw [← List.flatMap_singleton' (t.map Char.toLower), List.flatMap_map]
    refine List.flatMap_congr ?_
    intro c hc
    have h1 : c ≠ '\u212a' := ne_of_class (ht c hc) rfl
    have h2 : c ≠ '\u0130' := ne_of_class (ht c hc) rfl
    simp [lowerChar, h1, h2]
  rw [isKeyword, hl, List.contains_iff_mem]

variable {allowed : Bool} {kind : Kind} {t : Text} {after : List Token}

theorem unclosed_of_runsOn (mark : Text) (hm : mark ∈ [[], ['f'], ['r']])
    (hq : isQuote q) (hx : (quoteScan q).runsOn false x = true) :
    Unclosed .string (mark ++ q :: x) := by
  obtain hx | ⟨y, hy, rfl⟩ := (runsOn_quoteScan_iff (ne_of_class hq rfl)).1 hx
  · exact .string hm hq hx
  · exact .stringEscape hm hq hy

theorem form_of_string (mark : Text) (hm : mark ∈ [[], ['f'], ['r']]) (hq : isQuote q)
    (hx : (quoteScan q).Delimits false x (after.flatMap text))
    (ha : after.flatMap text = [] → after = []) : Form after .string (mark ++ q :: x) := by
  obtain hx | ⟨hr, hx⟩ := hx
  · obtain ⟨y, hy, rfl⟩ := (ends_quoteScan_iff (ne_of_class hq rfl)).1 hx
    exact .string hm hq hy
  · exact .unclosed (unclosed_of_runsOn mark hm hq hx) (ha hr)

theorem Lexes.eq_nil {previous : Option Token} (h : Lexes previous after)
    (ha : after.flatMap text = []) : after = [] := by
  cases after with
  | nil => rfl
  | cons token after => exact absurd (List.append_eq_nil_iff.1 ha).1 h.1.ne_nil

theorem Lexes.head_not_whitespace {previous : Option Token} (h : Lexes previous after)
    (hb : (after.flatMap text).head?.all (!isBlank ·)) :
    after.head?.all (·.kind ≠ .whitespace) := by
  cases after with
  | nil => rfl
  | cons token after =>
    obtain ⟨c, x, hc⟩ := List.exists_cons_of_ne_nil h.1.ne_nil
    have hr := h.1
    simp only [List.head?_cons, Option.all_some, decide_eq_true_eq]
    intro hk
    rw [hk] at hr
    have hw := hr.of_whitespace.1 c (by simp [hc])
    simp [hc, hw] at hb

theorem Lexes.head_newline {previous : Option Token} (h : Lexes previous after)
    (hb : (after.flatMap text).head?.all (· == '\n')) : after.head?.all (·.kind = .newline) := by
  cases after with
  | nil => rfl
  | cons token after =>
    obtain ⟨c, x, hc⟩ := List.exists_cons_of_ne_nil h.1.ne_nil
    obtain rfl : c = '\n' := by simpa [hc] using hb
    simpa using h.1.kind_of_break (by simp [hc])

theorem isWordChar_of_startsWord {c : Char} (h : startsWord c) : isWordChar c := by
  simp only [startsWord, isWordChar, Bool.or_eq_true] at h ⊢
  obtain h | h := h
  · exact .inl (.inl h)
  · exact .inr h

theorem form_of_reads (h : Reads allowed kind t (after.flatMap text)) {previous : Option Token}
    (hl : Lexes previous after) : Form after kind t := by
  have ha := hl.eq_nil
  cases h with
  | newline => exact .newline
  | blanks hc hx hr =>
    exact .whitespace (by simp) (by simpa using ⟨hc, hx⟩) (hl.head_not_whitespace hr)
  | lineComment hx hr => exact .lineComment hx (hl.head_newline hr)
  | blockComment hx =>
    obtain hx | ⟨hr, hx⟩ := hx
    · obtain ⟨y, rfl, hy⟩ := ends_blockScan_iff.1 hx
      exact .blockComment hy
    · exact .unclosed (.blockComment ((runsOn_blockScan_iff false).1 hx)) (ha hr)
  | string hq hx => exact form_of_string [] (by simp) hq hx ha
  | @marked p q x _ hp hq hx => exact form_of_string [p] (by simpa using hp) hq hx ha
  | regex _ _ he hx =>
    obtain ⟨y, hy, rfl⟩ := (ends_quoteScan_iff (by decide)).1 he
    exact .regex (inRegex_of_inString hy fun hm => hx (List.mem_append_left _ hm))
  | number hc hx => exact .number (number_of_numberTail hc hx)
  | @word _ c x _ hc hx hr hf hk =>
    have hall : ∀ d ∈ c :: x, isWordChar d := by simpa using ⟨isWordChar_of_startsWord hc, hx⟩
    have hw := isKeyword_iff hall
    subst hk
    split
    · exact .keyword hc ⟨hx, hr⟩ (hw.1 ‹_›)
    · refine .identifier hc ⟨hx, hr⟩ ?_ (fun hm => ‹¬ _› (hw.2 hm))
      intro hm
      have hm : (c = 'f' ∨ c = 'r') ∧ x = [] := by simpa [← or_and_right] using hm
      exact hf hm.1 hm.2
  | backticks hx =>
    obtain hx | ⟨hr, hx⟩ := hx
    · obtain ⟨y, rfl, hy⟩ := ends_backtickScan_iff.1 hx
      exact .backticks hy
    · exact .unclosed (.backticks (runsOn_backtickScan_iff.1 hx)) (ha hr)
  | pipe h1 h2 =>
    refine .pipe (by simp) (noLonger_of_single (by simp [doubleOperators]) ?_ ?_ ?_ ?_)
    · exact fun _ => ⟨h1, h2⟩
    all_goals simp
  | pipeInto => exact .pipe (by simp) (noLonger_of_length (by simp) (by simp))
  | concat => exact .operator (by simp [operators]) (noLonger_of_length (by simp) (by simp))
  | spread => exact .operator (by simp [operators]) (noLonger_of_length (by simp) (by simp))
  | double hd =>
    have ht := (double_chars hd).2.2.1
    exact .operator (by simp [operators, hd]) (noLonger_of_length (by simp) (by simp [ht]))
  | single hc hd hm hs =>
    obtain ⟨-, hp, ht, -⟩ := single_char hc
    refine .operator (by simp [operators, hc]) (noLonger_of_single hd ?_ ?_ hm hs)
    · exact fun he => absurd he hp
    · exact fun he => absurd he ht
  | mark hc hp ho hd ht =>
    refine .punctuation hc hp ho (noLonger_of_single hd ?_ ht ?_ ?_)
    · exact fun he => absurd he hp
    · exact fun he => absurd (by simp [he, singleOperators]) ho
    · exact fun he => absurd (by simp [he, singleOperators]) ho

theorem Lexes.split {previous : Option Token} {before after : List Token} {token : Token}
    (h : Lexes previous (before ++ token :: after)) :
    Reads (allowsRegex (before.getLast?.or previous)) token.kind token.text
      (after.flatMap text) ∧ Lexes (some token) after := by
  induction before generalizing previous with
  | nil => exact h
  | cons first before ih =>
    have hi := ih h.2
    cases hb : before.getLast? <;> simpa [List.getLast?_cons, hb] using hi

/-- Every token of a text has the form of its kind. What runs to a closing mark ends with the
first one, or is the last token; everything else is as long as it can be. -/
theorem form_of_tokenize {t : Text} {before after : List Token} {token : Token}
    (h : tokenize t = before ++ token :: after) : Form after token.kind token.text := by
  have hl := lexes_lexFrom none t
  rw [← tokenize, h] at hl
  obtain ⟨hr, hl⟩ := hl.split
  exact form_of_reads hr hl

/-- A string whose last quote is taken along by a backslash goes on to the end of the text. -/
theorem form_of_tokenize_open :
    tokenize "1e--é\nr'it\\'s\\".toList =
        [⟨.number, "1e-".toList⟩, ⟨.operator, "-".toList⟩, ⟨.punctuation, "é".toList⟩,
          ⟨.newline, "\n".toList⟩] ++ ⟨.string, "r'it\\'s\\".toList⟩ :: [] ∧
      Form [] .string "r'it\\'s\\".toList := by
  have h : tokenize "1e--é\nr'it\\'s\\".toList =
      [⟨.number, "1e-".toList⟩, ⟨.operator, "-".toList⟩, ⟨.punctuation, "é".toList⟩,
        ⟨.newline, "\n".toList⟩] ++ ⟨.string, "r'it\\'s\\".toList⟩ :: [] := by decide +kernel
  exact ⟨h, form_of_tokenize h⟩

end QueryTidy.Token
