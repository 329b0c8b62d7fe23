import QueryTidy.Token.Lexeme

/-! Tokens that run to a closing mark: strings, block comments, names in backticks and regular
expressions. A reader of one stops behind the first closing mark, or takes all there is. -/
namespace QueryTidy.Token

/-- What a search for a closing mark does with one character: it stops on the mark, or goes on
in another state. -/
abbrev Scan (σ : Type) := σ → Char → Option σ

namespace Scan
variable {σ : Type}

def ends (scan : Scan σ) : σ → Text → Bool
  | _, [] => false
  | s, c :: t =>
    match scan s c with
    | none => t.isEmpty
    | some s' => ends scan s' t

def runsOn (scan : Scan σ) : σ → Text → Bool
  | _, [] => true
  | s, c :: t =>
    match scan s c with
    | none => false
    | some s' => runsOn scan s' t

def read (scan : Scan σ) : σ → Text → Split
  | _, [] => ⟨[], []⟩
  | s, c :: t =>
    match scan s c with
    | none => ⟨[c], t⟩
    | some s' => (read scan s' t).after [c]

def Delimits (scan : Scan σ) (s : σ) (x rest : Text) : Prop :=
  scan.ends s x = true ∨ rest = [] ∧ scan.runsOn s x = true

theorem read_append_iff (scan : Scan σ) (s : σ) (x rest : Text) :
    scan.read s (x ++ rest) = ⟨x, rest⟩ ↔ scan.Delimits s x rest := by
  induction x generalizing s with
  | nil =>
    cases rest with
    | nil => simp [read, Delimits, runsOn]
    | cons c t =>
      have h : (scan.read s (c :: t)).taken ≠ [] := by
        cases hc : scan s c <;> simp [read, hc, Split.after]
      constructor
      · intro he
        rw [List.nil_append] at he
        simp [he] at h
      · simp [Delimits, ends]
  | cons c x ih =>
    cases hc : scan s c with
    | none => cases x <;> simp [read, hc, Delimits, ends, runsOn]
    | some s' =>
      have h := ih s'
      rw [Delimits] at h ⊢
      simp only [List.cons_append, read, hc, ends, runsOn, ← h]
      cases hr : scan.read s' (x ++ rest)
      simp [Split.after]

/-- A closed text stays closed whatever follows it; an open one needs the end of the text. -/
theorem Delimits.change_rest {scan : Scan σ} {s : σ} {x rest rest' : Text}
    (h : scan.Delimits s x rest) (hr : rest = [] → rest' = []) : scan.Delimits s x rest' := by
  obtain h | ⟨h, k⟩ := h
  · exact .inl h
  · exact .inr ⟨hr h, k⟩

end Scan

def quoteScan (quote : Char) : Scan Bool := fun escaped c =>
  if escaped then some false else if c = quote then none else some (c = '\\')

def blockScan : Scan Bool := fun starred c =>
  if starred && c == '/' then none else some (c = '*')

def backtickScan : Scan Unit := fun _ c => if c = '\x60' then none else some ()

theorem quotedTail_eq_read (quote : Char) (t : Text) :
    quotedTail quote t = (quoteScan quote).read false t := by
  fun_induction quotedTail quote t with
  | case1 => rfl
  | case2 c => simp [Scan.read, quoteScan, Split.after]; split <;> rfl
  | case3 d t => simp [Scan.read, quoteScan]
  | case4 d t hq ih => simp [Scan.read, quoteScan, hq, ih, Split.after]
  | case5 c d t hq hb ih =>
    have h : (quoteScan quote).read false (c :: d :: t) =
        ((quoteScan quote).read false (d :: t)).after [c] := by
      rw [Scan.read]
      simp [quoteScan, hq, hb]
    rw [h, ih]

theorem blockScan_read_true (t : Text) :
    blockScan.read true t =
      if t.head? = some '/' then Split.first 1 t else blockScan.read false t := by
  cases t with
  | nil => rfl
  | cons c t => by_cases h : c = '/' <;> simp [Scan.read, blockScan, h, Split.first]

theorem blockTail_eq_read (t : Text) : blockTail t = blockScan.read false t := by
  induction t with
  | nil => rfl
  | cons c t ih =>
    have h : blockScan.read false (c :: t) = (blockScan.read (c = '*') t).after [c] := by
      simp [Scan.read, blockScan]
    rw [blockTail, h]
    by_cases hc : c = '*'
    · simp only [hc, decide_true, blockScan_read_true, ih]
      split <;> simp_all
    · simp [hc, ih]

theorem backtickTail_eq_read (t : Text) : backtickTail t = backtickScan.read () t := by
  induction t with
  | nil => rfl
  | cons c t ih =>
    by_cases hc : c = '\x60'
    · simp [backtickTail, Split.run, Split.andThen, Split.first, Split.after, Scan.read,
        backtickScan, hc]
    · have h : backtickTail (c :: t) = (backtickTail t).after [c] := by
        simp [backtickTail, Split.run, Split.andThen, Split.first, Split.after, hc]
      rw [h, ih]
      simp [Scan.read, backtickScan, hc]

/-- Whether a slash stands on what is left of the line that no backslash takes along. -/
def slashAhead : Bool → Text → Bool
  | _, [] => false
  | escaped, c :: t =>
    if c = '\n' then false
    else if escaped then slashAhead false t
    else if c = '/' then true
    else slashAhead (c = '\\') t

theorem regexTail?_eq_read (t : Text) :
    regexTail? t = if slashAhead false t then some ((quoteScan '/').read false t) else none := by
  fun_induction regexTail? t with
  | case1 => rfl
  | case2 => rfl
  | case3 c hc => simp [slashAhead, hc]
  | case4 d t => simp [slashAhead, Scan.read, quoteScan]
  | case5 d t _ => simp [slashAhead]
  | case6 t _ _ => simp [slashAhead]
  | case7 d t hd _ _ ih =>
    rw [ih]
    cases h : slashAhead false t <;>
      simp [slashAhead, Scan.read, quoteScan, hd, h, Split.after]
  | case8 c d t hs hn hb ih =>
    have h : (quoteScan '/').read false (c :: d :: t) =
        ((quoteScan '/').read false (d :: t)).after [c] := by
      rw [Scan.read]
      simp [quoteScan, hs, hb]
    have ha : slashAhead false (c :: d :: t) = slashAhead false (d :: t) := by
      rw [slashAhead]
      simp [hs, hn, hb]
    rw [ih, h, ha]
    cases slashAhead false (d :: t) <;> rfl

theorem regexTail?_eq_none_iff (t : Text) : regexTail? t = none ↔ slashAhead false t = false := by
  simp [regexTail?_eq_read]

def slashState : Bool → Text → Option Bool
  | escaped, [] => some escaped
  | escaped, c :: t =>
    if c = '\n' then none
    else if escaped then slashState false t
    else if c = '/' then none
    else slashState (c = '\\') t

theorem slashAhead_append_of_some {s s' : Bool} {x : Text} (h : slashState s x = some s')
    (y : Text) : slashAhead s (x ++ y) = slashAhead s' y := by
  fun_induction slashState s x <;> simp_all [slashAhead]

theorem slashAhead_append_of_none {s : Bool} {x : Text} (h : slashState s x = none) (y : Text) :
    slashAhead s (x ++ y) = slashAhead s x := by
  fun_induction slashState s x <;> simp_all [slashAhead]

theorem getLast_of_slashState {s : Bool} {x : Text} (hx : x ≠ [])
    (h : slashState s x = some true) : x.getLast? = some '\\' := by
  induction x generalizing s with
  | nil => exact absurd rfl hx
  | cons c x ih =>
    cases x with
    | nil => cases s <;> simp_all [slashState]
    | cons d x =>
      rw [List.getLast?_cons_cons]
      rw [slashState] at h
      split at h
      · cases h
      split at h
      · exact ih (by simp) h
      split at h
      · cases h
      · exact ih (by simp) h

theorem slashAhead_cons_plain {c : Char} (hs : c ≠ '/') (hb : c ≠ '\\') (s : Bool) (y : Text) :
    slashAhead s (c :: y) = slashAhead false (c :: y) := by
  cases s <;> simp [slashAhead, hs, hb]

theorem slashAhead_append_of_ends {s : Bool} {x : Text} (h : (quoteScan '/').ends s x = true)
    (rest : Text) : slashAhead s (x ++ rest) = true ↔ '\n' ∉ x := by
  induction x generalizing s with
  | nil => simp [Scan.ends] at h
  | cons c x ih =>
    by_cases hn : c = '\n'
    · simp [slashAhead, hn]
    · cases s with
      | true =>
        simp only [Scan.ends, quoteScan, if_true] at h
        simpa [slashAhead, hn, Ne.symm hn] using ih h
      | false =>
        by_cases hs : c = '/'
        · simp_all [Scan.ends, quoteScan, slashAhead]
        · simp only [Scan.ends, quoteScan, Bool.false_eq_true, if_false, hs] at h
          simpa [slashAhead, hn, hs, Ne.symm hn] using ih h

theorem slashAhead_eq_false_of_runsOn {s : Bool} {x : Text}
    (h : (quoteScan '/').runsOn s x = true) : slashAhead s x = false := by
  induction x generalizing s with
  | nil => rfl
  | cons c x ih =>
    cases s with
    | true =>
      simp only [Scan.runsOn, quoteScan, if_true] at h
      simp [slashAhead, ih h]
    | false =>
      by_cases hs : c = '/'
      · simp [Scan.runsOn, quoteScan, hs] at h
      · simp only [Scan.runsOn, quoteScan, Bool.false_eq_true, if_false, hs] at h
        simp [slashAhead, hs, ih h]

/-- A regular expression is closed by a slash as a string is by its quote, and is on one line. -/
theorem regexTail?_append_iff (x rest : Text) :
    regexTail? (x ++ rest) = some ⟨x, rest⟩ ↔
      (quoteScan '/').ends false x = true ∧ '\n' ∉ x := by
  rw [regexTail?_eq_read]
  constructor
  · intro h
    split at h
    · rename_i hs
      obtain he | ⟨hr, ho⟩ := (Scan.read_append_iff _ _ _ _).1 (Option.some.inj h)
      · exact ⟨he, (slashAhead_append_of_ends he rest).1 hs⟩
      · rw [hr, List.append_nil, slashAhead_eq_false_of_runsOn ho] at hs
        cases hs
    · cases h
  · intro h
    obtain ⟨he, hn⟩ := h
    rw [if_pos ((slashAhead_append_of_ends he rest).2 hn)]
    exact congrArg some ((Scan.read_append_iff _ _ _ _).2 (.inl he))

end QueryTidy.Token
