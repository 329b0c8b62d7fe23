import QueryTidy.Place.Edit

/-! Positions of a text against its prefixes. A position stands in a text when a prefix of the
text ends there, and an edit replaces what stands between two prefixes. Main statements:
`resolves_iff`, `apply_eq_ok_iff`. -/
namespace QueryTidy.Position

variable {p q : Position} {t u v x y : Text}

theorem after_append (p : Position) (t u : Text) : p.after (t ++ u) = (p.after t).after u :=
  List.foldl_append

theorem lt_of_lt_of_le {p q r : Position} (h : p < q) (k : q ≤ r) : p < r := by
  rw [lt_def] at h ⊢
  rw [le_def] at k
  omega

theorem not_lt_self (p : Position) : ¬ p < p := not_lt.2 (le_refl p)

theorem eq_iff : p = q ↔ p.line = q.line ∧ p.column = q.column := by
  obtain ⟨l, c⟩ := p
  obtain ⟨m, d⟩ := q
  simp

theorem le_antisymm (h : p ≤ q) (k : q ≤ p) : p = q := by
  rw [le_def] at h k
  rw [eq_iff]
  omega

theorem lt_step (p : Position) (c : Char) : p < p.step c := by
  have hc := c.utf8Size_pos
  rw [step, lt_def]
  split <;> simp
  omega

theorem lt_after (p : Position) (ht : t ≠ []) : p < p.after t := by
  cases t with
  | nil => exact absurd rfl ht
  | cons c t => exact lt_of_lt_of_le (lt_step p c) (le_after _ t)

theorem prefix_of_after_le (h : u ++ x = v ++ y) (hp : p.after u ≤ p.after v) :
    ∃ m, v = u ++ m ∧ x = m ++ y := by
  obtain ⟨m, rfl, rfl⟩ | ⟨m, rfl, rfl⟩ := List.append_eq_append_iff.1 h
  · exact ⟨m, rfl, rfl⟩
  · by_cases hm : m = []
    · exact ⟨[], by simp [hm], by simp [hm]⟩
    · rw [after_append] at hp
      exact absurd (lt_of_lt_of_le (lt_after _ hm) hp) (not_lt_self _)

theorem eq_of_after_eq (h : u ++ x = v ++ y) (hp : p.after u = p.after v) : u = v ∧ x = y := by
  have hle : p.after u ≤ p.after v := by
    rw [hp]
    exact le_refl _
  obtain ⟨m, rfl, rfl⟩ := prefix_of_after_le h hle
  by_cases hm : m = []
  · simp [hm]
  · have hlt := lt_after (p.after u) hm
    rw [← after_append, ← hp] at hlt
    exact absurd hlt (not_lt_self _)

theorem after_on_line (p : Position) (hn : '\n' ∉ t) :
    p.after t = ⟨p.line, p.column + t.utf8Size⟩ := by
  induction t generalizing p with
  | nil => rfl
  | cons c t ih =>
    obtain ⟨hc, ht⟩ : '\n' ≠ c ∧ '\n' ∉ t := by simpa using hn
    have hs : p.step c = ⟨p.line, p.column + c.utf8Size⟩ := if_neg hc.symm
    change (p.step c).after t = _
    rw [ih _ ht, hs, Text.utf8Size_cons, Nat.add_assoc]

theorem line_after (p : Position) (t : Text) : (p.after t).line = p.line + t.count '\n' := by
  induction t generalizing p with
  | nil => rfl
  | cons c t ih =>
    change ((p.step c).after t).line = _
    rw [ih, step]
    by_cases hc : c = '\n'
    · simp [hc]
      omega
    · simp [hc]

end QueryTidy.Position

namespace QueryTidy.Text

theorem utf8Size_eq_zero {t : Text} (h : t.utf8Size = 0) : t = [] := by
  cases t with
  | nil => rfl
  | cons c t =>
    have hc := c.utf8Size_pos
    rw [utf8Size_cons] at h
    omega

theorem utf8Size_take_lt {t : Text} {i j : Nat} (h : i < j) (hj : j ≤ t.length) :
    utf8Size (t.take i) < utf8Size (t.take j) := by
  have hs : t.take j = t.take i ++ (t.drop i).take (j - i) := by
    rw [← List.take_add]
    congr 1
    omega
  have hp : utf8Size ((t.drop i).take (j - i)) ≠ 0 := by
    intro hz
    have hl := congrArg List.length (utf8Size_eq_zero hz)
    simp only [List.length_take, List.length_drop, List.length_nil] at hl
    omega
  rw [hs, utf8Size_append]
  omega

theorem utf8Size_take_lt_iff {t : Text} {i j : Nat} (hi : i ≤ t.length) (hj : j ≤ t.length) :
    utf8Size (t.take i) < utf8Size (t.take j) ↔ i < j := by
  constructor
  · intro h
    apply Nat.lt_of_not_le
    intro hn
    obtain rfl | hlt := Nat.eq_or_lt_of_le hn
    · omega
    · have hgt := utf8Size_take_lt hlt hi
      omega
  · intro h
    exact utf8Size_take_lt h hj

theorem columnAt_natCast (line : Text) (i : Nat) : line.columnAt i = utf8Size (line.take i) := by
  have h : ¬ ((i : Int) < 0) := by omega
  simp [columnAt, upTo, h]

theorem charsIn_eq_some_iff {line : Text} {n i : Nat} :
    line.charsIn n = some i ↔ ∃ u v, line = u ++ v ∧ u.utf8Size = n ∧ u.length = i := by
  fun_induction charsIn line n generalizing i with
  | case1 line =>
    constructor
    · intro h
      exact ⟨[], line, rfl, rfl, Option.some.inj h⟩
    · intro h
      obtain ⟨u, v, rfl, hu, rfl⟩ := h
      simp [utf8Size_eq_zero hu]
  | case2 n =>
    constructor
    · simp
    · intro h
      obtain ⟨u, v, h, hu, -⟩ := h
      obtain ⟨rfl, -⟩ := List.append_eq_nil_iff.1 h.symm
      simp at hu
  | case3 c t n hc ih =>
    simp only [Option.map_eq_some_iff, ih]
    constructor
    · intro h
      obtain ⟨j, ⟨u, v, rfl, hu, rfl⟩, rfl⟩ := h
      refine ⟨c :: u, v, rfl, ?_, rfl⟩
      rw [utf8Size_cons]
      omega
    · intro h
      obtain ⟨u, v, h, hu, rfl⟩ := h
      cases u with
      | nil => simp at hu
      | cons d u =>
        obtain ⟨rfl, rfl⟩ := List.cons.inj h
        rw [utf8Size_cons] at hu
        exact ⟨u.length, ⟨u, v, rfl, by omega, rfl⟩, rfl⟩
  | case4 c t n hc =>
    constructor
    · simp
    · intro h
      obtain ⟨u, v, h, hu, -⟩ := h
      cases u with
      | nil => simp at hu
      | cons d u =>
        obtain ⟨rfl, rfl⟩ := List.cons.inj h
        rw [utf8Size_cons] at hu
        omega

theorem indexAt_eq_ok_iff {line : Text} {n i : Nat} :
    line.indexAt n = .ok i ↔ ∃ u v, line = u ++ v ∧ u.utf8Size = n ∧ u.length = i := by
  rw [← charsIn_eq_some_iff]
  unfold indexAt
  split
  · rename_i h
    have hn : line.utf8Size < n := by omega
    constructor
    · simp
    · intro hc
      obtain ⟨u, v, rfl, hu, -⟩ := charsIn_eq_some_iff.1 hc
      rw [utf8Size_append] at hn
      omega
  · rw [Int.toNat_natCast]
    cases charsIn line n <;> simp

theorem length_lines (t : Text) : t.lines.length = t.count '\n' + 1 := by
  induction t with
  | nil => rfl
  | cons c t ih =>
    rw [lines]
    split
    · rename_i hc
      simp [hc, ih]
    · rename_i hc
      simp [hc, ih]

end QueryTidy.Text

namespace QueryTidy.Edit
open Position

variable {t line : Text} {l i : Nat} {p : Position}

theorem exists_around_line (h : t.lines[l]? = some line) :
    ∃ a b, t = a ++ (line ++ b) ∧ a.length = lineOffset t.lines l ∧
      (∀ p : Position, p.after a = ⟨p.line + l, if l = 0 then p.column else 0⟩) ∧
      '\n' ∉ line ∧ b.head?.all (· == '\n') := by
  induction t generalizing l line with
  | nil =>
    cases l with
    | zero =>
      obtain rfl : [] = line := by simpa [Text.lines] using h
      exact ⟨[], [], rfl, rfl, fun _ => rfl, by simp, rfl⟩
    | succ l => simp [Text.lines] at h
  | cons c t ih =>
    rw [Text.lines] at h ⊢
    split at h
    · rename_i hc
      subst c
      rw [if_pos rfl]
      cases l with
      | zero =>
        obtain rfl : [] = line := by simpa using h
        exact ⟨[], '\n' :: t, rfl, rfl, fun _ => rfl, by simp, rfl⟩
      | succ l =>
        obtain ⟨a, b, rfl, hl, hp, hn, hb⟩ := ih (by simpa using h)
        refine ⟨'\n' :: a, b, rfl, ?_, ?_, hn, hb⟩
        · simp only [List.length_cons, lineOffset, hl, List.length_nil]
          omega
        · intro p
          change (p.step '\n').after a = _
          rw [hp]
          simp [step]
          omega
    · rename_i hc
      rw [if_neg hc]
      obtain ⟨m, ls, hm⟩ := List.exists_cons_of_ne_nil (Text.lines_ne_nil t)
      rw [hm, List.modifyHead_cons] at h
      cases l with
      | zero =>
        obtain rfl : c :: m = line := by simpa using h
        have h0 : (Text.lines t)[0]? = some m := by simp [hm]
        obtain ⟨a, b, ht, hl, -, hn, hb⟩ := ih h0
        obtain rfl : a = [] := by simpa [lineOffset] using hl
        refine ⟨[], b, by simp [ht], by simp [lineOffset], fun _ => rfl, ?_, hb⟩
        simp [hn, Ne.symm hc]
      | succ l =>
        have h1 : (Text.lines t)[l + 1]? = some line := by simpa [hm] using h
        obtain ⟨a, b, ht, hl, hp, hn, hb⟩ := ih h1
        refine ⟨c :: a, b, by simp [ht], ?_, ?_, hn, hb⟩
        · rw [hm, lineOffset] at hl
          rw [hm, List.modifyHead_cons, lineOffset, List.length_cons, List.length_cons, hl]
          omega
        · intro p
          change (p.step c).after a = _
          rw [hp]
          simp [step, hc]

theorem exists_append_of_on_line {m v b : Text} (h : line ++ b = m ++ v) (hm : '\n' ∉ m)
    (hb : b.head?.all (· == '\n')) : ∃ w, line = m ++ w := by
  obtain ⟨w, rfl, rfl⟩ | ⟨w, rfl, -⟩ := List.append_eq_append_iff.1 h
  · cases w with
    | nil => exact ⟨[], by simp⟩
    | cons c w =>
      obtain rfl : c = '\n' := by simpa using hb
      simp at hm
  · exact ⟨w, rfl⟩

/-- A prefix of the text ends on a line where a prefix of the line does. -/
theorem prefix_iff_on_line (h : t.lines[p.line]? = some line) :
    (∃ u v, t = u ++ v ∧ endOf u = p ∧ u.length = i) ↔
      ∃ u v, line = u ++ v ∧ u.utf8Size = p.column ∧
        lineOffset t.lines p.line + u.length = i := by
  obtain ⟨a, b, ht, hl, hp, hn, hb⟩ := exists_around_line h
  have ha : endOf a = ⟨p.line, 0⟩ := by simp [endOf, hp, origin]
  constructor
  · intro h
    obtain ⟨u, v, hu, he, rfl⟩ := h
    have hle : endOf a ≤ endOf u := by
      rw [ha, he, le_def]
      simp
    obtain ⟨m, rfl, hm⟩ := prefix_of_after_le (ht.symm.trans hu) hle
    have he' : (endOf a).after m = p := (after_append _ _ _).symm.trans he
    have hm' : '\n' ∉ m := by
      have hc := congrArg Position.line he'
      rw [line_after, ha] at hc
      exact List.count_eq_zero.1 (by simpa using hc)
    obtain ⟨w, rfl⟩ := exists_append_of_on_line hm hm' hb
    refine ⟨m, w, rfl, ?_, by simp [hl]⟩
    rw [after_on_line _ hm', ha] at he'
    simpa using congrArg Position.column he'
  · intro h
    obtain ⟨u, v, rfl, hu, rfl⟩ := h
    have hu' : '\n' ∉ u := fun hm => hn (List.mem_append_left v hm)
    refine ⟨a ++ u, v ++ b, by simp [ht], ?_, by simp [hl]⟩
    have hae : endOf (a ++ u) = (endOf a).after u := after_append _ _ _
    rw [hae, ha, after_on_line _ hu']
    obtain ⟨l, c⟩ := p
    simpa using hu

theorem line_endOf_lt {u v : Text} : (endOf u).line < (u ++ v).lines.length := by
  have h := line_after origin u
  rw [Text.length_lines, List.count_append]
  simp only [endOf, origin] at h ⊢
  omega

theorem locate_eq_ok_iff (hl : p.line < t.lines.length) :
    locate t.lines p = .ok i ↔ ∃ u v, t = u ++ v ∧ endOf u = p ∧ u.length = i := by
  have h : t.lines[p.line]? = some (t.lines.getD p.line []) := by
    simp [List.getD_eq_getElem?_getD, hl]
  rw [prefix_iff_on_line h, locate]
  constructor
  · intro hi
    cases hx : (t.lines.getD p.line []).indexAt p.column with
    | error fault =>
      rw [hx] at hi
      cases hi
    | ok j =>
      rw [hx] at hi
      obtain ⟨u, v, hu, hc, rfl⟩ := Text.indexAt_eq_ok_iff.1 hx
      exact ⟨u, v, hu, hc, Except.ok.inj hi⟩
  · intro h
    obtain ⟨u, v, hu, hc, rfl⟩ := h
    rw [Text.indexAt_eq_ok_iff.2 ⟨u, v, hu, hc, rfl⟩]
    rfl

def Resolves (t : Text) (p : Position) : Prop :=
  ∃ line, t.lines[p.line]? = some line ∧ ∃ u v, line = u ++ v ∧ u.utf8Size = p.column

theorem resolves_iff : Resolves t p ↔ ∃ u v, t = u ++ v ∧ endOf u = p := by
  constructor
  · intro h
    obtain ⟨line, hl, u, v, hu, hc⟩ := h
    obtain ⟨u, v, ht, hp, -⟩ := (prefix_iff_on_line hl).2 ⟨u, v, hu, hc, rfl⟩
    exact ⟨u, v, ht, hp⟩
  · intro h
    obtain ⟨u, v, rfl, rfl⟩ := h
    have hl := List.getElem?_eq_getElem (line_endOf_lt (u := u) (v := v))
    obtain ⟨x, y, hx, hc, -⟩ := (prefix_iff_on_line hl).1 ⟨u, v, rfl, rfl, rfl⟩
    exact ⟨_, hl, x, y, hx, hc⟩

/-- An edit takes out what stands between the prefixes that end where its range does. -/
theorem apply_eq_ok_iff {edit : Edit} {r : Text} :
    edit.apply t = .ok r ↔
      ∃ a b c, t = a ++ (b ++ c) ∧ endOf a = edit.range.start ∧
        endOf (a ++ b) = edit.range.stop ∧ r = a ++ (edit.newText ++ c) := by
  have hline : edit.range.start.line ≤ edit.range.stop.line := by
    have ho := edit.range.ordered
    rw [le_def] at ho
    omega
  constructor
  · intro h
    simp only [apply] at h
    split at h
    · cases h
    rename_i hl
    cases hs : locate t.lines edit.range.start with
    | error fault => simp [hs] at h
    | ok i =>
      cases he : locate t.lines edit.range.stop with
      | error fault => simp [hs, he] at h
      | ok j =>
        obtain ⟨a, x, rfl, ha, rfl⟩ := (locate_eq_ok_iff (by omega)).1 hs
        obtain ⟨v, c, hv, hb, rfl⟩ := (locate_eq_ok_iff (by omega)).1 he
        have ho := edit.range.ordered
        rw [← ha, ← hb] at ho
        obtain ⟨b, rfl, rfl⟩ := prefix_of_after_le hv ho
        refine ⟨a, b, c, rfl, ha, hb, ?_⟩
        simpa [hs, he, eq_comm] using h
  · intro h
    obtain ⟨a, b, c, rfl, ha, hb, rfl⟩ := h
    have hl : edit.range.stop.line < (a ++ (b ++ c)).lines.length := by
      rw [← hb, ← List.append_assoc]
      exact line_endOf_lt
    have hs : locate (a ++ (b ++ c)).lines edit.range.start = .ok a.length :=
      (locate_eq_ok_iff (by omega)).2 ⟨a, _, rfl, ha, rfl⟩
    have he : locate (a ++ (b ++ c)).lines edit.range.stop = .ok (a ++ b).length :=
      (locate_eq_ok_iff hl).2 ⟨a ++ b, c, by simp, hb, rfl⟩
    simp only [apply, hs, he, if_neg (Nat.not_le_of_lt hl)]
    simp

end QueryTidy.Edit
