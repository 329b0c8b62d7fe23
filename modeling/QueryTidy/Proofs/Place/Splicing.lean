import Mathlib.Data.List.Induction
import QueryTidy.Proofs.Place.Resolution

/-! Applying edits from the last to the first replaces all their ranges at once. Main statements:
`applyAll_reverse_eq_ok_iff`, `exists_spliced_iff`. -/
namespace QueryTidy.Edit
open Position

/-- In `Spliced p t edits r`, the text `t` starts at `p`, and `r` has the ranges of the edits
replaced from left to right and all else kept. -/
inductive Spliced : Position → Text → List Edit → Text → Prop
  | done {p t} : Spliced p t [] t
  | replace {p kept old rest edit edits r} :
      p.after kept = edit.range.start → edit.range.start.after old = edit.range.stop →
      Spliced edit.range.stop rest edits r →
      Spliced p (kept ++ (old ++ rest)) (edit :: edits) (kept ++ (edit.newText ++ r))

/-- Each edit ends before the next one starts. -/
def Disjoint (edits : List Edit) : Prop :=
  edits.Pairwise fun a b => a.range.stop ≤ b.range.start

variable {p : Position} {t r x : Text} {edit : Edit} {edits : List Edit}

theorem spliced_nil_iff : Spliced p t [] r ↔ r = t := by
  constructor
  · intro h
    cases h
    rfl
  · intro he
    subst he
    exact .done

theorem spliced_cons_iff :
    Spliced p t (edit :: edits) r ↔
      ∃ kept old rest s, t = kept ++ (old ++ rest) ∧ p.after kept = edit.range.start ∧
        edit.range.start.after old = edit.range.stop ∧
        Spliced edit.range.stop rest edits s ∧ r = kept ++ (edit.newText ++ s) := by
  constructor
  · intro h
    cases h with
    | replace hk ho hr => exact ⟨_, _, _, _, rfl, hk, ho, hr, rfl⟩
  · intro h
    obtain ⟨kept, old, rest, s, rfl, hk, ho, hr, rfl⟩ := h
    exact .replace hk ho hr

theorem spliced_append_iff {a : Text} (h : ∀ edit ∈ edits, edit.range.stop ≤ p.after a) :
    Spliced p (a ++ x) edits r ↔ ∃ s, Spliced p a edits s ∧ r = s ++ x := by
  induction edits generalizing p a r with
  | nil => simp [spliced_nil_iff]
  | cons edit edits ih =>
    have hb (kept old a' : Text) (ha : a = kept ++ (old ++ a'))
        (hk : p.after kept = edit.range.start)
        (ho : edit.range.start.after old = edit.range.stop) :
        ∀ e ∈ edits, e.range.stop ≤ edit.range.stop.after a' := by
      intro e he
      have := h e (List.mem_cons_of_mem edit he)
      rwa [ha, after_append, after_append, hk, ho] at this
    constructor
    · intro hs
      obtain ⟨kept, old, rest, s, ha, hk, ho, hr, rfl⟩ := spliced_cons_iff.1 hs
      have hle : p.after (kept ++ old) ≤ p.after a := by
        rw [after_append, hk, ho]
        exact h edit List.mem_cons_self
      obtain ⟨a', rfl, rfl⟩ := prefix_of_after_le ((List.append_assoc ..).trans ha.symm) hle
      obtain ⟨s, hs', rfl⟩ := (ih (hb kept old a' (by simp) hk ho)).1 hr
      refine ⟨kept ++ (edit.newText ++ s), ?_, by simp⟩
      rw [List.append_assoc]
      exact .replace hk ho hs'
    · intro h
      obtain ⟨s, hs, rfl⟩ := h
      obtain ⟨kept, old, rest, s, rfl, hk, ho, hr, rfl⟩ := spliced_cons_iff.1 hs
      have hx := (ih (hb kept old rest rfl hk ho)).2 ⟨s, hr, rfl⟩
      simpa using Spliced.replace hk ho hx

theorem spliced_concat_iff :
    Spliced p t (edits ++ [edit]) r ↔
      ∃ a b c s, t = a ++ (b ++ c) ∧ p.after a = edit.range.start ∧
        p.after (a ++ b) = edit.range.stop ∧ Spliced p a edits s ∧
        r = s ++ (edit.newText ++ c) := by
  induction edits generalizing p t r with
  | nil =>
    rw [List.nil_append, spliced_cons_iff]
    constructor
    · intro h
      obtain ⟨kept, old, rest, s, rfl, hk, ho, hr, rfl⟩ := h
      obtain rfl := spliced_nil_iff.1 hr
      exact ⟨kept, old, s, kept, rfl, hk, by rw [after_append, hk, ho], .done, rfl⟩
    · intro h
      obtain ⟨a, b, c, s, rfl, ha, hb, hs, rfl⟩ := h
      obtain rfl := spliced_nil_iff.1 hs
      rw [after_append, ha] at hb
      exact ⟨s, b, c, c, rfl, ha, hb, .done, rfl⟩
  | cons first edits ih =>
    rw [List.cons_append, spliced_cons_iff]
    constructor
    · intro h
      obtain ⟨kept, old, rest, s, rfl, hk, ho, hr, rfl⟩ := h
      obtain ⟨a, b, c, s, rfl, ha, hb, hs, rfl⟩ := ih.1 hr
      have hp (y : Text) : p.after (kept ++ (old ++ y)) = first.range.stop.after y := by
        rw [after_append, after_append, hk, ho]
      refine ⟨kept ++ (old ++ a), b, c, kept ++ (first.newText ++ s), by simp, ?_, ?_,
        .replace hk ho hs, by simp⟩
      · rw [hp, ha]
      · rw [List.append_assoc, List.append_assoc, hp, hb]
    · intro h
      obtain ⟨a, b, c, s, rfl, ha, hb, hs, rfl⟩ := h
      obtain ⟨kept, old, rest, s, rfl, hk, ho, hr, rfl⟩ := spliced_cons_iff.1 hs
      rw [after_append, ha] at hb
      rw [after_append, after_append, hk, ho] at ha
      refine ⟨kept, old, rest ++ (b ++ c), s ++ (edit.newText ++ c), by simp, hk, ho, ?_, by simp⟩
      exact ih.2 ⟨rest, b, c, s, rfl, ha, by rw [after_append, ha, hb], hr, rfl⟩

theorem applyAll_cons_eq_ok_iff :
    applyAll t (edit :: edits) = .ok r ↔ ∃ u, edit.apply t = .ok u ∧ applyAll u edits = .ok r := by
  rw [applyAll]
  cases edit.apply t <;> simp [Except.bind]

/-- Disjoint edits applied from the last to the first replace all their ranges at once. The last
edit leaves the text in front of it alone, so that the others find it as it was. -/
theorem applyAll_reverse_eq_ok_iff (h : Disjoint edits) :
    applyAll t edits.reverse = .ok r ↔ Spliced .origin t edits r := by
  induction edits using List.reverseRecOn generalizing t r with
  | nil => simp [applyAll, spliced_nil_iff, eq_comm]
  | append_singleton edits edit ih =>
    obtain ⟨hd, -, hs⟩ := List.pairwise_append.1 h
    have frame (a x : Text) (ha : endOf a = edit.range.start) :
        applyAll (a ++ x) edits.reverse = .ok r ↔ ∃ s, Spliced .origin a edits s ∧ r = s ++ x := by
      rw [ih hd]
      refine spliced_append_iff ?_
      intro e he
      change e.range.stop ≤ endOf a
      rw [ha]
      exact hs e he edit (by simp)
    rw [List.reverse_concat, applyAll_cons_eq_ok_iff, spliced_concat_iff]
    constructor
    · intro h
      obtain ⟨u, hu, hr⟩ := h
      obtain ⟨a, b, c, rfl, ha, hb, rfl⟩ := apply_eq_ok_iff.1 hu
      obtain ⟨s, hs, rfl⟩ := (frame a _ ha).1 hr
      exact ⟨a, b, c, s, rfl, ha, hb, hs, rfl⟩
    · intro h
      obtain ⟨a, b, c, s, rfl, ha, hb, hs, rfl⟩ := h
      exact ⟨_, apply_eq_ok_iff.2 ⟨a, b, c, rfl, ha, hb, rfl⟩, (frame a _ ha).2 ⟨s, hs, rfl⟩⟩

def Within (p : Position) (t : Text) (q : Position) : Prop := ∃ u v, t = u ++ v ∧ p.after u = q

theorem within_append_iff {q y : Position} {w rest : Text} (hw : p.after w = q) (hy : q ≤ y) :
    Within p (w ++ rest) y ↔ Within q rest y := by
  constructor
  · intro h
    obtain ⟨u, v, hu, rfl⟩ := h
    rw [← hw] at hy
    obtain ⟨m, rfl, rfl⟩ := prefix_of_after_le hu hy
    exact ⟨m, v, rfl, by rw [after_append, hw]⟩
  · intro h
    obtain ⟨u, v, rfl, rfl⟩ := h
    exact ⟨w ++ u, v, by simp, by rw [after_append, hw]⟩

/-- Disjoint edits can be spliced in when the ends of their ranges stand in the text. -/
theorem exists_spliced_iff (h : Disjoint edits) :
    (∃ r, Spliced p t edits r) ↔
      ∀ edit ∈ edits, Within p t edit.range.start ∧ Within p t edit.range.stop := by
  induction edits generalizing p t with
  | nil => simp [spliced_nil_iff]
  | cons edit edits ih =>
    obtain ⟨hs, hd⟩ := List.pairwise_cons.1 h
    -- Behind the first edit, the ends of the others stand in the rest of the text.
    have shift {w rest : Text} (hw : p.after w = edit.range.stop) {e : Edit} (he : e ∈ edits) :
        (Within p (w ++ rest) e.range.start ∧ Within p (w ++ rest) e.range.stop) ↔
          Within edit.range.stop rest e.range.start ∧ Within edit.range.stop rest e.range.stop := by
      rw [within_append_iff hw (hs e he),
        within_append_iff hw (le_trans (hs e he) e.range.ordered)]
    constructor
    · intro h
      obtain ⟨r, hr⟩ := h
      obtain ⟨kept, old, rest, s, rfl, hk, ho, hr, -⟩ := spliced_cons_iff.1 hr
      have hw : p.after (kept ++ old) = edit.range.stop := by rw [after_append, hk, ho]
      have hi := (ih hd).1 ⟨s, hr⟩
      intro e he
      obtain rfl | he := List.mem_cons.1 he
      · exact ⟨⟨kept, old ++ rest, rfl, hk⟩, ⟨kept ++ old, rest, by simp, hw⟩⟩
      · rw [← List.append_assoc]
        exact (shift hw he).2 (hi e he)
    · intro hall
      obtain ⟨⟨kept, x, rfl, hk⟩, ⟨v, rest, hv, hw⟩⟩ := hall edit List.mem_cons_self
      have ho := edit.range.ordered
      rw [← hk, ← hw] at ho
      obtain ⟨old, rfl, rfl⟩ := prefix_of_after_le hv ho
      have hi : ∀ e ∈ edits,
          Within edit.range.stop rest e.range.start ∧ Within edit.range.stop rest e.range.stop := by
        intro e he
        refine (shift hw he).1 ?_
        rw [List.append_assoc]
        exact hall e (List.mem_cons_of_mem edit he)
      obtain ⟨s, hs⟩ := (ih hd).2 hi
      rw [after_append, hk] at hw
      exact ⟨_, .replace hk hw hs⟩

end QueryTidy.Edit
