import QueryTidy.Migration.FixAll
import QueryTidy.Proofs.Place.Splicing
import QueryTidy.Proofs.Sorting

/-! A batch of fixes replaces the ranges it has selected, all at once. Main statement:
`applyAll_batchEdits`. -/
namespace QueryTidy

namespace Migration
open Position

def insertsAt (p : Position) (edit : Edit) : Bool := edit.range = .emptyAt p

theorem insertsAt_iff {p : Position} {edit : Edit} :
    insertsAt p edit = true ↔ edit.range.start = p ∧ edit.range.stop = p := by
  obtain ⟨⟨start, stop, ordered⟩, newText⟩ := edit
  simp [insertsAt, Range.emptyAt]

namespace Fix

variable {lastStop : Option Position} {fixes : List Fix} {a b c fix : Fix}

def le : Fix → Fix → Bool :=
  lexicographic (fun a b => a.edit.range.start ≤ b.edit.range.start)
    (fun a b => b.edit.range.stop ≤ a.edit.range.stop)

theorem le_iff :
    le a b ↔ a.edit.range.start < b.edit.range.start ∨
      a.edit.range.start = b.edit.range.start ∧ b.edit.range.stop ≤ a.edit.range.stop := by
  simp only [le, lexicographic, Bool.and_eq_true, Bool.or_eq_true, Bool.not_eq_true',
    decide_eq_true_eq, decide_eq_false_iff_not, lt_def, le_def, eq_iff]
  omega

theorem candidates_eq (findings : List Finding) :
    candidates findings = (findings.filterMap ofFinding?).mergeSort le := by
  refine mergeSort_mergeSort ?_ ?_ ?_ ?_ _
  all_goals
    intros
    simp only [Bool.or_eq_true, decide_eq_true_eq, le_def] at *
    omega

theorem mem_candidates_iff {findings : List Finding} :
    fix ∈ candidates findings ↔ fix ∈ findings.filterMap ofFinding? := by
  rw [candidates_eq, List.mem_mergeSort]

theorem le_trans (a b c : Fix) (h : le a b) (k : le b c) : le a c := by
  simp only [le_iff, lt_def, le_def, eq_iff] at *
  omega

theorem le_total (a b : Fix) : le a b || le b a := by
  simp only [Bool.or_eq_true, le_iff, lt_def, le_def, eq_iff]
  omega

theorem sweep_sublist (lastStop : Option Position) (fixes : List Fix) :
    (sweep lastStop fixes).1.Sublist fixes := by
  induction fixes generalizing lastStop with
  | nil => exact .refl _
  | cons fix fixes ih =>
    rw [sweep]
    split
    · exact (ih lastStop).cons fix
    · exact (ih _).cons_cons fix

theorem le_start_of_mem_sweep {p : Position} (h : fix ∈ (sweep (some p) fixes).1) :
    p ≤ fix.edit.range.start := by
  induction fixes generalizing p with
  | nil => cases h
  | cons first fixes ih =>
    rw [sweep] at h
    split at h
    · exact ih h
    · rename_i hc
      have hp : p ≤ first.edit.range.start := not_lt.1 (by simpa [collides] using hc)
      obtain rfl | h := List.mem_cons.1 h
      · exact hp
      · exact Position.le_trans hp (Position.le_trans first.edit.range.ordered (ih h))

theorem disjoint_sweep (lastStop : Option Position) (fixes : List Fix) :
    Edit.Disjoint ((sweep lastStop fixes).1.map (·.edit)) := by
  induction fixes generalizing lastStop with
  | nil => exact .nil
  | cons fix fixes ih =>
    rw [sweep]
    split
    · exact ih lastStop
    · refine List.pairwise_cons.2 ⟨?_, ih _⟩
      intro edit h
      obtain ⟨later, hl, rfl⟩ := List.mem_map.1 h
      exact le_start_of_mem_sweep hl

variable {p : Position}

theorem insertsAt_or_lt (h : insertsAt p a.edit = true) (hl : le a b) :
    insertsAt p b.edit = true ∨ p < b.edit.range.start := by
  obtain ⟨h1, h2⟩ := insertsAt_iff.1 h
  rw [le_iff, h1, h2] at hl
  obtain hl | ⟨rfl, hl⟩ := hl
  · exact .inr hl
  · exact .inl (insertsAt_iff.2 ⟨rfl, Position.le_antisymm hl b.edit.range.ordered⟩)

theorem filter_eq_nil_of_lt (h : ∀ fix ∈ fixes, p < fix.edit.range.start) :
    fixes.filter (insertsAt p ·.edit) = [] := by
  refine List.filter_eq_nil_iff.2 ?_
  intro fix hf hi
  have hp := h fix hf
  rw [(insertsAt_iff.1 hi).1] at hp
  exact not_lt_self p hp

/-- Once an insertion is taken, so are all others at its position. -/
theorem filter_sweep_behind (h : insertsAt p a.edit = true) (hs : fixes.Pairwise fun a b => le a b)
    (ha : ∀ fix ∈ fixes, le a fix) :
    (sweep (some p) fixes).1.filter (insertsAt p ·.edit) =
      fixes.filter (insertsAt p ·.edit) := by
  induction fixes with
  | nil => rfl
  | cons fix fixes ih =>
    obtain ⟨hf, hs⟩ := List.pairwise_cons.1 hs
    obtain hi | hl := insertsAt_or_lt h (ha fix List.mem_cons_self)
    · obtain ⟨h1, h2⟩ := insertsAt_iff.1 hi
      have hc : collides (some p) fix = false := by simpa [collides, h1] using not_lt_self p
      have hr := ih hs fun fix hm => ha fix (List.mem_cons_of_mem _ hm)
      rw [sweep, hc, h2]
      simp [hi, hr]
    · have hall : ∀ later ∈ fix :: fixes, p < later.edit.range.start := by
        intro later hm
        obtain rfl | hm := List.mem_cons.1 hm
        · exact hl
        · have hle := hf later hm
          simp only [le_iff, lt_def, le_def, eq_iff] at hle hl ⊢
          omega
      rw [filter_eq_nil_of_lt hall]
      exact filter_eq_nil_of_lt fun later hm => hall later ((sweep_sublist _ _).mem hm)

theorem filter_sweep (hs : fixes.Pairwise fun a b => le a b) (lastStop : Option Position) :
    (sweep lastStop fixes).1.filter (insertsAt p ·.edit) = [] ∨
      (sweep lastStop fixes).1.filter (insertsAt p ·.edit) =
        fixes.filter (insertsAt p ·.edit) := by
  induction fixes generalizing lastStop with
  | nil => exact .inl rfl
  | cons fix fixes ih =>
    obtain ⟨hf, hs⟩ := List.pairwise_cons.1 hs
    cases hi : insertsAt p fix.edit with
    | false =>
      rw [sweep]
      split
      · simpa [hi] using ih hs lastStop
      · simpa [hi] using ih hs _
    | true =>
      obtain ⟨h1, h2⟩ := insertsAt_iff.1 hi
      rw [sweep]
      split
      · rename_i hc
        left
        cases lastStop with
        | none => cases hc
        | some q =>
          have hq : p < q := by simpa [collides, h1] using hc
          exact filter_eq_nil_of_lt fun later hm =>
            Position.lt_of_lt_of_le hq (le_start_of_mem_sweep hm)
      · right
        simp [hi, h2, filter_sweep_behind hi hs hf]

theorem candidates_sorted (findings : List Finding) :
    (candidates findings).Pairwise fun a b => le a b := by
  rw [candidates_eq]
  exact List.pairwise_mergeSort le_trans le_total _

theorem select_sorted (findings : List Finding) :
    (select findings).Pairwise fun a b => le a b :=
  (candidates_sorted findings).sublist (sweep_sublist none _)

theorem filter_candidates (p : Position) (findings : List Finding) :
    (candidates findings).filter (insertsAt p ·.edit) =
      (findings.filterMap ofFinding?).filter (insertsAt p ·.edit) := by
  rw [candidates_eq]
  refine filter_mergeSort le_trans le_total ?_ _
  intro a b ha hb
  obtain ⟨h1, h2⟩ := insertsAt_iff.1 ha
  obtain ⟨h3, h4⟩ := insertsAt_iff.1 hb
  rw [le_iff, h1, h2, h3, h4]
  exact .inr ⟨rfl, Position.le_refl p⟩

theorem map_edit_ofFinding (findings : List Finding) :
    (findings.filterMap ofFinding?).map (·.edit) = findings.filterMap (·.fix) := by
  induction findings with
  | nil => rfl
  | cons finding findings ih => cases hf : finding.fix <;> simp [ofFinding?, hf, ih]

theorem filter_select (p : Position) (findings : List Finding) :
    ((select findings).map (·.edit)).filter (insertsAt p) = [] ∨
      ((select findings).map (·.edit)).filter (insertsAt p) =
        (findings.filterMap (·.fix)).filter (insertsAt p) := by
  have hm (fixes : List Fix) : (fixes.map (·.edit)).filter (insertsAt p) =
      (fixes.filter (insertsAt p ·.edit)).map (·.edit) := List.filter_map
  obtain h | h := filter_sweep (p := p) (candidates_sorted findings) none
  · left
    rw [hm, select, h]
    rfl
  · right
    rw [hm, select, h, filter_candidates, ← hm, map_edit_ofFinding]

end Fix

theorem starts_trans (a b c : Edit) (h : decide (b.range.start ≤ a.range.start))
    (k : decide (c.range.start ≤ b.range.start)) : decide (c.range.start ≤ a.range.start) := by
  simp only [decide_eq_true_eq] at *
  exact Position.le_trans k h

theorem starts_total (a b : Edit) :
    decide (b.range.start ≤ a.range.start) || decide (a.range.start ≤ b.range.start) := by
  simp only [Bool.or_eq_true, decide_eq_true_eq, le_def]
  omega

theorem filter_fromTheEnd (p : Position) (edits : List Edit) :
    (fromTheEnd edits).filter (insertsAt p) = edits.filter (insertsAt p) := by
  refine filter_mergeSort starts_trans starts_total ?_ edits
  intro a b ha hb
  rw [(insertsAt_iff.1 ha).1, (insertsAt_iff.1 hb).1]
  exact decide_eq_true (Position.le_refl p)

theorem fromTheEnd_sorted (edits : List Edit) :
    (fromTheEnd edits).Pairwise fun a b => b.range.start ≤ a.range.start := by
  have h := List.pairwise_mergeSort starts_trans starts_total edits
  exact h.imp fun hab => of_decide_eq_true hab

/-- Of two edits, whichever does not start later ends before the other starts. -/
def Apart (a b : Edit) : Prop :=
  (a.range.start ≤ b.range.start → a.range.stop ≤ b.range.start) ∧
    (b.range.start ≤ a.range.start → b.range.stop ≤ a.range.start)

theorem select_apart (findings : List Finding) :
    ((Fix.select findings).map (·.edit)).Pairwise Apart := by
  have hd : ((Fix.select findings).map (·.edit)).Pairwise _ := Fix.disjoint_sweep none _
  rw [List.pairwise_map] at hd ⊢
  refine (hd.and (Fix.select_sorted findings)).imp ?_
  intro a b h
  obtain ⟨hab, hle⟩ := h
  refine ⟨fun _ => hab, ?_⟩
  intro hba
  have ha := a.edit.range.ordered
  simp only [Fix.le_iff, lt_def, le_def, eq_iff] at *
  omega

theorem batchEdits_perm (findings : List Finding) :
    (batchEdits findings).Perm ((Fix.select findings).map (·.edit)) :=
  List.mergeSort_perm _ _

theorem disjoint_batchEdits (findings : List Finding) :
    Edit.Disjoint (batchEdits findings).reverse := by
  have ha : (batchEdits findings).Pairwise Apart :=
    ((batchEdits_perm findings).pairwise_iff And.symm).2 (select_apart findings)
  refine List.pairwise_reverse.2 ((ha.and (fromTheEnd_sorted _)).imp ?_)
  intro a b h
  obtain ⟨hab, hs⟩ := h
  exact hab.2 hs

/-- A batch applies when the ends of all its ranges stand in the text. It then replaces these
ranges at once; of several insertions at one position, the last found comes first. -/
theorem applyAll_batchEdits (t : Text) (findings : List Finding) :
    let edits := (batchEdits findings).reverse
    edits.Perm ((Fix.select findings).map (·.edit)) ∧ Edit.Disjoint edits ∧
      (∀ p, edits.filter (insertsAt p) = [] ∨
        edits.filter (insertsAt p) =
          ((findings.filterMap (·.fix)).filter (insertsAt p)).reverse) ∧
      ((∃ r, Edit.applyAll t (batchEdits findings) = .ok r) ↔
        ∀ fix ∈ Fix.select findings,
          Edit.Resolves t fix.edit.range.start ∧ Edit.Resolves t fix.edit.range.stop) ∧
      ∀ r, Edit.applyAll t (batchEdits findings) = .ok r ↔ Edit.Spliced .origin t edits r := by
  intro edits
  have hp : edits.Perm ((Fix.select findings).map (·.edit)) :=
    (List.reverse_perm _).trans (batchEdits_perm findings)
  have hd : Edit.Disjoint edits := disjoint_batchEdits findings
  have hr (r : Text) :
      Edit.applyAll t (batchEdits findings) = .ok r ↔ Edit.Spliced .origin t edits r := by
    rw [← Edit.applyAll_reverse_eq_ok_iff hd, List.reverse_reverse]
  refine ⟨hp, hd, ?_, ?_, hr⟩
  · intro p
    rw [List.filter_reverse, batchEdits, filter_fromTheEnd]
    obtain h | h := Fix.filter_select p findings
    · exact .inl (by rw [h]; rfl)
    · exact .inr (by rw [h])
  · simp only [hr, Edit.exists_spliced_iff hd, Edit.resolves_iff]
    constructor
    · intro h fix hf
      exact h fix.edit (hp.mem_iff.2 (List.mem_map_of_mem hf))
    · intro h edit he
      obtain ⟨fix, hf, rfl⟩ := List.mem_map.1 (hp.mem_iff.1 he)
      exact h fix hf

end Migration
end QueryTidy
