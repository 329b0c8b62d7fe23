import QueryTidy.Proofs.Migration.Lines

/-! Selecting fixes as the exhaustive choice does. The sweep keeps only the end of the last fix it
took, and this is enough to tell whether any fix it took contains a start. Main statement:
`select_eq_greedy`. -/
namespace QueryTidy

namespace Range

theorem contains_iff {r : Range} {p : Position} :
    r.contains p = true ↔ r.start ≤ p ∧ p < r.stop := by
  simp [contains]

theorem overlaps_eq_false_of_le {r s : Range} (h : r.stop ≤ s.start) : r.overlaps s = false := by
  simp [overlaps, ordering, h]

end Range

namespace Migration
open Position

section
variable {α β : Type} {range : α → Range} {accepted visited : List α} {a : α}

/-- Goes through what is to be visited, and accepts each range whose start is in none of those
accepted before. -/
def greedy (range : α → Range) (accepted : List α) : List α → List α
  | [] => accepted
  | a :: visited =>
    if accepted.any fun b => (range b).contains (range a).start then greedy range accepted visited
    else greedy range (accepted ++ [a]) visited

theorem map_greedy (f : α → β) (range : β → Range) (accepted visited : List α) :
    (greedy (fun a => range (f a)) accepted visited).map f =
      greedy range (accepted.map f) (visited.map f) := by
  induction visited generalizing accepted with
  | nil => rfl
  | cons a visited ih =>
    have hany : ((accepted.map f).any fun b => (range b).contains (range (f a)).start) =
        accepted.any fun b => (range (f b)).contains (range (f a)).start := List.any_map
    rw [greedy, List.map_cons, greedy, hany]
    split
    · exact ih accepted
    · simpa using ih (accepted ++ [a])

theorem mem_greedy_of_mem (h : a ∈ accepted) : a ∈ greedy range accepted visited := by
  induction visited generalizing accepted with
  | nil => exact h
  | cons b visited ih =>
    rw [greedy]
    split
    · exact ih h
    · exact ih (List.mem_append_left _ h)

theorem mem_greedy_or_contained {before : α → α → Prop}
    (hv : (accepted ++ visited).Pairwise before) (h : a ∈ visited) :
    a ∈ greedy range accepted visited ∨
      ∃ b ∈ greedy range accepted visited, before b a ∧
        (range b).contains (range a).start = true := by
  induction visited generalizing accepted with
  | nil => cases h
  | cons c visited ih =>
    rw [greedy]
    split
    · rename_i hany
      have hskip := hv.sublist ((List.sublist_cons_self c visited).append_left accepted)
      rcases List.mem_cons.1 h with rfl | h
      · obtain ⟨b, hb, hin⟩ := List.any_eq_true.1 hany
        have hba := (List.pairwise_append.1 hv).2.2 b hb a List.mem_cons_self
        exact .inr ⟨b, mem_greedy_of_mem hb, hba, hin⟩
      · exact ih hskip h
    · have htake : (accepted ++ [c] ++ visited).Pairwise before := by simpa using hv
      rcases List.mem_cons.1 h with rfl | h
      · exact .inl (mem_greedy_of_mem (List.mem_append_right _ (by simp)))
      · exact ih htake h

end

namespace Fix

def toFinding (fix : Fix) : Finding := ⟨fix.diagnostic, some fix.edit⟩

/-- The order in which fixes are visited. The number tells when a fix was found. -/
def Earlier (a b : Fix × Nat) : Prop :=
  a.1.edit.range.start < b.1.edit.range.start ∨
    a.1.edit.range.start = b.1.edit.range.start ∧
      (b.1.edit.range.stop < a.1.edit.range.stop ∨
        a.1.edit.range.stop = b.1.edit.range.stop ∧ a.2 < b.2)

structure LastOf (taken : List Fix) (lastStop : Option Position) : Prop where
  bound : ∀ fix ∈ taken, ∃ p ∈ lastStop, fix.edit.range.stop ≤ p
  attained : ∀ p ∈ lastStop, ∃ fix ∈ taken, fix.edit.range.stop = p

variable {taken fixes : List Fix} {lastStop : Option Position} {fix : Fix}

theorem ofFinding?_eq_some_iff {f : Finding} : ofFinding? f = some fix ↔ f = fix.toFinding := by
  obtain ⟨diagnostic, edit⟩ := f
  cases edit <;> cases fix <;> simp [ofFinding?, toFinding]

theorem filterMap_toFinding (fixes : List Fix) :
    (fixes.map toFinding).filterMap ofFinding? = fixes := by
  have h (fix : Fix) : ofFinding? fix.toFinding = some fix := ofFinding?_eq_some_iff.2 rfl
  simp [List.filterMap_map, h]

theorem collides_iff :
    collides lastStop fix = true ↔ ∃ p ∈ lastStop, fix.edit.range.start < p := by
  cases lastStop <;> simp [collides]

theorem any_contains_eq (hl : LastOf taken lastStop)
    (hs : ∀ b ∈ taken, b.edit.range.start ≤ fix.edit.range.start) :
    (taken.any fun b => b.edit.range.contains fix.edit.range.start) = collides lastStop fix := by
  rw [Bool.eq_iff_iff, List.any_eq_true, collides_iff]
  constructor
  · rintro ⟨b, hb, hc⟩
    obtain ⟨p, hp, hle⟩ := hl.bound b hb
    exact ⟨p, hp, lt_of_lt_of_le (Range.contains_iff.1 hc).2 hle⟩
  · rintro ⟨p, hp, hlt⟩
    obtain ⟨b, hb, rfl⟩ := hl.attained p hp
    exact ⟨b, hb, Range.contains_iff.2 ⟨hs b hb, hlt⟩⟩

theorem LastOf.take (hl : LastOf taken lastStop) (hc : collides lastStop fix = false) :
    LastOf (taken ++ [fix]) (some fix.edit.range.stop) where
  bound := by
    intro b hb
    refine ⟨_, rfl, ?_⟩
    rcases List.mem_append.1 hb with hb | hb
    · obtain ⟨p, hp, hle⟩ := hl.bound b hb
      have hp : p ≤ fix.edit.range.start := by
        apply not_lt.1
        intro hlt
        rw [collides_iff.2 ⟨p, hp, hlt⟩] at hc
        cases hc
      exact Position.le_trans hle (Position.le_trans hp fix.edit.range.ordered)
    · rw [List.mem_singleton.1 hb]
      exact Position.le_refl _
  attained := by
    intro p hp
    obtain rfl := Option.some.inj (Option.mem_def.1 hp)
    exact ⟨fix, by simp, rfl⟩

theorem greedy_eq_sweep (hl : LastOf taken lastStop)
    (hs : (taken ++ fixes).Pairwise fun a b => a.edit.range.start ≤ b.edit.range.start) :
    greedy (·.edit.range) taken fixes = taken ++ (sweep lastStop fixes).1 := by
  induction fixes generalizing taken lastStop with
  | nil => simp [greedy, sweep]
  | cons fix fixes ih =>
    have hle : ∀ b ∈ taken, b.edit.range.start ≤ fix.edit.range.start :=
      fun b hb => (List.pairwise_append.1 hs).2.2 b hb fix List.mem_cons_self
    rw [greedy, any_contains_eq hl hle, sweep]
    cases hc : collides lastStop fix with
    | true => exact ih hl (hs.sublist ((List.sublist_cons_self fix fixes).append_left taken))
    | false =>
      have htake := ih (hl.take hc) (by simpa using hs)
      simpa using htake

theorem start_le_of_le {a b : Fix} (h : le a b) : a.edit.range.start ≤ b.edit.range.start := by
  simp only [le_iff, lt_def, le_def, eq_iff] at *
  omega

theorem select_eq_greedy_candidates (findings : List Finding) :
    select findings = greedy (·.edit.range) [] (candidates findings) := by
  have hl : LastOf [] none := ⟨by simp, by simp⟩
  have hs := (candidates_sorted findings).imp start_le_of_le
  exact (greedy_eq_sweep hl hs).symm

theorem earlier_of_zipIdxLE {a b : Fix × Nat} (h : List.zipIdxLE le a b = true) (hn : a.2 ≠ b.2) :
    Earlier a b := by
  simp only [List.zipIdxLE, le_iff] at h
  split at h
  · split at h
    · have hi : a.2 ≤ b.2 := of_decide_eq_true h
      simp only [Earlier, lt_def, le_def, eq_iff] at *
      omega
    · simp only [Earlier, lt_def, le_def, eq_iff] at *
      omega
  · cases h

theorem exists_visited (findings : List Finding) :
    ∃ visited : List (Fix × Nat),
      visited.Perm (findings.filterMap ofFinding?).zipIdx ∧ visited.Pairwise Earlier ∧
        visited.map Prod.fst = candidates findings := by
  let numbered := (findings.filterMap ofFinding?).zipIdx
  have hp : (numbered.mergeSort (List.zipIdxLE le)).Perm numbered := List.mergeSort_perm _ _
  have hs := List.pairwise_mergeSort (List.zipIdxLE_trans le_trans) (List.zipIdxLE_total le_total)
    numbered
  -- The numbers differ, so that no two fixes are tied.
  have hn : numbered.Pairwise fun a b => a.2 ≠ b.2 := by
    apply List.pairwise_map.1
    rw [List.zipIdx_map_snd]
    exact List.nodup_range'
  have hn' := (hp.pairwise_iff Ne.symm).2 hn
  refine ⟨_, hp, (hs.and hn').imp ?_, List.mergeSort_zipIdx.trans (candidates_eq findings).symm⟩
  rintro a b ⟨hle, hne⟩
  exact earlier_of_zipIdxLE hle hne

theorem sweep_of_disjoint (h : Edit.Disjoint (fixes.map (·.edit))) :
    (sweep none fixes).1 = fixes := by
  induction fixes with
  | nil => rfl
  | cons fix fixes ih =>
    obtain ⟨hf, hd⟩ := List.pairwise_cons.1 h
    have hb : ∀ p ∈ some fix.edit.range.stop, ∀ later ∈ fixes, p ≤ later.edit.range.start := by
      intro p hp later hm
      obtain rfl := Option.some.inj (Option.mem_def.1 hp)
      exact hf _ (List.mem_map_of_mem hm)
    have hc : collides none fix = false := rfl
    rw [sweep, hc, sweep_of_behind hb]
    exact congrArg (fix :: ·) (ih hd)

theorem select_select (findings : List Finding) :
    select ((select findings).map toFinding) = select findings := by
  have hc : candidates ((select findings).map toFinding) = select findings := by
    rw [candidates_eq, filterMap_toFinding]
    exact List.mergeSort_of_pairwise (select_sorted findings)
  rw [select, hc]
  exact sweep_of_disjoint (disjoint_sweep none _)

theorem select_not_overlaps (findings : List Finding) :
    (select findings).Pairwise fun a b => a.edit.range.overlaps b.edit.range = false := by
  have hd : ((select findings).map (·.edit)).Pairwise _ := disjoint_sweep none _
  exact (List.pairwise_map.1 hd).imp Range.overlaps_eq_false_of_le

/-- The selection is what an exhaustive choice accepts, which visits the fixes by start, then from
the longest to the shortest, then as found, and looks at all ranges accepted so far. No two
selected ranges overlap, what is left out starts in a range that was visited and accepted before,
and selecting again changes nothing. -/
theorem select_eq_greedy (findings : List Finding) :
    ∃ visited : List (Fix × Nat),
      visited.Perm (findings.filterMap ofFinding?).zipIdx ∧ visited.Pairwise Earlier ∧
        let accepted := greedy (·.1.edit.range) [] visited
        select findings = accepted.map Prod.fst ∧
          (select findings).Pairwise
            (fun a b => a.edit.range.overlaps b.edit.range = false) ∧
          (∀ fix ∈ visited, fix ∉ accepted →
            ∃ first ∈ accepted, Earlier first fix ∧
              first.1.edit.range.contains fix.1.edit.range.start = true) ∧
          select ((select findings).map toFinding) = select findings := by
  obtain ⟨visited, hp, hv, hc⟩ := exists_visited findings
  refine ⟨visited, hp, hv, ?_, select_not_overlaps findings, ?_, select_select findings⟩
  · rw [select_eq_greedy_candidates, ← hc]
    exact (map_greedy Prod.fst _ [] visited).symm
  · intro fix hf hr
    exact (mem_greedy_or_contained hv hf).resolve_left hr

end Fix
end Migration
end QueryTidy
