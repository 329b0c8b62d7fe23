/-! Stable sorting. A sorted list is settled by the order of its elements that are alike, so that
parts of a list which are apart can be sorted by themselves, and one key after another. Main
statements: `mergeSort_append`, `mergeSort_eq_of_perm`, `mergeSort_mergeSort`. -/
namespace QueryTidy

variable {α : Type} {le : α → α → Bool} {l m : List α}

theorem filter_mergeSort {same : α → Bool}
    (trans : ∀ a b c, le a b → le b c → le a c) (total : ∀ a b, le a b || le b a)
    (alike : ∀ a b, same a → same b → le a b) (l : List α) :
    (l.mergeSort le).filter same = l.filter same := by
  have hp : (l.filter same).Pairwise fun a b => le a b := by
    refine List.pairwise_iff_forall_sublist.2 ?_
    intro a b h
    have ha := List.mem_filter.1 (h.mem (a := a) (by simp))
    have hb := List.mem_filter.1 (h.mem (a := b) (by simp))
    exact alike a b ha.2 hb.2
  have hs := (List.sublist_mergeSort trans total hp List.filter_sublist).filter same
  rw [List.filter_filter] at hs
  simp only [Bool.and_self] at hs
  refine (hs.eq_of_length ?_).symm
  exact ((List.mergeSort_perm l le).filter same).length_eq.symm

/-- Neither of the two has to come first. -/
def tied (le : α → α → Bool) (a b : α) : Bool := le a b && le b a

theorem eq_of_filter_tied_eq (refl : ∀ a, le a a) (hl : l.Pairwise fun a b => le a b)
    (hm : m.Pairwise fun a b => le a b) (h : ∀ a, l.filter (tied le a) = m.filter (tied le a)) :
    l = m := by
  induction l generalizing m with
  | nil =>
    cases m with
    | nil => rfl
    | cons b m => simpa [tied, refl] using h b
  | cons a l ih =>
    cases m with
    | nil => simpa [tied, refl] using h a
    | cons b m =>
      obtain ⟨ha, hl'⟩ := List.pairwise_cons.1 hl
      obtain ⟨hb, hm'⟩ := List.pairwise_cons.1 hm
      -- Either head stands in the other list, behind that list's head or at it.
      have hba : b ∈ a :: l := by
        have hmem : b ∈ (b :: m).filter (tied le b) := by simp [tied, refl]
        rw [← h b] at hmem
        exact (List.mem_filter.1 hmem).1
      have hab : a ∈ b :: m := by
        have hmem : a ∈ (a :: l).filter (tied le a) := by simp [tied, refl]
        rw [h a] at hmem
        exact (List.mem_filter.1 hmem).1
      have h1 : le a b := by
        obtain rfl | hba := List.mem_cons.1 hba
        · exact refl b
        · exact ha b hba
      have h2 : le b a := by
        obtain rfl | hab := List.mem_cons.1 hab
        · exact refl a
        · exact hb a hab
      obtain ⟨rfl, -⟩ : a = b ∧ _ := by simpa [tied, refl, h1, h2] using h a
      have ht (c : α) : l.filter (tied le c) = m.filter (tied le c) := by
        have hc := h c
        rw [List.filter_cons, List.filter_cons] at hc
        split at hc
        · exact List.tail_eq_of_cons_eq hc
        · exact hc
      exact congrArg (a :: ·) (ih hl' hm' ht)

section

variable (trans : ∀ a b c, le a b → le b c → le a c) (total : ∀ a b, le a b || le b a)
include total

theorem le_self (a : α) : le a a := by
  simpa using total a a

include trans

theorem filter_tied_mergeSort (a : α) (l : List α) :
    (l.mergeSort le).filter (tied le a) = l.filter (tied le a) := by
  refine filter_mergeSort trans total ?_ l
  intro b c hb hc
  simp only [tied, Bool.and_eq_true] at hb hc
  exact trans b a c hb.2 hc.1

theorem mergeSort_append (h : ∀ a ∈ l, ∀ b ∈ m, le b a = false) :
    (l ++ m).mergeSort le = l.mergeSort le ++ m.mergeSort le := by
  refine eq_of_filter_tied_eq (le_self total) (List.pairwise_mergeSort trans total _) ?_ ?_
  · refine List.pairwise_append.2 ⟨List.pairwise_mergeSort trans total l,
      List.pairwise_mergeSort trans total m, ?_⟩
    intro a ha b hb
    have hab := total a b
    rw [h a (List.mem_mergeSort.1 ha) b (List.mem_mergeSort.1 hb)] at hab
    simpa using hab
  · intro a
    rw [List.filter_append, filter_tied_mergeSort trans total, filter_tied_mergeSort trans total,
      filter_tied_mergeSort trans total, List.filter_append]

theorem mergeSort_append_comm (h : ∀ a ∈ l, ∀ b ∈ m, le b a = false) :
    (m ++ l).mergeSort le = l.mergeSort le ++ m.mergeSort le := by
  rw [← mergeSort_append trans total h]
  refine eq_of_filter_tied_eq (le_self total) (List.pairwise_mergeSort trans total _)
    (List.pairwise_mergeSort trans total _) ?_
  intro c
  rw [filter_tied_mergeSort trans total, filter_tied_mergeSort trans total, List.filter_append,
    List.filter_append]
  by_cases hl : l.filter (tied le c) = []
  · simp [hl]
  · obtain ⟨a, ha⟩ := List.exists_mem_of_ne_nil _ hl
    obtain ⟨ha, hac⟩ := List.mem_filter.1 ha
    have hm : m.filter (tied le c) = [] := by
      refine List.filter_eq_nil_iff.2 ?_
      intro b hb hbc
      simp only [tied, Bool.and_eq_true] at hac hbc
      have hba := trans b c a hbc.2 hac.1
      rw [h a ha b hb] at hba
      cases hba
    simp [hm]

theorem mergeSort_eq_of_perm (anti : ∀ a ∈ l, ∀ b ∈ l, le a b → le b a → a = b) (h : l.Perm m) :
    l.mergeSort le = m.mergeSort le := by
  have hp : (l.mergeSort le).Perm (m.mergeSort le) :=
    (List.mergeSort_perm l le).trans (h.trans (List.mergeSort_perm m le).symm)
  refine hp.eq_of_pairwise ?_ (List.pairwise_mergeSort trans total l)
    (List.pairwise_mergeSort trans total m)
  intro a b ha hb
  exact anti a (List.mem_mergeSort.1 ha) b (h.mem_iff.2 (List.mem_mergeSort.1 hb))

end

def lexicographic (first second : α → α → Bool) (a b : α) : Bool :=
  first a b && (!first b a || second a b)

section

variable {first second : α → α → Bool}
  (trans₁ : ∀ a b c, first a b → first b c → first a c) (total₁ : ∀ a b, first a b || first b a)
  (trans₂ : ∀ a b c, second a b → second b c → second a c)
  (total₂ : ∀ a b, second a b || second b a)

include trans₁ trans₂ in
theorem lexicographic_trans (a b c : α) (h : lexicographic first second a b)
    (k : lexicographic first second b c) : lexicographic first second a c := by
  simp only [lexicographic, Bool.and_eq_true, Bool.or_eq_true, Bool.not_eq_true'] at *
  have h1 := trans₁ a b c h.1 k.1
  have h2 := trans₁ b c a k.1
  have h3 := trans₁ c a b
  have h4 := trans₂ a b c
  grind

include total₁ total₂ in
theorem lexicographic_total (a b : α) :
    lexicographic first second a b || lexicographic first second b a := by
  have h1 := total₁ a b
  have h2 := total₂ a b
  simp only [lexicographic]
  grind

include trans₁ total₁ trans₂ total₂

/-- Sorting by the second key and then by the first is sorting by both. -/
theorem mergeSort_mergeSort (l : List α) :
    (l.mergeSort second).mergeSort first = l.mergeSort (lexicographic first second) := by
  have trans := lexicographic_trans trans₁ trans₂
  have total := lexicographic_total total₁ total₂
  refine eq_of_filter_tied_eq (le_self total) ?_ (List.pairwise_mergeSort trans total l) ?_
  · refine List.pairwise_iff_forall_sublist.2 ?_
    intro a b h
    have hf := List.pairwise_iff_forall_sublist.1
      (List.pairwise_mergeSort trans₁ total₁ (l.mergeSort second)) h
    cases hb : first b a with
    | false => simp [lexicographic, hf, hb]
    | true =>
      -- The two are tied, so they stand as the first sort has left them.
      have hs := h.filter (tied first a)
      rw [filter_tied_mergeSort trans₁ total₁] at hs
      have hab : [a, b].filter (tied first a) = [a, b] := by
        simp [tied, hf, hb, le_self total₁]
      rw [hab] at hs
      have h2 := List.pairwise_iff_forall_sublist.1 (List.pairwise_mergeSort trans₂ total₂ l)
        (hs.trans List.filter_sublist)
      simp [lexicographic, hf, h2]
  · intro c
    have htied {a b : α} (ha : tied (lexicographic first second) c a)
        (hb : tied (lexicographic first second) c b) : first a b ∧ second a b := by
      simp only [tied, lexicographic, Bool.and_eq_true, Bool.or_eq_true, Bool.not_eq_true'] at ha hb
      have h1 := trans₁ a c b
      have h2 := trans₂ a c b
      grind
    rw [filter_tied_mergeSort trans total,
      filter_mergeSort trans₁ total₁ (fun a b ha hb => (htied ha hb).1),
      filter_mergeSort trans₂ total₂ (fun a b ha hb => (htied ha hb).2)]

end
end QueryTidy
