import QueryTidy.Proofs.Migration.Findings
import QueryTidy.Proofs.Migration.Weight

/-! Fixing a document again and again comes to an end, since every round in which something is
fixed makes the document lighter. Main statement: `exists_settled_round`. -/
namespace QueryTidy.Migration
open Position

/-- The edit stands in a text from `p` on, and makes it lighter. -/
def Mends (p : Position) (t : Text) (edit : Edit) : Prop :=
  ∃ a old c, t = a ++ (old ++ c) ∧ p.after a = edit.range.start ∧
    p.after (a ++ old) = edit.range.stop ∧ Lighter edit.newText old

variable {p q : Position} {t u v w x y rest old r : Text} {edit : Edit} {edits : List Edit}

theorem Mends.behind (h : Mends p (w ++ rest) edit) (hw : p.after w = q)
    (hq : q ≤ edit.range.start) : Mends q rest edit := by
  obtain ⟨a, old, c, ht, ha, hs, hl⟩ := h
  rw [← hw, ← ha] at hq
  obtain ⟨m, rfl, rfl⟩ := prefix_of_after_le ht hq
  refine ⟨m, old, c, rfl, ?_, ?_, hl⟩
  · rw [← hw, ← after_append, ha]
  · rw [← hw, ← after_append, ← List.append_assoc, hs]

theorem Mends.lighter {kept : Text} (h : Mends p (kept ++ (old ++ rest)) edit)
    (hk : p.after kept = edit.range.start) (ho : edit.range.start.after old = edit.range.stop) :
    Lighter edit.newText old := by
  obtain ⟨a, old', c, ht, ha, hs, hl⟩ := h
  obtain ⟨rfl, hr⟩ := eq_of_after_eq ht (hk.trans ha.symm)
  rw [after_append, ha, ← ho] at hs
  obtain ⟨rfl, -⟩ := eq_of_after_eq hr hs.symm
  exact hl

theorem weight_spliced (h : Edit.Spliced p t edits r) (hd : Edit.Disjoint edits)
    (hm : ∀ edit ∈ edits, Mends p t edit) (u : Text) :
    weight (u ++ r) + edits.length ≤ weight (u ++ t) := by
  -- `u` is what the edits before have left in front of `t`.
  induction h generalizing u with
  | done => simp
  | @replace p kept old rest edit edits r hk ho hr ih =>
    obtain ⟨hs, hd⟩ := List.pairwise_cons.1 hd
    have hl : Lighter edit.newText old := (hm edit List.mem_cons_self).lighter hk ho
    have hw : p.after (kept ++ old) = edit.range.stop := by rw [after_append, hk, ho]
    have hb : ∀ e ∈ edits, Mends edit.range.stop rest e := by
      intro e he
      have h := hm e (List.mem_cons_of_mem edit he)
      rw [← List.append_assoc] at h
      exact h.behind hw (hs e he)
    have h1 := ih hd hb (u ++ (kept ++ edit.newText))
    have h2 := hl (u ++ kept) rest
    simp only [List.append_assoc, List.length_cons] at *
    omega

theorem mends_of_mem_batchEdits (h : edit ∈ batchEdits (scan registry t)) :
    Mends .origin t edit := by
  obtain ⟨f, hf, hx⟩ := exists_of_mem_batchEdits h
  obtain ⟨rule, hr, capture, a, c, ht, ha, hs, hc, hn⟩ := exists_of_fix hf hx
  exact ⟨a, capture.matched, c, ht, ha, hs, lightens_of_mem_registry rule hr _ _ _ hc hn⟩

theorem weight_round (h : Edit.Spliced .origin t (batchEdits (scan registry t)).reverse r) :
    weight r + (batchEdits (scan registry t)).length ≤ weight t := by
  have hw := weight_spliced h (disjoint_batchEdits _)
    (fun edit he => mends_of_mem_batchEdits (List.mem_reverse.1 he)) []
  simpa using hw

theorem fix_eq_none_of_batchEdits {findings : List Finding} (h : batchEdits findings = []) :
    ∀ f ∈ findings, f.fix = none := by
  have hs : Fix.select findings = [] := by
    have hp := batchEdits_perm findings
    rw [h] at hp
    exact List.map_eq_nil_iff.1 hp.nil_eq.symm
  have hc : Fix.candidates findings = [] := by
    rw [Fix.select] at hs
    cases hc : Fix.candidates findings with
    | nil => rfl
    | cons fix fixes =>
      rw [hc, Fix.sweep] at hs
      simp [Fix.collides] at hs
  intro f hf
  have hm : findings.filterMap Fix.ofFinding? = [] := by
    have hp := List.mergeSort_perm (findings.filterMap Fix.ofFinding?) Fix.le
    rw [← Fix.candidates_eq, hc] at hp
    exact hp.nil_eq.symm
  simpa [Fix.ofFinding?] using List.filterMap_eq_nil_iff.1 hm f hf

def rounds (rules : List Rule) : Nat → Text → Except EditFault Text
  | 0, t => .ok t
  | n + 1, t => (Fixed.of rules t).bind (rounds rules n ·.text)

theorem exists_settled_of_weight (n : Nat) (t : Text) (hn : weight t ≤ n) :
    ∃ k ≤ n, ∃ s, rounds registry k t = .ok s ∧ batchEdits (scan registry s) = [] := by
  induction n generalizing t with
  | zero =>
    obtain ⟨r, hr⟩ := exists_spliced_scan registry t
    have hw := weight_round hr
    exact ⟨0, Nat.le_refl 0, t, rfl, List.length_eq_zero_iff.1 (by omega)⟩
  | succ n ih =>
    by_cases he : batchEdits (scan registry t) = []
    · exact ⟨0, Nat.zero_le _, t, rfl, he⟩
    · obtain ⟨r, hr⟩ := exists_spliced_scan registry t
      have hw := weight_round hr
      have hp := List.length_pos_iff.2 he
      obtain ⟨k, hk, s, hs, hb⟩ := ih r (by omega)
      refine ⟨k + 1, by omega, s, ?_, hb⟩
      rw [rounds, of_eq_ok_of_spliced hr]
      exact hs

/-- After some rounds, at most six for each character, fixing changes nothing, and then nothing
that is found can be fixed. -/
theorem exists_settled_round (t : Text) :
    ∃ n ≤ 6 * t.length, ∃ s fixed, rounds registry n t = .ok s ∧
      Fixed.of registry s = .ok fixed ∧ fixed.changed = false ∧
      ∀ f ∈ scan registry s, f.fix = none := by
  obtain ⟨n, hn, s, hs, hb⟩ := exists_settled_of_weight _ t (weight_le t)
  have hd : Edit.Spliced .origin s (batchEdits (scan registry s)).reverse s := by
    rw [hb]
    exact .done
  refine ⟨n, hn, s, _, hs, of_eq_ok_of_spliced hd, ?_, fix_eq_none_of_batchEdits hb⟩
  simp [Fixed.changed]

end QueryTidy.Migration
