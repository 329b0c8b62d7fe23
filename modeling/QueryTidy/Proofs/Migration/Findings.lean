import QueryTidy.Document
import QueryTidy.Proofs.Migration.Batch
import QueryTidy.Proofs.Migration.Matching

/-! Where findings stand. Every fix is for a construct of the text, so that all fixes of a document
can be applied. Main statements: `exists_match_of_fix`, `exists_of_fix`, `exists_spliced_scan`. -/
namespace QueryTidy

theorem Text.columnAt_length (u v : Text) : Text.columnAt (u ++ v) u.length = u.utf8Size := by
  rw [columnAt_natCast, List.take_left]

namespace Migration
open Position

variable {rules : List Rule} {rule : Rule} {number : Nat} {line t u rest : Text} {found : Match}
  {f : Finding} {edit : Edit}

theorem mem_findingsOn :
    f ∈ findingsOn rules number line ↔
      ∃ rule ∈ rules, ∃ found ∈ rule.pattern.matchesIn line,
        counts rule (commentStart line) found = true ∧ finding rule number line found = f := by
  simp [findingsOn, and_assoc]

theorem mem_findingsFrom {lines : List Text} :
    f ∈ findingsFrom rules number lines ↔
      ∃ l line, lines[l]? = some line ∧ f ∈ findingsOn rules (number + l) line := by
  induction lines generalizing number with
  | nil => simp [findingsFrom]
  | cons line lines ih =>
    rw [findingsFrom, List.mem_append, ih]
    constructor
    · intro h
      obtain h | ⟨l, line', hl, h⟩ := h
      · exact ⟨0, line, rfl, h⟩
      · have hn : number + 1 + l = number + (l + 1) := by omega
        exact ⟨l + 1, line', hl, hn ▸ h⟩
    · intro h
      obtain ⟨l, line', hl, h⟩ := h
      cases l with
      | zero =>
        obtain rfl : line = line' := by simpa using hl
        exact .inl h
      | succ l =>
        have hn : number + (l + 1) = number + 1 + l := by omega
        exact .inr ⟨l, line', by simpa using hl, hn ▸ h⟩

theorem mem_scan :
    f ∈ scan rules t ↔ ∃ l line, t.lines[l]? = some line ∧ f ∈ findingsOn rules l line := by
  simp [scan, mem_findingsFrom]

theorem exists_match_of_code {code : String} (hone : ∀ r ∈ rules, r.code = code → r = rule)
    (hf : f ∈ scan rules t) (hc : f.diagnostic.code = code) :
    ∃ l line, t.lines[l]? = some line ∧ ∃ found ∈ rule.pattern.matchesIn line,
      counts rule (commentStart line) found = true ∧ finding rule l line found = f := by
  obtain ⟨l, line, hl, hf⟩ := mem_scan.1 hf
  obtain ⟨r, hr, found, hm, hcounts, rfl⟩ := mem_findingsOn.1 hf
  obtain rfl := hone r hr hc
  exact ⟨l, line, hl, found, hm, hcounts, rfl⟩

theorem severity_of_mem_scan (hf : f ∈ scan rules t) :
    ∃ rule ∈ rules, f.diagnostic.severity = rule.severity := by
  obtain ⟨l, line, -, hf⟩ := mem_scan.1 hf
  obtain ⟨rule, hr, found, -, -, rfl⟩ := mem_findingsOn.1 hf
  exact ⟨rule, hr, rfl⟩

theorem severity_of_mem_sort (hs : ∀ rule ∈ rules, rule.severity ∈ Severity.numbered)
    {d : Diagnostic} (hd : d ∈ Diagnostic.sort ((scan rules t).map (·.diagnostic))) :
    d.severity ∈ Severity.numbered := by
  rw [Diagnostic.sort, List.mem_mergeSort] at hd
  obtain ⟨f, hf, rfl⟩ := List.mem_map.1 hd
  obtain ⟨rule, hr, he⟩ := severity_of_mem_scan hf
  rw [he]
  exact hs rule hr

theorem fix_finding (hl : line = u ++ (found.capture.matched ++ rest))
    (hs : found.start = u.length) :
    (finding rule number line found).fix =
      (rule.newText found.capture).map fun new =>
        ⟨.onLine number u.utf8Size found.capture.matched.utf8Size, new⟩ := by
  simp only [finding, hs, hl, Text.columnAt_length]

theorem exists_around_part {m : Text} (hl : t.lines[number]? = some (u ++ (m ++ rest))) :
    ∃ a b, t = a ++ (m ++ (rest ++ b)) ∧ '\n' ∉ m ∧ b.head?.all (· == '\n') ∧
      endOf a = ⟨number, u.utf8Size⟩ ∧ endOf (a ++ m) = ⟨number, u.utf8Size + m.utf8Size⟩ := by
  obtain ⟨a, b, ht, -, hp, hn, hb⟩ := Edit.exists_around_line hl
  have hline (v w : Text) (h : u ++ (m ++ rest) = v ++ w) :
      endOf (a ++ v) = ⟨number, v.utf8Size⟩ := by
    have hv : '\n' ∉ v := by
      intro hm
      exact hn (h ▸ List.mem_append_left w hm)
    have ha : endOf (a ++ v) = (endOf a).after v := after_append _ _ _
    have h0 : endOf a = ⟨number, 0⟩ := by simp [endOf, hp, origin]
    rw [ha, h0, after_on_line _ hv]
    simp
  refine ⟨a ++ u, b, by simp [ht], ?_, hb, hline u _ rfl, ?_⟩
  · intro hm
    exact hn (List.mem_append_right u (List.mem_append_left rest hm))
  · rw [List.append_assoc, hline _ rest (by simp), Text.utf8Size_append]

/-- A fix replaces what its finding was made from: a match on a line of the text. -/
theorem exists_match_of_fix (hf : f ∈ scan rules t) (he : f.fix = some edit) :
    ∃ rule ∈ rules, ∃ number line found a c, t.lines[number]? = some line ∧
      found ∈ rule.pattern.matchesIn line ∧ finding rule number line found = f ∧
      rule.newText found.capture = some edit.newText ∧
      t = a ++ (found.capture.matched ++ c) ∧
      endOf a = ⟨number, Text.utf8Size (line.take found.start)⟩ ∧
      endOf a = edit.range.start ∧ endOf (a ++ found.capture.matched) = edit.range.stop := by
  obtain ⟨l, line, hl, hf⟩ := mem_scan.1 hf
  obtain ⟨rule, hr, found, hm, -, rfl⟩ := mem_findingsOn.1 hf
  obtain ⟨u, rest, rfl, hs, -⟩ := Pattern.exists_of_mem_matchesIn hm
  obtain ⟨a, b, ht, -, -, h1, h2⟩ := exists_around_part hl
  rw [fix_finding rfl hs] at he
  obtain ⟨new, hw, rfl⟩ := Option.map_eq_some_iff.1 he
  refine ⟨rule, hr, l, _, found, a, rest ++ b, hl, hm, rfl, hw, ht, ?_, h1, h2⟩
  rw [h1, hs, List.take_left]

theorem exists_of_fix (hf : f ∈ scan rules t) (he : f.fix = some edit) :
    ∃ rule ∈ rules, ∃ capture a c, t = a ++ (capture.matched ++ c) ∧
      endOf a = edit.range.start ∧ endOf (a ++ capture.matched) = edit.range.stop ∧
      Construct rule.pattern capture.matched capture.argument ∧
      rule.newText capture = some edit.newText := by
  obtain ⟨rule, hr, _, _, found, a, c, -, hm, -, hw, ht, -, hs, hp⟩ := exists_match_of_fix hf he
  obtain ⟨-, -, -, -, hc⟩ := Pattern.exists_of_mem_matchesIn hm
  exact ⟨rule, hr, found.capture, a, c, ht, hs, hp, hc, hw⟩

theorem exists_of_mem_select {findings : List Finding} {fix : Fix}
    (h : fix ∈ Fix.select findings) : ∃ f ∈ findings, f.fix = some fix.edit := by
  have hc := (Fix.sweep_sublist none _).mem h
  rw [Fix.mem_candidates_iff, List.mem_filterMap] at hc
  obtain ⟨f, hf, hx⟩ := hc
  obtain ⟨edit, he, rfl⟩ := Option.map_eq_some_iff.1 hx
  exact ⟨f, hf, he⟩

theorem exists_of_mem_batchEdits {findings : List Finding}
    (h : edit ∈ batchEdits findings) : ∃ f ∈ findings, f.fix = some edit := by
  obtain ⟨fix, hf, rfl⟩ := List.mem_map.1 ((batchEdits_perm findings).mem_iff.1 h)
  exact exists_of_mem_select hf

theorem applyAll_batchEdits_iff {findings : List Finding} {r : Text} :
    Edit.applyAll t (batchEdits findings) = .ok r ↔
      Edit.Spliced .origin t (batchEdits findings).reverse r := by
  rw [← Edit.applyAll_reverse_eq_ok_iff (disjoint_batchEdits findings), List.reverse_reverse]

theorem of_eq_ok_of_spliced {r : Text}
    (h : Edit.Spliced .origin t (batchEdits (scan rules t)).reverse r) :
    Fixed.of rules t = .ok ⟨t, r, batchEdits (scan rules t),
      Diagnostic.sort ((scan rules r).map (·.diagnostic))⟩ := by
  simp only [Fixed.of, applyAll_batchEdits_iff.2 h]
  rfl

theorem ofRules_eq_ok {fixed : Fixed} (hv : Rule.validate rules = .ok ())
    (h : Fixed.of rules t = .ok fixed) : Fixed.ofRules rules t = .ok fixed := by
  simp only [Fixed.ofRules, hv, h]
  rfl

/-- All fixes of a document that do not conflict can be applied to it. -/
theorem exists_spliced_scan (rules : List Rule) (t : Text) :
    ∃ r, Edit.Spliced .origin t (batchEdits (scan rules t)).reverse r := by
  refine (Edit.exists_spliced_iff (disjoint_batchEdits _)).2 ?_
  intro edit he
  obtain ⟨f, hf, hx⟩ := exists_of_mem_batchEdits (List.mem_reverse.1 he)
  obtain ⟨-, -, capture, a, c, ht, hs, hp, -⟩ := exists_of_fix hf hx
  exact ⟨⟨a, _, ht, hs⟩, ⟨a ++ capture.matched, c, by simp [ht], hp⟩⟩

end Migration
end QueryTidy
