import QueryTidy.Migration.Action
import QueryTidy.Proofs.Migration.Findings

/-! The action for all findings against fixing a document. Both see the same findings, since no two
findings have one code and one range. Main statements: `distinctKeys_scan`, `offer_fixAll`. -/
namespace QueryTidy.Migration

variable {rules : List Rule} {rule : Rule} {number : Nat} {line : Text} {found : Match}
  {f : Finding}

theorem unreported_append (suffix : Option Text) (matched : Text) :
    ∃ rest, matched = unreported suffix matched ++ rest := by
  unfold unreported
  split
  · exact ⟨matched, rfl⟩
  · split
    · exact ⟨_, (List.take_append_drop _ matched).symm⟩
    · exact ⟨matched, rfl⟩

theorem stop_finding (number : Nat) (h : found ∈ rule.pattern.matchesIn line) :
    found.stop ≤ line.length ∧
      (finding rule number line found).diagnostic.range.stop =
        ⟨number, Text.utf8Size (line.take found.stop)⟩ := by
  obtain ⟨u, rest, rfl, hs, -⟩ := Pattern.exists_of_mem_matchesIn h
  obtain ⟨tail, ht⟩ := unreported_append rule.reportedTail found.capture.matched
  have hsize := congrArg Text.utf8Size ht
  have htake : (u ++ (found.capture.matched ++ rest)).take found.stop =
      u ++ found.capture.matched := by
    rw [← List.append_assoc]
    exact List.take_left' (by simp [Match.stop, hs])
  refine ⟨by simp [Match.stop, hs], ?_⟩
  rw [Text.utf8Size_append] at hsize
  simp only [finding, Range.onLine, hs, Text.columnAt_length, htake, Text.utf8Size_append]
  congr 1
  omega

theorem sameKey_iff {d e : Diagnostic} :
    d.sameKey e = true ↔ d.code = e.code ∧ d.range = e.range := by
  simp [Diagnostic.sameKey]

def DistinctKeys (findings : List Finding) : Prop :=
  findings.Pairwise fun f g => ¬ f.diagnostic.sameKey g.diagnostic = true

theorem distinctKeys_rule (rule : Rule) (number : Nat) (line : Text) :
    DistinctKeys ((rule.pattern.matchesIn line).map (finding rule number line)) := by
  refine List.pairwise_map.2 (List.Pairwise.imp_of_mem ?_ (rule.pattern.stop_lt_stop line))
  intro m n hm hn hlt hk
  obtain ⟨-, h1⟩ := stop_finding number hm
  obtain ⟨hl, h2⟩ := stop_finding number hn
  have hc := Text.utf8Size_take_lt hlt hl
  have hr := congrArg Range.stop (sameKey_iff.1 hk).2
  rw [h1, h2] at hr
  have hcol := congrArg Position.column hr
  simp only at hcol
  omega

theorem distinctKeys_findingsOn (h : rules.Pairwise fun r s => r.code ≠ s.code) (number : Nat)
    (line : Text) : DistinctKeys (findingsOn rules number line) := by
  refine List.pairwise_flatMap.2 ⟨?_, h.imp ?_⟩
  · intro rule _
    exact (distinctKeys_rule rule number line).sublist (List.filter_sublist.map _)
  · intro r s hrs f hf g hg hk
    obtain ⟨m, -, rfl⟩ := List.mem_map.1 hf
    obtain ⟨n, -, rfl⟩ := List.mem_map.1 hg
    exact hrs (sameKey_iff.1 hk).1

theorem line_of_mem_findingsOn (h : f ∈ findingsOn rules number line) :
    f.diagnostic.range.start.line = number := by
  obtain ⟨rule, -, found, -, -, rfl⟩ := mem_findingsOn.1 h
  rfl

theorem distinctKeys_findingsFrom (h : rules.Pairwise fun r s => r.code ≠ s.code) (number : Nat)
    (lines : List Text) : DistinctKeys (findingsFrom rules number lines) := by
  induction lines generalizing number with
  | nil => exact .nil
  | cons line lines ih =>
    refine List.pairwise_append.2 ⟨distinctKeys_findingsOn h number line, ih (number + 1), ?_⟩
    intro f hf g hg hk
    obtain ⟨l, _, -, hg⟩ := mem_findingsFrom.1 hg
    have hl := congrArg (·.start.line) (sameKey_iff.1 hk).2
    simp only [line_of_mem_findingsOn hf, line_of_mem_findingsOn hg] at hl
    omega

def Rule.IsSound (rule : Rule) : Prop :=
  ¬ (rule.replacement.isSome ∧ rule.substitution.isSome) ∧ rule.reportedTail ≠ some []

theorem faultFrom?_eq_none_iff {seen : List String} :
    Rule.faultFrom? seen rules = none ↔
      (∀ rule ∈ rules, rule.code ∉ seen) ∧ (∀ rule ∈ rules, rule.IsSound) ∧
        rules.Pairwise fun r s => r.code ≠ s.code := by
  induction rules generalizing seen with
  | nil => simp [Rule.faultFrom?]
  | cons rule rules ih =>
    have hhead : Rule.faultFrom? seen (rule :: rules) = none ↔
        rule.code ∉ seen ∧ rule.IsSound ∧ Rule.faultFrom? (rule.code :: seen) rules = none := by
      rw [Rule.faultFrom?, Rule.IsSound, ← Bool.and_eq_true, List.contains_eq_mem]
      split_ifs <;> simp_all
    rw [hhead, ih, List.pairwise_cons]
    grind

theorem validate_eq_ok_iff :
    Rule.validate rules = .ok () ↔
      (∀ rule ∈ rules, rule.IsSound) ∧ rules.Pairwise fun r s => r.code ≠ s.code := by
  have h : Rule.validate rules = .ok () ↔ Rule.faultFrom? [] rules = none := by
    rw [Rule.validate]
    split <;> simp_all
  rw [h, faultFrom?_eq_none_iff]
  simp

/-- Under rules that are accepted, a code and a range name one finding. -/
theorem distinctKeys_scan (h : Rule.validate rules = .ok ()) (t : Text) :
    DistinctKeys (scan rules t) :=
  distinctKeys_findingsFrom (validate_eq_ok_iff.1 h).2 0 t.lines

namespace Action

theorem foldl_keep (kept findings : List Finding) (h : DistinctKeys (kept ++ findings)) :
    findings.foldl (fun kept f =>
      if kept.any (·.diagnostic.sameKey f.diagnostic) then kept else kept ++ [f]) kept =
      kept ++ findings := by
  induction findings generalizing kept with
  | nil => simp
  | cons f findings ih =>
    have hf : kept.any (·.diagnostic.sameKey f.diagnostic) = false := by
      refine List.any_eq_false.2 ?_
      intro g hg
      exact (List.pairwise_append.1 h).2.2 g hg f List.mem_cons_self
    rw [List.foldl_cons, hf]
    have hi := ih (kept ++ [f]) (by simpa using h)
    simpa using hi

theorem fixable_eq (h : Rule.validate rules = .ok ()) (t : Text) :
    fixable rules t = (scan rules t).filter (·.fix.isSome) :=
  foldl_keep [] _ ((distinctKeys_scan h t).sublist List.filter_sublist)

theorem select_filter (findings : List Finding) :
    Fix.select (findings.filter (·.fix.isSome)) = Fix.select findings := by
  have h : (findings.filter (·.fix.isSome)).filterMap Fix.ofFinding? =
      findings.filterMap Fix.ofFinding? := by
    rw [List.filterMap_filter]
    congr 1
    funext f
    cases hf : f.fix <;> simp [Fix.ofFinding?, hf]
  rw [Fix.select, Fix.select, Fix.candidates_eq, Fix.candidates_eq, h]

theorem kind_of_mem_quick {document : String} {findings : List Finding}
    {requested : List Diagnostic} {action : Action}
    (h : action ∈ requested.filterMap fun d =>
      ((findings.find? (·.diagnostic.sameKey d)).bind Fix.ofFinding?).map (quickFix document)) :
    action.kind = .quickFix := by
  obtain ⟨d, -, h⟩ := List.mem_filterMap.1 h
  obtain ⟨fix, -, rfl⟩ := Option.map_eq_some_iff.1 h
  rfl

theorem mem_offer_fixAll_iff {document : String} {t : Text} {requested : List Diagnostic}
    (h : Rule.validate rules = .ok ()) {action : Action} :
    (action ∈ offer document t requested rules ∧ action.kind = .fixAll) ↔
      2 ≤ (scan rules t).countP (·.fix.isSome) ∧ action = fixAll document (scan rules t) := by
  have hf : fixAll document (fixable rules t) = fixAll document (scan rules t) := by
    rw [fixable_eq h, fixAll, fixAll, batchEdits, select_filter]
    rfl
  have hn : (fixable rules t).length = (scan rules t).countP (·.fix.isSome) := by
    rw [fixable_eq h, List.countP_eq_length_filter]
  simp only [offer, hf, hn]
  split
  · rename_i hlt
    constructor
    · intro ha
      obtain ⟨ha, hk⟩ := ha
      obtain ha | ha := List.mem_append.1 ha
      · rw [kind_of_mem_quick ha] at hk
        cases hk
      · exact ⟨hlt, List.mem_singleton.1 ha⟩
    · intro ha
      obtain ⟨-, rfl⟩ := ha
      exact ⟨List.mem_append_right _ List.mem_cons_self, rfl⟩
  · rename_i hlt
    constructor
    · intro ha
      obtain ⟨ha, hk⟩ := ha
      rw [kind_of_mem_quick ha] at hk
      cases hk
    · intro ha
      exact absurd ha.1 hlt

/-- The action for all findings is offered when at least two findings can be mended. It makes the
edits of the batch, which turn the text into what fixing it gives, and names the findings that
were selected for it. -/
theorem offer_fixAll {rules : List Rule} (h : Rule.validate rules = .ok ()) (document : String)
    (t : Text) (requested : List Diagnostic) :
    ((∃ action ∈ offer document t requested rules, action.kind = .fixAll) ↔
      2 ≤ (scan rules t).countP (·.fix.isSome)) ∧
    ∀ action ∈ offer document t requested rules, action.kind = .fixAll →
      action.document = document ∧ action.edits = batchEdits (scan rules t) ∧
      action.diagnostics = (Fix.select (scan rules t)).map (·.diagnostic) ∧
      ∃ fixed, Fixed.ofRules rules t = .ok fixed ∧
        Edit.applyAll t action.edits = .ok fixed.text := by
  refine ⟨?_, ?_⟩
  · constructor
    · intro ha
      obtain ⟨action, ha, hk⟩ := ha
      exact ((mem_offer_fixAll_iff h).1 ⟨ha, hk⟩).1
    · intro hn
      obtain ⟨ha, hk⟩ := (mem_offer_fixAll_iff h).2 ⟨hn, rfl⟩
      exact ⟨_, ha, hk⟩
  · intro action ha hk
    obtain ⟨-, rfl⟩ := (mem_offer_fixAll_iff h).1 ⟨ha, hk⟩
    obtain ⟨r, hr⟩ := exists_spliced_scan rules t
    exact ⟨rfl, rfl, rfl, _, ofRules_eq_ok h (of_eq_ok_of_spliced hr),
      applyAll_batchEdits_iff.2 hr⟩

/-- Two findings that overlap are offered together, although one of them is dropped. -/
theorem offer_fixAll_overlapping :
    Rule.validate registry = .ok () ∧
      ∃ action ∈ offer "query.spq" "grep(//)".toList [] registry, action.kind = .fixAll ∧
        action.edits = batchEdits (scan registry "grep(//)".toList) ∧
        ∃ fixed, Fixed.ofRules registry "grep(//)".toList = .ok fixed ∧
          Edit.applyAll "grep(//)".toList action.edits = .ok fixed.text := by
  have hv : Rule.validate registry = .ok () := rfl
  have hn : 2 ≤ (scan registry "grep(//)".toList).countP (·.fix.isSome) := by decide +kernel
  obtain ⟨hex, hall⟩ := offer_fixAll hv "query.spq" "grep(//)".toList []
  obtain ⟨action, ha, hk⟩ := hex.2 hn
  obtain ⟨-, he, -, hf⟩ := hall action ha hk
  exact ⟨hv, action, ha, hk, he, hf⟩

end Action
end QueryTidy.Migration
