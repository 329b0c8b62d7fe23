import Mathlib.Data.List.Forall2
import QueryTidy.Proofs.Migration.RuleOrder
import QueryTidy.Proofs.Wire.RoundTrip

/-! The quick fixes for the reports that an editor sends back. What comes back of a report still
names its finding. Main statement: `quickFixes_of_sent`. -/
namespace QueryTidy.Migration
open Position

variable {rules : List Rule} {document : String} {t : Text} {f : Finding}

/-- The action makes the fix of one finding: it puts a new text in the place of the match that the
finding was made from, and keeps what stands before and behind it. -/
structure IsQuickFix (rules : List Rule) (document : String) (t : Text) (f : Finding)
    (action : Action) : Prop where
  document_eq : action.document = document
  diagnostics_eq : action.diagnostics = [f.diagnostic]
  edits_eq : f.fix.toList = action.edits
  replaces : ∃ rule ∈ rules, ∃ number line found before behind new,
    t.lines[number]? = some line ∧ found ∈ rule.pattern.matchesIn line ∧
    finding rule number line found = f ∧ rule.newText found.capture = some new ∧
    t = before ++ (found.capture.matched ++ behind) ∧
    endOf before = ⟨number, Text.utf8Size (line.take found.start)⟩ ∧
    Edit.applyAll t action.edits = .ok (before ++ (new ++ behind))

theorem isQuickFix_of_fix {edit : Edit} (hf : f ∈ scan rules t) (he : f.fix = some edit) :
    IsQuickFix rules document t f (Action.quickFix document ⟨f.diagnostic, edit⟩) where
  document_eq := rfl
  diagnostics_eq := rfl
  edits_eq := by
    rw [he]
    rfl
  replaces := by
    obtain ⟨rule, hr, number, line, found, a, c, hl, hm, hfound, hw, ht, ha, hs, hp⟩ :=
      exists_match_of_fix hf he
    refine ⟨rule, hr, number, line, found, a, c, _, hl, hm, hfound, hw, ht, ha, ?_⟩
    exact Edit.applyAll_cons_eq_ok_iff.2
      ⟨_, Edit.apply_eq_ok_iff.2 ⟨a, found.capture.matched, c, ht, hs, hp, rfl⟩, rfl⟩

def quickFix? (rules : List Rule) (document : String) (t : Text) (d : Diagnostic) :
    Option Action :=
  (((Action.fixable rules t).find? (·.diagnostic.sameKey d)).bind Fix.ofFinding?).map
    (Action.quickFix document)

theorem filter_offer (rules : List Rule) (document : String) (t : Text)
    (requested : List Diagnostic) :
    (Action.offer document t requested rules).filter (·.kind = .quickFix) =
      requested.filterMap (quickFix? rules document t) := by
  have hq : (requested.filterMap (quickFix? rules document t)).filter (·.kind = .quickFix) =
      requested.filterMap (quickFix? rules document t) := by
    refine List.filter_eq_self.2 ?_
    intro action ha
    exact decide_eq_true (Action.kind_of_mem_quick ha)
  change (if _ then _ ++ [Action.fixAll document _] else _).filter _ = _
  split
  · rw [List.filter_append]
    exact (congrArg (· ++ []) hq).trans (List.append_nil _)
  · exact hq

theorem quickFix?_eq (document : String) (hv : Rule.validate rules = .ok ())
    (hf : f ∈ scan rules t) :
    quickFix? rules document t f.diagnostic =
      (Fix.ofFinding? f).map (Action.quickFix document) := by
  have hone : ∀ g ∈ scan rules t, g.diagnostic.sameKey f.diagnostic = true → g = f :=
    fun g hg hk => eq_of_sameKey hv hg hf hk
  rw [quickFix?, Action.fixable_eq hv]
  cases h : ((scan rules t).filter (·.fix.isSome)).find? (·.diagnostic.sameKey f.diagnostic) with
  | some g =>
    have hg := List.mem_filter.1 (List.mem_of_find?_eq_some h)
    have hk := List.find?_some h
    rw [hone g hg.1 hk]
    rfl
  | none =>
    have hn : f.fix = none := by
      cases hx : f.fix with
      | none => rfl
      | some edit =>
        have hm : f ∈ (scan rules t).filter (·.fix.isSome) :=
          List.mem_filter.2 ⟨hf, by simp [hx]⟩
        exact absurd (sameKey_iff.2 ⟨rfl, rfl⟩) (List.find?_eq_none.1 h f hm)
    rw [Fix.ofFinding?, hn]
    rfl

theorem isQuickFix_filterMap (document : String) (hv : Rule.validate rules = .ok ())
    {findings : List Finding} (hf : ∀ f ∈ findings, f ∈ scan rules t) :
    List.Forall₂ (IsQuickFix rules document t) (findings.filter (·.fix.isSome))
      (findings.filterMap fun f => quickFix? rules document t f.diagnostic) := by
  induction findings with
  | nil => exact .nil
  | cons f findings ih =>
    obtain ⟨hs, hrest⟩ := List.forall_mem_cons.1 hf
    have hq := quickFix?_eq document hv hs
    cases he : f.fix with
    | none =>
      rw [Fix.ofFinding?, he] at hq
      rw [List.filter_cons_of_neg (by simp [he]), List.filterMap_cons, hq]
      exact ih hrest
    | some edit =>
      rw [Fix.ofFinding?, he] at hq
      rw [List.filter_cons_of_pos (by simp [he]), List.filterMap_cons, hq]
      exact .cons (isQuickFix_of_fix hs he) (ih hrest)

def sortedScan (rules : List Rule) (t : Text) : List Finding :=
  (scan rules t).mergeSort fun f g => Diagnostic.le f.diagnostic g.diagnostic

theorem map_sortedScan (rules : List Rule) (t : Text) :
    (sortedScan rules t).map (·.diagnostic) =
      Diagnostic.sort ((scan rules t).map (·.diagnostic)) :=
  List.map_mergeSort fun _ _ _ _ => rfl

/-- When an editor sends all reports of a document back, it is offered one quick fix for each
finding that can be mended, in the order of the reports. -/
theorem quickFixes_of_sent {rules : List Rule} (hv : Rule.validate rules = .ok ())
    (hs : ∀ rule ∈ rules, rule.severity ∈ Severity.numbered) (document : String) (t : Text) :
    ∃ (checked : Checked) (requested : List Diagnostic) (findings : List Finding),
      Checked.ofRules rules t = .ok checked ∧
      checked.diagnostics.mapM Wire.sendBack = .ok requested ∧
      findings.Perm (scan rules t) ∧ findings.map (·.diagnostic) = checked.diagnostics ∧
      ((Action.offer document t requested rules).filter (·.kind = .quickFix)).length =
        checked.fixableCount ∧
      List.Forall₂ (IsQuickFix rules document t) (findings.filter (·.fix.isSome))
        ((Action.offer document t requested rules).filter (·.kind = .quickFix)) := by
  have hp : (sortedScan rules t).Perm (scan rules t) := List.mergeSort_perm _ _
  have hq := isQuickFix_filterMap document hv fun f hf => hp.mem_iff.1 hf
  refine ⟨Checked.of rules t, _, sortedScan rules t, ?_,
    Wire.mapM_sendBack fun d hd => severity_of_mem_sort hs hd, hp, map_sortedScan rules t, ?_⟩
  · simp only [Checked.ofRules, hv, Except.map]
  -- A report and what comes back of it have one code and one range.
  · have hr : ((Checked.of rules t).diagnostics.map ({ · with category := none })).filterMap
          (quickFix? rules document t) =
        (sortedScan rules t).filterMap fun f => quickFix? rules document t f.diagnostic := by
      change ((Diagnostic.sort _).map _).filterMap _ = _
      rw [← map_sortedScan, List.filterMap_map, List.filterMap_map]
      rfl
    rw [filter_offer, hr]
    refine ⟨?_, hq⟩
    rw [← hq.length_eq, ← List.countP_eq_length_filter]
    exact hp.countP_eq _

/-- A report that covers less than its fix, one without a fix, and empty matches around them. -/
theorem quickFixes_of_sent_narrowed :
    let mark : Rule :=
      { code := "mark", message := "marked", severity := .hint, category := none
        pattern := .literal [], oldForm := "", substitution := some (.wrap ['é'] ['\n']) }
    let rules := [slashComment, removedFunction "crop", mark]
    let t := "é//\ncrop(".toList
    Rule.validate rules = .ok () ∧ (∀ rule ∈ rules, rule.severity ∈ Severity.numbered) ∧
      (scan rules t).countP (·.fix.isSome) = 11 ∧
      ∃ (checked : Checked) (requested : List Diagnostic) (findings : List Finding),
        Checked.ofRules rules t = .ok checked ∧
        checked.diagnostics.mapM Wire.sendBack = .ok requested ∧
        findings.map (·.diagnostic) = checked.diagnostics ∧
        List.Forall₂ (IsQuickFix rules "query.spq" t) (findings.filter (·.fix.isSome))
          ((Action.offer "query.spq" t requested rules).filter (·.kind = .quickFix)) := by
  intro mark rules t
  have hv : Rule.validate rules = .ok () := rfl
  have hs : ∀ rule ∈ rules, rule.severity ∈ Severity.numbered := by decide
  obtain ⟨checked, requested, findings, hc, hr, -, hd, -, hq⟩ :=
    quickFixes_of_sent hv hs "query.spq" t
  exact ⟨hv, hs, by decide +kernel, checked, requested, findings, hc, hr, hd, hq⟩

end QueryTidy.Migration
