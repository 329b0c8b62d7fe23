import QueryTidy.Proofs.Migration.Reports

/-! Where a finding stands on its line. Its ranges are byte columns of the line, and between them
stands what was matched, or the tail of it that the rule reports. Main statement:
`located_of_mem_scan`. -/
namespace QueryTidy

structure Range.Covers (range : Range) (number : Nat) (line : Text) (s e : Nat) : Prop where
  start_line : range.start.line = number
  stop_line : range.stop.line = number
  start_index : line.indexAt range.start.column = .ok s
  stop_index : line.indexAt range.stop.column = .ok e

theorem Range.covers_onLine (number : Nat) (u v w : Text) :
    (Range.onLine number u.utf8Size v.utf8Size).Covers number (u ++ (v ++ w)) u.length
      (u.length + v.length) where
  start_line := rfl
  stop_line := rfl
  start_index := Text.indexAt_eq_ok_iff.2 ⟨u, v ++ w, rfl, rfl, rfl⟩
  stop_index := Text.indexAt_eq_ok_iff.2 ⟨u ++ v, w, by simp, by simp [onLine], by simp⟩

theorem Text.extract_append (u v w : Text) :
    (u ++ (v ++ w)).extract u.length (u.length + v.length) = v := by
  simp [List.extract]

namespace Migration

def reportedPart (tail : Option Text) (matched : Text) : Text :=
  match tail with
  | some tail => if tail.length < matched.length ∧ tail <:+ matched then tail else matched
  | none => matched

theorem unreported_append_reportedPart (tail : Option Text) (matched : Text) :
    unreported tail matched ++ reportedPart tail matched = matched := by
  cases tail with
  | none => rfl
  | some tail =>
    simp only [unreported, reportedPart, List.isSuffixOf_iff_suffix]
    split
    · rename_i h
      obtain ⟨-, u, rfl⟩ := h
      simp
    · rfl

/-- The finding was made from a match on a line of the text. It reports the last characters of the
match, and its fix, if the rule has one, replaces the match. -/
structure Located (t : Text) (rule : Rule) (number : Nat) (line : Text) (found : Match)
    (f : Finding) : Prop where
  line_eq : t.lines[number]? = some line
  mem_matchesIn : found ∈ rule.pattern.matchesIn line
  reported : Reported rule line found
  code_eq : f.diagnostic.code = rule.code
  matched_eq : line.extract found.start found.stop = found.capture.matched
  report : ∃ s, found.start ≤ s ∧ f.diagnostic.range.Covers number line s found.stop ∧
    line.extract s found.stop = reportedPart rule.reportedTail found.capture.matched
  fix_range : ∀ edit ∈ f.fix, edit.range.Covers number line found.start found.stop
  fix_text : f.fix.map (·.newText) = rule.newText found.capture
  isSome_fix : f.fix.isSome = rule.hasFix

variable {rules : List Rule} {rule : Rule} {number : Nat} {line t : Text} {found : Match}
  {f : Finding}

theorem isSome_newText (rule : Rule) (capture : Capture) :
    (rule.newText capture).isSome = rule.hasFix := by
  unfold Rule.newText Rule.hasFix
  cases rule.substitution <;> simp

theorem range_finding {u rest : Text} (hl : line = u ++ (found.capture.matched ++ rest))
    (hs : found.start = u.length) :
    (finding rule number line found).diagnostic.range =
      .onLine number (u ++ unreported rule.reportedTail found.capture.matched).utf8Size
        (reportedPart rule.reportedTail found.capture.matched).utf8Size := by
  have hp := congrArg Text.utf8Size
    (unreported_append_reportedPart rule.reportedTail found.capture.matched)
  rw [Text.utf8Size_append] at hp
  have hw : found.capture.matched.utf8Size -
      (unreported rule.reportedTail found.capture.matched).utf8Size =
        (reportedPart rule.reportedTail found.capture.matched).utf8Size := by omega
  simp only [finding, hs, hl, Text.columnAt_length, hw, Text.utf8Size_append]

/-- Every finding stands on its line where the match does that it was made from. -/
theorem located_of_mem_scan {rules : List Rule} {t : Text} {f : Finding} (hf : f ∈ scan rules t) :
    ∃ rule ∈ rules, ∃ number line found, Located t rule number line found f := by
  obtain ⟨number, line, hl, hf⟩ := mem_scan.1 hf
  obtain ⟨rule, hr, found, hm, hc, rfl⟩ := mem_findingsOn.1 hf
  obtain ⟨u, rest, hline, hs, -⟩ := Pattern.exists_of_mem_matchesIn hm
  have hstop : found.stop = u.length + found.capture.matched.length := by rw [Match.stop, hs]
  have hfix : (finding rule number line found).fix = _ := fix_finding hline hs
  refine ⟨rule, hr, number, line, found, hl, hm, counts_iff.1 hc, rfl, ?_, ?_, ?_, ?_, ?_⟩
  · rw [hline, hs, hstop, Text.extract_append]
  -- The line is cut once more, in front of the part that is reported.
  · have hp := unreported_append_reportedPart rule.reportedTail found.capture.matched
    have hrange : (finding rule number line found).diagnostic.range = _ := range_finding hline hs
    generalize unreported rule.reportedTail found.capture.matched = lead at hp hrange
    generalize reportedPart rule.reportedTail found.capture.matched = part at hp hrange ⊢
    have hcut : line = (u ++ lead) ++ (part ++ rest) := by simp [hline, ← hp]
    have hend : found.stop = (u ++ lead).length + part.length := by
      rw [hstop, ← hp, List.length_append, List.length_append, Nat.add_assoc]
    refine ⟨(u ++ lead).length, ?_, ?_, ?_⟩
    · rw [hs, List.length_append]
      omega
    · rw [hrange, hcut, hend]
      exact Range.covers_onLine number (u ++ lead) part rest
    · rw [hcut, hend, Text.extract_append]
  · intro edit he
    rw [hfix] at he
    obtain ⟨new, -, rfl⟩ := Option.map_eq_some_iff.1 he
    rw [hs, hstop, hline]
    exact Range.covers_onLine number u found.capture.matched rest
  · rw [hfix, Option.map_map]
    exact Option.map_id'
  · rw [hfix, Option.isSome_map, isSome_newText]

/-- A character of four bytes is kept in front of the slashes, and only the slashes are reported. -/
theorem located_of_mem_scan_wide :
    let t : Text := "x\né🙂//é".toList
    let f : Finding := finding slashComment 1 "é🙂//é".toList ⟨1, ⟨"🙂//".toList, []⟩⟩
    f ∈ scan [removedFunction "crop", slashComment] t ∧
      f.diagnostic.range = .onLine 1 6 2 ∧
      f.fix = some ⟨.onLine 1 2 6, "🙂--".toList⟩ ∧
      ∃ rule ∈ [removedFunction "crop", slashComment], ∃ number line found,
        Located t rule number line found f := by
  intro t f
  have hf : f ∈ scan [removedFunction "crop", slashComment] t := by decide
  exact ⟨hf, by decide, by decide, located_of_mem_scan hf⟩

end Migration
end QueryTidy
