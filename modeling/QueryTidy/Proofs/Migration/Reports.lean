import QueryTidy.Proofs.Migration.Language
import QueryTidy.Proofs.Migration.Offers

/-! What a scan reports: of the leftmost spans of a rule's language, those that start in front of
the comment of their line. Main statement: `reports_of_language`. -/
namespace QueryTidy

theorem Text.occursIn_iff {needle t : Text} : occursIn needle t = true ↔ needle <:+: t := by
  induction t with
  | nil => simp [occursIn]
  | cons c t ih => simp [occursIn, ih, List.infix_cons_iff]

namespace Migration

def FirstDashes (line : Text) (i : Nat) : Prop :=
  ['-', '-'] <+: line.drop i ∧ ∀ j < i, ¬ ['-', '-'] <+: line.drop j

theorem commentStart_eq_some_iff {line : Text} {i : Nat} :
    commentStart line = some i ↔ FirstDashes line i := by
  fun_induction commentStart line generalizing i with
  | case1 t =>
    have h0 : ['-', '-'] <+: '-' :: '-' :: t := ⟨t, rfl⟩
    constructor
    · intro h
      obtain rfl : 0 = i := by simpa using h
      exact ⟨h0, by simp⟩
    · intro h
      obtain rfl : i = 0 := by
        by_contra hi
        exact h.2 0 (Nat.pos_of_ne_zero hi) h0
      rfl
  | case2 c t hc ih =>
    have hn : ¬ ['-', '-'] <+: c :: t := by
      intro h
      obtain ⟨u, hu⟩ := h
      obtain ⟨rfl, rfl⟩ := List.cons.inj hu
      exact hc u rfl rfl
    cases i with
    | zero => simp [FirstDashes, hn]
    | succ i =>
      have hj : (∀ j < i + 1, ¬ ['-', '-'] <+: (c :: t).drop j) ↔
          ∀ j < i, ¬ ['-', '-'] <+: t.drop j := by
        rw [Nat.forall_lt_succ_left]
        simp [hn]
      have hm : (commentStart t).map (· + 1) = some (i + 1) ↔ commentStart t = some i := by simp
      rw [hm, ih, FirstDashes, FirstDashes, hj, List.drop_succ_cons]
  | case3 => simp [FirstDashes]

/-- A match that is reported: it starts no later than the first two dashes, and the text that its
rule skips is nowhere in it. -/
def Reported (rule : Rule) (line : Text) (found : Match) : Prop :=
  (∀ i, FirstDashes line i → found.start ≤ i) ∧
    ∀ skip ∈ rule.exempt, ¬ skip <:+: found.capture.matched

variable {rules : List Rule} {rule : Rule} {line t : Text} {found : Match} {n l : Nat}

theorem counts_iff : counts rule (commentStart line) found = true ↔ Reported rule line found := by
  simp only [Reported, counts, ← commentStart_eq_some_iff, ← Text.occursIn_iff]
  cases commentStart line <;> cases rule.exempt <;> simp

instance : Decidable (Reported rule line found) := decidable_of_iff _ counts_iff

theorem filter_code_findingsOn (h : rules.Pairwise fun r s => r.code ≠ s.code) (hr : rule ∈ rules) :
    (findingsOn rules n line).filter (·.diagnostic.code = rule.code) =
      ((rule.pattern.matchesIn line).filter (Reported rule line)).map
        (finding rule n line) := by
  have own (r : Rule) : ∀ f ∈ ((r.pattern.matchesIn line).filter
      (counts r (commentStart line))).map (finding r n line), f.diagnostic.code = r.code := by
    intro f hf
    obtain ⟨found, -, rfl⟩ := List.mem_map.1 hf
    rfl
  have hc : (rule.pattern.matchesIn line).filter (Reported rule line) =
      (rule.pattern.matchesIn line).filter (counts rule (commentStart line)) := by
    simp only [← counts_iff, Bool.decide_eq_true]
  induction rules with
  | nil => cases hr
  | cons r rules ih =>
    obtain ⟨hne, h⟩ := List.pairwise_cons.1 h
    rw [findingsOn, List.flatMap_cons, List.filter_append]
    obtain rfl | hr := List.mem_cons.1 hr
    · have hrest : (findingsOn rules n line).filter (·.diagnostic.code = rule.code) = [] := by
        refine List.filter_eq_nil_iff.2 ?_
        intro f hf
        obtain ⟨s, hs, found, -, -, rfl⟩ := mem_findingsOn.1 hf
        rw [decide_eq_true_eq]
        exact (hne s hs).symm
      rw [hc, ← findingsOn, hrest, List.append_nil, List.filter_eq_self.2]
      intro f hf
      simpa using own _ f hf
    · rw [← findingsOn, ih h hr, List.filter_eq_nil_iff.2, List.nil_append]
      intro f hf
      simpa [own r f hf] using hne rule hr

theorem filter_line_findingsFrom {lines : List Text} (hl : lines[l]? = some line) :
    (findingsFrom rules n lines).filter (·.diagnostic.range.start.line = n + l) =
      findingsOn rules (n + l) line := by
  induction lines generalizing n l with
  | nil => cases hl
  | cons first lines ih =>
    rw [findingsFrom, List.filter_append]
    cases l with
    | zero =>
      obtain rfl : first = line := by simpa using hl
      have hrest : (findingsFrom rules (n + 1) lines).filter
          (·.diagnostic.range.start.line = n + 0) = [] := by
        refine List.filter_eq_nil_iff.2 ?_
        intro f hf
        obtain ⟨k, _, -, hf⟩ := mem_findingsFrom.1 hf
        have hk := line_of_mem_findingsOn hf
        simp only [decide_eq_true_eq]
        omega
      rw [hrest, List.append_nil, List.filter_eq_self.2]
      · rfl
      · intro f hf
        simpa using line_of_mem_findingsOn hf
    | succ l =>
      have hn : n + (l + 1) = n + 1 + l := by omega
      rw [hn, ih (by simpa using hl), List.filter_eq_nil_iff.2, List.nil_append]
      intro f hf
      have hk := line_of_mem_findingsOn hf
      simp only [decide_eq_true_eq]
      omega

theorem filter_line_scan (hl : t.lines[l]? = some line) :
    (scan rules t).filter (·.diagnostic.range.start.line = l) = findingsOn rules l line := by
  simpa [scan] using filter_line_findingsFrom (n := 0) hl

/-- Slashes behind a colon are not in the language, so that no match is skipped. -/
theorem not_exempt_of_regex {before after : Text} (hr : rule ∈ registry)
    (h : rule.pattern.regex before t after) : ∀ skip ∈ rule.exempt, ¬ skip <:+: t := by
  have hx : ∀ rule ∈ registry, rule.exempt = none ∨ rule = slashComment := by decide
  intro skip hs hi
  obtain hn | rfl := hx rule hr
  · rw [hn] at hs
    cases hs
  · obtain rfl : "://".toList = skip := by simpa [slashComment] using hs
    have hc : ':' ∈ t := hi.subset (by simp)
    obtain ⟨-, rfl⟩ | ⟨c, hne, rfl⟩ := Pattern.regex_slashComment_iff.1 h
    · simp at hc
    · simp [hne.symm] at hc

/-- On each line of a text, each rule of the registry considers the leftmost spans of its language
that do not overlap. At one place there are two spans only where a line starts with three slashes;
the shorter one is considered. What is reported of them is what starts no later than the first two
dashes and does not hold the text that the rule skips, and a report ends where its span does. So a
span that starts no later than these dashes and overlaps no other one that is considered is
reported. -/
theorem reports_of_language {t line : Text} {l : Nat} {rule : Rule}
    (hl : t.lines[l]? = some line) (hr : rule ∈ registry) :
    let considered := rule.pattern.matchesIn line
    Leftmost (rule.pattern.Spans line) 0 (considered.map Match.span) ∧
    (∀ found ∈ considered, found.capture.matched = line.extract found.start found.stop ∧
      (finding rule l line found).diagnostic.range.stop =
        ⟨l, Text.utf8Size (line.take found.stop)⟩) ∧
    (∀ s e e', rule.pattern.Spans line s e → rule.pattern.Spans line s e' → e < e' →
      rule = slashComment ∧ s = 0 ∧ e = 2 ∧ e' = 3) ∧
    (scan registry t).filter
        (fun f => f.diagnostic.code = rule.code ∧ f.diagnostic.range.start.line = l) =
      (considered.filter (Reported rule line)).map (finding rule l line) ∧
    ∀ s e, rule.pattern.Spans line s e → (∀ i, FirstDashes line i → s ≤ i) →
      (∀ found ∈ considered, found.span ≠ (s, e) → found.stop ≤ s ∨ e ≤ found.start) →
      ∃ found ∈ considered, found.span = (s, e) ∧ finding rule l line found ∈ scan registry t := by
  intro considered
  have hp := isPlain_of_mem_registry rule hr
  have hd : registry.Pairwise fun r s => r.code ≠ s.code := by decide
  have hscan : (scan registry t).filter
        (fun f => f.diagnostic.code = rule.code ∧ f.diagnostic.range.start.line = l) =
      (considered.filter (Reported rule line)).map (finding rule l line) := by
    rw [← filter_code_findingsOn hd hr, ← filter_line_scan hl, List.filter_filter]
    simp
  have hleft := Pattern.leftmost_matchesIn hp line
  refine ⟨hleft, ?_, ?_, hscan, ?_⟩
  · intro found hm
    refine ⟨?_, (stop_finding l hm).2⟩
    obtain ⟨before, after, rfl, hs, -⟩ := Pattern.regex_of_mem_matchesIn hp hm
    simp [Match.stop, hs, List.extract]
  · intro s e e' h h' hlt
    have hone : ∀ rule ∈ registry, rule.pattern = .slashComment → rule = slashComment := by decide
    obtain ⟨hc, hs⟩ := h.slashes_of_lt hp h' hlt
    exact ⟨hone rule hr hc, hs⟩
  · intro s e h hi ho
    obtain ⟨x, hx, h1, h2⟩ := hleft.exists_overlapping (Nat.zero_le s) h (h.lt hp).1
    obtain ⟨found, hm, rfl⟩ := List.mem_map.1 hx
    have hse : found.span = (s, e) := by
      by_contra hne
      have hor := ho found hm hne
      simp only [Match.span] at h1 h2
      omega
    obtain ⟨rfl, rfl⟩ := Prod.mk.inj hse
    obtain ⟨before, after, -, -, hreg⟩ := Pattern.regex_of_mem_matchesIn hp hm
    have hrep : Reported rule line found := ⟨hi, not_exempt_of_regex hr hreg⟩
    refine ⟨found, hm, hse, mem_scan.2 ⟨l, line, hl, ?_⟩⟩
    exact mem_findingsOn.2 ⟨rule, hr, found, hm, counts_iff.2 hrep, rfl⟩

/-- Three slashes at the start of a line, and slashes in a comment. -/
theorem reports_of_language_slashes :
    let t : Text := "-- x\n///x // y -- // z".toList
    let line : Text := "///x // y -- // z".toList
    t.lines[1]? = some line ∧ slashComment ∈ registry ∧
      slashComment.pattern.Spans line 0 3 ∧
      Leftmost (slashComment.pattern.Spans line) 0 [(0, 2), (4, 7), (12, 15)] ∧
      ((scan registry t).filter fun f => f.diagnostic.code = slashComment.code ∧
        f.diagnostic.range.start.line = 1).length = 2 := by
  intro t line
  have hl : t.lines[1]? = some line := by decide
  have hr : slashComment ∈ registry := by decide
  obtain ⟨hleft, -, -, hscan, -⟩ := reports_of_language hl hr
  have hs : slashComment.pattern.Spans line 0 3 := by
    refine ⟨[], "///".toList, "x // y -- // z".toList, by decide, rfl, rfl, ?_⟩
    exact Pattern.regex_slashComment_iff.2 (.inr ⟨'/', by decide, rfl⟩)
  refine ⟨hl, hr, hs, hleft, ?_⟩
  rw [hscan, List.length_map]
  decide

end Migration
end QueryTidy
