import QueryTidy.Proofs.Migration.Findings
import QueryTidy.Proofs.Place.Lowering

/-! Fixing works line by line: of two documents with a line break between them, each is fixed by
itself. Main statement: `fixed_append_break`. -/
namespace QueryTidy

namespace Range

theorem lt_trans {q r s : Range} (h : q < r) (k : r < s) : q < s := by
  simp only [lt_def, Position.lt_def, Position.eq_iff] at *
  omega

theorem lt_or_eq_or_gt (r s : Range) : r < s ∨ r = s ∨ s < r := by
  simp only [lt_def, eq_iff, Position.lt_def, Position.eq_iff]
  omega

end Range

namespace Diagnostic

variable {n : Nat} {d e : Diagnostic}

theorem le_iff :
    le d e ↔ d.range < e.range ∨ d.range = e.range ∧ d.code ≤ e.code := by
  simp [le]

theorem le_trans (a b c : Diagnostic) (h : le a b) (k : le b c) : le a c := by
  rw [le_iff] at *
  obtain h | ⟨h, hc⟩ := h
  · obtain k | ⟨k, -⟩ := k
    · exact .inl (Range.lt_trans h k)
    · exact .inl (k ▸ h)
  · obtain k | ⟨k, kc⟩ := k
    · exact .inl (h ▸ k)
    · exact .inr ⟨h.trans k, String.le_trans hc kc⟩

theorem le_total (a b : Diagnostic) : le a b || le b a := by
  rw [Bool.or_eq_true, le_iff, le_iff]
  obtain h | h | h := Range.lt_or_eq_or_gt a.range b.range
  · exact .inl (.inl h)
  · obtain hc | hc := String.le_total a.code b.code
    · exact .inl (.inr ⟨h, hc⟩)
    · exact .inr (.inr ⟨h.symm, hc⟩)
  · exact .inr (.inl h)

theorem le_down (d e : Diagnostic) : le (d.down n) (e.down n) = le d e := by
  rw [Bool.eq_iff_iff, le_iff, le_iff]
  simp [Diagnostic.down, Range.down, Range.lt_def, Range.eq_iff]

theorem not_le_of_line_lt (h : d.range.start.line < n) : le (e.down n) d = false := by
  rw [← Bool.not_eq_true, le_iff]
  simp only [Diagnostic.down, Range.down, Position.down, Range.lt_def, Range.eq_iff,
    Position.lt_def, Position.eq_iff]
  omega

theorem sort_append_down {ds es : List Diagnostic} (h : ∀ d ∈ ds, d.range.start.line < n) :
    sort (ds ++ es.map (down n)) = sort ds ++ (sort es).map (down n) := by
  have hm : (es.map (down n)).mergeSort le = (es.mergeSort le).map (down n) :=
    (List.map_mergeSort fun d _ e _ => (le_down d e).symm).symm
  rw [sort, mergeSort_append le_trans le_total, hm]
  · rfl
  · intro d hd e he
    obtain ⟨e, -, rfl⟩ := List.mem_map.1 he
    exact not_le_of_line_lt (h d hd)

end Diagnostic

namespace Migration
open Position

def Finding.down (n : Nat) (f : Finding) : Finding :=
  ⟨f.diagnostic.down n, f.fix.map (Edit.down n)⟩

def Fix.down (n : Nat) (fix : Fix) : Fix := ⟨fix.diagnostic.down n, fix.edit.down n⟩

variable {rules : List Rule} {n : Nat} {f : Finding} {t : Text}

theorem findingsOn_down (rules : List Rule) (number n : Nat) (line : Text) :
    findingsOn rules (number + n) line = (findingsOn rules number line).map (Finding.down n) := by
  have hf (rule : Rule) (found : Match) :
      finding rule (number + n) line found = (finding rule number line found).down n := by
    simp only [finding, Finding.down, Diagnostic.down, Option.map_map]
    rfl
  simp only [findingsOn, List.map_flatMap, List.map_map]
  congr 1
  funext rule
  congr 1
  funext found
  exact hf rule found

theorem findingsFrom_down (rules : List Rule) (number n : Nat) (lines : List Text) :
    findingsFrom rules (number + n) lines =
      (findingsFrom rules number lines).map (Finding.down n) := by
  induction lines generalizing number with
  | nil => rfl
  | cons line lines ih =>
    have hn : number + n + 1 = number + 1 + n := by omega
    rw [findingsFrom, findingsFrom, List.map_append, findingsOn_down, hn, ih]

theorem findingsFrom_append (rules : List Rule) (number : Nat) (ls ms : List Text) :
    findingsFrom rules number (ls ++ ms) =
      findingsFrom rules number ls ++ findingsFrom rules (number + ls.length) ms := by
  induction ls generalizing number with
  | nil => rfl
  | cons line ls ih =>
    have hn : number + (line :: ls).length = number + 1 + ls.length := by
      rw [List.length_cons]
      omega
    rw [List.cons_append, findingsFrom, findingsFrom, ih, hn, List.append_assoc]

theorem scan_append_break (rules : List Rule) (a b : Text) :
    scan rules (a ++ '\n' :: b) =
      scan rules a ++ (scan rules b).map (Finding.down a.lines.length) := by
  rw [scan, Text.lines_append_break, findingsFrom_append, findingsFrom_down]
  rfl

theorem line_lt_of_mem_scan (h : f ∈ scan rules t) :
    f.diagnostic.range.start.line < t.lines.length ∧
      ∀ edit ∈ f.fix, edit.range.start.line < t.lines.length ∧
        edit.range.stop.line < t.lines.length := by
  obtain ⟨l, line, hl, hf⟩ := mem_scan.1 h
  obtain ⟨rule, -, found, -, -, rfl⟩ := mem_findingsOn.1 hf
  have hlt : l < t.lines.length := (List.getElem?_eq_some_iff.1 hl).1
  refine ⟨hlt, ?_⟩
  intro edit he
  obtain ⟨new, -, rfl⟩ := Option.map_eq_some_iff.1 (Option.mem_def.1 he)
  exact ⟨hlt, hlt⟩

namespace Fix

theorem le_down (a b : Fix) : le (a.down n) (b.down n) = le a b := by
  rw [Bool.eq_iff_iff, le_iff, le_iff]
  simp [Fix.down, Edit.down, Range.down]

theorem ofFinding?_down (f : Finding) :
    ofFinding? (f.down n) = (ofFinding? f).map (Fix.down n) := by
  simp only [ofFinding?, Finding.down, Option.map_map]
  rfl

def Above (n : Nat) (fix : Fix) : Prop :=
  fix.edit.range.start.line < n ∧ fix.edit.range.stop.line < n

theorem candidates_append_down {fs gs : List Finding}
    (h : ∀ fix ∈ fs.filterMap ofFinding?, fix.Above n) :
    candidates (fs ++ gs.map (Finding.down n)) =
      candidates fs ++ (candidates gs).map (Fix.down n) := by
  have hd : (gs.map (Finding.down n)).filterMap ofFinding? =
      (gs.filterMap ofFinding?).map (Fix.down n) := by
    rw [List.filterMap_map, List.map_filterMap]
    congr 1
    funext f
    exact ofFinding?_down f
  have hm : ((gs.filterMap ofFinding?).map (Fix.down n)).mergeSort le =
      (candidates gs).map (Fix.down n) := by
    rw [candidates_eq]
    exact (List.map_mergeSort fun a _ b _ => (le_down a b).symm).symm
  rw [candidates_eq, List.filterMap_append, hd, mergeSort_append le_trans le_total, hm,
    candidates_eq fs]
  · intro a ha b hb
    obtain ⟨b, -, rfl⟩ := List.mem_map.1 hb
    have hab := (h a ha).1
    rw [← Bool.not_eq_true, le_iff]
    simp only [Fix.down, Edit.down, Range.down, Position.down, lt_def, eq_iff]
    omega

variable {fixes more : List Fix} {lastStop : Option Position}

theorem sweep_of_behind (h : ∀ p ∈ lastStop, ∀ fix ∈ fixes, p ≤ fix.edit.range.start) :
    sweep lastStop fixes = sweep none fixes := by
  cases fixes with
  | nil => rfl
  | cons fix fixes =>
    have hc : collides lastStop fix = false := by
      cases lastStop with
      | none => rfl
      | some p => simpa [collides] using not_lt.2 (h p rfl fix List.mem_cons_self)
    have hn : collides none fix = false := rfl
    rw [sweep, sweep, hc, hn]
    rfl

theorem sweep_append (hl : ∀ p ∈ lastStop, ∀ fix ∈ more, p ≤ fix.edit.range.start)
    (h : ∀ fix ∈ fixes, ∀ later ∈ more, fix.edit.range.stop ≤ later.edit.range.start) :
    (sweep lastStop (fixes ++ more)).1 = (sweep lastStop fixes).1 ++ (sweep none more).1 := by
  induction fixes generalizing lastStop with
  | nil => rw [List.nil_append, sweep_of_behind hl]; rfl
  | cons fix fixes ih =>
    have ht : ∀ fix ∈ fixes, ∀ later ∈ more, fix.edit.range.stop ≤ later.edit.range.start :=
      fun fix hf => h fix (List.mem_cons_of_mem _ hf)
    rw [List.cons_append, sweep, sweep]
    split
    · exact ih hl ht
    · have hs : ∀ p ∈ some fix.edit.range.stop, ∀ later ∈ more, p ≤ later.edit.range.start := by
        intro p hp
        obtain rfl := Option.some.inj (Option.mem_def.1 hp)
        exact h fix List.mem_cons_self
      exact congrArg (fix :: ·) (ih hs ht)

theorem sweep_down (n : Nat) (lastStop : Option Position) (fixes : List Fix) :
    (sweep (lastStop.map (Position.down n)) (fixes.map (Fix.down n))).1 =
      (sweep lastStop fixes).1.map (Fix.down n) := by
  induction fixes generalizing lastStop with
  | nil => rfl
  | cons fix fixes ih =>
    have hc : collides (lastStop.map (Position.down n)) (fix.down n) = collides lastStop fix := by
      cases lastStop with
      | none => rfl
      | some p => simp [collides, Fix.down, Edit.down, Range.down]
    rw [List.map_cons, sweep, sweep, hc]
    split
    · exact ih lastStop
    · exact congrArg (fix.down n :: ·) (ih (some fix.edit.range.stop))

theorem select_append_down {fs gs : List Finding}
    (h : ∀ fix ∈ fs.filterMap ofFinding?, fix.Above n) :
    select (fs ++ gs.map (Finding.down n)) = select fs ++ (select gs).map (Fix.down n) := by
  have hs := sweep_down n none (candidates gs)
  rw [select, candidates_append_down h, sweep_append]
  · exact congrArg (select fs ++ ·) hs
  · intro p hp
    cases hp
  · intro fix hf later hl
    obtain ⟨later, -, rfl⟩ := List.mem_map.1 hl
    have hb := (h fix (mem_candidates_iff.1 hf)).2
    simp only [Fix.down, Edit.down, Range.down, Position.down, le_def]
    omega

end Fix

theorem fromTheEnd_append_down {edits more : List Edit}
    (h : ∀ edit ∈ edits, edit.range.start.line < n) :
    fromTheEnd (edits ++ more.map (Edit.down n)) =
      (fromTheEnd more).map (Edit.down n) ++ fromTheEnd edits := by
  have hm : (more.map (Edit.down n)).mergeSort (fun a b => b.range.start ≤ a.range.start) =
      (fromTheEnd more).map (Edit.down n) := by
    refine (List.map_mergeSort ?_).symm
    intro a _ b _
    simp [Edit.down, Range.down]
  rw [fromTheEnd, mergeSort_append_comm starts_trans starts_total, hm]
  · rfl
  · intro a ha b hb
    obtain ⟨a, -, rfl⟩ := List.mem_map.1 ha
    have hl := h b hb
    simp only [Edit.down, Range.down, Position.down, le_def, decide_eq_false_iff_not]
    omega

theorem above_of_mem_scan (rules : List Rule) (t : Text) :
    ∀ fix ∈ (scan rules t).filterMap Fix.ofFinding?, fix.Above t.lines.length := by
  intro fix hm
  obtain ⟨f, hf, hx⟩ := List.mem_filterMap.1 hm
  obtain ⟨edit, he, rfl⟩ := Option.map_eq_some_iff.1 hx
  exact (line_lt_of_mem_scan hf).2 edit he

theorem batchEdits_append_break (rules : List Rule) (a b : Text) :
    batchEdits (scan rules (a ++ '\n' :: b)) =
      (batchEdits (scan rules b)).map (Edit.down a.lines.length) ++
        batchEdits (scan rules a) := by
  have ha := above_of_mem_scan rules a
  have hs : ∀ edit ∈ (Fix.select (scan rules a)).map (·.edit),
      edit.range.start.line < a.lines.length := by
    intro edit he
    obtain ⟨fix, hf, rfl⟩ := List.mem_map.1 he
    exact (ha fix (Fix.mem_candidates_iff.1 ((Fix.sweep_sublist none _).mem hf))).1
  have hm (fixes : List Fix) :
      (fixes.map (Fix.down a.lines.length)).map (·.edit) =
        (fixes.map (·.edit)).map (Edit.down a.lines.length) := by
    rw [List.map_map, List.map_map]
    rfl
  rw [batchEdits, scan_append_break, Fix.select_append_down ha, List.map_append, hm,
    fromTheEnd_append_down hs]
  rfl

/-- Fixing never fails. Of two documents with a line break between them, each is fixed by itself,
and what remains to be said about the second moves down by the lines of the first. -/
theorem fixed_append_break {rules : List Rule} (h : Rule.validate rules = .ok ()) (a b : Text) :
    ∃ x y z, Fixed.ofRules rules a = .ok x ∧ Fixed.ofRules rules b = .ok y ∧
      Fixed.ofRules rules (a ++ '\n' :: b) = .ok z ∧
      z.text = x.text ++ '\n' :: y.text ∧
      z.remaining = x.remaining ++ y.remaining.map (Diagnostic.down x.text.lines.length) := by
  obtain ⟨r, hr⟩ := exists_spliced_scan rules a
  obtain ⟨s, hs⟩ := exists_spliced_scan rules b
  have hj : Edit.Spliced .origin (a ++ '\n' :: b)
      (batchEdits (scan rules (a ++ '\n' :: b))).reverse (r ++ '\n' :: s) := by
    rw [batchEdits_append_break, List.reverse_append, ← List.map_reverse]
    exact hr.append_break hs
  refine ⟨_, _, _, ofRules_eq_ok h (of_eq_ok_of_spliced hr),
    ofRules_eq_ok h (of_eq_ok_of_spliced hs), ofRules_eq_ok h (of_eq_ok_of_spliced hj), rfl, ?_⟩
  have hl : ∀ d ∈ (scan rules r).map (·.diagnostic), d.range.start.line < r.lines.length := by
    intro d hd
    obtain ⟨f, hf, rfl⟩ := List.mem_map.1 hd
    exact (line_lt_of_mem_scan hf).1
  have hm : ((scan rules s).map (Finding.down r.lines.length)).map (·.diagnostic) =
      ((scan rules s).map (·.diagnostic)).map (Diagnostic.down r.lines.length) := by
    rw [List.map_map, List.map_map]
    rfl
  change Diagnostic.sort _ = Diagnostic.sort _ ++ (Diagnostic.sort _).map _
  rw [scan_append_break, List.map_append, hm, Diagnostic.sort_append_down hl]

/-- A new text may break a line itself, and may stand where nothing is taken out. -/
theorem fixed_append_break_semicolons :
    let split : Rule :=
      { code := "split", message := "one statement a line", severity := .hint, category := none
        pattern := .literal [';'], oldForm := ";", replacement := some [';', '\n'] }
    let quote : Rule :=
      { code := "quote", message := "quoted", severity := .warning, category := none
        pattern := .literal [], oldForm := "", substitution := some (.wrap ['é'] ['\n']) }
    Rule.validate [slashComment, split, quote] = .ok () ∧
      ∃ x y z, Fixed.ofRules [slashComment, split, quote] "a;é//".toList = .ok x ∧
        Fixed.ofRules [slashComment, split, quote] ";//;".toList = .ok y ∧
        Fixed.ofRules [slashComment, split, quote] ("a;é//".toList ++ '\n' :: ";//;".toList) =
          .ok z ∧
        z.text = x.text ++ '\n' :: y.text ∧
        z.remaining = x.remaining ++ y.remaining.map (Diagnostic.down x.text.lines.length) := by
  intro split quote
  have h : Rule.validate [slashComment, split, quote] = .ok () := rfl
  exact ⟨h, fixed_append_break h _ _⟩

end Migration
end QueryTidy
