import QueryTidy.Proofs.Command.Tasks

/-! Commands over many files. A file that cannot be read tells on the exit status and on nothing
else. Main statements: `overPaths_filter`, `overPaths_eq_ok`, `unreadable_isolated`. -/
namespace QueryTidy

def Files.Tree.isUnreadable (tree : Tree) (path : Path) : Bool :=
  match tree.readText path with
  | .error (.path _ _) => true
  | .error (.content _) => true
  | .error .nul => false
  | .ok _ => false

namespace Command
open Files (Path Tree)
open Files.Tree (rewriteFile)

variable {task : Task} {verbose : Bool} {work : Work} {tree tree' : Tree} {path : Path}
  {paths : List Path}

inductive ReadingCases (tree : Tree) (path : Path) : Prop
  | nul : path.hasNul = true → tree.readText path = .error .nul →
      tree.isUnreadable path = false → ReadingCases tree path
  | unreadable {fault} : path.hasNul = false → tree.readText path = .error fault → fault ≠ .nul →
      tree.isUnreadable path = true → ReadingCases tree path
  | text {t} : path.hasNul = false → tree.readText path = .ok t →
      tree.isUnreadable path = false → ReadingCases tree path

theorem reading_cases (tree : Tree) (path : Path) : ReadingCases tree path := by
  cases hp : path.hasNul with
  | true =>
    have hr : tree.readText path = .error .nul := by simp [Tree.readText, hp]
    exact .nul hp hr (by rw [Tree.isUnreadable, hr])
  | false =>
    cases hr : tree.readText path with
    | ok t => exact .text hp hr (by rw [Tree.isUnreadable, hr])
    | error fault =>
      cases fault with
      | path cause p => exact .unreadable hp hr (by simp) (by rw [Tree.isUnreadable, hr])
      | content fault => exact .unreadable hp hr (by simp) (by rw [Tree.isUnreadable, hr])
      | nul =>
        rw [Tree.readText_eq hp] at hr
        repeat' split at hr
        all_goals cases hr

theorem isUnreadable_rewriteFile (task : Task) (hp : path.hasNul = false) (q : Path) :
    (tree.rewriteFile task.rewrite path).isUnreadable q = tree.isUnreadable q := by
  unfold Tree.isUnreadable
  rw [Tree.readText_rewriteFile task.return_not_mem_rewrite hp]
  by_cases he : tree.locate q = tree.locate path
  · rw [if_pos he]
    cases tree.readText q <;> rfl
  · rw [if_neg he]

def Report.before (report : Report) (x : Tree × Report) : Tree × Report :=
  (x.1, report.append x.2)

theorem overPaths_of_nul (h : tree.readText path = .error .nul) :
    overPaths work tree (path :: paths) = .error (.file .nul) := by
  rw [overPaths, h]
  rfl

theorem overPaths_of_error {fault : Files.Fault} (h : tree.readText path = .error fault)
    (hn : fault ≠ .nul) :
    overPaths work tree (path :: paths) =
      (overPaths work tree paths).map (unreadable path fault).before := by
  rw [overPaths, h]
  cases fault with
  | nul => exact absurd rfl hn
  | path | content =>
    simp only [bind, Except.bind, pure, Except.pure]
    cases overPaths work tree paths <;> rfl

theorem overPaths_of_ok {t : Text} (h : tree.readText path = .ok t) :
    overPaths work tree (path :: paths) =
      (work tree path t).bind fun x => (overPaths work x.1 paths).map x.2.before := by
  rw [overPaths, h]
  simp only [bind, Except.bind]
  cases work tree path t with
  | error fault => rfl
  | ok x =>
    obtain ⟨tree', report⟩ := x
    simp only
    cases overPaths work tree' paths <;> rfl

def shown (x : Tree × Report) : Tree × String × List Wire.Value :=
  (x.1, x.2.stdout, x.2.entries)

theorem map_shown_before (report : Report) (result : Except Fault (Tree × Report)) :
    (result.map report.before).map shown =
      (result.map shown).map fun y => (y.1, report.stdout ++ y.2.1, report.entries ++ y.2.2) := by
  cases result <;> rfl

theorem overPaths_filter (task : Task) (verbose : Bool) (tree : Tree) (paths : List Path) :
    (overPaths (task.work verbose) tree (paths.filter (!tree.isUnreadable ·))).map shown =
      (overPaths (task.work verbose) tree paths).map shown := by
  induction paths generalizing tree with
  | nil => rfl
  | cons path paths ih =>
    obtain ⟨-, hr, hu⟩ | ⟨-, hr, hn, hu⟩ | ⟨hp, hr, hu⟩ := reading_cases tree path
    · rw [List.filter_cons_of_pos (by simp [hu]), overPaths_of_nul hr, overPaths_of_nul hr]
    · rw [List.filter_cons_of_neg (by simp [hu]), overPaths_of_error hr hn, map_shown_before, ih]
      cases overPaths (task.work verbose) tree paths with
      | error fault => rfl
      | ok x => simp [Except.map, shown, unreadable]
    · rw [List.filter_cons_of_pos (by simp [hu]), overPaths_of_ok hr, overPaths_of_ok hr]
      obtain ⟨report, hw, -⟩ := task.does_of_readText verbose hr
      have hi := ih (tree.rewriteFile task.rewrite path)
      simp only [isUnreadable_rewriteFile task hp] at hi
      rw [hw]
      simp only [Except.bind, map_shown_before, hi]

/-- Something is found in one of the files, each of them read in its turn: it was rewritten as
often as the paths before led to it. -/
def Task.Finds (task : Task) (tree : Tree) (paths : List Path) : Prop :=
  ∃ i path t, paths[i]? = some path ∧ tree.readText path = .ok t ∧
    task.finds (task.rewrite^[(paths.take i).countP (tree.locate · = tree.locate path)] t) = true

theorem not_finds_nil : ¬ task.Finds tree [] := by
  rintro ⟨i, path, t, hi, -⟩
  simp at hi

theorem finds_cons_iff (hp : path.hasNul = false) :
    task.Finds tree (path :: paths) ↔
      (∃ t, tree.readText path = .ok t ∧ task.finds t = true) ∨
        task.Finds (tree.rewriteFile task.rewrite path) paths := by
  -- The text of a file after the first turn.
  have hone (q : Path) : (tree.rewriteFile task.rewrite path).readText q =
      (tree.readText q).map
        task.rewrite^[if tree.locate path = tree.locate q then 1 else 0] := by
    have h : ([path].foldl (rewriteFile task.rewrite) tree).readText q = _ :=
      Tree.readText_foldl_rewriteFile task.return_not_mem_rewrite (by simpa using hp) q
    simpa [List.countP_cons] using h
  constructor
  · rintro ⟨i, q, t, hi, hr, hf⟩
    cases i with
    | zero =>
      obtain rfl : path = q := by simpa using hi
      exact .inl ⟨t, hr, by simpa using hf⟩
    | succ i =>
      refine .inr ⟨i, q, _, by simpa using hi, by rw [hone, hr]; rfl, ?_⟩
      simpa [List.countP_cons, Function.iterate_add_apply] using hf
  · rintro (⟨t, hr, hf⟩ | ⟨i, q, s, hi, hr, hf⟩)
    · exact ⟨0, path, t, rfl, hr, by simpa using hf⟩
    · rw [hone] at hr
      obtain ⟨t, ht, rfl⟩ := exists_of_map_eq_ok hr
      refine ⟨i + 1, q, t, by simpa using hi, ht, ?_⟩
      simpa [List.countP_cons, Function.iterate_add_apply] using hf

/-- A run that is not broken off rewrites the files in turn, and it keeps in mind whether one of
them could not be read and whether something was found. -/
theorem overPaths_eq_ok (verbose : Bool) (h : ∀ path ∈ paths, path.hasNul = false) :
    ∃ report, overPaths (task.work verbose) tree paths =
        .ok (paths.foldl (rewriteFile task.rewrite) tree, report) ∧
      (report.failed = true ↔ ∃ path ∈ paths, tree.isUnreadable path = true) ∧
      (report.flagged = true ↔ task.Finds tree paths) := by
  induction paths generalizing tree with
  | nil => exact ⟨{}, rfl, by simp, by simp [not_finds_nil]⟩
  | cons path paths ih =>
    obtain ⟨hp, hs⟩ := List.forall_mem_cons.1 h
    obtain ⟨reports, ho, hfail, hflag⟩ := @ih (tree.rewriteFile task.rewrite path) hs
    simp only [isUnreadable_rewriteFile task hp] at hfail
    rw [List.foldl_cons]
    simp only [finds_cons_iff hp, ← hflag, List.exists_mem_cons_iff, ← hfail]
    obtain ⟨hc, -, -⟩ | ⟨-, hr, hc, hu⟩ | ⟨-, hr, hu⟩ := reading_cases tree path
    · exact absurd hc (by simp [hp])
    · rw [Tree.rewriteFile_of_error hr] at ho ⊢
      refine ⟨_, by rw [overPaths_of_error hr hc, ho]; rfl, ?_, ?_⟩
      · simp [Report.append, unreadable, hu]
      · simp [Report.append, unreadable, hr]
    · obtain ⟨report, hw, hrf, hrg⟩ := task.does_of_readText verbose hr
      refine ⟨_, by rw [overPaths_of_ok hr, hw, Except.bind, ho]; rfl, ?_, ?_⟩
      · simp [Report.append, hrf, hu]
      · simp [Report.append, hrg, hr]

theorem hasNul_of_overPaths {x : Tree × Report}
    (h : overPaths (task.work verbose) tree paths = .ok x) :
    ∀ path ∈ paths, path.hasNul = false := by
  induction paths generalizing tree x with
  | nil => simp
  | cons path paths ih =>
    obtain ⟨-, hr, -⟩ | ⟨hp, hr, hc, -⟩ | ⟨hp, hr, -⟩ := reading_cases tree path
    · rw [overPaths_of_nul hr] at h
      cases h
    · rw [overPaths_of_error hr hc] at h
      obtain ⟨y, ho, -⟩ := exists_of_map_eq_ok h
      exact List.forall_mem_cons.2 ⟨hp, ih ho⟩
    · obtain ⟨report, hw, -⟩ := task.does_of_readText verbose hr
      rw [overPaths_of_ok hr, hw, Except.bind] at h
      obtain ⟨y, ho, -⟩ := exists_of_map_eq_ok h
      exact List.forall_mem_cons.2 ⟨hp, ih ho⟩

namespace Report
variable {report : Report}

theorem exit_outcome (report : Report) (tree : Tree) :
    (report.outcome tree).exit = .status report.status :=
  rfl

theorem status_eq_two_iff : report.status = 2 ↔ report.failed = true := by
  cases hf : report.failed <;> cases hg : report.flagged <;> simp [status, hf, hg]

theorem status_of_not_failed (h : report.failed = false) :
    (report.status = 1 ↔ report.flagged = true) ∧
      (report.status = 0 ↔ ¬ report.flagged = true) := by
  cases hg : report.flagged <;> simp [status, h, hg]

end Report

def Task.finish : Task → Report → Report
  | .check true => Report.withEntries
  | _ => id

@[simp]
theorem Task.status_finish (task : Task) (report : Report) :
    (task.finish report).status = report.status := by
  cases task with
  | format mode options => rfl
  | check json => cases json <;> rfl
  | fix write => rfl

def Task.run (task : Task) (verbose : Bool) (tree : Tree) (paths : List Path) :
    Except Fault Outcome :=
  Invocation.run ⟨verbose, task.request paths⟩ tree

theorem Task.run_eq (task : Task) (verbose : Bool) (tree : Tree) (paths : List Path) :
    task.run verbose tree paths =
      (overPaths (task.work verbose) tree paths).map fun x => (task.finish x.2).outcome x.1 := by
  cases task <;>
    simp only [Task.run, Task.request, Task.work, Invocation.run, bind, Except.bind]
  case format mode options => cases overPaths (formatFile verbose mode options) tree paths <;> rfl
  case check json =>
    cases overPaths (checkFile verbose json) tree paths with
    | error fault => rfl
    | ok x => cases json <;> rfl
  case fix write => cases overPaths (fixFile verbose write) tree paths <;> rfl

theorem Task.run_eq_ok {report : Report}
    (h : overPaths (task.work verbose) tree paths = .ok (tree', report)) :
    task.run verbose tree paths = .ok ((task.finish report).outcome tree') := by
  rw [Task.run_eq, h]
  rfl

theorem Task.exists_run_iff : (∃ outcome, task.run verbose tree paths = .ok outcome) ↔
    ∀ path ∈ paths, path.hasNul = false := by
  constructor
  · rintro ⟨outcome, h⟩
    rw [Task.run_eq] at h
    obtain ⟨x, ho, -⟩ := exists_of_map_eq_ok h
    exact hasNul_of_overPaths ho
  · intro h
    obtain ⟨report, ho, -⟩ := overPaths_eq_ok verbose h
    exact ⟨_, Task.run_eq_ok ho⟩

theorem Task.exists_of_run {outcome : Outcome} (h : task.run verbose tree paths = .ok outcome) :
    ∃ report : Report, (report.failed = true ↔ ∃ path ∈ paths, tree.isUnreadable path = true) ∧
      (report.flagged = true ↔ task.Finds tree paths) ∧
      (task.finish report).outcome (paths.foldl (rewriteFile task.rewrite) tree) = outcome := by
  have hp := Task.exists_run_iff.1 ⟨outcome, h⟩
  obtain ⟨report, ho, hfail, hflag⟩ := overPaths_eq_ok verbose hp
  exact ⟨report, hfail, hflag, Except.ok.inj ((Task.run_eq_ok ho).symm.trans h)⟩

def Outcome.effect (outcome : Outcome) : String × Tree := (outcome.stdout, outcome.tree)

def Task.effect (task : Task) (x : Tree × String × List Wire.Value) : String × Tree :=
  ((task.finish { stdout := x.2.1, entries := x.2.2 }).stdout, x.1)

theorem Task.map_effect_run (task : Task) (verbose : Bool) (tree : Tree) (paths : List Path) :
    (task.run verbose tree paths).map Outcome.effect =
      ((overPaths (task.work verbose) tree paths).map shown).map task.effect := by
  rw [Task.run_eq]
  cases overPaths (task.work verbose) tree paths with
  | error fault => rfl
  | ok x =>
    cases task with
    | format mode options => rfl
    | check json => cases json <;> rfl
    | fix write => rfl

/-- A path that cannot be read makes the exit status 2. What is printed, what is written and
whether the run is broken off depend on the other paths alone, and without such a path the exit
status tells whether something was found. -/
theorem unreadable_isolated (task : Task) (verbose : Bool) (tree : Tree) (paths : List Path) :
    (task.run verbose tree (paths.filter (!tree.isUnreadable ·))).map Outcome.effect =
        (task.run verbose tree paths).map Outcome.effect ∧
      ((∃ outcome, task.run verbose tree paths = .ok outcome) ↔
        ∀ path ∈ paths, path.hasNul = false) ∧
      ∀ outcome, task.run verbose tree paths = .ok outcome →
        (outcome.exit = .status 2 ↔ ∃ path ∈ paths, tree.isUnreadable path = true) ∧
        ((∀ path ∈ paths, tree.isUnreadable path = false) →
          (outcome.exit = .status 1 ↔ task.Finds tree paths) ∧
          (outcome.exit = .status 0 ↔ ¬ task.Finds tree paths)) := by
  refine ⟨?_, Task.exists_run_iff, ?_⟩
  · rw [Task.map_effect_run, Task.map_effect_run, overPaths_filter]
  · intro outcome h
    obtain ⟨report, hfail, hflag, rfl⟩ := Task.exists_of_run h
    rw [← hfail, ← hflag, Report.exit_outcome, Task.status_finish]
    refine ⟨by rw [Exit.status.injEq, Report.status_eq_two_iff], fun hr => ?_⟩
    have hn : report.failed = false := by
      rw [← Bool.not_eq_true, hfail]
      simpa using hr
    obtain ⟨hone, hzero⟩ := Report.status_of_not_failed hn
    rw [Exit.status.injEq, Exit.status.injEq, hone, hzero]
    exact ⟨Iff.rfl, Iff.rfl⟩

/-- A missing file, a directory and a file that is not UTF-8, between two names of one file that
is fixed and still has an error. -/
theorem unreadable_isolated_between_names :
    let text := "crop(yield)\r\nf(x)".toList
    let tree : Tree :=
      ⟨[(["d"], .directory), (["d", "a"], .file (Text.encode text)), (["b"], .file [255])], ["d"]⟩
    let paths := ["a", "none", "../d", "../b", "/d/a"].map Path.ofString
    let readable := ["a", "/d/a"].map Path.ofString
    ∃ outcome outcome', Task.run (.fix true) false tree paths = .ok outcome ∧
      Task.run (.fix true) false tree readable = .ok outcome' ∧
      outcome'.effect = outcome.effect ∧ outcome.exit = .status 2 ∧ outcome'.exit = .status 1 := by
  intro text tree paths readable
  have hf : paths.filter (!tree.isUnreadable ·) = readable := by decide +kernel
  have hn : ∀ path ∈ paths, path.hasNul = false := by decide +kernel
  have hs : ∀ path ∈ readable, path ∈ paths ∧ tree.isUnreadable path = false := by decide +kernel
  obtain ⟨he, hi, hx⟩ := unreadable_isolated (.fix true) false tree paths
  obtain ⟨-, hi', hx'⟩ := unreadable_isolated (.fix true) false tree readable
  obtain ⟨outcome, ho⟩ := hi.2 hn
  obtain ⟨outcome', ho'⟩ := hi'.2 fun path hp => hn path (hs path hp).1
  refine ⟨outcome, outcome', ho, ho', ?_, ?_, ?_⟩
  · rw [hf, ho, ho'] at he
    exact Except.ok.inj he
  · refine (hx outcome ho).1.2 ⟨⟨"", ["none"]⟩, ?_⟩
    decide +kernel
  · refine ((hx' outcome' ho').2 fun path hp => (hs path hp).2).1.2 ?_
    exact ⟨0, ⟨"", ["a"]⟩, "crop(yield)\nf(x)".toList, by decide +kernel⟩

end Command
end QueryTidy
