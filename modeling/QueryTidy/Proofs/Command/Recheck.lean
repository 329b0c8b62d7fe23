import Mathlib.Dynamics.FixedPoints.Basic
import QueryTidy.Proofs.Command.Runs
import QueryTidy.Proofs.Layout.Idempotence

/-! Files that were written in their layout are found to be laid out. One file may be named more
than once, and is then written once. Main statement: `check_after_write`. -/
namespace QueryTidy

namespace Layout

theorem isFixedPt_format (options : Options) (t : Text) :
    Function.IsFixedPt (format options) (format options t) := by
  have hs : Settled options.indent (format options t) := (settled_body options t).tidyEnds
  have hb : format options (format options t) = tidyEnds options (format options t) :=
    congrArg (tidyEnds options) hs
  exact hb.trans (tidyEnds_tidyEnds options _)

theorem iterate_format (options : Options) (t : Text) {n : Nat} (hn : 0 < n) :
    (format options)^[n] t = format options t := by
  obtain ⟨n, rfl⟩ := Nat.exists_eq_add_one.2 hn
  rw [Function.iterate_succ_apply]
  exact (isFixedPt_format options t).iterate n

end Layout

namespace Command
open Files (Path Tree)
open Files.Tree (rewriteFile)

variable {options : Layout.Options} {verbose : Bool} {tree : Tree} {path : Path} {t : Text}
  {paths : List Path}

theorem readText_of_written (hp : ∀ path ∈ paths, path.hasNul = false) (hm : path ∈ paths)
    (h : tree.readText path = .ok t) :
    (paths.foldl (rewriteFile (Layout.format options)) tree).readText path =
      .ok (Layout.format options t) := by
  have hf (t : Text) : '\r' ∉ t → '\r' ∉ Layout.format options t :=
    Layout.return_not_mem_format options
  have hc : 0 < paths.countP (tree.locate · = tree.locate path) :=
    List.countP_pos_iff.2 ⟨path, hm, by simp⟩
  rw [Tree.readText_foldl_rewriteFile hf hp, h, Except.map, Layout.iterate_format options t hc]

/-- A report of nothing. Only the log on demand may have lines. -/
structure Report.Quiet (verbose : Bool) (report : Report) : Prop where
  stdout : report.stdout = ""
  stderr : verbose = false → report.stderr = ""
  flagged : report.flagged = false
  failed : report.failed = false

theorem Report.Quiet.append {report other : Report} (h : report.Quiet verbose)
    (ho : other.Quiet verbose) : (report.append other).Quiet verbose where
  stdout := by simp [Report.append, h.stdout, ho.stdout]
  stderr hv := by simp [Report.append, h.stderr hv, ho.stderr hv]
  flagged := by simp [Report.append, h.flagged, ho.flagged]
  failed := by simp [Report.append, h.failed, ho.failed]

theorem formatFile_of_laidOut (verbose : Bool) (tree : Tree) (path : Path)
    (h : Layout.format options t = t) :
    ∃ report, formatFile verbose .check options tree path t = .ok (tree, report) ∧
      report.Quiet verbose := by
  simp only [formatFile, Formatted.of, Formatted.changed, h, ne_eq, not_true_eq_false,
    decide_false]
  refine ⟨_, rfl, rfl, ?_, rfl, rfl⟩
  rintro rfl
  rfl

theorem overPaths_of_laidOut (verbose : Bool)
    (h : ∀ path ∈ paths, ∃ t, tree.readText path = .ok t ∧ Layout.format options t = t) :
    ∃ report, overPaths (formatFile verbose .check options) tree paths = .ok (tree, report) ∧
      report.Quiet verbose := by
  induction paths with
  | nil => exact ⟨{}, rfl, rfl, fun _ => rfl, rfl, rfl⟩
  | cons path paths ih =>
    obtain ⟨⟨t, hr, ht⟩, hs⟩ := List.forall_mem_cons.1 h
    obtain ⟨report, hw, hq⟩ := formatFile_of_laidOut verbose tree path ht
    obtain ⟨reports, ho, hqs⟩ := ih hs
    exact ⟨_, by rw [overPaths_of_ok hr, hw, Except.bind, ho]; rfl, hq.append hqs⟩

/-- A run that writes files in their layout comes to an end if they can be read. After it, a run
that checks them prints nothing, returns 0 and changes nothing. The first run changes no file but
those that are named and whose texts are not their layouts. -/
theorem check_after_write (options : Layout.Options) (verbose verbose' : Bool) (tree : Tree)
    (paths : List Path) (readable : ∀ path ∈ paths, ∃ t, tree.readText path = .ok t) :
    (∃ written, Task.run (.format .write options) verbose tree paths = .ok written) ∧
      ∀ written, Task.run (.format .write options) verbose tree paths = .ok written →
        (∃ checked, Task.run (.format .check options) verbose' written.tree paths = .ok checked ∧
          checked.exit = .status 0 ∧ checked.stdout = "" ∧
          (verbose' = false → checked.stderr = "") ∧ checked.tree = written.tree) ∧
        ∀ l, written.tree.node? l ≠ tree.node? l →
          ∃ path ∈ paths, ∃ t, tree.locate path = .ok l ∧ tree.readText path = .ok t ∧
            Layout.format options t ≠ t := by
  have hz : ∀ path ∈ paths, path.hasNul = false := by
    intro path hp
    obtain ⟨t, hr⟩ := readable path hp
    exact (Tree.exists_of_readText hr).1
  refine ⟨Task.exists_run_iff.2 hz, fun written h => ?_⟩
  obtain ⟨report, -, -, rfl⟩ := Task.exists_of_run h
  constructor
  · have hl : ∀ path ∈ paths, ∃ t,
        (paths.foldl (rewriteFile (Layout.format options)) tree).readText path = .ok t ∧
          Layout.format options t = t := by
      intro path hp
      obtain ⟨t, hr⟩ := readable path hp
      exact ⟨_, readText_of_written hz hp hr, Layout.isFixedPt_format options t⟩
    obtain ⟨checked, ho, hq⟩ := overPaths_of_laidOut verbose' hl
    refine ⟨_, Task.run_eq_ok ho, ?_, hq.stdout, hq.stderr, rfl⟩
    rw [Report.exit_outcome, Task.status_finish, Report.status, hq.failed, hq.flagged]
    rfl
  · intro l hl
    exact Tree.exists_of_node?_foldl_ne (fun t => Layout.return_not_mem_format options) hz hl

/-- Two names of a file that is written, one of them twice, and a file that is laid out but for its
kind of line ends. -/
theorem check_after_write_two_names :
    let options := { insertFinalNewline := true }
    let tree : Tree :=
      ⟨[(["d"], .directory), (["d", "a"], .file (Text.encode "f( x\r\n)|g".toList)),
        (["b"], .file (Text.encode "x\r\ny\r\n".toList))], ["d"]⟩
    let paths := ["a", "../b", "/d/../d/a", "a"].map Path.ofString
    ∃ written checked, Task.run (.format .write options) false tree paths = .ok written ∧
      written.tree.node? ["b"] = tree.node? ["b"] ∧
      Task.run (.format .check options) false written.tree paths = .ok checked ∧
      checked.exit = .status 0 ∧ checked.stdout = "" ∧ checked.stderr = "" ∧
      checked.tree = written.tree := by
  intro options tree paths
  have hr : ∀ path ∈ paths, (tree.readText path).isOk = true := by decide +kernel
  have readable : ∀ path ∈ paths, ∃ t, tree.readText path = .ok t := by
    intro path hp
    have h := hr path hp
    cases ht : tree.readText path with
    | error fault =>
      rw [ht] at h
      cases h
    | ok t => exact ⟨t, rfl⟩
  obtain ⟨⟨written, h⟩, hc⟩ := check_after_write options false false tree paths readable
  obtain ⟨⟨checked, ho, hz, hout, herr, ht⟩, hn⟩ := hc written h
  refine ⟨written, checked, h, ?_, ho, hz, hout, herr rfl, ht⟩
  -- Were the second file written, its text would not be its layout.
  have hb : ∀ path ∈ paths, tree.locate path = .ok ["b"] →
      tree.readText path = .ok "x\ny\n".toList := by decide +kernel
  have hf : Layout.format options "x\ny\n".toList = "x\ny\n".toList := by decide +kernel
  by_contra hne
  obtain ⟨path, hp, t, hl, hr, hne⟩ := hn ["b"] hne
  obtain rfl := Except.ok.inj ((hb path hp hl).symm.trans hr)
  exact hne hf

end Command
end QueryTidy
