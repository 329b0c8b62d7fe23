import QueryTidy.Command.Tidy
import QueryTidy.Proofs.Command.Content
import QueryTidy.Proofs.Files.Rewriting
import QueryTidy.Proofs.Wire.RoundTrip

/-! What each command does to one file: it puts a new text in its place or leaves it alone, and
tells whether something was found in it. Main statement: `does_of_readText`. -/
namespace QueryTidy.Command
open Files (Path Tree)
open Migration (registry)

inductive Task where
  | format (mode : FormatMode) (options : Layout.Options)
  | check (json : Bool)
  | fix (write : Bool)
deriving DecidableEq, Repr

namespace Task

def request : Task → List Path → Request
  | .format mode options => .format mode options
  | .check json => .check json
  | .fix write => .fix write

def work (verbose : Bool) : Task → Work
  | .format mode options => formatFile verbose mode options
  | .check json => checkFile verbose json
  | .fix write => fixFile verbose write

def rewrite : Task → Text → Text
  | .format .write options => Layout.format options
  | .fix true => Migration.fixedText
  | _ => id

def finds : Task → Text → Bool
  | .format .check options, t => Layout.format options t ≠ t
  | .format _ _, _ => false
  | .check _, t => (Checked.of registry t).diagnostics.any (·.severity = .error)
  | .fix _, t =>
    match Fixed.of registry t with
    | .ok fixed => fixed.remaining.any (·.severity = .error)
    | .error _ => false

variable {task : Task} {verbose : Bool} {tree : Tree} {path : Path} {t : Text}

theorem return_not_mem_rewrite (task : Task) (t : Text) (h : '\r' ∉ t) : '\r' ∉ task.rewrite t := by
  cases task with
  | format mode options =>
    cases mode with
    | print | check => exact h
    | write => exact Layout.return_not_mem_format options h
  | check json => exact h
  | fix write =>
    cases write with
    | false => exact h
    | true => exact Migration.return_not_mem_fixedText h

theorem save_eq_ok {f : Text → Text} (h : tree.readText path = .ok t) (hc : f t ≠ t) :
    save tree path (f t) = .ok (tree.rewriteFile f path) := by
  obtain ⟨-, -, l, -, hl, -⟩ := Tree.exists_of_readText h
  rw [save, Tree.writeText_of_readText h hl, Tree.rewriteFile_of_ok h hl, if_neg hc]
  rfl

theorem rewriteFile_of_eq {f : Text → Text} (h : tree.readText path = .ok t) (hc : f t = t) :
    tree.rewriteFile f path = tree := by
  obtain ⟨-, -, l, -, hl, -⟩ := Tree.exists_of_readText h
  rw [Tree.rewriteFile_of_ok h hl, if_pos hc]

/-- What is said of a task on a file with a given text: the file is rewritten, and it is flagged
when something is found in it. -/
def Does (task : Task) (verbose : Bool) (tree : Tree) (path : Path) (t : Text) : Prop :=
  ∃ report, task.work verbose tree path t = .ok (tree.rewriteFile task.rewrite path, report) ∧
    report.failed = false ∧ report.flagged = task.finds t

theorem does_of_eq (hr : tree.readText path = .ok t) (hc : task.rewrite t = t)
    (h : ∃ report, task.work verbose tree path t = .ok (tree, report) ∧
      report.failed = false ∧ report.flagged = task.finds t) :
    Does task verbose tree path t := by
  rwa [Does, rewriteFile_of_eq hr hc]

theorem does_format (mode : FormatMode) (options : Layout.Options) (verbose : Bool)
    (hr : tree.readText path = .ok t) : Does (.format mode options) verbose tree path t := by
  cases mode with
  | print | check => exact does_of_eq hr rfl ⟨_, rfl, rfl, rfl⟩
  | write =>
    by_cases hc : Layout.format options t = t
    · refine does_of_eq hr hc ?_
      simp only [work, formatFile, Formatted.of, Formatted.changed, hc, ne_eq, not_true_eq_false,
        decide_false, Bool.false_eq_true, if_false]
      exact ⟨_, rfl, rfl, rfl⟩
    · simp only [Does, work, formatFile, Formatted.of, Formatted.changed, hc, ne_eq,
        not_false_eq_true, decide_true, if_true, save_eq_ok hr hc, bind, Except.bind]
      exact ⟨_, rfl, rfl, rfl⟩

theorem does_check (json verbose : Bool) (hr : tree.readText path = .ok t) :
    Does (.check json) verbose tree path t := by
  have hs : ∀ rule ∈ registry, rule.severity ∈ Severity.numbered := by decide
  -- The rules of the registry have severities that can be sent.
  have hd : (Checked.of registry t).diagnostics.mapM Wire.encodeDiagnostic = .ok
      ((Checked.of registry t).diagnostics.map fun d =>
        (Wire.encodeDiagnostic d).toOption.getD default) := by
    refine Wire.mapM_eq_ok ?_
    intro d hd
    obtain ⟨value, hv, -⟩ :=
      Wire.decodeDiagnostic_of_encode (Migration.severity_of_mem_sort hs hd)
    rw [hv]
    rfl
  refine does_of_eq hr rfl ?_
  simp only [work, checkFile, hd, Except.mapError, bind, Except.bind]
  cases json with
  | false => exact ⟨_, rfl, rfl, rfl⟩
  | true => exact ⟨_, rfl, rfl, rfl⟩

theorem does_fix (write verbose : Bool) (hr : tree.readText path = .ok t) :
    Does (.fix write) verbose tree path t := by
  have hf := Migration.of_eq_ok_fixedText t
  cases write with
  | false =>
    refine does_of_eq hr rfl ?_
    simp only [work, fixFile, finds, hf, Except.mapError, bind, Except.bind]
    exact ⟨_, rfl, rfl, rfl⟩
  | true =>
    by_cases hc : Migration.fixedText t = t
    · refine does_of_eq hr hc ?_
      simp only [work, fixFile, finds, hf, Except.mapError, bind, Except.bind, Fixed.changed, hc,
        ne_eq, not_true_eq_false, decide_false, Bool.false_eq_true, if_false, if_true]
      exact ⟨_, rfl, rfl, rfl⟩
    · simp only [Does, work, fixFile, finds, hf, Except.mapError, bind, Except.bind, Fixed.changed,
        hc, ne_eq, not_false_eq_true, decide_true, if_true, save_eq_ok hr hc]
      exact ⟨_, rfl, rfl, rfl⟩

theorem does_of_readText (task : Task) (verbose : Bool) (hr : tree.readText path = .ok t) :
    task.Does verbose tree path t := by
  cases task with
  | format mode options => exact does_format mode options verbose hr
  | check json => exact does_check json verbose hr
  | fix write => exact does_fix write verbose hr

end Task
end QueryTidy.Command
