import QueryTidy.Command.Request
import QueryTidy.Document
import QueryTidy.Wire.Encode
import QueryTidy.Wire.Print

/-! Laying out, checking and fixing files. A file that cannot be read is reported, and the others
are still worked on. -/
namespace QueryTidy.Command
open Files (Path Tree)

/-- What was done to some of the files: what was printed, what the JSON report lists, and whether
something was found or could not be read. -/
structure Report where
  stdout : String := ""
  stderr : String := ""
  entries : List Wire.Value := []
  flagged : Bool := false
  failed : Bool := false

namespace Report

def append (a b : Report) : Report :=
  ⟨a.stdout ++ b.stdout, a.stderr ++ b.stderr, a.entries ++ b.entries, a.flagged || b.flagged,
   a.failed || b.failed⟩

/-- A file that cannot be read goes before anything that was found. -/
def status (r : Report) : Nat := if r.failed then 2 else if r.flagged then 1 else 0

end Report

def logLine (level logger text : String) : String := level ++ " " ++ logger ++ ": " ++ text ++ "\n"

def logged (verbose : Bool) (lines : List String) : String :=
  if verbose then String.join lines else ""

def unreadable (path : Path) (fault : Files.Fault) : Report where
  stderr := logLine "ERROR" "supersql.cli" ("Cannot read " ++ path.text ++ ": " ++ fault.message)
  failed := true

def wroteLog (path : Path) : String := logLine "INFO" "supersql.cli" ("Wrote " ++ path.text)

def describe (path : Path) (d : Diagnostic) : String :=
  s!"{path.text}:{d.range.start.line + 1}:{d.range.start.column + 1}: "
    ++ s!"{d.severity.name} [{d.code}] {d.message}\n"

abbrev Work := Tree → Path → Text → Except Fault (Tree × Report)

/-- Works on the files in turn. A path that no file can have ends it all. -/
def overPaths (work : Work) (tree : Tree) : List Path → Except Fault (Tree × Report)
  | [] => .ok (tree, {})
  | path :: paths => do
    let (tree, report) ← match tree.readText path with
      | .error .nul => throw (.file .nul)
      | .error fault => pure (tree, unreadable path fault)
      | .ok t => work tree path t
    let (tree, reports) ← overPaths work tree paths
    return (tree, report.append reports)

def save (tree : Tree) (path : Path) (t : Text) : Except Fault Tree :=
  (tree.writeText path t).mapError .file

def formatFile (verbose : Bool) (mode : FormatMode) (options : Layout.Options) : Work :=
  fun tree path t => do
    let r := Formatted.of options t
    let tokens := logLine "DEBUG" "supersql.format.formatter"
      s!"Formatting {(tokenize t).length} tokens"
    match mode with
    | .print =>
      return (tree, { stdout := String.ofList r.text, stderr := logged verbose [tokens] })
    | .check =>
      let stdout := if r.changed then "would reformat " ++ path.text ++ "\n" else ""
      return (tree, { stdout, stderr := logged verbose [tokens], flagged := r.changed })
    | .write =>
      if r.changed then
        let tree ← save tree path r.text
        return (tree, { stderr := logged verbose [tokens, wroteLog path] })
      else return (tree, { stderr := logged verbose [tokens] })

def scanLog (t : Text) : String :=
  logLine "DEBUG" "supersql.migrate.scanner"
    (s!"Scanned {t.lines.length} lines, "
      ++ s!"{(Migration.scan Migration.registry t).length} migration findings")

def checkFile (verbose json : Bool) : Work := fun tree path t => do
  let r := Checked.of Migration.registry t
  let stderr := logged verbose [scanLog t]
  if json then
    let diagnostics ← (r.diagnostics.mapM Wire.encodeDiagnostic).mapError .wire
    let entry : Wire.Value := .obj [("path", .str path.text), ("diagnostics", .arr diagnostics)]
    return (tree, { stderr, entries := [entry], flagged := r.hasErrors })
  else
    return (tree, { stdout := String.join (r.diagnostics.map (describe path)), stderr
                    flagged := r.hasErrors })

def droppedLog (fix : Migration.Fix) : String :=
  logLine "DEBUG" "supersql.migrate.actions"
    s!"Dropping overlapping {fix.diagnostic.code} fix at {fix.edit.range.describe}"

def fixFile (verbose write : Bool) : Work := fun tree path t => do
  let r ← (Fixed.of Migration.registry t).mapError .edit
  let dropped := Migration.Fix.dropped (Migration.scan Migration.registry t)
  let applied := logLine "DEBUG" "supersql.pipeline.entrypoints"
    s!"Applied {r.edits.length} fixes, {r.remaining.length} diagnostics remain"
  let count := logLine "INFO" "supersql.cli" s!"{path.text}: {r.edits.length} fixes applied"
  let log := scanLog t :: dropped.map droppedLog ++ [scanLog r.text, applied, count]
  let remaining := String.join (r.remaining.map (describe path))
  let flagged := Diagnostic.hasErrors r.remaining
  if write then
    if r.changed then
      let tree ← save tree path r.text
      return (tree, { stderr := logged verbose (log ++ [wroteLog path]) ++ remaining, flagged })
    else return (tree, { stderr := logged verbose log ++ remaining, flagged })
  else
    return (tree, { stdout := String.ofList r.text, stderr := logged verbose log ++ remaining
                    flagged })

def ruleLine (rule : Migration.Rule) : String :=
  let column (width : Nat) (s : String) : String := String.ofList (s.toList.rightpad width ' ')
  let change := match rule.newForm with
    | some after => rule.oldForm ++ " -> " ++ after
    | none => rule.oldForm ++ " (no automatic fix)"
  column 28 rule.code ++ " " ++ column 8 rule.severity.name ++ " " ++ change ++ "\n"

def Report.outcome (tree : Tree) (r : Report) : Outcome :=
  { exit := .status r.status, stdout := r.stdout, stderr := r.stderr, tree }

def Report.withEntries (r : Report) : Report :=
  { r with stdout := Wire.print 0 (.arr r.entries) ++ "\n" }

def Invocation.run (invocation : Invocation) (tree : Tree) : Except Fault Outcome := do
  let verbose := invocation.verbose
  match invocation.request with
  | .format mode options paths =>
    let (tree, report) ← overPaths (formatFile verbose mode options) tree paths
    return report.outcome tree
  | .check json paths =>
    let (tree, report) ← overPaths (checkFile verbose json) tree paths
    return (if json then report.withEntries else report).outcome tree
  | .fix write paths =>
    let (tree, report) ← overPaths (fixFile verbose write) tree paths
    return report.outcome tree
  | .rules =>
    return { exit := .status 0, stdout := String.join (Migration.registry.map ruleLine), tree }

def tidy (tree : Tree) (arguments : List String) : Except Fault Outcome :=
  match Invocation.ofArguments arguments with
  | .error stop => stop.outcome tree
  | .ok invocation => invocation.run tree

end QueryTidy.Command
