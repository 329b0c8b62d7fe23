import QueryTidy.Migration.Action
import QueryTidy.Wire.Decode

/-! Values that are sent to an editor. -/
namespace QueryTidy.Wire
open Migration

def encodePosition (p : Position) : Value :=
  .obj [("line", .int p.line), ("character", .int p.column)]

def encodeRange (r : Range) : Value :=
  .obj [("start", encodePosition r.start), ("end", encodePosition r.stop)]

def encodeEdit (e : Edit) : Value :=
  .obj [("range", encodeRange e.range), ("newText", .str (String.ofList e.newText))]

/-- A severity of its own name has no number and cannot be sent. -/
def encodeDiagnostic (d : Diagnostic) : Except Fault Value :=
  match d.severity.number? with
  | none => .error (.unknownSeverity d.severity.name)
  | some number =>
    .ok (.obj [("range", encodeRange d.range), ("severity", .int number), ("code", .str d.code),
      ("source", .str d.source), ("message", .str d.message)])

def encodeAction (a : Action) : Except Fault Value := do
  let diagnostics ← a.diagnostics.mapM encodeDiagnostic
  let preferred := if a.isPreferred then [("isPreferred", .bool true)] else []
  return .obj ([("title", .str a.title), ("kind", .str a.kind.name),
    ("diagnostics", .arr diagnostics),
    ("edit", .obj [("changes", .obj [(a.document, .arr (a.edits.map encodeEdit))])])] ++ preferred)

end QueryTidy.Wire
