import QueryTidy.Place.Range
import QueryTidy.Text.Column

/-! Replacing a range of a document by a new text. -/
namespace QueryTidy

structure Edit where
  range : Range
  newText : Text
deriving DecidableEq

inductive EditFault where
  | pastLastLine (range : Range) (lastLine : Nat)
  | column (fault : Text.ColumnFault)
deriving DecidableEq

def EditFault.message : EditFault → String
  | .pastLastLine range lastLine =>
    s!"Edit range {range.describe} is past the last line ({lastLine})"
  | .column fault => fault.message

namespace Edit

def lineOffset : List Text → Nat → Nat
  | l :: lines, line + 1 => l.length + 1 + lineOffset lines line
  | _, _ => 0

def locate (lines : List Text) (p : Position) : Except Text.ColumnFault Nat :=
  ((lines.getD p.line []).indexAt p.column).map (lineOffset lines p.line + ·)

/-- The text with the range replaced. The last line is looked at first, then the start, then
the end. -/
def apply (edit : Edit) (t : Text) : Except EditFault Text :=
  let lines := t.lines
  if lines.length ≤ edit.range.stop.line then
    .error (.pastLastLine edit.range (lines.length - 1))
  else match locate lines edit.range.start with
    | .error fault => .error (.column fault)
    | .ok start =>
      match locate lines edit.range.stop with
      | .error fault => .error (.column fault)
      | .ok stop => .ok (t.take start ++ edit.newText ++ t.drop stop)

def applyAll (t : Text) : List Edit → Except EditFault Text
  | [] => .ok t
  | edit :: edits => (edit.apply t).bind (applyAll · edits)

/-- The edits that make `target` of `source`: none, or one that replaces the document. -/
def toMake (target source : Text) : List Edit :=
  if target = source then [] else [⟨.document source, target⟩]

end Edit
end QueryTidy
