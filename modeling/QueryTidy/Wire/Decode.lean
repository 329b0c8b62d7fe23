import QueryTidy.Diagnostic
import QueryTidy.Layout.Options
import QueryTidy.Place.Edit
import QueryTidy.Wire.Shown

/-! Reading positions, edits, reports and options that an editor sends. -/
namespace QueryTidy.Wire

inductive Fault where
  | missing (key : String)
  /-- A field is asked of a value that has none. -/
  | noFields (shape : Shape)
  /-- A field that need not be there is asked of a value that has none. -/
  | noLookup (shape : Shape)
  | badInteger (literal : String)
  | longInteger (digits : Nat)
  | notInteger (shape : Shape)
  | infinite
  | notSeverity (shape : Shape)
  | unknownSeverity (name : String)
  | place (fault : PlaceFault)
  | options (fault : Layout.OptionsFault)
deriving DecidableEq, Repr

def Fault.message : Fault → String
  | .missing key => Text.quotedString key
  | .noFields .arr => "list indices must be integers or slices, not str"
  | .noFields .str => "string indices must be integers, not 'str'"
  | .noFields shape => "'" ++ shape.name ++ "' object is not subscriptable"
  | .noLookup shape => "'" ++ shape.name ++ "' object has no attribute 'get'"
  | .badInteger literal =>
    "invalid literal for int() with base 10: "
      ++ String.ofList ((Text.quoted literal.toList).take 200)
  | .longInteger digits =>
    s!"Exceeds the limit ({Text.digitLimit} digits) for integer string conversion: "
      ++ s!"value has {digits} digits; use sys.set_int_max_str_digits() to increase the limit"
  | .notInteger shape =>
    "int() argument must be a string, a bytes-like object or a real number, not '"
      ++ shape.name ++ "'"
  | .infinite => "cannot convert float infinity to integer"
  | .notSeverity shape => "unhashable type: '" ++ shape.name ++ "'"
  | .unknownSeverity name => Text.quotedString name
  | .place fault => fault.message
  | .options fault => fault.message

namespace Value

def get (value : Value) (key : String) : Except Fault Value :=
  match value with
  | .obj fields =>
    match fields.lookup key with
    | some field => .ok field
    | none => .error (.missing key)
  | other => .error (.noFields other.shape)

def get? (value : Value) (key : String) : Except Fault (Option Value) :=
  match value with
  | .obj fields => .ok (fields.lookup key)
  | other => .error (.noLookup other.shape)

/-- An integer, also from a truth value, a fraction or a written integer. -/
def toInt : Value → Except Fault Int
  | .bool b => .ok (if b then 1 else 0)
  | .int n => .ok n
  | .real x =>
    match x.truncate? with
    | some n => .ok n
    | none => .error .infinite
  | .str s =>
    match Text.integer s.toList with
    | .ok n => .ok n
    | .error .malformed => .error (.badInteger s)
    | .error (.tooLong digits) => .error (.longInteger digits)
  | other => .error (.notInteger other.shape)

def textOr (value : Value) (key default : String) : Except Fault String := do
  match ← value.get? key with
  | some field => return field.toText
  | none => return default

def truthOr (value : Value) (key : String) (default : Bool) : Except Fault Bool := do
  match ← value.get? key with
  | some field => return field.truth
  | none => return default

end Value

def decodePosition (value : Value) : Except Fault Position := do
  let line ← (← value.get "line").toInt
  let column ← (← value.get "character").toInt
  (Position.ofInts line column).mapError .place

def decodeRange (value : Value) : Except Fault Range := do
  let start ← decodePosition (← value.get "start")
  let stop ← decodePosition (← value.get "end")
  (Range.between start stop).mapError .place

def decodeEdit (value : Value) : Except Fault Edit := do
  let range ← decodeRange (← value.get "range")
  let newText := (← value.get "newText").toText
  return ⟨range, newText.toList⟩

def decodeSeverity (value : Value) : Except Fault Severity :=
  match value with
  | .arr _ | .obj _ => .error (.notSeverity value.shape)
  | _ =>
    .ok ((Severity.numbered.find? fun s => s.number?.any (value.isNumber ·)).getD .error)

def decodeDiagnostic (value : Value) : Except Fault Diagnostic := do
  let code ← value.textOr "code" ""
  let message ← value.textOr "message" ""
  let range ← decodeRange (← value.get "range")
  let severity ← decodeSeverity ((← value.get? "severity").getD (.int 1))
  let source ← value.textOr "source" "supersql"
  return { code, message, range, severity, source }

/-- Layout options; a missing or zero `tabSize` means two. -/
def decodeOptions (value : Value) : Except Fault Layout.Options := do
  let size := match ← value.get? "tabSize" with
    | some field => if field.truth then field else .int 2
    | none => .int 2
  let width ← size.toInt
  let useSpaces ← value.truthOr "insertSpaces" true
  let trimTrailingWhitespace ← value.truthOr "trimTrailingWhitespace" false
  let insertFinalNewline ← value.truthOr "insertFinalNewline" false
  let trimFinalNewlines ← value.truthOr "trimFinalNewlines" false
  let indentWidth ← (Layout.width? width).mapError .options
  return { indentWidth, useSpaces, trimTrailingWhitespace, insertFinalNewline, trimFinalNewlines }

end QueryTidy.Wire
