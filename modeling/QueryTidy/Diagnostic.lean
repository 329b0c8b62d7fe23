import QueryTidy.Place.Range

/-! Reports about a range of a document. -/
namespace QueryTidy

/-- How grave a report is. A rule may bring a name of its own, which has no number. -/
inductive Severity where
  | error | warning | information | hint
  | named (name : String)
deriving DecidableEq, Repr

namespace Severity

def name : Severity → String
  | .error => "error"
  | .warning => "warning"
  | .information => "information"
  | .hint => "hint"
  | .named name => name

def ofName (s : String) : Severity :=
  if s = "error" then .error
  else if s = "warning" then .warning
  else if s = "information" then .information
  else if s = "hint" then .hint
  else .named s

def number? : Severity → Option Nat
  | .error => some 1
  | .warning => some 2
  | .information => some 3
  | .hint => some 4
  | .named _ => none

def numbered : List Severity := [.error, .warning, .information, .hint]

end Severity

structure Diagnostic where
  code : String
  message : String
  range : Range
  severity : Severity := .error
  source : String := "supersql"
  category : Option String := none
deriving DecidableEq

namespace Diagnostic

/-- What identifies a report when an editor sends it back: its code and its range. -/
def sameKey (d e : Diagnostic) : Bool := d.code = e.code && d.range = e.range

def isError (d : Diagnostic) : Bool := d.severity = .error

def hasErrors (ds : List Diagnostic) : Bool := ds.any isError

def le (d e : Diagnostic) : Bool :=
  d.range < e.range || (d.range = e.range && d.code ≤ e.code)

/-- In document order; reports with the same range and code keep their order. -/
def sort (ds : List Diagnostic) : List Diagnostic := ds.mergeSort le

end Diagnostic
end QueryTidy
