import QueryTidy.Layout.Rendering
import QueryTidy.Migration.FixAll

/-! What the tools make of one document. -/
namespace QueryTidy
open Migration

structure Formatted where
  source : Text
  text : Text
  edits : List Edit
deriving DecidableEq

namespace Formatted

def of (options : Layout.Options) (t : Text) : Formatted :=
  let text := Layout.format options t
  ⟨t, text, Edit.toMake text t⟩

def changed (f : Formatted) : Bool := f.text ≠ f.source

end Formatted

structure Checked where
  findings : List Finding
  diagnostics : List Diagnostic
deriving DecidableEq

namespace Checked

def of (rules : List Rule) (t : Text) : Checked :=
  let findings := scan rules t
  ⟨findings, Diagnostic.sort (findings.map (·.diagnostic))⟩

def ofRules (rules : List Rule) (t : Text) : Except RuleFault Checked :=
  (Rule.validate rules).map fun _ => of rules t

def hasErrors (c : Checked) : Bool := Diagnostic.hasErrors c.diagnostics

def fixableCount (c : Checked) : Nat := c.findings.countP (·.fix.isSome)

end Checked

/-- A document with all fixes applied that do not conflict, and what is still reported about it. -/
structure Fixed where
  source : Text
  text : Text
  edits : List Edit
  remaining : List Diagnostic
deriving DecidableEq

inductive FixFault where
  | rule (fault : RuleFault)
  | edit (fault : EditFault)
deriving DecidableEq

def FixFault.message : FixFault → String
  | .rule fault => fault.message
  | .edit fault => fault.message

namespace Fixed

def of (rules : List Rule) (t : Text) : Except EditFault Fixed :=
  let edits := batchEdits (scan rules t)
  (Edit.applyAll t edits).map fun text =>
    ⟨t, text, edits, Diagnostic.sort ((scan rules text).map (·.diagnostic))⟩

def ofRules (rules : List Rule) (t : Text) : Except FixFault Fixed :=
  match Rule.validate rules with
  | .error fault => .error (.rule fault)
  | .ok () => (of rules t).mapError .edit

def changed (f : Fixed) : Bool := f.text ≠ f.source

end Fixed

structure Totals where
  bytes : Nat
  findings : Nat
deriving DecidableEq, Repr

def Totals.of : List Text → Totals
  | [] => ⟨0, 0⟩
  | t :: documents =>
    let others := of documents
    ⟨(Layout.format {} t).utf8Size + others.bytes, (scan registry t).length + others.findings⟩

end QueryTidy
