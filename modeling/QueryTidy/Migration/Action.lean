import QueryTidy.Migration.FixAll

/-! Changes that an editor offers for a document. -/
namespace QueryTidy.Migration

inductive ActionKind where
  | quickFix
  | fixAll
deriving DecidableEq, Repr

def ActionKind.name : ActionKind → String
  | .quickFix => "quickfix"
  | .fixAll => "source.fixAll"

structure Action where
  title : String
  kind : ActionKind
  diagnostics : List Diagnostic
  document : String
  edits : List Edit
deriving DecidableEq

namespace Action

/-- An editor applies a quick fix without asking again. -/
def isPreferred (action : Action) : Bool := action.kind = .quickFix

def distinct (findings : List Finding) : List Finding :=
  findings.foldl (fun kept f =>
    if kept.any (·.diagnostic.sameKey f.diagnostic) then kept else kept ++ [f]) []

def fixable (rules : List Rule) (t : Text) : List Finding :=
  distinct ((scan rules t).filter (·.fix.isSome))

def quickFix (document : String) (fix : Fix) : Action where
  title := "Replace with '" ++ String.ofList fix.edit.newText ++ "'"
  kind := .quickFix
  diagnostics := [fix.diagnostic]
  document := document
  edits := [fix.edit]

def fixAll (document : String) (findings : List Finding) : Action where
  title := "Fix all deprecated syntax"
  kind := .fixAll
  diagnostics := (Fix.select findings).map (·.diagnostic)
  document := document
  edits := batchEdits findings

/-- A quick fix for each report that names a finding, and one action for all findings if there
are several. -/
def offer (document : String) (t : Text) (requested : List Diagnostic) (rules : List Rule) :
    List Action :=
  let findings := fixable rules t
  let quick := requested.filterMap fun d =>
    ((findings.find? (·.diagnostic.sameKey d)).bind Fix.ofFinding?).map (quickFix document)
  if 1 < findings.length then quick ++ [fixAll document findings] else quick

end Action
end QueryTidy.Migration
