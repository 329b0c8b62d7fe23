import QueryTidy.Migration.Finding

/-! One batch of fixes without conflicts. -/
namespace QueryTidy.Migration

structure Fix where
  diagnostic : Diagnostic
  edit : Edit
deriving DecidableEq

namespace Fix

def ofFinding? (f : Finding) : Option Fix := f.fix.map (⟨f.diagnostic, ·⟩)

/-- Fixes of the findings, in the order in which they are looked at: the earlier start goes first,
and at one start the later end. -/
def candidates (findings : List Finding) : List Fix :=
  let fixes := findings.filterMap ofFinding?
  let byStop := fixes.mergeSort fun a b => b.edit.range.stop ≤ a.edit.range.stop
  byStop.mergeSort fun a b => a.edit.range.start ≤ b.edit.range.start

def collides (lastStop : Option Position) (fix : Fix) : Bool :=
  lastStop.any (fix.edit.range.start < ·)

/-- Takes each fix that does not start inside the last one taken; gives those taken and those
dropped. -/
def sweep (lastStop : Option Position) : List Fix → List Fix × List Fix
  | [] => ([], [])
  | fix :: fixes =>
    if collides lastStop fix then
      let (taken, dropped) := sweep lastStop fixes
      (taken, fix :: dropped)
    else
      let (taken, dropped) := sweep (some fix.edit.range.stop) fixes
      (fix :: taken, dropped)

def select (findings : List Finding) : List Fix := (sweep none (candidates findings)).1

def dropped (findings : List Finding) : List Fix := (sweep none (candidates findings)).2

end Fix

def fromTheEnd (edits : List Edit) : List Edit :=
  edits.mergeSort fun a b => b.range.start ≤ a.range.start

/-- Edits of the batch. Each touches only text behind the ones still to come, so that every
range still means what it meant in the document. -/
def batchEdits (findings : List Finding) : List Edit :=
  fromTheEnd ((Fix.select findings).map (·.edit))

end QueryTidy.Migration
