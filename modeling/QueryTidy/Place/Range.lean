import QueryTidy.Place.Position

/-! Half-open ranges between two positions. -/
namespace QueryTidy

structure Range where
  start : Position
  stop : Position
  ordered : start ≤ stop
deriving DecidableEq

namespace Range

def between (start stop : Position) : Except PlaceFault Range :=
  if h : start ≤ stop then .ok ⟨start, stop, h⟩ else .error .reversed

def ofInts (startLine startColumn stopLine stopColumn : Int) : Except PlaceFault Range := do
  let start ← Position.ofInts startLine startColumn
  let stop ← Position.ofInts stopLine stopColumn
  between start stop

def ofColumns (line start stop : Int) : Except PlaceFault Range := ofInts line start line stop

def onLine (line start width : Nat) : Range :=
  ⟨⟨line, start⟩, ⟨line, start + width⟩, Position.le_def.2 (by simp)⟩

def emptyAt (p : Position) : Range := ⟨p, p, Position.le_refl p⟩

def document (t : Text) : Range := ⟨.origin, .endOf t, Position.le_after _ t⟩

def isEmpty (r : Range) : Bool := r.start = r.stop

def isSingleLine (r : Range) : Bool := r.start.line = r.stop.line

def contains (r : Range) (p : Position) : Bool := r.start ≤ p && p < r.stop

/-- Before, overlapping, or after. Touching ranges do not overlap. -/
def ordering (r s : Range) : Ordering :=
  if r.stop ≤ s.start then .lt else if s.stop ≤ r.start then .gt else .eq

def overlaps (r s : Range) : Bool := r.ordering s = .eq

instance : LT Range where
  lt r s := r.start < s.start ∨ r.start = s.start ∧ r.stop < s.stop

instance : LE Range where
  le r s := r.start < s.start ∨ r.start = s.start ∧ r.stop ≤ s.stop

theorem lt_def {r s : Range} :
    r < s ↔ r.start < s.start ∨ r.start = s.start ∧ r.stop < s.stop := Iff.rfl

theorem le_def {r s : Range} :
    r ≤ s ↔ r.start < s.start ∨ r.start = s.start ∧ r.stop ≤ s.stop := Iff.rfl

instance (r s : Range) : Decidable (r < s) := decidable_of_iff' _ lt_def
instance (r s : Range) : Decidable (r ≤ s) := decidable_of_iff' _ le_def

def describe (r : Range) : String :=
  s!"Range({r.start.line}:{r.start.column}, {r.stop.line}:{r.stop.column})"

end Range
end QueryTidy
