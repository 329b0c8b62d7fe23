import QueryTidy.Text.Basic

/-! Places in a document: a zero-based line and a byte column on it. -/
namespace QueryTidy

inductive PlaceFault where
  | negative
  | reversed
deriving DecidableEq, Repr

def PlaceFault.message : PlaceFault → String
  | .negative => "Position cannot be negative"
  | .reversed => "Range invariant violated: start > end"

structure Position where
  line : Nat
  column : Nat
deriving DecidableEq, Repr

namespace Position

instance : LT Position where
  lt p q := p.line < q.line ∨ p.line = q.line ∧ p.column < q.column

instance : LE Position where
  le p q := p.line < q.line ∨ p.line = q.line ∧ p.column ≤ q.column

theorem lt_def {p q : Position} :
    p < q ↔ p.line < q.line ∨ p.line = q.line ∧ p.column < q.column := Iff.rfl

theorem le_def {p q : Position} :
    p ≤ q ↔ p.line < q.line ∨ p.line = q.line ∧ p.column ≤ q.column := Iff.rfl

instance (p q : Position) : Decidable (p < q) := decidable_of_iff' _ lt_def
instance (p q : Position) : Decidable (p ≤ q) := decidable_of_iff' _ le_def

theorem le_refl (p : Position) : p ≤ p := le_def.2 (by omega)

theorem le_trans {p q r : Position} (h : p ≤ q) (k : q ≤ r) : p ≤ r := by
  rw [le_def] at *
  omega

theorem not_lt {p q : Position} : ¬ p < q ↔ q ≤ p := by
  rw [lt_def, le_def]
  omega

def origin : Position := ⟨0, 0⟩

def ofInts (line column : Int) : Except PlaceFault Position :=
  if line < 0 ∨ column < 0 then .error .negative else .ok ⟨line.toNat, column.toNat⟩

def step (p : Position) (c : Char) : Position :=
  if c = '\n' then ⟨p.line + 1, 0⟩ else ⟨p.line, p.column + c.utf8Size⟩

def after (p : Position) (t : Text) : Position := t.foldl step p

def describe (p : Position) : String := s!"Position({p.line}, {p.column})"

theorem le_step (p : Position) (c : Char) : p ≤ p.step c := by
  rw [step]
  split <;> simp [le_def]

theorem le_after (p : Position) (t : Text) : p ≤ p.after t := by
  induction t generalizing p with
  | nil => exact le_refl p
  | cons c t ih => exact le_trans (le_step p c) (ih (p.step c))

def endOf (t : Text) : Position := origin.after t

end Position
end QueryTidy
