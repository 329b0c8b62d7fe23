import QueryTidy.Text.Basic

/-! Byte columns of a line against indices of its characters. -/
namespace QueryTidy.Text

inductive ColumnFault where
  | outside (column : Int) (bytes : Nat)
  | split (column : Int)
deriving DecidableEq, Repr

def ColumnFault.message : ColumnFault → String
  | .outside column bytes => s!"Column {column} is outside a line of {bytes} bytes"
  | .split column => s!"Column {column} splits a multi-byte character"

/-- The characters before index `i`; a negative index counts from the end, and either is
clamped to the text. -/
def upTo (t : Text) (i : Int) : Text :=
  t.take (if i < 0 then i + t.length else i).toNat

def columnAt (line : Text) (i : Int) : Nat := utf8Size (line.upTo i)

def charsIn : Text → Nat → Option Nat
  | _, 0 => some 0
  | [], _ + 1 => none
  | c :: t, n + 1 =>
    if c.utf8Size ≤ n + 1 then (charsIn t (n + 1 - c.utf8Size)).map (· + 1) else none

def indexAt (line : Text) (column : Int) : Except ColumnFault Nat :=
  if column < 0 ∨ line.utf8Size < column then .error (.outside column line.utf8Size)
  else match line.charsIn column.toNat with
    | some i => .ok i
    | none => .error (.split column)

end QueryTidy.Text
