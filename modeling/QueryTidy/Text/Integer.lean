import QueryTidy.Text.Basic

/-! Decimal integers as people write them: blanks around, one sign, digits of any script,
and single underscores between digits. -/
namespace QueryTidy.Text

/-- Code points of the digit zero in each script; its nine successors follow it. -/
def zeros : List Nat :=
  [0x30, 0x660, 0x6f0, 0x7c0, 0x966, 0x9e6, 0xa66, 0xae6, 0xb66, 0xbe6, 0xc66, 0xce6, 0xd66,
   0xde6, 0xe50, 0xed0, 0xf20, 0x1040, 0x1090, 0x17e0, 0x1810, 0x1946, 0x19d0, 0x1a80, 0x1a90,
   0x1b50, 0x1bb0, 0x1c40, 0x1c50, 0xa620, 0xa8d0, 0xa900, 0xa9d0, 0xa9f0, 0xaa50, 0xabf0,
   0xff10, 0x104a0, 0x10d30, 0x11066, 0x110f0, 0x11136, 0x111d0, 0x112f0, 0x11450, 0x114d0,
   0x11650, 0x116c0, 0x11730, 0x118e0, 0x11950, 0x11c50, 0x11d50, 0x11da0, 0x16a60, 0x16ac0,
   0x16b50, 0x1d7ce, 0x1d7d8, 0x1d7e2, 0x1d7ec, 0x1d7f6, 0x1e140, 0x1e2f0, 0x1e950, 0x1fbf0]

def digitValue? (c : Char) : Option Nat :=
  (zeros.find? fun z => z ≤ c.toNat && c.toNat < z + 10).map (c.toNat - ·)

def isMargin (c : Char) : Bool :=
  let n := c.toNat
  (9 ≤ n && n ≤ 13) || n == 0x20 || n == 0x85 || n == 0xa0 || n == 0x1680
    || (0x2000 ≤ n && n ≤ 0x200a) || n == 0x2028 || n == 0x2029 || n == 0x202f || n == 0x205f
    || n == 0x3000

inductive IntegerFault where
  | malformed
  | tooLong (digits : Nat)
deriving DecidableEq, Repr

def digitLimit : Nat := 4300

/-- Digits at the front of a text, with single underscores between them, and the text behind;
`gap` tells that no digit came last. -/
def digitsFrom (gap : Bool) : Text → Option (List Nat × Text)
  | [] => if gap then none else some ([], [])
  | c :: t =>
    if c = '_' then if gap then none else digitsFrom true t
    else match digitValue? c with
      | some d => (digitsFrom false t).map fun (ds, rest) => (d :: ds, rest)
      | none => if gap then none else some ([], c :: t)

def natural (t : Text) : Except IntegerFault Nat :=
  match digitsFrom true t with
  | none => .error .malformed
  | some (ds, rest) =>
    if digitLimit < ds.length then .error (.tooLong ds.length)
    else if rest.isEmpty then .ok (ds.foldl (10 * · + ·) 0)
    else .error .malformed

def integer (t : Text) : Except IntegerFault Int :=
  match trimEnd isMargin (t.dropWhile isMargin) with
  | '-' :: digits => (natural digits).map fun n => -(n : Int)
  | '+' :: digits => (natural digits).map fun n => (n : Int)
  | digits => (natural digits).map fun n => (n : Int)

def integer? (t : Text) : Option Int := (integer t).toOption

end QueryTidy.Text
