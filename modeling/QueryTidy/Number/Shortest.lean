import QueryTidy.Number.Double

/-! Doubles in decimal: the fewest digits that read back. -/
namespace QueryTidy.Double

/-- Whether `digits * 10 ^ power` reads back as `mantissa * 2 ^ exponent`: it lies no further than
half way to the neighbours, and half way only if the mantissa is even. -/
def readsBack (mantissa : Nat) (exponent : Int) (power : Int) (digits : Nat) : Bool :=
  let (a, b) := scale 2 (2 - exponent) (scale 10 power (digits, 1))
  let low := if mantissa = hiddenBit ∧ leastExponent < exponent
    then 4 * mantissa - 1 else 4 * mantissa - 2
  let high := 4 * mantissa + 2
  if mantissa % 2 = 0 then low * b ≤ a && a ≤ high * b else low * b < a && a < high * b

def onGrid? (mantissa : Nat) (exponent : Int) (power : Int) : Option Nat :=
  let q := scale 10 (-power) (scale 2 exponent (mantissa, 1))
  let down := q.1 / q.2
  match readsBack mantissa exponent power down, readsBack mantissa exponent power (down + 1) with
  | true, true => some (nearest q)
  | true, false => some down
  | false, true => some (down + 1)
  | false, false => none

def wholeDigits (q : Nat × Nat) : Int :=
  if q.2 ≤ q.1 then (Nat.toDigits 10 (q.1 / q.2)).length
  else 1 - (Nat.toDigits 10 (q.2 / q.1)).length

/-- Digits without zeros at the end, and the power of ten of the first. Seventeen digits always
suffice. -/
def shortest (mantissa : Nat) (exponent : Int) : List Char × Int :=
  let whole := wholeDigits (scale 2 exponent (mantissa, 1))
  let found := (List.range 17).findSome? fun (n : Nat) =>
    let power := whole - (n + 1 : Nat)
    (onGrid? mantissa exponent power).map (·, power)
  let (digits, power) := found.getD (0, 0)
  let ds := Nat.toDigits 10 digits
  ((ds.reverse.dropWhile (· = '0')).reverse, power + ds.length - 1)

def exponentText (n : Int) : List Char :=
  (if n < 0 then '-' else '+') :: (Nat.toDigits 10 n.natAbs).leftpad 2 '0'

/-- Numbers from `10 ^ (-4)` on and below `10 ^ 16` are written without an exponent. -/
def layDigits (ds : List Char) (first : Int) : List Char :=
  if first < -4 ∨ 16 ≤ first then
    let tail := ds.drop 1
    ds.take 1 ++ (if tail.isEmpty then [] else '.' :: tail) ++ 'e' :: exponentText first
  else if first < 0 then '0' :: '.' :: List.replicate (first.natAbs - 1) '0' ++ ds
  else
    let whole := first.toNat + 1
    let tail := ds.drop whole
    (ds.take whole).rightpad whole '0' ++ '.' :: (if tail.isEmpty then ['0'] else tail)

def text : Double → String
  | .finite negative mantissa exponent =>
    let (ds, first) := shortest mantissa exponent
    let body := if mantissa = 0 then ['0', '.', '0'] else layDigits ds first
    String.ofList (if negative then '-' :: body else body)
  | .infinite negative => if negative then "-inf" else "inf"

end QueryTidy.Double
