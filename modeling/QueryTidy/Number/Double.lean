/-! Double-precision numbers, by their exact values. -/
namespace QueryTidy

/-- A binary fraction `mantissa * 2 ^ exponent` with a sign, or an infinity. -/
inductive Double where
  | finite (negative : Bool) (mantissa : Nat) (exponent : Int)
  | infinite (negative : Bool)
deriving DecidableEq, Repr

namespace Double

def scale (base : Nat) (power : Int) (q : Nat × Nat) : Nat × Nat :=
  match power with
  | .ofNat n => (q.1 * Nat.pow base n, q.2)
  | .negSucc n => (q.1, q.2 * Nat.pow base (n + 1))

/-- The integer nearest to a quotient; halves go to the even one. -/
def nearest (q : Nat × Nat) : Nat :=
  let down := q.1 / q.2
  let rest := 2 * (q.1 % q.2)
  if rest < q.2 then down else if q.2 < rest then down + 1 else down + down % 2

def leastExponent : Int := -1074

/-- A mantissa has 53 bits, unless the exponent is the least. -/
def hiddenBit : Nat := Nat.pow 2 52

def ofQuotient (negative : Bool) (q : Nat × Nat) : Double :=
  let low := (q.1.log2 : Int) - q.2.log2 - 53
  let wide := scale 2 (-low) q
  let fitting := if wide.1 / wide.2 < 2 * hiddenBit then low else low + 1
  let exponent := max fitting leastExponent
  let mantissa := nearest (scale 2 (-exponent) q)
  let (mantissa, exponent) :=
    if mantissa = 2 * hiddenBit then (hiddenBit, exponent + 1) else (mantissa, exponent)
  if 971 < exponent then .infinite negative else .finite negative mantissa exponent

def ofDecimal (negative : Bool) (digits : Nat) (power : Int) : Double :=
  let size := power + (Nat.toDigits 10 digits).length
  if digits = 0 ∨ size < -400 then .finite negative 0 leastExponent
  else if 400 < size then .infinite negative
  else ofQuotient negative (scale 10 power (digits, 1))

def isZero : Double → Bool
  | .finite _ mantissa _ => mantissa = 0
  | .infinite _ => false

def truncate? : Double → Option Int
  | .finite negative mantissa exponent =>
    let (a, b) := scale 2 exponent (mantissa, 1)
    some (if negative then -((a / b : Nat) : Int) else ((a / b : Nat) : Int))
  | .infinite _ => none

def isInt (n : Int) : Double → Bool
  | .finite negative mantissa exponent =>
    let (a, b) := scale 2 exponent (mantissa, 1)
    n * b = if negative then -(a : Int) else (a : Int)
  | .infinite _ => false

end Double
end QueryTidy
