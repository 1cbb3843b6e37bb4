import SchoolAlgebra.Binary64.Rounding
set_option autoImplicit false

/-!
The shortest decimal of a binary64 magnitude: the fewest digits whose decimal rounds back to it, and
of several such decimals the nearest. A decimal is accepted by rounding it, so that reading the
result back gives the magnitude.
-/

namespace SchoolAlgebra

/-- The greatest `k` with `10 ^ k ≤ q`, for positive `q`. The digit counts of numerator and
denominator leave two candidates. -/
def decimalOrder (q : Rat) : Int :=
  let numerator := (Nat.toDigits 10 q.num.natAbs).length
  let denominator := (Nat.toDigits 10 q.den).length
  let k : Int := (numerator : Int) - (denominator : Int)
  if (10 : Rat) ^ k ≤ q then k else k - 1

/-- The two whole numbers around a rational, the nearer first; from the middle upwards. -/
def nearestWholes (q : Rat) : List Nat :=
  let n := q.floor.toNat
  if 2 * (q - (n : Rat)) < 1 then [n, n + 1] else [n + 1, n]

namespace Magnitude

def decimalReadsBack (m : Magnitude) (exponent : Int) (n : Nat) : Bool :=
  nearest? ((n : Rat) * (10 : Rat) ^ exponent) == some m

def exactDecimal (m : Magnitude) : Nat × Int :=
  let places := (-m.exponent).toNat
  ((m.value * (10 : Rat) ^ (places : Int)).floor.toNat, -(places : Int))

/-- Digits and exponent of the shortest decimal of a magnitude above zero. Some decimal of
seventeen digits always reads back; the exact value after them makes the search total. -/
def shortestDecimal (m : Magnitude) : Nat × Int :=
  let top := decimalOrder m.value
  let found := (List.range 17).findSome? fun (i : Nat) =>
    let exponent := top - (i : Int)
    ((nearestWholes (m.value / (10 : Rat) ^ exponent)).find? (m.decimalReadsBack exponent)).map
      fun n => (n, exponent)
  found.getD m.exactDecimal

end Magnitude

end SchoolAlgebra
