import SchoolAlgebra.Text
set_option autoImplicit false

namespace SchoolAlgebra.Decimal

/-- Sets a point in front of the last `places` digits. At least one digit stands before it. -/
def withPoint (digits : Text) (places : Nat) : Text :=
  let padded := digits.leftpad (places + 1) '0'
  let whole := padded.length - places
  if places = 0 then padded else padded.take whole ++ '.' :: padded.drop whole

/-- The number `n * 10 ^ exponent`, with no more zeros than its value needs when `n` does not end
in one. -/
def positional (n : Nat) (exponent : Int) : Text :=
  if 0 ≤ exponent then Nat.toDigits 10 n ++ List.replicate exponent.toNat '0'
  else withPoint (Nat.toDigits 10 n) (-exponent).toNat

end SchoolAlgebra.Decimal
