import SchoolAlgebra.Binary64.Arithmetic
import SchoolAlgebra.Decimal.Positional
import SchoolAlgebra.Decimal.Shortest
set_option autoImplicit false

namespace SchoolAlgebra

def Sign.mark : Sign → Text
  | .plus => []
  | .minus => ['-']

namespace Magnitude

def plain (m : Magnitude) : Text :=
  if m.isZero then ['0']
  else
    let (n, exponent) := m.shortestDecimal
    if n = 10 then Decimal.positional 1 (exponent + 1) else Decimal.positional n exponent

def fixed (m : Magnitude) (places : Nat) : Text :=
  let kept := min places (-m.exponent).toNat
  let n := halfEven (m.value * (10 : Rat) ^ (kept : Int))
  Decimal.withPoint (Nat.toDigits 10 n ++ List.replicate (places - kept) '0') places

end Magnitude

namespace Binary64

def mark (s : Sign) (m : Magnitude) : Text := if m.isZero then [] else s.mark

/-- The fewest digits that read back, with a point only in front of a fraction. -/
def plain : Binary64 → Text
  | .nan => "NaN".toList
  | .infinity s => s.mark ++ "inf".toList
  | .finite s m => mark s m ++ m.plain

/-- The exact value to `places` decimals, a half to the even neighbour. A number below zero keeps
its minus when all its digits round to zero. -/
def fixed (x : Binary64) (places : Nat) : Text :=
  match x with
  | .nan => "NaN".toList
  | .infinity s => s.mark ++ "inf".toList
  | .finite s m => mark s m ++ m.fixed places

def parenthesized (x : Binary64) : Text :=
  if x.isNegative then '(' :: x.plain ++ [')'] else x.plain

end Binary64

end SchoolAlgebra
