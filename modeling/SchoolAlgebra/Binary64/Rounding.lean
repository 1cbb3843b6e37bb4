import SchoolAlgebra.Binary64.Basic
set_option autoImplicit false

/-!
Rounding an exact rational to binary64: nearest value, a tie to the even significand, and infinity
from `2 ^ 1024 - 2 ^ 970` on. Every rational operation on binary64 numbers is exact and then rounded once.
-/

namespace SchoolAlgebra

/-- The whole number nearest to a rational that is not negative; a half goes to the even
neighbour. -/
def halfEven (q : Rat) : Nat :=
  let n := q.floor.toNat
  let twice := 2 * (q - (n : Rat))
  if twice < 1 then n
  else if 1 < twice then n + 1
  else if n % 2 = 0 then n
  else n + 1

/-- The greatest `k` with `2 ^ k ≤ q`, for positive `q`. The bit lengths of numerator and
denominator leave two candidates. -/
def binaryOrder (q : Rat) : Int :=
  let k : Int := (q.num.natAbs.log2 : Int) - (q.den.log2 : Int)
  if (2 : Rat) ^ k ≤ q then k else k - 1

namespace Magnitude

/-- A significand that rounding took to `2 ^ 53` is halved. -/
def carry (n : Nat) (e : Int) : Nat × Int :=
  if n = 9007199254740992 then (4503599627370496, e + 1) else (n, e)

def ofParts? (n : Nat) (e : Int) : Option Magnitude :=
  if h : n < 9007199254740992 ∧ -1074 ≤ e ∧ e ≤ 971 ∧ (4503599627370496 ≤ n ∨ e = -1074) then
    some ⟨n, e, h.1, h.2.1, h.2.2.1, h.2.2.2⟩
  else none

theorem ofParts?_self (m : Magnitude) : ofParts? m.significand m.exponent = some m :=
  dif_pos ⟨m.significand_lt, m.least_le, m.le_greatest, m.normal⟩

/-- The nearest magnitude to a rational that is not negative, `none` beyond the greatest. The
significand has 53 bits, fewer only at the least exponent. -/
def nearest? (q : Rat) : Option Magnitude :=
  if q = 0 then some zero
  else
    let least := max (binaryOrder q - 52) (-1074)
    let (n, e) := carry (halfEven (q / (2 : Rat) ^ least)) least
    ofParts? n e

end Magnitude

namespace Binary64

def round (s : Sign) (q : Rat) : Binary64 :=
  match Magnitude.nearest? q with
  | some m => .finite s m
  | none => .infinity s

def ofRat (q : Rat) : Binary64 := round (.ofRat q) q.abs

def ofInt (n : Int) : Binary64 := round (.ofInt n) (n.natAbs : Rat)

instance (n : Nat) : OfNat Binary64 n := ⟨ofInt n⟩

end Binary64

end SchoolAlgebra
