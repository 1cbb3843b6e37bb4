set_option autoImplicit false

/-!
Binary64 numbers: a sign with a magnitude, the two infinities, and one number that is none.

A magnitude is a whole significand times a power of two, kept in the one form that the format
admits, so two finite numbers are equal as data exactly when they agree in sign and value.
-/

namespace SchoolAlgebra

inductive Sign where
  | plus
  | minus
  deriving DecidableEq, Repr

namespace Sign

def flip : Sign → Sign
  | plus => minus
  | minus => plus

@[simp] theorem flip_flip (s : Sign) : s.flip.flip = s := by cases s <;> rfl

def times : Sign → Sign → Sign
  | plus, t => t
  | minus, t => t.flip

def apply (s : Sign) (q : Rat) : Rat :=
  match s with
  | plus => q
  | minus => -q

@[simp] theorem apply_plus (q : Rat) : plus.apply q = q := rfl
@[simp] theorem apply_minus (q : Rat) : minus.apply q = -q := rfl

def ofRat (q : Rat) : Sign := if q < 0 then minus else plus

def ofInt (n : Int) : Sign := if n < 0 then minus else plus

end Sign

/-- A finite magnitude `significand * 2 ^ exponent`. The significand is below `2 ^ 53`, and at
least `2 ^ 52` wherever the exponent is not the least one. -/
structure Magnitude where
  significand : Nat
  exponent : Int
  significand_lt : significand < 9007199254740992
  least_le : -1074 ≤ exponent
  le_greatest : exponent ≤ 971
  normal : 4503599627370496 ≤ significand ∨ exponent = -1074
  deriving DecidableEq, Repr

namespace Magnitude

def zero : Magnitude where
  significand := 0
  exponent := -1074
  significand_lt := by decide
  least_le := by decide
  le_greatest := by decide
  normal := .inr rfl

def value (m : Magnitude) : Rat := (m.significand : Rat) * (2 : Rat) ^ m.exponent

@[simp] theorem value_zero : zero.value = 0 := Rat.zero_mul _

def isZero (m : Magnitude) : Bool := m.significand == 0

end Magnitude

inductive Binary64 where
  | nan
  | infinity (s : Sign)
  | finite (s : Sign) (m : Magnitude)
  deriving DecidableEq, Repr

namespace Binary64

def zero : Binary64 := .finite .plus .zero

def isFinite : Binary64 → Bool
  | .finite _ _ => true
  | _ => false

def isZero : Binary64 → Bool
  | .finite _ m => m.isZero
  | _ => false

def value? : Binary64 → Option Rat
  | .finite s m => some (s.apply m.value)
  | _ => none

/-- The order of the extended line. The two zeros are equal, and nothing compares with `nan`. -/
def le : Binary64 → Binary64 → Bool
  | .nan, _ => false
  | _, .nan => false
  | .infinity .minus, _ => true
  | _, .infinity .plus => true
  | .infinity .plus, _ => false
  | _, .infinity .minus => false
  | .finite s m, .finite t n => s.apply m.value ≤ t.apply n.value

def lt (x y : Binary64) : Bool := x.le y && !y.le x

/-- Equality of numbers: `-0` is `0`, and `nan` is not equal to itself. -/
def sameNumber (x y : Binary64) : Bool := x.le y && y.le x

def isNegative (x : Binary64) : Bool := x.lt zero

def isPositive (x : Binary64) : Bool := zero.lt x

theorem not_le_nan (x : Binary64) : x.le nan = false := by
  cases x <;> rfl

theorem sameNumber_comm (x y : Binary64) : x.sameNumber y = y.sameNumber x :=
  Bool.and_comm _ _

end Binary64

end SchoolAlgebra
