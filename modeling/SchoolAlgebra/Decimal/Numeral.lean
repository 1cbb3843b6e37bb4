import SchoolAlgebra.Text
import SchoolAlgebra.Binary64.Rounding
set_option autoImplicit false

namespace SchoolAlgebra

def Sign.read : Text → Sign × Text
  | '+' :: s => (.plus, s)
  | '-' :: s => (.minus, s)
  | s => (.plus, s)

/-- The number `significand * 10 ^ exponent` with a sign. -/
structure Decimal where
  sign : Sign
  significand : Nat
  exponent : Int
  deriving DecidableEq, Repr

namespace Decimal

def magnitude (d : Decimal) : Rat := (d.significand : Rat) * (10 : Rat) ^ d.exponent

def value (d : Decimal) : Rat := d.sign.apply d.magnitude

def readWhole? (s : Text) : Option Nat :=
  if s ≠ [] ∧ s.all Char.isDigit then some (Nat.ofDigitChars 10 s 0) else none

def readExponent? : Text → Option Int
  | [] => some 0
  | c :: s =>
    if c = 'e' ∨ c = 'E' then
      let (sign, s) := Sign.read s
      match sign, readWhole? s with
      | .plus, some n => some n
      | .minus, some n => some (-n)
      | _, none => none
    else none

def readFraction : Text → Text × Text
  | '.' :: s => Text.digits s
  | s => ([], s)

/-- A numeral has a digit before the point or behind it. -/
def read? (s : Text) : Option Decimal :=
  let (sign, s) := Sign.read s
  let (whole, s) := Text.digits s
  let (fraction, s) := readFraction s
  if whole = [] ∧ fraction = [] then none
  else
    match readExponent? s with
    | some e =>
      some ⟨sign, Nat.ofDigitChars 10 (whole ++ fraction) 0, e - (fraction.length : Int)⟩
    | none => none

/-- A positive magnitude lies from `10 ^ (order - 1)` on and below `10 ^ order`. -/
def order (d : Decimal) : Int := d.exponent + ((Nat.toDigits 10 d.significand).length : Int)

/-- The nearest number. An order far outside the range decides without the power of ten, so that a
short numeral with a long exponent costs nothing. -/
def round (d : Decimal) : Binary64 :=
  if d.significand = 0 ∨ d.order < -400 then .finite d.sign .zero
  else if 400 < d.order then .infinity d.sign
  else Binary64.round d.sign d.magnitude

end Decimal

def Binary64.read? (s : Text) : Option Binary64 :=
  match Decimal.read? s with
  | some d => if d.round.isFinite then some d.round else none
  | none => none

end SchoolAlgebra
