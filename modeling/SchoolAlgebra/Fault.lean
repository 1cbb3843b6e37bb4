import SchoolAlgebra.Degree
set_option autoImplicit false

namespace SchoolAlgebra

inductive Fault where
  /-- The text has this many `=`, and not one. -/
  | separators (count : Nat)
  | form (degree : Degree)
  /-- This numeral has no digit, or its number is out of range. -/
  | numeral (fragment : Text)
  | noSolution
  | degenerate (degree : Degree)
  deriving DecidableEq, Repr

namespace Fault

def message : Fault → Text
  | separators count =>
    "equation must contain exactly one `=` separator, found ".toList ++ Nat.toDigits 10 count
  | form degree =>
    "equation does not match the accepted ".toList ++ degree.word ++ " form".toList
  | numeral fragment => "could not read a number from `".toList ++ fragment ++ "`".toList
  | noSolution => "no solution found for the equation".toList
  | degenerate degree =>
    "leading coefficient of the ".toList ++ degree.word ++ " equation is zero".toList

/-- Whether the text was refused for its shape, before any number was read. -/
def isValidation : Fault → Bool
  | separators _ | form _ => true
  | _ => false

end Fault

end SchoolAlgebra
