import SchoolAlgebra.Text
set_option autoImplicit false

namespace SchoolAlgebra

inductive Degree where
  | linear
  | quadratic
  deriving DecidableEq, Repr

namespace Degree

def word : Degree → Text
  | linear => "linear".toList
  | quadratic => "quadratic".toList

def ofWord? (s : Text) : Option Degree :=
  if s = linear.word then some linear
  else if s = quadratic.word then some quadratic
  else none

@[simp] theorem ofWord?_word (d : Degree) : ofWord? d.word = some d := by
  cases d <;> decide

end Degree

end SchoolAlgebra
