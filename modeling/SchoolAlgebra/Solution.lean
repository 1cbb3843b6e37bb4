import SchoolAlgebra.Equation.Coefficients
import SchoolAlgebra.Binary64.Written
set_option autoImplicit false

/-!
The solutions of linear and quadratic equations, at full precision, and their text.
-/

namespace SchoolAlgebra

inductive Solution where
  | noSolution
  | oneReal (x : Binary64)
  /-- `x1` belongs to the positive root of the discriminant. -/
  | twoReal (x1 x2 : Binary64)
  | complexPair (real imaginary : Binary64)
  deriving DecidableEq, Repr

namespace Solution

def realRoots : Solution → List Binary64
  | noSolution | complexPair _ _ => []
  | oneReal x => [x]
  | twoReal x1 x2 => [x1, x2]

def complexText (real imaginary : Text) (sign : Char) : Text :=
  real ++ ' ' :: sign :: ' ' :: imaginary ++ ['i']

def text (places : Nat) : Solution → Text
  | noSolution => "no solution found".toList
  | oneReal x => "x = ".toList ++ x.fixed places
  | twoReal x1 x2 =>
    "x₁ = ".toList ++ x1.fixed places ++ ", x₂ = ".toList ++ x2.fixed places
  | complexPair real imaginary =>
    "x₁ = ".toList ++ complexText (real.fixed places) (imaginary.fixed places) '+' ++
      ", x₂ = ".toList ++ complexText (real.fixed places) (imaginary.fixed places) '-'

end Solution

/-- With `a = 0` there is no unique solution, whatever `b` and `c` are. -/
def Linear.solve (p : Linear) : Solution :=
  if p.a.isZero then .noSolution else .oneReal ((p.c - p.b) / p.a)

namespace Quadratic

def discriminant (p : Quadratic) : Binary64 := p.b * p.b - 4 * p.a * p.c

/-- `2 ^ -50`, four units in the last place of one. -/
def tolerance : Binary64 := 4 / 4503599627370496

/-- The discriminant, or zero where it is no more than the rounding noise of its two terms. -/
def settledDiscriminant (p : Quadratic) : Binary64 :=
  let scale := (p.b * p.b).max (4 * p.a * p.c).abs
  if p.discriminant.abs.le (tolerance * scale) then 0 else p.discriminant

/-- The quadratic formula, by the sign of the settled discriminant. What has no sign is told as a
complex pair. -/
def solve (p : Quadratic) : Except Fault Solution :=
  if p.a.isZero then .error (.degenerate .quadratic)
  else
    let discriminant := p.settledDiscriminant
    let twice := 2 * p.a
    if discriminant.isPositive then
      let root := discriminant.sqrt
      .ok (.twoReal ((-p.b + root) / twice) ((-p.b - root) / twice))
    else if discriminant.isZero then .ok (.oneReal (-p.b / twice))
    else .ok (.complexPair (-p.b / twice) ((-discriminant).sqrt / twice.abs))

end Quadratic

/-- A linear equation without a unique solution is a fault here. -/
def Coefficients.solve : Coefficients → Except Fault Solution
  | .linear p =>
    match p.solve with
    | .noSolution => .error .noSolution
    | solution => .ok solution
  | .quadratic p => p.solve

end SchoolAlgebra
