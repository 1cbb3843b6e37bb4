import SchoolAlgebra.Polynomial
import SchoolAlgebra.Solution
set_option autoImplicit false

/-!
Worked steps from an equation to its solution. A derivation does not depend on the count of
decimals; only the text of its roots does.
-/

namespace SchoolAlgebra

/-- How an equation came about. -/
inductive Move where
  | given
  /-- The amount was taken over to the right side, or from it. -/
  | carried (amount : Binary64)
  | divided (divisor : Binary64)
  deriving DecidableEq, Repr

inductive Step where
  | equation (move : Move) (left : List Binary64) (right : Binary64)
  | noUniqueSolution
  | coefficients (a b c : Binary64)
  | formula
  | discriminant (a b c value : Binary64)
  | twoRoots
  | firstRoot (a b radicand x : Binary64)
  | secondRoot (a b radicand x : Binary64)
  | oneRoot
  | doubleRoot (a b x : Binary64)
  | noRealRoots
  | complexHeading
  | firstComplex (real imaginary : Binary64)
  | secondComplex (real imaginary : Binary64)
  | notQuadratic
  deriving DecidableEq, Repr

/-- A positive amount is subtracted; a negative one is told as an addition. -/
def Move.text : Move → Text
  | given => "Initial equation".toList
  | carried amount =>
    if amount.isNegative then "Add ".toList ++ (-amount).plain ++ " to both sides".toList
    else "Subtract ".toList ++ amount.plain ++ " from both sides".toList
  | divided divisor => "Divide both sides by ".toList ++ divisor.plain

namespace Step

def equationText (left : List Binary64) (right : Binary64) : Text :=
  Polynomial.textAsTyped left ++ " = ".toList ++ right.plain

def quotientText (a b radicand : Binary64) (sign : Char) : Text :=
  '(' :: (-b).plain ++ ' ' :: sign :: " √".toList ++ radicand.plain ++ ") / ".toList ++
    (2 * a).plain

def text (places : Nat) : Step → Text
  | equation move left right => move.text ++ ": ".toList ++ equationText left right
  | noUniqueSolution => "The coefficient of x is 0: there is no unique solution".toList
  | coefficients a b c =>
    "Coefficients: a = ".toList ++ a.plain ++ ", b = ".toList ++ b.plain ++ ", c = ".toList ++
      c.plain
  | formula => "Quadratic formula: x = (-b ± √(b² - 4ac)) / 2a".toList
  | discriminant a b c value =>
    "Discriminant: Δ = b² - 4ac = ".toList ++ b.parenthesized ++ "² - 4(".toList ++ a.plain ++
      ")(".toList ++ c.plain ++ ") = ".toList ++ value.plain
  | twoRoots => "Δ > 0: two real solutions".toList
  | firstRoot a b radicand x =>
    "x₁ = ".toList ++ quotientText a b radicand '+' ++ " = ".toList ++ x.fixed places
  | secondRoot a b radicand x =>
    "x₂ = ".toList ++ quotientText a b radicand '-' ++ " = ".toList ++ x.fixed places
  | oneRoot => "Δ = 0: one real solution".toList
  | doubleRoot a b x =>
    "x = ".toList ++ (-b).plain ++ " / (2 × ".toList ++ a.parenthesized ++ ") = ".toList ++
      x.fixed places
  | noRealRoots => "Δ < 0: no real solutions".toList
  | complexHeading => "Complex solutions:".toList
  | firstComplex real imaginary =>
    "x₁ = ".toList ++ Solution.complexText (real.fixed places) (imaginary.fixed places) '+'
  | secondComplex real imaginary =>
    "x₂ = ".toList ++ Solution.complexText (real.fixed places) (imaginary.fixed places) '-'
  | notQuadratic => "a = 0: the equation is not quadratic".toList

end Step

def Linear.derivation (p : Linear) : List Step :=
  let isolated := p.c - p.b
  [.equation .given [p.a, p.b] p.c, .equation (.carried p.b) [p.a, 0] isolated,
    if p.a.isZero then .noUniqueSolution
    else .equation (.divided p.a) [1, 0] (isolated / p.a)]

namespace Quadratic

def rootSteps (p : Quadratic) : List Step :=
  match p.solve with
  | .ok (.twoReal x1 x2) =>
    [.twoRoots, .firstRoot p.a p.b p.settledDiscriminant x1,
      .secondRoot p.a p.b p.settledDiscriminant x2]
  | .ok (.oneReal x) => [.oneRoot, .doubleRoot p.a p.b x]
  | .ok (.complexPair real imaginary) =>
    [.noRealRoots, .complexHeading, .firstComplex real imaginary, .secondComplex real imaginary]
  | .ok .noSolution | .error _ => [.notQuadratic]

/-- A right side of zero needs no carrying over. -/
def derivation (p : Quadratic) : List Step :=
  .equation .given [p.a, p.b, p.typedConstant] p.typedRight ::
    (if p.typedRight.isZero then [] else [.equation (.carried p.typedRight) [p.a, p.b, p.c] 0]) ++
    [.coefficients p.a p.b p.c, .formula, .discriminant p.a p.b p.c p.settledDiscriminant] ++
    p.rootSteps

end Quadratic

namespace Coefficients

def derivation : Coefficients → List Step
  | linear p => p.derivation
  | quadratic p => p.derivation

def procedure (p : Coefficients) (places : Nat) : List Text :=
  p.derivation.map (Step.text places)

end Coefficients

end SchoolAlgebra
