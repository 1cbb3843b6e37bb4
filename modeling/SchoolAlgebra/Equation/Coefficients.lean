import SchoolAlgebra.Equation.Check
set_option autoImplicit false

namespace SchoolAlgebra

/-- The equation `a x + b = c`. -/
structure Linear where
  a : Binary64
  b : Binary64
  c : Binary64
  deriving DecidableEq, Repr

/-- The standard form `a x² + b x + c = 0`, with the constant and the right side as they were
typed. -/
structure Quadratic where
  a : Binary64
  b : Binary64
  c : Binary64
  typedRight : Binary64
  typedConstant : Binary64
  deriving DecidableEq, Repr

inductive Coefficients where
  | linear (p : Linear)
  | quadratic (p : Quadratic)
  deriving DecidableEq, Repr

def Linear.evaluateLeft (p : Linear) (x : Binary64) : Binary64 := p.a * x + p.b

namespace Quadratic

def ofSides (a b constant right : Binary64) : Quadratic :=
  ⟨a, b, constant - right, right, constant⟩

def evaluateLeft (p : Quadratic) (x : Binary64) : Binary64 :=
  p.a * x * x + p.b * x + p.typedConstant

end Quadratic

namespace Coefficients

def degree : Coefficients → Degree
  | linear _ => .linear
  | quadratic _ => .quadratic

/-- The left side as it was typed, at `x`. -/
def evaluateLeft (p : Coefficients) (x : Binary64) : Binary64 :=
  match p with
  | linear p => p.evaluateLeft x
  | quadratic p => p.evaluateLeft x

def readTerm {α : Type} (read : α → Except Fault Binary64) : Option α → Except Fault Binary64
  | some t => read t
  | none => .ok 0

/-- The numerals are read from the right side first; of a quadratic, the linear term before the
square. The first that is no number is the fault. -/
def ofSides (degree : Degree) (sides : Sides) : Except Fault Coefficients := do
  let right ← readNumber sides.right
  match degree with
  | .linear =>
    match LinearSide.read? sides.left with
    | some side =>
      let a ← side.coefficient.value
      let b ← readTerm readNumber side.constant
      .ok (linear ⟨a, b, right⟩)
    | none => .error (.form degree)
  | .quadratic =>
    match QuadraticSide.read? sides.left with
    | some side =>
      let b ← readTerm Prefix.value side.linear
      let a ← side.squared.value
      let constant ← readTerm readNumber side.constant
      .ok (quadratic (.ofSides a b constant right))
    | none => .error (.form degree)

def read (raw : Text) (degree : Degree) : Except Fault Coefficients := do
  ofSides degree (← Sides.check raw degree)

end Coefficients

end SchoolAlgebra
