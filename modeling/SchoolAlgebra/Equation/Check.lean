import SchoolAlgebra.Equation.Sides
import SchoolAlgebra.Equation.LeftSide
set_option autoImplicit false

namespace SchoolAlgebra

def Degree.acceptsLeft (degree : Degree) (s : Text) : Bool :=
  match degree with
  | .linear => (LinearSide.read? s).isSome
  | .quadratic => (QuadraticSide.read? s).isSome

namespace Sides

def check (raw : Text) (degree : Degree) : Except Fault Sides :=
  match read raw with
  | .ok sides =>
    if degree.acceptsLeft sides.left && Text.isNumeral sides.right then .ok sides
    else .error (.form degree)
  | .error fault => .error fault

def isAccepted (raw : Text) (degree : Degree) : Bool :=
  match check raw degree with
  | .ok _ => true
  | .error _ => false

end Sides

end SchoolAlgebra
