import SchoolAlgebra.Derivation
import SchoolAlgebra.Table
set_option autoImplicit false

namespace SchoolAlgebra

structure Report where
  degree : Degree
  sides : Sides
  coefficients : Coefficients
  solution : Solution
  table : List TableEntry
  procedure : List Text
  decimals : UInt64
  deriving DecidableEq, Repr

def Report.solutionText (r : Report) : Text := r.solution.text r.decimals.toNat

/-- The first fault on the way from the text to the solution, or the whole report. -/
def solveEquation (raw : Text) (degree : Degree) (o : Options) : Except Fault Report := do
  let sides ← Sides.check raw degree
  let coefficients ← Coefficients.ofSides degree sides
  let solution ← coefficients.solve
  .ok {
    degree, sides, coefficients, solution
    table := coefficients.table o
    procedure := coefficients.procedure o.decimals.toNat
    decimals := o.decimals }

end SchoolAlgebra
