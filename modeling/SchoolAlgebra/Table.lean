import SchoolAlgebra.Equation.Coefficients
import SchoolAlgebra.Binary64.Written
import SchoolAlgebra.Options
set_option autoImplicit false

namespace SchoolAlgebra

structure TableEntry where
  x : Int32
  y : Text
  deriving DecidableEq, Repr

namespace Coefficients

def entry (p : Coefficients) (places : Nat) (x : Int32) : TableEntry :=
  ⟨x, (p.evaluateLeft (.ofInt x.toInt)).fixed places⟩

def table (p : Coefficients) (o : Options) : List TableEntry :=
  (o.sampling.window p.degree).points.map (p.entry o.decimals.toNat)

theorem map_x_table (p : Coefficients) (o : Options) :
    (p.table o).map TableEntry.x = (o.sampling.window p.degree).points := by
  rw [table, List.map_map]
  exact List.map_id _

end Coefficients

end SchoolAlgebra
