import SchoolAlgebra.Binary64.Arithmetic
import SchoolAlgebra.Decimal.Numeral
import SchoolAlgebra.Fault
set_option autoImplicit false

namespace SchoolAlgebra

/-- The number of a numeral, with the whole numeral as the fault. -/
def readNumber (s : Text) : Except Fault Binary64 :=
  match Binary64.read? s with
  | some x => .ok x
  | none => .error (.numeral s)

inductive Prefix where
  | implicit
  | plus
  | minus
  | numeral (s : Text)
  deriving DecidableEq, Repr

namespace Prefix

def ofText : Text → Prefix
  | [] => implicit
  | ['+'] => plus
  | ['-'] => minus
  | s => numeral s

def text : Prefix → Text
  | implicit => []
  | plus => ['+']
  | minus => ['-']
  | numeral s => s

@[simp] theorem text_ofText (s : Text) : (ofText s).text = s := by
  unfold ofText; split <;> rfl

def value : Prefix → Except Fault Binary64
  | implicit | plus => .ok 1
  | minus => .ok (-1)
  | numeral s => readNumber s

end Prefix

end SchoolAlgebra
