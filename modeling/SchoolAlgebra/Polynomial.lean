import SchoolAlgebra.Binary64.Written
set_option autoImplicit false

namespace SchoolAlgebra.Polynomial

def terms : List Binary64 → List (Binary64 × Nat)
  | [] => []
  | c :: cs => (c, cs.length) :: terms cs

/-- No power above the square is ever written. -/
def power : Nat → Text
  | 0 => []
  | 1 => ['x']
  | _ => ['x', '²']

def body (c : Binary64) (k : Nat) : Text :=
  if 0 < k ∧ c.abs.sameNumber 1 then power k else c.abs.plain ++ power k

def leadingTerm (t : Binary64 × Nat) : Text :=
  (if t.1.isNegative then ['-'] else []) ++ body t.1 t.2

def furtherTerm (t : Binary64 × Nat) : Text :=
  (if t.1.isNegative then " - ".toList else " + ".toList) ++ body t.1 t.2

def joined : List (Binary64 × Nat) → Text
  | [] => ['0']
  | t :: ts => leadingTerm t ++ ts.flatMap furtherTerm

def nonzero (ts : List (Binary64 × Nat)) : List (Binary64 × Nat) :=
  ts.filter fun t => !t.1.isZero

def text (cs : List Binary64) : Text := joined (nonzero (terms cs))

/-- The leading term is written even if it is zero. -/
def textAsTyped (cs : List Binary64) : Text :=
  match terms cs with
  | [] => joined []
  | t :: ts => joined (t :: nonzero ts)

end SchoolAlgebra.Polynomial
