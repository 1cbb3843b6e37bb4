import SchoolAlgebra.Binary64.Rounding
set_option autoImplicit false

namespace SchoolAlgebra.Binary64

def neg : Binary64 → Binary64
  | .nan => .nan
  | .infinity s => .infinity s.flip
  | .finite s m => .finite s.flip m

instance : Neg Binary64 := ⟨neg⟩

@[simp] theorem neg_neg (x : Binary64) : - -x = x := by
  cases x <;> simp [Neg.neg, neg]

def abs : Binary64 → Binary64
  | .nan => .nan
  | .infinity _ => .infinity .plus
  | .finite _ m => .finite .plus m

/-- An exact sum of zero is `-0` only if both terms carry a minus. -/
def add : Binary64 → Binary64 → Binary64
  | .nan, _ => .nan
  | _, .nan => .nan
  | .infinity s, .infinity t => if s = t then .infinity s else .nan
  | .infinity s, .finite _ _ => .infinity s
  | .finite _ _, .infinity t => .infinity t
  | .finite s m, .finite t n =>
    let q := s.apply m.value + t.apply n.value
    if q = 0 then .finite (if s = t then s else .plus) .zero
    else ofRat q

instance : Add Binary64 := ⟨add⟩

instance : Sub Binary64 := ⟨fun x y => x + -y⟩

theorem sub_eq_add_neg (x y : Binary64) : x - y = x + -y := rfl

def mul : Binary64 → Binary64 → Binary64
  | .nan, _ => .nan
  | _, .nan => .nan
  | .infinity s, .infinity t => .infinity (s.times t)
  | .infinity s, .finite t n => if n.isZero then .nan else .infinity (s.times t)
  | .finite s m, .infinity t => if m.isZero then .nan else .infinity (s.times t)
  | .finite s m, .finite t n => round (s.times t) (m.value * n.value)

instance : Mul Binary64 := ⟨mul⟩

def div : Binary64 → Binary64 → Binary64
  | .nan, _ => .nan
  | _, .nan => .nan
  | .infinity _, .infinity _ => .nan
  | .infinity s, .finite t _ => .infinity (s.times t)
  | .finite s _, .infinity t => .finite (s.times t) .zero
  | .finite s m, .finite t n =>
    if n.isZero then
      if m.isZero then .nan else .infinity (s.times t)
    else round (s.times t) (m.value / n.value)

instance : Div Binary64 := ⟨div⟩

/-- The square root of a positive rational, to 53 bits. At the scale of the last bit the whole
root is taken; the next one is nearer if the square of the midpoint is still below the radicand.
A root on the midpoint would need a radicand of more than 53 bits. -/
def sqrtMagnitude (q : Rat) : Rat :=
  let e := binaryOrder q / 2 - 52
  let radicand := q / (4 : Rat) ^ e
  let n := Nat.sqrt radicand.floor.toNat
  let twice : Rat := 2 * (n : Rat) + 1
  let nearest := if twice * twice < 4 * radicand then n + 1 else n
  (nearest : Rat) * (2 : Rat) ^ e

def sqrt : Binary64 → Binary64
  | .nan => .nan
  | .infinity .plus => .infinity .plus
  | .infinity .minus => .nan
  | .finite s m =>
    if m.isZero then .finite s m
    else
      match s with
      | .plus => round .plus (sqrtMagnitude m.value)
      | .minus => .nan

/-- The greater of two numbers; `nan` gives way to the other operand. -/
def max (x y : Binary64) : Binary64 :=
  match x, y with
  | .nan, _ => y
  | _, .nan => x
  | _, _ => if x.le y then y else x

end SchoolAlgebra.Binary64
