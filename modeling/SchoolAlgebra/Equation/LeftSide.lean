import SchoolAlgebra.Equation.Parts
set_option autoImplicit false

namespace SchoolAlgebra

structure LinearSide where
  coefficient : Prefix
  constant : Option Text
  deriving DecidableEq, Repr

structure QuadraticSide where
  squared : Prefix
  linear : Option Prefix
  constant : Option Text
  deriving DecidableEq, Repr

def LinearSide.read? (s : Text) : Option LinearSide :=
  let (coefficient, s) := Text.leading s
  match Text.unknown? s with
  | some (_, s) =>
    let (constant, s) := Reader.optional Text.constant? s
    if s = [] then some ⟨coefficient, constant⟩ else none
  | none => none

def QuadraticSide.read? (s : Text) : Option QuadraticSide :=
  let (squared, s) := Text.leading s
  match Text.square? s with
  | some (_, s) =>
    let (linear, s) := Reader.optional Text.linearTerm? s
    let (constant, s) := Reader.optional Text.constant? s
    if s = [] then some ⟨squared, linear, constant⟩ else none
  | none => none

end SchoolAlgebra
