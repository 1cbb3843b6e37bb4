import SchoolAlgebra.Decimal.Numeral
set_option autoImplicit false

namespace SchoolAlgebra

inductive Json.Number where
  | whole (n : Int)
  | binary (x : Binary64)
  deriving DecidableEq, Repr

inductive Json (ν : Type := Json.Number) where
  | null
  | bool (b : Bool)
  | numeral (n : ν)
  | text (s : Text)
  | list (items : List (Json ν))
  | object (fields : List (Text × Json ν))
  deriving Repr

namespace Json

@[match_pattern] def int (n : Int) : Json := .numeral (.whole n)

@[match_pattern] def number (x : Binary64) : Json := .numeral (.binary x)

section

variable {ν : Type}

def field? (key : Text) : Json ν → Option (Json ν)
  | object fields => fields.lookup key
  | _ => none

def text? : Json ν → Option Text
  | text s => some s
  | _ => none

def list? : Json ν → Option (List (Json ν))
  | list items => some items
  | _ => none

end

def int? : Json → Option Int
  | int n => some n
  | _ => none

def number? : Json → Option Binary64
  | int n => some (.ofInt n)
  | number x => some x
  | _ => none

/-- A numeral of digits alone, with a minus or without, is whole. A minus zero is not: as a whole
number it would lose its sign. -/
def ofNumeral? (s : Text) : Option Json :=
  let (sign, digits) := Sign.read s
  match Decimal.readWhole? digits with
  | some n =>
    if n = 0 ∧ sign = .minus then some (number (.finite .minus .zero))
    else some (int (match sign with | .plus => n | .minus => -n))
  | none => (Binary64.read? s).map number

end Json

end SchoolAlgebra
