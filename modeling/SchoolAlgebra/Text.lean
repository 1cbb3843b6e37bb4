set_option autoImplicit false

namespace SchoolAlgebra

abbrev Text := List Char

abbrev Reader (α : Type) := Text → Option (α × Text)

/-- A failed reader leaves the whole text. -/
def Reader.optional {α : Type} (r : Reader α) (s : Text) : Option α × Text :=
  match r s with
  | some (a, rest) => (some a, rest)
  | none => (none, s)

namespace Text

def digits (s : Text) : Text × Text := (s.takeWhile Char.isDigit, s.dropWhile Char.isDigit)

theorem digits_append (s : Text) : (digits s).1 ++ (digits s).2 = s :=
  List.takeWhile_append_dropWhile

theorem isDigit_of_mem_digits {s : Text} {c : Char} (h : c ∈ (digits s).1) : c.isDigit = true := by
  induction s with
  | nil => cases h
  | cons d r ih =>
    by_cases hd : d.isDigit <;> simp_all [digits]
    rcases h with h | h <;> simp_all

end Text

end SchoolAlgebra
