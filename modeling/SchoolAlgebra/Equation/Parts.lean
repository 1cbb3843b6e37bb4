import SchoolAlgebra.Equation.Prefix
set_option autoImplicit false

/-!
The parts of an equation's sides, each with a reader that takes as much as it can and never gives
back a part of what it took. In the comments `D` stands for digits around at most one point,
possibly none, and `N` for the same with a digit at its end.
-/

namespace SchoolAlgebra

namespace Text

def isSign (c : Char) : Bool := c = '+' || c = '-'

def isUnknown (c : Char) : Bool := c = 'x' || c = 'X'

def sign : Text → Text × Text
  | c :: s => if isSign c then ([c], s) else ([], c :: s)
  | [] => ([], [])

theorem sign_append (s : Text) : (sign s).1 ++ (sign s).2 = s := by
  cases s with
  | nil => rfl
  | cons c s => simp only [sign]; split <;> rfl

def pointedDigits (s : Text) : Text × Text :=
  match digits s with
  | (whole, '.' :: s) => (whole ++ '.' :: (digits s).1, (digits s).2)
  | (whole, s) => (whole, s)

theorem pointedDigits_append (s : Text) : (pointedDigits s).1 ++ (pointedDigits s).2 = s := by
  have h := digits_append s
  unfold pointedDigits
  split
  · rename_i whole rest hd
    rw [hd] at h
    simpa [List.append_assoc, digits_append rest] using h
  · rename_i hd
    rwa [hd] at h

/-- The longest `N`. A point at its end is a failure, even behind digits. -/
def numeral? : Reader Text := fun s =>
  match digits s with
  | (whole, '.' :: s) =>
    if (digits s).1 = [] then none else some (whole ++ '.' :: (digits s).1, (digits s).2)
  | (whole, s) => if whole = [] then none else some (whole, s)

theorem append_of_numeral? {s n rest : Text} (h : numeral? s = some (n, rest)) : n ++ rest = s := by
  have hs := digits_append s
  simp only [numeral?] at h
  split at h
  · rename_i whole r hd
    rw [hd] at hs
    split at h
    · cases h
    · cases h
      simpa [List.append_assoc, digits_append r] using hs
  · rename_i hd
    rw [hd] at hs
    split at h
    · cases h
    · cases h
      exact hs

def unknown? : Reader Text
  | c :: s => if isUnknown c then some ([c], s) else none
  | [] => none

theorem append_of_unknown? {s v rest : Text} (h : unknown? s = some (v, rest)) : v ++ rest = s := by
  cases s with
  | nil => cases h
  | cons c s =>
    simp only [unknown?] at h
    split at h <;> cases h
    rfl

def square? : Reader Text
  | c :: '²' :: s => if isUnknown c then some ([c, '²'], s) else none
  | c :: '^' :: '2' :: s => if isUnknown c then some ([c, '^', '2'], s) else none
  | _ => none

theorem append_of_square? {s v rest : Text} (h : square? s = some (v, rest)) : v ++ rest = s := by
  unfold square? at h
  split at h
  · split at h <;> cases h
    rfl
  · split at h <;> cases h
    rfl
  · cases h

def constant? : Reader Text
  | c :: s =>
    if isSign c then
      match numeral? s with
      | some (n, rest) => some (c :: n, rest)
      | none => none
    else none
  | [] => none

theorem append_of_constant? {s n rest : Text} (h : constant? s = some (n, rest)) : n ++ rest = s := by
  cases s with
  | nil => cases h
  | cons c s =>
    simp only [constant?] at h
    split at h
    · split at h
      · rename_i hn
        cases h
        simp [append_of_numeral? hn]
      · cases h
    · cases h

/-- The linear term behind a square, with its sign; what stands before the unknown is kept. -/
def linearTerm? : Reader Prefix
  | c :: s =>
    if isSign c then
      match unknown? (pointedDigits s).2 with
      | some (_, rest) => some (.ofText (c :: (pointedDigits s).1), rest)
      | none => none
    else none
  | [] => none

/-- What stands before the first unknown, with or without a sign. -/
def leading (s : Text) : Prefix × Text :=
  let (mark, s) := sign s
  let (body, s) := pointedDigits s
  (.ofText (mark ++ body), s)

theorem leading_append (s : Text) : (leading s).1.text ++ (leading s).2 = s := by
  simp only [leading, Prefix.text_ofText, List.append_assoc, pointedDigits_append, sign_append]

def isNumeral (s : Text) : Bool :=
  match numeral? (sign s).2 with
  | some (_, rest) => rest = []
  | none => false

end Text

end SchoolAlgebra
