import SchoolAlgebra.Equation.LeftSide
set_option autoImplicit false

/-!
The sides of an equation read with a position. A cursor counts the bytes of the UTF-8 form that lie
behind it; a slice from one position to another is there only if no character is cut. A part that
is tried and not found leaves the cursor where it was.
-/

namespace SchoolAlgebra

namespace Text

def byteCount : Text → Nat
  | [] => 0
  | c :: s => c.utf8Size + byteCount s

/-- The text before and behind its `n`-th byte, if no character is cut there. -/
def cutAtByte? : Text → Nat → Option (Text × Text)
  | s, 0 => some ([], s)
  | [], _ + 1 => none
  | c :: s, n + 1 =>
    if c.utf8Size ≤ n + 1 then
      (cutAtByte? s (n + 1 - c.utf8Size)).map fun cut => (c :: cut.1, cut.2)
    else none

@[simp] theorem byteCount_nil : byteCount [] = 0 := rfl

@[simp] theorem byteCount_cons (c : Char) (s : Text) :
    byteCount (c :: s) = c.utf8Size + byteCount s := rfl

@[simp] theorem byteCount_append (s t : Text) : byteCount (s ++ t) = byteCount s + byteCount t := by
  induction s with
  | nil => simp
  | cons c s ih => simp [ih, Nat.add_assoc]

theorem byteCount_eq_zero_iff (s : Text) : s.byteCount = 0 ↔ s = [] := by
  cases s with
  | nil => simp
  | cons c s => simp [Nat.ne_of_gt c.utf8Size_pos]

theorem cutAtByte?_append (s t : Text) : cutAtByte? (s ++ t) s.byteCount = some (s, t) := by
  induction s with
  | nil => simp [cutAtByte?]
  | cons c s ih =>
    obtain ⟨n, hn⟩ : ∃ n, byteCount (c :: s) = n + 1 :=
      Nat.exists_eq_succ_of_ne_zero (by have := c.utf8Size_pos; rw [byteCount_cons]; omega)
    rw [byteCount_cons] at hn
    have hle : c.utf8Size ≤ n + 1 := by omega
    have hrest : n + 1 - c.utf8Size = byteCount s := by omega
    simp [cutAtByte?, hn, hle, hrest, ih]

theorem eq_of_cutAtByte? {s a b : Text} {n : Nat} (h : cutAtByte? s n = some (a, b)) :
    s = a ++ b ∧ n = a.byteCount := by
  induction s generalizing n a with
  | nil =>
    cases n with
    | zero => cases h; exact ⟨rfl, rfl⟩
    | succ n => cases h
  | cons c s ih =>
    cases n with
    | zero => cases h; exact ⟨rfl, rfl⟩
    | succ n =>
      simp only [cutAtByte?] at h
      split at h
      · obtain ⟨cut, hcut, hab⟩ := Option.map_eq_some_iff.1 h
        cases hab
        obtain ⟨rfl, hn⟩ := ih hcut
        exact ⟨rfl, by rw [byteCount_cons]; omega⟩
      · cases h

end Text

structure Cursor where
  text : Text
  position : Nat
  deriving DecidableEq, Repr

namespace Cursor

def start (s : Text) : Cursor := ⟨s, 0⟩

/-- A reading moves the cursor. It has no result where it asks for a slice that is not there. -/
abbrev Scan (α : Type) := StateT Cursor Option α

section

variable {α β : Type} (x : Scan α) (c : Cursor)

theorem bind_apply (f : α → Scan β) : (x >>= f) c = (x c).bind fun r => f r.1 r.2 := rfl

theorem pure_apply (a : α) : (pure a : Scan α) c = some (a, c) := rfl

theorem map_apply (f : α → β) : (f <$> x) c = (x c).map fun r => (f r.1, r.2) := by
  change (x c).bind _ = _
  cases x c <;> rfl

theorem andM_apply (x y : Scan Bool) :
    (x <&&> y) c = (x c).bind fun r => if r.1 then y r.2 else some (false, r.2) := by
  change (x c).bind _ = _
  congr 1
  funext r
  obtain ⟨b, c⟩ := r
  cases b <;> rfl

theorem orM_apply (x y : Scan Bool) :
    (x <||> y) c = (x c).bind fun r => if r.1 then some (true, r.2) else y r.2 := by
  change (x c).bind _ = _
  congr 1
  funext r
  obtain ⟨b, c⟩ := r
  cases b <;> rfl

end

def ahead : Scan Text := fun c => (c.text.cutAtByte? c.position).map fun cut => (cut.2, c)

def since (position : Nat) : Scan Text := fun c => do
  let front ← c.text.cutAtByte? c.position
  let cut ← front.1.cutAtByte? position
  some (cut.2, c)

def here : Scan Nat := fun c => some (c.position, c)

def goTo (position : Nat) : Scan Unit := fun c => some ((), { c with position })

def advance (bytes : Nat) : Scan Unit := fun c =>
  some ((), { c with position := c.position + bytes })

def atEnd : Scan Bool := fun c => some (c.position = c.text.byteCount, c)

def eat (wanted : Char → Bool) : Scan Bool := do
  match ← ahead with
  | c :: _ =>
    if wanted c then
      advance c.utf8Size
      return true
    else return false
  | [] => return false

def eatText (token : Text) : Scan Bool := do
  if token.isPrefixOf (← ahead) then
    advance token.byteCount
    return true
  else return false

def eatSign : Scan Bool := eat Text.isSign

def eatPoint : Scan Bool := eat fun c => c = '.'

def eatUnknown : Scan Bool := eat Text.isUnknown

theorem rest_lt_of_eat {wanted : Char → Bool} {c next : Cursor}
    (h : eat wanted c = some (true, next)) :
    next.text.byteCount - next.position < c.text.byteCount - c.position := by
  cases hcut : c.text.cutAtByte? c.position with
  | none => simp [eat, ahead, bind_apply, hcut] at h
  | some cut =>
    obtain ⟨before, s⟩ := cut
    obtain ⟨htext, hposition⟩ := Text.eq_of_cutAtByte? hcut
    cases s with
    | nil => simp [eat, ahead, bind_apply, pure_apply, hcut] at h
    | cons d s =>
      by_cases hd : wanted d = true
      · obtain rfl : { c with position := c.position + d.utf8Size } = next := by
          simpa [eat, ahead, advance, bind_apply, map_apply, hcut, hd] using h
        have hpos := d.utf8Size_pos
        simp only [htext, hposition, Text.byteCount_append, Text.byteCount_cons]
        omega
      · simp [eat, ahead, bind_apply, pure_apply, hcut, hd] at h

def eatDigits (c : Cursor) : Option (Nat × Cursor) :=
  match h : eat Char.isDigit c with
  | some (true, next) => (eatDigits next).map fun found => (found.1 + 1, found.2)
  | some (false, next) => some (0, next)
  | none => none
termination_by c.text.byteCount - c.position
decreasing_by exact rest_lt_of_eat h

def eatSquare : Scan Bool := do
  let start ← here
  if ← eatUnknown <&&> (eatText ['²'] <||> eatText ['^', '2']) then return true
  goTo start
  return false

def eatPointedDigits : Scan Unit := do
  let _ ← eatDigits
  if ← eatPoint then
    let _ ← eatDigits

def eatNumeral : Scan Bool := do
  let start ← here
  let whole ← eatDigits
  let found ← if ← eatPoint then (· != 0) <$> eatDigits else pure (whole != 0)
  if found then return true
  goTo start
  return false

def constant : Scan (Option Text) := do
  let start ← here
  if ← eatSign <&&> eatNumeral then
    return some (← since start)
  goTo start
  return none

def linearTerm : Scan (Option Prefix) := do
  let start ← here
  if ← eatSign then
    eatPointedDigits
    let fragment ← since start
    if ← eatUnknown then
      return some (.ofText fragment)
  goTo start
  return none

def leading : Scan Prefix := do
  let start ← here
  let _ ← eatSign
  eatPointedDigits
  return .ofText (← since start)

def isNumeral : Scan Bool := do
  let _ ← eatSign
  eatNumeral <&&> atEnd

def linearSide : Scan (Option LinearSide) := do
  let coefficient ← leading
  if ← eatUnknown then
    let constant ← constant
    if ← atEnd then
      return some ⟨coefficient, constant⟩
  return none

def quadraticSide : Scan (Option QuadraticSide) := do
  let squared ← leading
  if ← eatSquare then
    let linear ← linearTerm
    let constant ← constant
    if ← atEnd then
      return some ⟨squared, linear, constant⟩
  return none

end Cursor

end SchoolAlgebra
