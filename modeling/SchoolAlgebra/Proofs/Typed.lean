import SchoolAlgebra.Equation.Coefficients
import SchoolAlgebra.Proofs.Decomposition
import SchoolAlgebra.Proofs.Numeral
set_option autoImplicit false

namespace SchoolAlgebra

def number (s : Text) : Binary64 := .round (writtenSign s) (writtenMagnitude s)

/-- Nothing but perhaps a sign in front of the unknown. -/
def Bare (l : Text) : Prop := l ∈ Grammar.optional Grammar.sign

instance (l : Text) : Decidable (Bare l) :=
  inferInstanceAs (Decidable (l = [] ∨ l = ['+'] ∨ l = ['-']))

def coefficientMagnitude (l : Text) : Rat := if Bare l then 1 else writtenMagnitude l

def coefficientNumber (l : Text) : Binary64 := .round (writtenSign l) (coefficientMagnitude l)

def constantNumber (k : Option Text) : Binary64 := k.elim 0 number

theorem coefficientMagnitude_nonneg (l : Text) : 0 ≤ coefficientMagnitude l := by
  unfold coefficientMagnitude
  split_ifs
  · exact zero_le_one
  · exact writtenMagnitude_nonneg l

def Magnitude.one : Magnitude where
  significand := 4503599627370496
  exponent := -52
  significand_lt := by decide
  least_le := by decide
  le_greatest := by decide
  normal := .inl (Nat.le_refl _)

theorem Magnitude.value_one : Magnitude.one.value = 1 := by
  norm_num [Magnitude.value, Magnitude.one]

namespace Binary64

theorem round_one (s : Sign) : round s 1 = .finite s .one := by
  rw [← Magnitude.value_one, round_value]

theorem one_eq : (1 : Binary64) = .finite .plus .one := round_one .plus

theorem zero_eq : (0 : Binary64) = .finite .plus .zero := round_zero .plus

end Binary64

theorem leading_of_signedNumeral {s : Text} (h : s ∈ Grammar.signedNumeral) :
    s ∈ Grammar.leading := by
  obtain ⟨m, hm, n, hn, rfl⟩ := Language.mem_mul.1 h
  exact Language.append_mem_mul hm (Grammar.pointedDigits_of_numeral hn)

theorem leading_of_furtherCoefficient {s : Text} (h : s ∈ Grammar.furtherCoefficient) :
    s ∈ Grammar.leading := by
  obtain ⟨m, hm, n, hn, rfl⟩ := Language.mem_mul.1 h
  exact Language.append_mem_mul (.inr hm) hn

theorem leading_of_constant {s : Text} (h : s ∈ Grammar.constant) : s ∈ Grammar.leading := by
  obtain ⟨m, hm, n, hn, rfl⟩ := Language.mem_mul.1 h
  exact Language.append_mem_mul (.inr hm) (Grammar.pointedDigits_of_numeral hn)

def firstUnreadable (ss : List Text) : Option Text := ss.find? fun s => decide (Unreadable s)

theorem firstUnreadable_eq_none_iff {ss : List Text} :
    firstUnreadable ss = none ↔ ∀ s ∈ ss, ¬Unreadable s := by
  simp [firstUnreadable]

/-- The reading gives `a`, or the first of the numerals that cannot be read as its fault. -/
def Reads {α : Type} (ss : List Text) (x : Except Fault α) (a : α) : Prop :=
  x = match firstUnreadable ss with
    | some s => .error (.numeral s)
    | none => .ok a

section

variable {α β : Type} {ss ts : List Text} {x : Except Fault α} {a : α} {b : β}

theorem reads_nil (a : α) : Reads [] (.ok a) a := rfl

theorem Reads.ok (h : Reads ss x a) (hs : firstUnreadable ss = none) : x = .ok a := by
  rw [Reads, hs] at h
  exact h

theorem Reads.error (h : Reads ss x a) {s : Text} (hs : firstUnreadable ss = some s) :
    x = .error (.numeral s) := by
  rw [Reads, hs] at h
  exact h

theorem Reads.bind (h : Reads ss x a) {f : α → Except Fault β} (hf : Reads ts (f a) b) :
    Reads (ss ++ ts) (x >>= f) b := by
  cases hs : firstUnreadable ss with
  | some s =>
    rw [h.error hs, Reads]
    simp only [firstUnreadable] at hs
    simp only [firstUnreadable, List.find?_append, hs]
    rfl
  | none =>
    rw [h.ok hs]
    rw [Reads] at hf
    simp only [firstUnreadable] at hs hf
    simp only [Reads, firstUnreadable, List.find?_append, hs, Option.none_or]
    exact hf

theorem Reads.map (h : Reads ss x a) (f : α → β) : Reads ss (x >>= fun v => .ok (f v)) (f a) := by
  have hf := h.bind (f := fun v => .ok (f v)) (reads_nil (f a))
  rwa [List.append_nil] at hf

end

theorem reads_number {s : Text} (h : s ∈ Grammar.leading) :
    Reads [s] (readNumber s) (number s) := by
  by_cases hu : Unreadable s
  · simp [Reads, firstUnreadable, hu, readNumber_eq_error h hu]
  · simp [Reads, firstUnreadable, hu, readNumber_eq_ok h hu, number]

def written (l : Text) : List Text := if Bare l then [] else [l]

theorem Prefix.ofText_of_not_bare {l : Text} (h : ¬Bare l) : Prefix.ofText l = .numeral l := by
  unfold Prefix.ofText
  split
  · exact absurd (.inl rfl) h
  · exact absurd (.inr (.inl rfl)) h
  · exact absurd (.inr (.inr rfl)) h
  · rfl

theorem reads_coefficient {l : Text} (h : l ∈ Grammar.leading) :
    Reads (written l) (Prefix.ofText l).value (coefficientNumber l) := by
  by_cases hb : Bare l
  · simp only [written, coefficientNumber, coefficientMagnitude, if_pos hb, Binary64.round_one]
    rcases hb with rfl | rfl | rfl
    · exact congrArg Except.ok Binary64.one_eq
    · exact congrArg Except.ok Binary64.one_eq
    · exact congrArg Except.ok (congrArg Binary64.neg Binary64.one_eq)
  · simp only [written, coefficientNumber, coefficientMagnitude, if_neg hb,
      Prefix.ofText_of_not_bare hb]
    exact reads_number h

theorem reads_constant {k : Option Text} (h : ∀ t ∈ k, t ∈ Grammar.constant) :
    Reads k.toList (Coefficients.readTerm readNumber k) (constantNumber k) := by
  cases k with
  | none => exact reads_nil 0
  | some t => exact reads_number (leading_of_constant (h t rfl))

/-- An accepted left side of a degree, in its parts. -/
inductive SideParts : Degree → Type where
  | linear (p : LinearParts) : SideParts .linear
  | quadratic (p : QuadraticParts) : SideParts .quadratic

namespace SideParts

variable {degree : Degree}

def text : SideParts degree → Text
  | linear p => p.text
  | quadratic p => p.text

def lead : SideParts degree → Text
  | linear p => p.lead
  | quadratic p => p.lead

/-- In the order of reading: of a quadratic, the linear term before the square. -/
def numerals : SideParts degree → List Text
  | linear p => written p.lead ++ p.constant.toList
  | quadratic p => (p.linear.elim [] fun t => written t.1) ++ (written p.lead ++ p.constant.toList)

def coefficients (right : Binary64) : SideParts degree → Coefficients
  | linear p => .linear ⟨coefficientNumber p.lead, constantNumber p.constant, right⟩
  | quadratic p => .quadratic (.ofSides (coefficientNumber p.lead)
      (p.linear.elim 0 fun t => coefficientNumber t.1) (constantNumber p.constant) right)

theorem mem_side {s : Text} : s ∈ Grammar.side degree ↔ ∃ p : SideParts degree, p.text = s := by
  cases degree with
  | linear =>
    rw [show Grammar.side .linear = Grammar.linearSide from rfl, LinearParts.mem_linearSide]
    constructor
    · intro h
      obtain ⟨p, h⟩ := h
      exact ⟨.linear p, h⟩
    · intro h
      obtain ⟨p, h⟩ := h
      cases p with
      | linear p => exact ⟨p, h⟩
  | quadratic =>
    rw [show Grammar.side .quadratic = Grammar.quadraticSide from rfl,
      QuadraticParts.mem_quadraticSide]
    constructor
    · intro h
      obtain ⟨p, h⟩ := h
      exact ⟨.quadratic p, h⟩
    · intro h
      obtain ⟨p, h⟩ := h
      cases p with
      | quadratic p => exact ⟨p, h⟩

theorem reads_linearTerm {t : Option (Text × Text)}
    (h : ∀ u ∈ t, u.1 ∈ Grammar.furtherCoefficient ∧ u.2 ∈ Grammar.unknown) :
    Reads (t.elim [] fun u => written u.1)
      (Coefficients.readTerm Prefix.value (t.map fun u => Prefix.ofText u.1))
      (t.elim 0 fun u => coefficientNumber u.1) := by
  cases t with
  | none => exact reads_nil 0
  | some u => exact reads_coefficient (leading_of_furtherCoefficient (h u rfl).1)

end SideParts

/-- An equation that the gate lets through, once its blanks are gone. -/
structure TypedEquation (degree : Degree) where
  left : SideParts degree
  right : Text
  right_mem : right ∈ Grammar.signedNumeral

namespace TypedEquation

variable {degree : Degree}

def sides (e : TypedEquation degree) : Sides := ⟨e.left.text, e.right⟩

def text (e : TypedEquation degree) : Text := e.left.text ++ '=' :: e.right

/-- The right side is read first. -/
def numerals (e : TypedEquation degree) : List Text := e.right :: e.left.numerals

def coefficients (e : TypedEquation degree) : Coefficients := e.left.coefficients (number e.right)

/-- What the gate lets through is read to the end, or up to its first unreadable numeral. -/
theorem reads_ofSides (e : TypedEquation degree) :
    Reads e.numerals (Coefficients.ofSides degree e.sides) e.coefficients := by
  obtain ⟨left, right, hr⟩ := e
  have hright := reads_number (leading_of_signedNumeral hr)
  cases left with
  | linear p =>
    refine hright.bind ?_
    simp only [sides, SideParts.text, p.read?_text]
    refine (reads_coefficient p.lead_mem).bind ?_
    exact (reads_constant p.constant_mem).map fun b =>
      Coefficients.linear ⟨coefficientNumber p.lead, b, number right⟩
  | quadratic p =>
    refine hright.bind ?_
    simp only [sides, SideParts.text, p.read?_text]
    refine (SideParts.reads_linearTerm p.linear_mem).bind ?_
    refine (reads_coefficient p.lead_mem).bind ?_
    exact (reads_constant p.constant_mem).map fun k =>
      Coefficients.quadratic (.ofSides (coefficientNumber p.lead)
        (p.linear.elim 0 fun t => coefficientNumber t.1) k (number right))

end TypedEquation

end SchoolAlgebra
