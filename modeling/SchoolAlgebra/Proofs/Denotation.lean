import SchoolAlgebra.Proofs.Nearest
import SchoolAlgebra.Proofs.Outcome
set_option autoImplicit false

/-!
What a typed equation denotes over the exact rationals, a sum of monomials and a number, and that the
coefficients that are read from it are the nearest numbers to these rationals.
-/

namespace SchoolAlgebra

/-- A rational with its sign apart, so that a zero keeps the sign that is written in front of it. -/
structure Reading where
  sign : Sign
  magnitude : Rat

namespace Reading

def zero : Reading := ⟨.plus, 0⟩

def value (r : Reading) : Rat := r.sign.apply r.magnitude

end Reading

def numeralReading (s : Text) : Reading := ⟨writtenSign s, writtenMagnitude s⟩

def coefficientReading (l : Text) : Reading := ⟨writtenSign l, coefficientMagnitude l⟩

/-- The number is finite, has the sign of the reading and is a nearest one, a tie going to the even
significand. -/
def Binary64.Rounds (x : Binary64) (r : Reading) : Prop :=
  ∃ m : Magnitude, x = .finite r.sign m ∧ m.IsNearest r.magnitude

theorem Binary64.rounds_round (s : Sign) {q : Rat} (hq : 0 ≤ q)
    (h : q < (2 : Rat) ^ 1024 - 2 ^ 970) : (round s q).Rounds ⟨s, q⟩ := by
  cases hm : Magnitude.nearest? q with
  | none => exact absurd ((Magnitude.nearest?_eq_none_iff hq).1 hm) (not_le.2 h)
  | some m => exact ⟨m, by rw [round, hm], Magnitude.isNearest_of_nearest? hq hm⟩

theorem Binary64.Rounds.unique {x y : Binary64} {r : Reading} (hx : x.Rounds r) (hy : y.Rounds r) :
    x = y := by
  obtain ⟨m, rfl, hm⟩ := hx
  obtain ⟨n, rfl, hn⟩ := hy
  rw [hm.unique hn]

theorem Binary64.rounds_zero : (0 : Binary64).Rounds .zero := by
  rw [zero_eq]
  exact ⟨.zero, rfl, Magnitude.isNearest_of_nearest? le_rfl rfl⟩

theorem one_lt_top : (1 : Rat) < (2 : Rat) ^ 1024 - 2 ^ 970 := by
  rw [← not_le, ← Magnitude.nearest?_eq_none_iff zero_le_one, ← Magnitude.value_one,
    Magnitude.nearest?_value]
  exact Option.some_ne_none _

theorem number_rounds {s : Text} (h : ¬Unreadable s) : (number s).Rounds (numeralReading s) :=
  Binary64.rounds_round _ (writtenMagnitude_nonneg s) (not_le.1 fun hu => h (.inr hu))

theorem coefficientNumber_rounds {l : Text} (h : ∀ s ∈ written l, ¬Unreadable s) :
    (coefficientNumber l).Rounds (coefficientReading l) := by
  refine Binary64.rounds_round _ (coefficientMagnitude_nonneg l) ?_
  by_cases hb : Bare l
  · rw [coefficientMagnitude, if_pos hb]
    exact one_lt_top
  · have hl : ¬Unreadable l := h l (by simp [written, hb])
    rw [coefficientMagnitude, if_neg hb]
    exact not_le.1 fun hu => hl (.inr hu)

theorem constantNumber_rounds {k : Option Text} (h : ∀ s ∈ k.toList, ¬Unreadable s) :
    (constantNumber k).Rounds (k.elim .zero numeralReading) := by
  cases k with
  | none => exact Binary64.rounds_zero
  | some t => exact number_rounds (h t (by simp))

theorem linearTerm_rounds {t : Option (Text × Text)}
    (h : ∀ s ∈ t.elim [] fun u => written u.1, ¬Unreadable s) :
    (t.elim 0 fun u => coefficientNumber u.1).Rounds
      (t.elim .zero fun u => coefficientReading u.1) := by
  cases t with
  | none => exact Binary64.rounds_zero
  | some u => exact coefficientNumber_rounds h

/-- What stands in front of the unknown, the power of the unknown as it is spelled, and that power. A
constant has no unknown. -/
structure Monomial where
  factor : Text
  unknown : Text
  power : Nat

namespace Monomial

def text (m : Monomial) : Text := m.factor ++ m.unknown

def reading (m : Monomial) : Reading :=
  if m.power = 0 then numeralReading m.factor else coefficientReading m.factor

def value (m : Monomial) (x : Rat) : Rat := m.reading.value * x ^ m.power

end Monomial

namespace SideParts

variable {degree : Degree}

def monomials : SideParts degree → List Monomial
  | linear p => ⟨p.lead, p.unknown, 1⟩ :: p.constant.toList.map fun k => ⟨k, [], 0⟩
  | quadratic p =>
    ⟨p.lead, p.square, 2⟩ :: (p.linear.toList.map fun t => ⟨t.1, t.2, 1⟩) ++
      p.constant.toList.map fun k => ⟨k, [], 0⟩

theorem text_monomials (p : SideParts degree) : p.monomials.flatMap Monomial.text = p.text := by
  cases p with
  | linear p =>
    cases hk : p.constant <;> simp [monomials, text, LinearParts.text, Monomial.text, constantText, hk]
  | quadratic p =>
    cases hl : p.linear <;> cases hk : p.constant <;>
      simp [monomials, text, QuadraticParts.text, QuadraticParts.linearText, Monomial.text,
        constantText, hl, hk]

/-- The reading of the monomial of this power. -/
def coefficient (p : SideParts degree) (k : Nat) : Reading :=
  ((p.monomials.find? (·.power == k)).map Monomial.reading).getD .zero

@[simp] theorem coefficient_linear_two (p : LinearParts) : (linear p).coefficient 2 = .zero := by
  cases hk : p.constant <;> simp [coefficient, monomials, hk]

@[simp] theorem coefficient_linear_one (p : LinearParts) :
    (linear p).coefficient 1 = coefficientReading p.lead := rfl

@[simp] theorem coefficient_linear_zero (p : LinearParts) :
    (linear p).coefficient 0 = p.constant.elim .zero numeralReading := by
  cases hk : p.constant <;> simp [coefficient, monomials, Monomial.reading, hk]

@[simp] theorem coefficient_quadratic_two (p : QuadraticParts) :
    (quadratic p).coefficient 2 = coefficientReading p.lead := rfl

@[simp] theorem coefficient_quadratic_one (p : QuadraticParts) :
    (quadratic p).coefficient 1 = p.linear.elim .zero fun t => coefficientReading t.1 := by
  cases hl : p.linear <;> cases hk : p.constant <;>
    simp [coefficient, monomials, Monomial.reading, hl, hk]

@[simp] theorem coefficient_quadratic_zero (p : QuadraticParts) :
    (quadratic p).coefficient 0 = p.constant.elim .zero numeralReading := by
  cases hl : p.linear <;> cases hk : p.constant <;>
    simp [coefficient, monomials, Monomial.reading, hl, hk]

theorem sum_monomials (p : SideParts degree) (x : Rat) :
    (p.monomials.map (·.value x)).sum =
      (p.coefficient 2).value * x ^ 2 + (p.coefficient 1).value * x + (p.coefficient 0).value := by
  cases p with
  | linear p =>
    simp only [coefficient_linear_two, coefficient_linear_one, coefficient_linear_zero]
    cases hk : p.constant <;>
      simp [monomials, Monomial.value, Monomial.reading, Reading.zero, Reading.value, hk]
  | quadratic p =>
    simp only [coefficient_quadratic_two, coefficient_quadratic_one, coefficient_quadratic_zero]
    cases hl : p.linear <;> cases hk : p.constant <;>
      simp [monomials, Monomial.value, Monomial.reading, Reading.zero, Reading.value, hl, hk]
    ring

theorem text_injective : Function.Injective (text : SideParts degree → Text) := by
  intro p q h
  cases p with
  | linear p =>
    cases q with
    | linear q => exact congrArg linear (LinearParts.text_injective h)
  | quadratic p =>
    cases q with
    | quadratic q => exact congrArg quadratic (QuadraticParts.text_injective h)

end SideParts

namespace TypedEquation

variable {degree : Degree}

theorem eq_of_text {e f : TypedEquation degree} {raw : Text} (he : e.text = raw.withoutBlanks)
    (hf : f.text = raw.withoutBlanks) : e = f := by
  have hread := Sides.read_eq_ok_iff.2 (he ▸ e.splitsInto)
  rw [Sides.read_eq_ok_iff.2 (hf ▸ f.splitsInto)] at hread
  obtain ⟨hl, hr⟩ := Sides.mk.inj (Except.ok.inj hread)
  obtain ⟨left, right, hm⟩ := e
  obtain rfl := SideParts.text_injective hl
  obtain rfl : f.right = right := hr
  rfl

/-- Each coefficient is the nearest number to the rational of its power, with the sign that is written
for it; of a quadratic the right side is brought over in one subtraction of numbers. -/
def Denotes (e : TypedEquation degree) : Coefficients → Prop
  | .linear p =>
    p.a.Rounds (e.left.coefficient 1) ∧ p.b.Rounds (e.left.coefficient 0) ∧
      p.c.Rounds (numeralReading e.right)
  | .quadratic p =>
    p.a.Rounds (e.left.coefficient 2) ∧ p.b.Rounds (e.left.coefficient 1) ∧
      p.typedConstant.Rounds (e.left.coefficient 0) ∧
      p.typedRight.Rounds (numeralReading e.right) ∧ p.c = p.typedConstant - p.typedRight

theorem denotes_coefficients (e : TypedEquation degree) (h : ∀ s ∈ e.numerals, ¬Unreadable s) :
    e.Denotes e.coefficients := by
  obtain ⟨left, right, hr⟩ := e
  obtain ⟨hright, hleft⟩ := List.forall_mem_cons.1 h
  cases left with
  | linear p =>
    obtain ⟨hlead, hconstant⟩ := List.forall_mem_append.1 hleft
    refine ⟨coefficientNumber_rounds hlead, ?_, number_rounds hright⟩
    rw [SideParts.coefficient_linear_zero]
    exact constantNumber_rounds hconstant
  | quadratic p =>
    obtain ⟨hlinear, hleft⟩ := List.forall_mem_append.1 hleft
    obtain ⟨hlead, hconstant⟩ := List.forall_mem_append.1 hleft
    refine ⟨coefficientNumber_rounds hlead, ?_, ?_, number_rounds hright, rfl⟩
    · rw [SideParts.coefficient_quadratic_one]
      exact linearTerm_rounds hlinear
    · rw [SideParts.coefficient_quadratic_zero]
      exact constantNumber_rounds hconstant

theorem Denotes.unique {e : TypedEquation degree} {p q : Coefficients} (hp : e.Denotes p)
    (hq : e.Denotes q) (h : p.degree = q.degree) : p = q := by
  cases p with
  | linear p =>
    cases q with
    | linear q =>
      obtain ⟨ha, hb, hc⟩ := hp
      obtain ⟨ha', hb', hc'⟩ := hq
      exact congrArg Coefficients.linear (Linear.mk.injEq .. |>.mpr
        ⟨ha.unique ha', hb.unique hb', hc.unique hc'⟩)
    | quadratic q => cases h
  | quadratic p =>
    cases q with
    | linear q => cases h
    | quadratic q =>
      obtain ⟨ha, hb, hk, hr, hc⟩ := hp
      obtain ⟨ha', hb', hk', hr', hc'⟩ := hq
      have hk := hk.unique hk'
      have hr := hr.unique hr'
      rw [hk, hr, ← hc'] at hc
      exact congrArg Coefficients.quadratic (Quadratic.mk.injEq .. |>.mpr
        ⟨ha.unique ha', hb.unique hb', hc, hr, hk⟩)

end TypedEquation

/-- What is read from a text is what it denotes: the text without its blanks is one typed equation and
no other, the coefficients that are read are those of its degree, and each is the nearest finite number
to what the equation has for it, which leaves no choice. The left side is the polynomial of these
readings. -/
theorem read_denotes {raw : Text} {degree : Degree} {p : Coefficients}
    (h : Coefficients.read raw degree = .ok p) :
    p.degree = degree ∧
    ∃ e : TypedEquation degree,
      e.text = raw.withoutBlanks ∧ (∀ f : TypedEquation degree, f.text = raw.withoutBlanks → f = e) ∧
      e.Denotes p ∧ (∀ q : Coefficients, q.degree = degree → e.Denotes q → q = p) ∧
      e.left.monomials.flatMap Monomial.text = e.left.text ∧
      ∀ x : Rat, (e.left.monomials.map (·.value x)).sum =
        (e.left.coefficient 2).value * x ^ 2 + (e.left.coefficient 1).value * x +
          (e.left.coefficient 0).value := by
  obtain ⟨e, ht, rfl, hr⟩ := TypedEquation.exists_text_of_read h
  have he := e.denotes_coefficients hr
  exact ⟨e.degree_coefficients, e, ht, fun f hf => TypedEquation.eq_of_text hf ht, he,
    fun q hq h => h.unique he (hq.trans e.degree_coefficients.symm), e.left.text_monomials,
    e.left.sum_monomials⟩

theorem read_denotes_minus_zero :
    Coefficients.read "x - 0 = 1".toList .linear =
      .ok (.linear ⟨.finite .plus .one, .finite .minus .zero, .finite .plus .one⟩) ∧
    ∃ e : TypedEquation .linear,
      e.text = "x-0=1".toList ∧
      e.Denotes (.linear ⟨.finite .plus .one, .finite .minus .zero, .finite .plus .one⟩) := by
  have h : Coefficients.read "x - 0 = 1".toList .linear =
      .ok (.linear ⟨.finite .plus .one, .finite .minus .zero, .finite .plus .one⟩) := by
    decide +kernel
  obtain ⟨-, e, ht, -, he, -⟩ := read_denotes h
  exact ⟨h, e, ht, he⟩

end SchoolAlgebra
