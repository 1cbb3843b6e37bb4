import SchoolAlgebra.Proofs.Symmetry
import SchoolAlgebra.Proofs.WellFormed
set_option autoImplicit false

namespace SchoolAlgebra

namespace Binary64

variable {x y t : Binary64} {q r : Rat}

theorem le_infinity_plus (h : x ≠ nan) : x.le (.infinity .plus) = true := by
  cases x with
  | nan => exact absurd rfl h
  | infinity s => cases s <;> rfl
  | finite s m => rfl

theorem infinity_minus_le (h : x ≠ nan) : (infinity .minus).le x = true := by
  cases x with
  | nan => exact absurd rfl h
  | infinity s => rfl
  | finite s m => rfl

theorem neg_le_neg_eq (x y : Binary64) : (-x).le (-y) = y.le x := by
  change (neg x).le (neg y) = y.le x
  cases x with
  | nan => rw [not_le_nan]; rfl
  | infinity s => cases s <;> cases y <;> first | rfl | (rename_i t; cases t <;> rfl)
  | finite s m =>
    cases y with
    | nan => rfl
    | infinity t => cases t <;> rfl
    | finite t n => simp only [neg, le, Sign.apply_flip, neg_le_neg_iff]

theorem HasValue.isNegative_iff (h : x.HasValue q) : x.isNegative = true ↔ q < 0 := by
  have h1 := h.le_iff hasValue_zero
  have h2 := hasValue_zero.le_iff h
  rw [isNegative, lt, Bool.and_eq_true, h1, Bool.not_eq_true', Bool.eq_false_iff, ne_eq, h2, not_le]
  exact ⟨fun h => h.2, fun h => ⟨h.le, h⟩⟩

theorem round_plus_le (hq : 0 ≤ q) (h : q ≤ r) : (round .plus q).le (round .plus r) = true := by
  have hnone := Magnitude.nearest?_eq_none_iff hq
  have hnone' := Magnitude.nearest?_eq_none_iff (hq.trans h)
  unfold round
  cases hm : Magnitude.nearest? q with
  | none => rw [hnone'.2 ((hnone.1 hm).trans h)]; rfl
  | some m =>
    cases hn : Magnitude.nearest? r with
    | none => rfl
    | some n =>
      exact ((hasValue_finite .plus m).le_iff (hasValue_finite .plus n)).2
        (Magnitude.value_le_value hq h hm hn)

theorem ofRat_of_nonneg (hq : 0 ≤ q) : ofRat q = round .plus q := by
  rw [ofRat, Rat.abs_of_nonneg hq, Sign.ofRat, if_neg (not_lt.2 hq)]

theorem round_minus_le_round_plus (q r : Rat) : (round .minus q).le (round .plus r) = true := by
  unfold round
  cases Magnitude.nearest? q with
  | none => cases Magnitude.nearest? r <;> rfl
  | some m =>
    cases Magnitude.nearest? r with
    | none => rfl
    | some n =>
      exact ((hasValue_finite .minus m).le_iff (hasValue_finite .plus n)).2
        ((neg_nonpos.2 m.value_nonneg).trans n.value_nonneg)

theorem ofRat_le_ofRat (h : q ≤ r) : (ofRat q).le (ofRat r) = true := by
  have hneg : ∀ {s : Rat}, s < 0 → ofRat s = -round .plus (-s) := fun hs => by
    rw [← ofRat_of_nonneg (by linarith), ← neg_ofRat hs.ne, neg_neg]
  rcases le_or_gt 0 q with hq | hq
  · rw [ofRat_of_nonneg hq, ofRat_of_nonneg (hq.trans h)]
    exact round_plus_le hq h
  · rcases le_or_gt 0 r with hr | hr
    · rw [hneg hq, ofRat_of_nonneg hr, neg_round]
      exact round_minus_le_round_plus _ _
    · rw [hneg hq, hneg hr, neg_le_neg_eq]
      exact round_plus_le (by linarith) (by linarith)

theorem le_div_of_pos (ht : t.HasValue r) (hr : 0 < r) (h : x.le y = true) :
    (x / t).le (y / t) = true := by
  have hz := ht.isZero_eq_false hr.ne'
  have hquotient : ∀ {z : Binary64}, z ≠ nan → z / t ≠ nan := fun hz' =>
    div_ne_nan_of_isFinite hz' ht.isFinite hz
  have hinfinite : ∀ s : Sign, infinity s / t = infinity s := fun s => by
    obtain ⟨u, n, rfl, rfl⟩ := ht.exists_eq
    cases u with
    | plus => cases s <;> rfl
    | minus => exact absurd hr (not_lt.2 (neg_nonpos.2 n.value_nonneg))
  have hy : y ≠ nan := fun hn => by
    rw [hn, not_le_nan] at h
    cases h
  -- A quotient of an infinity stays at its end of the order, so the values decide only between numbers.
  cases x with
  | nan => cases h
  | infinity s =>
    cases s with
    | minus =>
      rw [hinfinite]
      exact infinity_minus_le (hquotient hy)
    | plus =>
      cases y with
      | nan => cases h
      | infinity u =>
        cases u with
        | plus => rw [hinfinite]; rfl
        | minus => cases h
      | finite u n => cases h
  | finite s m =>
    cases y with
    | nan => cases h
    | infinity u =>
      cases u with
      | plus =>
        rw [hinfinite]
        exact le_infinity_plus (hquotient nofun)
      | minus => cases h
    | finite u n =>
      have hx := hasValue_finite s m
      have hy := hasValue_finite u n
      rw [(hx.div_agrees ht hr.ne').le (hy.div_agrees ht hr.ne')]
      exact ofRat_le_ofRat (div_le_div_of_nonneg_right ((hx.le_iff hy).1 h) hr.le)

theorem le_div_of_neg (ht : t.HasValue r) (hr : r < 0) (h : x.le y = true) :
    (y / t).le (x / t) = true := by
  have hle := le_div_of_pos ht.neg (neg_pos.2 hr) h
  rwa [div_neg_right, div_neg_right, neg_le_neg_eq] at hle

theorem sub_le_add_sqrt (hx : x.isFinite = true) (hy : y.isPositive = true) :
    (x - y.sqrt).le (x + y.sqrt) = true := by
  obtain ⟨q, hq⟩ := exists_hasValue hx
  cases y with
  | nan => cases hy
  | infinity s =>
    cases s with
    | plus =>
      obtain ⟨s, m, rfl, -⟩ := hq.exists_eq
      rfl
    | minus => cases hy
  | finite s m =>
    have hroot := (hasValue_finite s m).sqrt ((hasValue_finite s m).isPositive_iff.1 hy)
    have hpos := sqrtMagnitude_pos ((hasValue_finite s m).isPositive_iff.1 hy)
    rw [(hq.sub_agrees hroot).le (hq.add_agrees hroot)]
    exact ofRat_le_ofRat (by linarith)

end Binary64

open Binary64

/-- The roots, or the parts of a complex root. -/
def Solution.values : Solution → List Binary64
  | noSolution => []
  | oneReal x => [x]
  | twoReal x1 x2 => [x1, x2]
  | complexPair real imaginary => [real, imaginary]

namespace Quadratic

variable {p : Quadratic}

section

variable (hb : p.b.isFinite = true) (hd : p.settledDiscriminant.isPositive = true)
include hb hd

theorem roots_le_of_pos (ha : p.a.isPositive = true) :
    ((-p.b - p.settledDiscriminant.sqrt) / (2 * p.a)).le
      ((-p.b + p.settledDiscriminant.sqrt) / (2 * p.a)) = true := by
  have hdouble := isFinite_double (isZero_of_isPositive hd) (isPositive_ne_nan hd)
  obtain ⟨a, hpa⟩ := exists_hasValue (isFinite_of_mul hdouble).2
  exact le_div_of_pos (hpa.of_double hdouble)
    (mul_pos two_pos (hpa.isPositive_iff.1 ha)) (sub_le_add_sqrt (isFinite_neg hb) hd)

theorem roots_le_of_neg (ha : p.a.isNegative = true) :
    ((-p.b + p.settledDiscriminant.sqrt) / (2 * p.a)).le
      ((-p.b - p.settledDiscriminant.sqrt) / (2 * p.a)) = true := by
  have hdouble := isFinite_double (isZero_of_isPositive hd) (isPositive_ne_nan hd)
  obtain ⟨a, hpa⟩ := exists_hasValue (isFinite_of_mul hdouble).2
  exact le_div_of_neg (hpa.of_double hdouble)
    (mul_neg_of_pos_of_neg two_pos (hpa.isNegative_iff.1 ha)) (sub_le_add_sqrt (isFinite_neg hb) hd)

end

/-- Only an imaginary part can be without a value, and only because the discriminant is. -/
theorem nan_mem_values_iff (ha : p.a.isFinite = true) (hb : p.b.isFinite = true)
    {solution : Solution} (h : p.solve = .ok solution) :
    .nan ∈ solution.values ↔ p.settledDiscriminant = .nan := by
  have hs := p.solves_solve
  rw [h] at hs
  cases hs with
  | twoReal hz hd =>
    have hroot := sqrt_ne_nan hd
    have h1 := root_ne_nan hb hz hd hroot
    have h2 := root_ne_nan hb hz hd (neg_ne_nan hroot)
    simp only [Solution.values, List.mem_cons, List.not_mem_nil, or_false,
      isPositive_ne_nan hd, iff_false, not_or]
    exact ⟨h1.symm, h2.symm⟩
  | oneReal hz hd =>
    have hd := ne_nan_of_isFinite (isFinite_of_isZero hd)
    simp only [Solution.values, List.mem_cons, List.not_mem_nil, or_false, hd, iff_false]
    exact (middle_ne_nan ha hb hz).symm
  | complexPair hz hp hd =>
    have hu := (middle_ne_nan ha hb hz).symm
    simp only [Solution.values, List.mem_cons, List.not_mem_nil, or_false, hu, false_or]
    constructor
    · intro hv
      by_contra hn
      exact isPositive_ne_nan (isPositive_imaginary_of_ne_nan hz hp hd hn) hv.symm
    · intro hn
      rw [hn]
      rfl

end Quadratic

/-- The root that is taken with the positive square root comes first: it is the greater one for a positive
leading coefficient and the smaller one for a negative one, whatever overflows on the way. No number of a
solution is without a value, except where the discriminant is. The constant term may be any number. -/
theorem roots_ordered {p : Quadratic} (ha : p.a.isFinite = true) (hb : p.b.isFinite = true)
    (hz : p.a.isZero = false) :
    ∃ solution, p.solve = .ok solution ∧
      (∀ x1 x2, solution = .twoReal x1 x2 →
        x1 ≠ .nan ∧ x2 ≠ .nan ∧ (p.a.isPositive = true → x2.le x1 = true) ∧
          (p.a.isNegative = true → x1.le x2 = true)) ∧
      (.nan ∈ solution.values ↔ p.settledDiscriminant = .nan) := by
  obtain ⟨solution, h⟩ := Coefficients.exists_solve (p := .quadratic p) hz
  have hnan := Quadratic.nan_mem_values_iff ha hb h
  refine ⟨solution, h, fun x1 x2 heq => ?_, hnan⟩
  have hs := p.solves_solve
  rw [show p.solve = .ok solution from h, heq] at hs
  cases hs with
  | twoReal hz hd =>
    have hroot := sqrt_ne_nan hd
    exact ⟨Quadratic.root_ne_nan hb hz hd hroot, Quadratic.root_ne_nan hb hz hd (neg_ne_nan hroot),
      Quadratic.roots_le_of_pos hb hd, Quadratic.roots_le_of_neg hb hd⟩

theorem roots_ordered_for_both_signs :
    (∃ x1 x2, (Quadratic.ofSides 1 (-3) 2 0).solve = .ok (.twoReal x1 x2) ∧ x2.le x1 = true) ∧
      (∃ x1 x2, (Quadratic.ofSides (-1) 3 (-2) 0).solve = .ok (.twoReal x1 x2) ∧
        x1.le x2 = true) ∧
      ∃ solution, (Quadratic.ofSides (.ofInt (10 ^ 308)) 0 0 0).solve = .ok solution ∧
        .nan ∈ solution.values := by
  refine ⟨⟨2, 1, ?_⟩, ⟨1, 2, ?_⟩, ?_⟩
  · have hs : (Quadratic.ofSides 1 (-3) 2 0).solve = .ok (.twoReal 2 1) := by decide +kernel
    obtain ⟨solution, h, hroots, -⟩ := roots_ordered (p := .ofSides 1 (-3) 2 0) (by decide +kernel)
      (by decide +kernel) (by decide +kernel)
    obtain rfl := Except.ok.inj (h.symm.trans hs)
    exact ⟨hs, (hroots 2 1 rfl).2.2.1 (by decide +kernel)⟩
  · have hs : (Quadratic.ofSides (-1) 3 (-2) 0).solve = .ok (.twoReal 1 2) := by decide +kernel
    obtain ⟨solution, h, hroots, -⟩ := roots_ordered (p := .ofSides (-1) 3 (-2) 0)
      (by decide +kernel) (by decide +kernel) (by decide +kernel)
    obtain rfl := Except.ok.inj (h.symm.trans hs)
    exact ⟨hs, (hroots 1 2 rfl).2.2.2 (by decide +kernel)⟩
  · obtain ⟨solution, h, -, hnan⟩ := roots_ordered (p := .ofSides (.ofInt (10 ^ 308)) 0 0 0)
      (by decide +kernel) (by decide +kernel) (by decide +kernel)
    exact ⟨solution, h, hnan.2 (by decide +kernel)⟩

end SchoolAlgebra
