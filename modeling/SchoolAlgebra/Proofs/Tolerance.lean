import SchoolAlgebra.Proofs.Consistency
import SchoolAlgebra.Proofs.Planted
import SchoolAlgebra.Proofs.RelativeError
import SchoolAlgebra.Proofs.WellFormed
set_option autoImplicit false

/-!
The test of the discriminant against its tolerance. The terms and their difference are rounded, so the test
is that of the exact discriminant only up to a few units: it snaps what lies within `2 ^ -51` of the larger
term, and decides by the exact sign what lies beyond `2 ^ -49`. A whole discriminant is computed exactly, and
yet snapped where the larger term is `2 ^ 50` times as large.
-/

namespace SchoolAlgebra
open Binary64

/-- The branch that belongs to the sign of a discriminant. -/
def Branch.ofSign (d : Rat) : Branch := if 0 < d then .two else if d = 0 then .one else .complex

namespace Branch

variable {d e : Rat}

theorem ofSign_eq_two_iff : ofSign d = two ↔ 0 < d := by
  unfold ofSign
  split_ifs <;> simp_all

theorem ofSign_eq_complex_iff : ofSign d = complex ↔ d < 0 := by
  unfold ofSign
  split_ifs with hpos hzero
  · simp [hpos.le]
  · simp [hzero]
  · simpa using lt_of_le_of_ne (not_lt.1 hpos) hzero

theorem ofSign_eq_of_abs_sub_lt (h : |e - d| < |d|) : ofSign e = ofSign d := by
  have hd : d ≠ 0 := by
    rintro rfl
    rw [abs_zero] at h
    exact absurd h (not_lt.2 (abs_nonneg _))
  rcases hd.lt_or_gt with hneg | hpos
  · rw [abs_of_neg hneg, abs_lt] at h
    rw [ofSign_eq_complex_iff.2 hneg, ofSign_eq_complex_iff.2 (by linarith)]
  · rw [abs_of_pos hpos, abs_lt] at h
    rw [ofSign_eq_two_iff.2 hpos, ofSign_eq_two_iff.2 (by linarith)]

end Branch

namespace Quadratic

section

variable {p : Quadratic} {d : Rat} (hz : p.a.isZero = false) (hd : p.settledDiscriminant.HasValue d)
include hz hd

theorem ofOutcome_solve : Branch.ofOutcome p.solve = .ofSign d := by
  rcases lt_trichotomy 0 d with h | h | h
  · rw [solve_of_pos hz hd h, Branch.ofSign_eq_two_iff.2 h]
    rfl
  · rw [solve_of_zero hz hd h.symm, ← h]
    rfl
  · rw [solve_of_neg hz hd h, Branch.ofSign_eq_complex_iff.2 h]
    rfl

theorem exists_solve_of_neg (h : d < 0) :
    ∃ u v, p.solve = .ok (.complexPair u v) ∧ v.isPositive = true :=
  ⟨_, _, solve_of_neg hz hd h, isPositive_imaginary hz
    (Bool.eq_false_iff.2 (mt hd.isPositive_iff.1 h.not_gt)) (hd.isZero_eq_false h.ne) hd.isFinite⟩

end

section

variable {w v : Rat} (hw : Sized 802 w) (hv : Sized 802 v)
include hw hv

theorem abs_rounded_difference_sub_le :
    |rounded (rounded w - rounded v) - (w - v)| ≤
      unitError * |w - v| + 2 * unitError * (1 + unitError) * max |w| |v| := by
  have hnw := near_rounded_of_sized hw (by norm_num)
  have hnv := near_rounded_of_sized hv (by norm_num)
  have hrep : ∀ {q : Rat}, Sized 802 q → Representable (rounded q) := fun h =>
    (hasValue_ofRat (h.inRange (by norm_num))).representable
  have hin := (sized_rounded hw (by norm_num)).inRange_sub (sized_rounded hv (by norm_num))
    (by norm_num)
  have hdiff := near_rounded_sub (hrep hw) (hrep hv) hin
  have hlw := le_max_left |w| |v|
  have hlv := le_max_right |w| |v|
  have hterms : |rounded w - rounded v - (w - v)| ≤ 2 * unitError * max |w| |v| := by
    rw [sub_sub_sub_comm]
    have htri := abs_sub (rounded w - w) (rounded v - v)
    rw [Near, unitError_eq] at hnw hnv
    rw [unitError_eq]
    linarith
  have hsize := abs_sub_abs_le_abs_sub (rounded w - rounded v) (w - v)
  have htri := abs_sub_le (rounded (rounded w - rounded v)) (rounded w - rounded v) (w - v)
  rw [Near, unitError_eq] at hdiff
  rw [unitError_eq] at hterms ⊢
  linarith

variable (hnonneg : 0 ≤ w)
include hnonneg

theorem near_noise :
    Near (unitError + unitError + unitError * unitError)
      ((2 : Rat) ^ (-50 : Int) * max w |v|)
      (rounded ((2 : Rat) ^ (-50 : Int) * max (rounded w) |rounded v|)) := by
  have hnw := near_rounded_of_sized hw (by norm_num)
  have hnv := near_rounded_of_sized hv (by norm_num)
  have hsw := sized_rounded hw (by norm_num)
  have hsv := sized_rounded hv (by norm_num)
  have hscale := hnw.max hnv.abs unitError_pos.le hnonneg (abs_nonneg v)
  have hsized := (Sized.two_zpow (e := -50) (k := 50) (by norm_num) (by norm_num)).mul
    (hsw.max hsv.abs)
  exact (hscale.const_mul _).trans (near_rounded_of_sized hsized (by norm_num))
    unitError_pos.le

/-- Six units of the larger term are within the tolerance of eight, even when the terms and their difference
are rounded. -/
theorem settled_inside (h : |w - v| ≤ 23 / 4 * unitError * max w |v|) :
    settled (rounded w) (rounded v) = 0 := by
  have hdiff := abs_rounded_difference_sub_le hw hv
  have hnoise := near_noise hw hv hnonneg
  have hsize := abs_sub_abs_le_abs_sub (rounded (rounded w - rounded v)) (w - v)
  have hscale : 0 ≤ max w |v| := le_max_of_le_left hnonneg
  rw [settled, if_pos]
  rw [abs_of_nonneg hnonneg] at hdiff
  rw [Near, abs_of_nonneg (mul_nonneg (by positivity) hscale)] at hnoise
  -- Two more units for the roundings of the terms, against a noise that is all of it but for two units.
  have hnoise := (abs_le.1 hnoise).1
  norm_num at h hnoise ⊢
  rw [unitError_eq] at *
  linarith

theorem ofSign_settled (h : (2 : Rat) ^ (-49 : Int) * max w |v| < |w - v|) :
    Branch.ofSign (settled (rounded w) (rounded v)) = .ofSign (w - v) := by
  have hdiff := abs_rounded_difference_sub_le hw hv
  have hnoise := near_noise hw hv hnonneg
  have hsize := abs_sub_abs_le_abs_sub (w - v) (rounded (rounded w - rounded v))
  rw [abs_sub_comm (w - v)] at hsize
  have hscale : 0 ≤ max w |v| := le_max_of_le_left hnonneg
  rw [abs_of_nonneg hnonneg] at hdiff
  rw [Near, abs_of_nonneg (mul_nonneg (by positivity) hscale)] at hnoise
  -- The roundings lose an eighth of the discriminant at most, and the noise is half of it.
  have hnoise := (abs_le.1 hnoise).2
  norm_num at h hnoise
  rw [unitError_eq] at *
  rw [settled, if_neg (by norm_num; linarith)]
  exact Branch.ofSign_eq_of_abs_sub_lt (by linarith)

end

theorem sized_four : Sized 2 4 := .inr ⟨by norm_num, by norm_num⟩

theorem sized_terms {a b c : Rat} (ha : Sized 400 a) (hb : Sized 400 b) (hc : Sized 400 c) :
    Sized 802 (b * b) ∧ Sized 802 (4 * a * c) :=
  ⟨(hb.mul hb).mono (by norm_num), (sized_four.mul ha).mul hc⟩

section

variable {p : Quadratic} {a b c : Rat} (hpa : p.a.HasValue a) (hpb : p.b.HasValue b)
  (hpc : p.c.HasValue c) (ha : Sized 400 a) (hb : Sized 400 b) (hc : Sized 400 c)
include hpa hpb hpc ha hb hc

theorem settledDiscriminant_of_sized :
    p.settledDiscriminant.HasValue (settled (rounded (b * b)) (rounded (4 * a * c))) := by
  obtain ⟨hw, hv⟩ := sized_terms ha hb hc
  have hfour := hpa.fourfold ((sized_four.mul ha).inRange (by norm_num))
  have hsquare := hpb.mul_agrees hpb
  have hproduct := hfour.mul_agrees hpc
  exact hasValue_settled
    (hsquare.hasValue (hsquare.isFinite_iff.2 (hw.inRange (by norm_num))))
    (hproduct.hasValue (hproduct.isFinite_iff.2 (hv.inRange (by norm_num))))
    ((sized_rounded hw (by norm_num)).inRange_sub (sized_rounded hv (by norm_num)) (by norm_num))

theorem solve_within_units (hz : p.a.isZero = false)
    (h : |b ^ 2 - 4 * a * c| ≤ 23 / 4 * unitError * max (b ^ 2) |4 * a * c|) :
    p.solve = .ok (.oneReal (-p.b / (2 * p.a))) := by
  obtain ⟨hw, hv⟩ := sized_terms ha hb hc
  rw [sq] at h
  exact solve_of_zero hz (settledDiscriminant_of_sized hpa hpb hpc ha hb hc)
    (settled_inside hw hv (mul_self_nonneg b) h)

theorem solve_inside (hz : p.a.isZero = false)
    (h : |b ^ 2 - 4 * a * c| ≤ (2 : Rat) ^ (-51 : Int) * max (b ^ 2) |4 * a * c|) :
    p.solve = .ok (.oneReal (-p.b / (2 * p.a))) := by
  refine solve_within_units hpa hpb hpc ha hb hc hz (h.trans ?_)
  rw [← four_mul_unitError]
  gcongr
  · exact unitError_pos.le
  · norm_num

theorem ofOutcome_outside (hz : p.a.isZero = false)
    (h : (2 : Rat) ^ (-49 : Int) * max (b ^ 2) |4 * a * c| < |b ^ 2 - 4 * a * c|) :
    Branch.ofOutcome p.solve = .ofSign (b ^ 2 - 4 * a * c) := by
  obtain ⟨hw, hv⟩ := sized_terms ha hb hc
  rw [sq] at *
  rw [ofOutcome_solve hz (settledDiscriminant_of_sized hpa hpb hpc ha hb hc),
    ofSign_settled hw hv (mul_self_nonneg b) h]

theorem solve_outside (hz : p.a.isZero = false)
    (h : (2 : Rat) ^ (-49 : Int) * max (b ^ 2) |4 * a * c| < |b ^ 2 - 4 * a * c|) :
    (0 < b ^ 2 - 4 * a * c → ∃ x1 x2, p.solve = .ok (.twoReal x1 x2)) ∧
      (b ^ 2 - 4 * a * c < 0 →
        ∃ u v, p.solve = .ok (.complexPair u v) ∧ v.isPositive = true) := by
  obtain ⟨hw, hv⟩ := sized_terms ha hb hc
  rw [sq] at *
  have hd := settledDiscriminant_of_sized hpa hpb hpc ha hb hc
  have hsign := ofSign_settled hw hv (mul_self_nonneg b) h
  constructor
  · intro hpos
    rw [← Branch.ofSign_eq_two_iff, ← hsign, Branch.ofSign_eq_two_iff] at hpos
    exact ⟨_, _, solve_of_pos hz hd hpos⟩
  · intro hneg
    rw [← Branch.ofSign_eq_complex_iff, ← hsign, Branch.ofSign_eq_complex_iff] at hneg
    exact exists_solve_of_neg hz hd hneg

end

end Quadratic

/-- Within `2 ^ -51` of the larger term the exact discriminant is taken for zero, and beyond `2 ^ -49` the
branch is that of its sign. -/
theorem discriminant_test {p : Quadratic} {a b c : Rat} (hpa : p.a.HasValue a)
    (hpb : p.b.HasValue b) (hpc : p.c.HasValue c) (hne : a ≠ 0) (ha : Sized 400 a)
    (hb : Sized 400 b) (hc : Sized 400 c) :
    (|b ^ 2 - 4 * a * c| ≤ (2 : Rat) ^ (-51 : Int) * max (b ^ 2) |4 * a * c| →
      ∃ x, p.solve = .ok (.oneReal x)) ∧
    ((2 : Rat) ^ (-49 : Int) * max (b ^ 2) |4 * a * c| < |b ^ 2 - 4 * a * c| →
      (0 < b ^ 2 - 4 * a * c → ∃ x1 x2, p.solve = .ok (.twoReal x1 x2)) ∧
      (b ^ 2 - 4 * a * c < 0 →
        ∃ u v, p.solve = .ok (.complexPair u v) ∧ v.isPositive = true)) := by
  have hz := hpa.isZero_eq_false hne
  exact ⟨fun h => ⟨_, Quadratic.solve_inside hpa hpb hpc ha hb hc hz h⟩,
    Quadratic.solve_outside hpa hpb hpc ha hb hc hz⟩

theorem discriminant_test_next_to_square :
    (∃ x, (Quadratic.ofSides 1 2 (.ofRat (1 + 1 / 2 ^ 52)) 0).solve = .ok (.oneReal x)) ∧
      (∃ x1 x2, (Quadratic.ofSides 1 2 (.ofRat (1 - 1 / 2 ^ 47)) 0).solve =
        .ok (.twoReal x1 x2)) ∧
      ∃ u v, (Quadratic.ofSides 1 2 (.ofRat (1 + 1 / 2 ^ 47)) 0).solve =
        .ok (.complexPair u v) ∧ v.isPositive = true := by
  have hsized : ∀ q : Rat, 1 / 2 ≤ q → q ≤ 2 → Sized 400 q := fun q hl hu =>
    Sized.mono (j := 1) (.inr (by
      rw [abs_of_pos (by linarith)]
      exact ⟨by norm_num; linarith, by norm_num; linarith⟩)) (by norm_num)
  have htest : ∀ c : Rat, (Binary64.ofRat c - 0).HasValue c → 1 / 2 ≤ c → c ≤ 2 → _ :=
    fun c hc hl hu => discriminant_test (p := .ofSides 1 2 (.ofRat c) 0) (a := (1 : Int))
      (b := (2 : Int)) (hasValue_ofInt (by norm_num)) (hasValue_ofInt (by norm_num)) hc
      (by norm_num) (hsized _ (by norm_num) (by norm_num)) (hsized _ (by norm_num) (by norm_num))
      (hsized _ hl hu)
  have hless := htest (1 + 1 / 2 ^ 52) (by rw [HasValue]; decide +kernel) (by norm_num) (by norm_num)
  have hplus := htest (1 - 1 / 2 ^ 47) (by rw [HasValue]; decide +kernel) (by norm_num) (by norm_num)
  have hminus := htest (1 + 1 / 2 ^ 47) (by rw [HasValue]; decide +kernel) (by norm_num) (by norm_num)
  refine ⟨hless.1 ?_, (hplus.2 ?_).1 ?_, (hminus.2 ?_).2 ?_⟩
  all_goals norm_num [abs_of_pos, abs_of_neg]

namespace Quadratic

/-- A whole discriminant, or zero where the larger term is `2 ^ 50` times as large. -/
def settledWhole (a b c : Int) : Int :=
  if 2 ^ 50 * |b ^ 2 - 4 * a * c| ≤ Max.max (b ^ 2) (4 * |a * c|) then 0 else b ^ 2 - 4 * a * c

theorem settledWhole_of_lt {a b c : Int} (hb : b ^ 2 < 2 ^ 50) (hac : 4 * |a * c| < 2 ^ 50) :
    settledWhole a b c = b ^ 2 - 4 * a * c := by
  unfold settledWhole
  split_ifs with h
  · have hlt : 2 ^ 50 * |b ^ 2 - 4 * a * c| < 2 ^ 50 := h.trans_lt (max_lt hb hac)
    have hzero : |b ^ 2 - 4 * a * c| < 1 := by omega
    exact (Int.abs_lt_one_iff.1 hzero).symm
  · rfl

theorem abs_le_scaled_iff {d m : Int} :
    |(d : Rat)| ≤ (2 : Rat) ^ (-50 : Int) * (m : Rat) ↔ 2 ^ 50 * |d| ≤ m := by
  rw [zpow_neg, ← div_eq_inv_mul, le_div_iff₀' (by positivity)]
  norm_cast

section

variable {p : Quadratic} {a b c : Int} (hpa : p.a.HasValue a) (hpb : p.b.HasValue b)
  (hpc : p.c.HasValue c) (hac : 4 * |a * c| ≤ 2 ^ 53)

include hpa hpb hpc hac in
theorem hasValue_settledWhole (hfour : InRange (4 * (a : Rat))) (hb : b ^ 2 ≤ 2 ^ 53)
    (hd : |b ^ 2 - 4 * a * c| ≤ 2 ^ 53) :
    p.settledDiscriminant.HasValue (settledWhole a b c) := by
  have hproduct : |4 * a * c| = 4 * |a * c| := by
    rw [Int.mul_assoc, abs_mul, abs_of_pos (by norm_num)]
  have hsquare := sq_nonneg b
  have h := settledDiscriminant_hasValue hpa hpb hpc hfour (by rw [← sq]; omega)
    (by rw [← hproduct, Int.abs_eq_natAbs] at hac; omega)
    (by rw [Int.abs_eq_natAbs, sq] at hd; omega)
  rw [← sq, hproduct] at h
  rw [settledWhole, Int.cast_ite, Int.cast_zero]
  simpa only [abs_le_scaled_iff] using h

include hac in
theorem eq_zero_of_not_inRange (hfour : ¬InRange (4 * (a : Rat))) : c = 0 := by
  by_contra hc
  have hle : |a| ≤ |a * c| := by
    rw [abs_mul]
    exact le_mul_of_one_le_right (abs_nonneg a) (Int.one_le_abs hc)
  have hrep := representable_intCast (n := 4 * a) (by
    simp only [Int.abs_eq_natAbs] at hle hac
    omega)
  rw [Int.cast_mul, Int.cast_ofNat] at hrep
  exact hfour (inRange_of_representable hrep)

end

end Quadratic

theorem Binary64.mul_eq_nan {x y : Binary64} (hx : x.isFinite = false) (hy : y.isZero = true) :
    x * y = nan := by
  obtain ⟨t, rfl⟩ := exists_zero hy
  cases x with
  | nan => rfl
  | infinity s => rfl
  | finite s m => cases hx

namespace Quadratic

variable {p : Quadratic}

theorem settledDiscriminant_eq_nan (h : 4 * p.a * p.c = nan) : p.settledDiscriminant = nan := by
  have hd : p.discriminant = nan := by
    rw [discriminant, h]
    cases p.b * p.b <;> rfl
  rw [settledDiscriminant, hd]
  rfl

theorem ofOutcome_solve_of_nan (hz : p.a.isZero = false) (h : p.settledDiscriminant = nan) :
    Branch.ofOutcome p.solve = .complex := by
  simp only [Quadratic.solve, hz, h]
  rfl

end Quadratic

/-- The settled discriminant of whole coefficients, and the branch. As long as `4 a` has a value the
discriminant is the exact one unless it is snapped, which terms below `2 ^ 50` rule out; beyond, it has
none. -/
theorem whole_discriminant {p : Quadratic} {a b c : Int} (hne : a ≠ 0) (hpa : p.a.HasValue a)
    (hpb : p.b.HasValue b) (hpc : p.c.HasValue c) (hb : b ^ 2 ≤ 2 ^ 53)
    (hac : 4 * |a * c| ≤ 2 ^ 53) (hd : |b ^ 2 - 4 * a * c| ≤ 2 ^ 53) :
    (InRange (4 * (a : Rat)) →
      p.settledDiscriminant.HasValue (Quadratic.settledWhole a b c) ∧
        Branch.ofOutcome p.solve = .ofSign (Quadratic.settledWhole a b c)) ∧
    (¬InRange (4 * (a : Rat)) →
      p.settledDiscriminant = .nan ∧ Branch.ofOutcome p.solve = .complex) ∧
    (b ^ 2 < 2 ^ 50 → 4 * |a * c| < 2 ^ 50 →
      Quadratic.settledWhole a b c = b ^ 2 - 4 * a * c) := by
  have hz := hpa.isZero_eq_false (by exact_mod_cast hne)
  refine ⟨fun hfour => ?_, fun hfour => ?_, Quadratic.settledWhole_of_lt⟩
  · have h := Quadratic.hasValue_settledWhole hpa hpb hpc hac hfour hb hd
    exact ⟨h, Quadratic.ofOutcome_solve hz h⟩
  · have hc : p.c.isZero = true :=
      hpc.isZero_iff.2 (by exact_mod_cast Quadratic.eq_zero_of_not_inRange hac hfour)
    have h4 : (4 : Binary64).HasValue ((4 : Int) : Rat) := hasValue_ofInt (by norm_num)
    have hinf := Bool.eq_false_iff.2 (mt (h4.mul_agrees hpa).isFinite_iff.1 hfour)
    have h := Quadratic.settledDiscriminant_eq_nan (mul_eq_nan hinf hc)
    exact ⟨h, Quadratic.ofOutcome_solve_of_nan hz h⟩

theorem whole_discriminant_of_one_and_two :
    (Quadratic.ofSides 1 (-3) 2 0).settledDiscriminant.HasValue ((1 : Int) : Rat) ∧
      Branch.ofOutcome (Quadratic.ofSides 1 (-3) 2 0).solve = .two := by
  have h := whole_discriminant (p := .ofSides 1 (-3) 2 0) (a := 1) (b := -3) (c := 2) (by decide)
    (hasValue_ofInt (by decide)) (hasValue_ofInt (n := 3) (by decide)).neg
    ((hasValue_ofInt (n := 2) (by decide)).subWhole (hasValue_ofInt (n := 0) (by decide)) (by decide))
    (by decide) (by decide) (by decide)
  have hfour : InRange (4 * ((1 : Int) : Rat)) := by
    have hrep := representable_intCast (n := 4) (by decide)
    simpa using inRange_of_representable hrep
  have hd := h.2.2 (by decide) (by decide)
  rw [hd] at h
  exact ⟨(h.1 hfour).1, (h.1 hfour).2.trans (Branch.ofSign_eq_two_iff.2 (by norm_num))⟩

/-- The whole roots `-16777216` and `-16777217` lie so close for their size that the discriminant one is
snapped: the middle between them is reported as the only root. -/
theorem consecutive_roots_snapped :
    (33554433 : Int) ^ 2 ≤ 2 ^ 53 ∧ 4 * |(1 : Int) * 281474993487872| ≤ 2 ^ 53 ∧
      (33554433 : Int) ^ 2 - 4 * 1 * 281474993487872 = 1 ∧
      (∀ x ∈ [(-16777216 : Int), -16777217], x ^ 2 + 33554433 * x + 281474993487872 = 0) ∧
      (Quadratic.ofSides 1 33554433 281474993487872 0).settledDiscriminant.HasValue 0 ∧
      (Quadratic.ofSides 1 33554433 281474993487872 0).solve =
        .ok (.oneReal (.ofRat (-33554433 / 2))) := by
  refine ⟨by decide, by decide, by decide, by decide, ?_, by decide +kernel⟩
  rw [HasValue]
  decide +kernel

end SchoolAlgebra
