import SchoolAlgebra.Proofs.Discriminant
import SchoolAlgebra.Proofs.Restatement
set_option autoImplicit false

/-!
What can be relied on in a reported solution. In range all its numbers are finite, two roots are distinct
and an imaginary part is positive. Out of range only the imaginary part can be without a value, and two
roots meet only in an infinity or next to zero.
-/

namespace SchoolAlgebra

namespace Binary64

variable {x y : Binary64}

theorem isFinite_neg (h : x.isFinite = true) : (-x).isFinite = true := by
  obtain ⟨q, hq⟩ := exists_hasValue h
  exact hq.neg.isFinite

theorem neg_ne_nan (h : x ≠ nan) : -x ≠ nan := by
  intro hn
  exact h (by rw [← neg_neg x, hn]; rfl)

theorem add_ne_nan (hx : x.isFinite = true) (hy : y ≠ nan) : x + y ≠ nan := by
  cases y with
  | nan => exact absurd rfl hy
  | infinity t =>
    obtain ⟨s, m, rfl⟩ := exists_finite hx
    exact Binary64.noConfusion
  | finite t n =>
    have h := sub_ne_nan hx (isFinite_neg (x := finite t n) rfl)
    rwa [sub_eq_add_neg, neg_neg] at h

theorem mul_ne_nan (hx : x.isFinite = true) (hy : y.isFinite = true) : x * y ≠ nan := by
  obtain ⟨s, m, rfl⟩ := exists_finite hx
  obtain ⟨t, n, rfl⟩ := exists_finite hy
  exact round_ne_nan _ _

theorem div_ne_nan (hx : x.isFinite = true) (hy : y ≠ nan) (hz : y.isZero = false) :
    x / y ≠ nan := by
  obtain ⟨s, m, rfl⟩ := exists_finite hx
  cases y with
  | nan => exact absurd rfl hy
  | infinity t => exact Binary64.noConfusion
  | finite t n =>
    change div (finite s m) (finite t n) ≠ nan
    simp only [div, show n.isZero = false from hz]
    exact round_ne_nan _ _

theorem div_ne_nan_of_isFinite (hx : x ≠ nan) (hy : y.isFinite = true) (hz : y.isZero = false) :
    x / y ≠ nan := by
  obtain ⟨t, n, rfl⟩ := exists_finite hy
  cases x with
  | nan => exact absurd rfl hx
  | infinity s => exact Binary64.noConfusion
  | finite s m => exact div_ne_nan rfl (ne_nan_of_isFinite hy) hz

theorem sqrt_ne_nan (h : x.isPositive = true) : x.sqrt ≠ nan := by
  cases x with
  | nan => cases h
  | infinity s =>
    cases s with
    | plus => exact Binary64.noConfusion
    | minus => cases h
  | finite s m =>
    have hq := hasValue_finite s m
    exact ne_nan_of_isFinite (hq.sqrt (hq.isPositive_iff.1 h)).isFinite

theorem isFinite_of_div (h : (x / y).isFinite = true) : x.isFinite = true := by
  change (div x y).isFinite = true at h
  cases x with
  | nan => cases h
  | infinity s => cases y <;> cases h
  | finite s m => rfl

theorem isFinite_of_sqrt (hx : x.isPositive = true) (h : x.sqrt.isFinite = true) :
    x.isFinite = true := by
  cases x with
  | nan => cases hx
  | infinity s => cases s <;> cases h
  | finite s m => rfl

theorem isZero_of_isPositive (h : x.isPositive = true) : x.isZero = false := by
  rw [Bool.eq_false_iff]
  intro hz
  obtain ⟨s, rfl⟩ := exists_zero hz
  rw [(hasValue_finite s .zero).isPositive_iff, Magnitude.value_zero,
    Sign.apply_eq_zero_iff.2 rfl] at h
  exact lt_irrefl _ h

theorem isPositive_ne_nan (h : x.isPositive = true) : x ≠ nan := by
  intro hn
  rw [hn] at h
  cases h

theorem isPositive_neg (hx : x.isFinite = true) (hp : x.isPositive = false)
    (hz : x.isZero = false) : (-x).isPositive = true := by
  obtain ⟨q, hq⟩ := exists_hasValue hx
  have h1 := mt hq.isPositive_iff.2 (Bool.eq_false_iff.1 hp)
  have h2 := mt hq.isZero_iff.2 (Bool.eq_false_iff.1 hz)
  exact hq.neg.isPositive_iff.2 (neg_pos.2 (lt_of_le_of_ne (not_lt.1 h1) h2))

theorem isFinite_of_isZero (h : x.isZero = true) : x.isFinite = true := by
  obtain ⟨s, rfl⟩ := exists_zero h
  rfl

theorem HasValue.of_double {q : Rat} (h : x.HasValue q) (hf : (2 * x).isFinite = true) :
    (2 * x).HasValue (2 * q) := by
  have h2 : (2 : Binary64).HasValue ((2 : Int) : Rat) := hasValue_ofInt (by norm_num)
  exact h.double ((h2.mul_agrees h).isFinite_iff.1 hf)

theorem isZero_double (h : x.isZero = false) : (2 * x).isZero = false := by
  rw [Bool.eq_false_iff] at h ⊢
  intro hz
  have hf := isFinite_of_isZero hz
  obtain ⟨q, hq⟩ := exists_hasValue (isFinite_of_mul hf).2
  have hq' := (hq.of_double hf).isZero_iff.1 hz
  exact h (hq.isZero_iff.2 (by linarith))

theorem two_mul_ne_nan (h : x.isFinite = true) : 2 * x ≠ nan :=
  mul_ne_nan (hasValue_ofInt (n := 2) (by norm_num)).isFinite h

end Binary64

open Binary64

/-- What holds of every solution. A root above the numbers next to zero is not reported twice. -/
inductive Solution.Sound : Solution → Prop where
  | oneReal {x : Binary64} (hx : x ≠ nan) : Sound (.oneReal x)
  | twoReal {x1 x2 : Binary64} (h1 : x1 ≠ nan) (h2 : x2 ≠ nan)
      (hne : ∀ q, x1.HasValue q → x1.sameNumber x2 = true → |q| < (2 : Rat) ^ (-1022 : Int)) :
      Sound (.twoReal x1 x2)
  | complexPair {u v : Binary64} (hu : u ≠ nan) (hv : v = nan ∨ v.isPositive = true) :
      Sound (.complexPair u v)

theorem Linear.sound_solve {p : Linear} (ha : p.a.isFinite = true) (hb : p.b.isFinite = true)
    (hc : p.c.isFinite = true) (hz : p.a.isZero = false) : p.solve.Sound := by
  rw [Linear.solve, hz]
  exact .oneReal (div_ne_nan_of_isFinite (sub_ne_nan hc hb) ha hz)

namespace Quadratic

variable {p : Quadratic}

theorem middle_ne_nan (ha : p.a.isFinite = true) (hb : p.b.isFinite = true)
    (hz : p.a.isZero = false) : -p.b / (2 * p.a) ≠ nan :=
  div_ne_nan (isFinite_neg hb) (two_mul_ne_nan ha) (isZero_double hz)

theorem isFinite_double (h : p.settledDiscriminant.isZero = false)
    (hn : p.settledDiscriminant ≠ .nan) : (2 * p.a).isFinite = true := by
  have hfour := (isFinite_of_mul (isFinite_terms h hn).2).1
  obtain ⟨a, ha⟩ := exists_hasValue (isFinite_of_mul hfour).2
  have h4 : (4 : Binary64).HasValue ((4 : Int) : Rat) := hasValue_ofInt (by norm_num)
  have hrange := (h4.mul_agrees ha).isFinite_iff.1 hfour
  refine (ha.double (hrange.mono ?_)).isFinite
  rw [abs_mul, abs_mul]
  norm_num
  linarith [abs_nonneg a]

theorem root_ne_nan (hb : p.b.isFinite = true)
    (hz : p.a.isZero = false) (hd : p.settledDiscriminant.isPositive = true) {y : Binary64}
    (hy : y ≠ nan) : (-p.b + y) / (2 * p.a) ≠ nan :=
  div_ne_nan_of_isFinite (add_ne_nan (isFinite_neg hb) hy)
    (isFinite_double (isZero_of_isPositive hd) (isPositive_ne_nan hd)) (isZero_double hz)

theorem isPositive_imaginary (hz : p.a.isZero = false)
    (hp : p.settledDiscriminant.isPositive = false) (hd : p.settledDiscriminant.isZero = false)
    (hf : p.settledDiscriminant.isFinite = true) :
    ((-p.settledDiscriminant).sqrt / (2 * p.a).abs).isPositive = true := by
  have hdouble := isFinite_double hd (ne_nan_of_isFinite hf)
  obtain ⟨a, b, c, d, h⟩ := exists_settled hd hf
  have hneg : d < 0 :=
    neg_pos.1 (h.hasValue_d.neg.isPositive_iff.1 (isPositive_neg hf hp hd))
  have ha : a ≠ 0 := mt h.hasValue_a.isZero_iff.2 (Bool.eq_false_iff.1 hz)
  have hroot := h.hasValue_d.neg
  rw [← abs_of_neg hneg] at hroot
  have hdiv := (hroot.sqrt (abs_pos.2 hneg.ne)).div_agrees (h.hasValue_a.of_double hdouble).abs
    (abs_pos.2 (mul_ne_zero two_ne_zero ha)).ne'
  rw [hdiv.isPositive]
  exact isPositive_ofRat (h.lt_imaginary hneg ha)

theorem isPositive_imaginary_of_ne_nan (hz : p.a.isZero = false)
    (hp : p.settledDiscriminant.isPositive = false) (hd : p.settledDiscriminant.isZero = false)
    (hn : p.settledDiscriminant ≠ nan) :
    ((-p.settledDiscriminant).sqrt / (2 * p.a).abs).isPositive = true := by
  by_cases hf : p.settledDiscriminant.isFinite = true
  · exact isPositive_imaginary hz hp hd hf
  · obtain ⟨s, m, hm⟩ := exists_finite (isFinite_double hd hn)
    have hinf : p.settledDiscriminant = .infinity .minus := by
      cases hs : p.settledDiscriminant with
      | nan => exact absurd hs hn
      | infinity s =>
        cases s with
        | plus =>
          rw [hs] at hp
          cases hp
        | minus => rfl
      | finite s m =>
        rw [hs] at hf
        exact absurd rfl hf
    rw [hinf, hm]
    rfl

theorem imaginary_eq_nan_or_isPositive (hz : p.a.isZero = false)
    (hp : p.settledDiscriminant.isPositive = false) (hd : p.settledDiscriminant.isZero = false) :
    (-p.settledDiscriminant).sqrt / (2 * p.a).abs = nan ∨
      ((-p.settledDiscriminant).sqrt / (2 * p.a).abs).isPositive = true := by
  by_cases hn : p.settledDiscriminant = nan
  · left
    rw [hn]
    rfl
  · right
    exact isPositive_imaginary_of_ne_nan hz hp hd hn

theorem le_abs_of_root_le {a : Rat} (h : (2 : Rat) ^ (-538 : Int) ≤ 4 * leastError * |2 * a|) :
    (2 : Rat) ^ (534 : Int) ≤ |a| := by
  have hpos := leastError_pos
  have hscaled : (2 : Rat) ^ (534 : Int) * (8 * leastError) ≤ |a| * (8 * leastError) := by
    calc (2 : Rat) ^ (534 : Int) * (8 * leastError) = (2 : Rat) ^ (-538 : Int) := by
          rw [leastError, show (8 : Rat) = (2 : Rat) ^ (3 : Int) by norm_num,
            ← zpow_add₀ (by norm_num), ← zpow_add₀ (by norm_num)]
          norm_num
      _ ≤ 4 * leastError * |2 * a| := h
      _ = |a| * (8 * leastError) := by
          rw [abs_mul, abs_of_pos (by norm_num : (0 : Rat) < 2)]
          ring
  exact le_of_mul_le_mul_right hscaled (by positivity)

theorem sameNumber_roots (hz : p.a.isZero = false)
    (hd : p.settledDiscriminant.isPositive = true) {q : Rat}
    (hq : ((-p.b + p.settledDiscriminant.sqrt) / (2 * p.a)).HasValue q)
    (hs : ((-p.b + p.settledDiscriminant.sqrt) / (2 * p.a)).sameNumber
      ((-p.b - p.settledDiscriminant.sqrt) / (2 * p.a)) = true) :
    |q| < (2 : Rat) ^ (-1022 : Int) ∧ ∃ a, p.a.HasValue a ∧ (2 : Rat) ^ (534 : Int) ≤ |a| := by
  -- A finite quotient is one of finite numbers, so all that leads to the two roots has a value.
  have hag := (sameNumber_iff.1 hs).1
  have hdouble := isFinite_double (isZero_of_isPositive hd) (isPositive_ne_nan hd)
  have hn1 := isFinite_of_div hq.isFinite
  have hn2 := isFinite_of_div (hag.isFinite ▸ hq.isFinite)
  have hf := isFinite_of_sqrt hd (isFinite_of_sub hn2).2
  obtain ⟨a, b, c, d, h⟩ := exists_settled (isZero_of_isPositive hd) hf
  have hpos : 0 < d := h.hasValue_d.isPositive_iff.1 hd
  have ha : 2 * a ≠ 0 :=
    mul_ne_zero two_ne_zero (mt h.hasValue_a.isZero_iff.2 (Bool.eq_false_iff.1 hz))
  have hb := h.abs_b_le hpos.ne'
  have hle := h.zpow_le_root hpos.ne'
  have hroot := h.hasValue_d.sqrt hpos
  rw [abs_of_pos hpos] at hb hle
  have h1 := h.hasValue_b.neg.add_agrees hroot
  have h2 := h.hasValue_b.neg.sub_agrees hroot
  have ht := h.hasValue_a.of_double hdouble
  have hx1 := (h1.hasValue hn1).div_agrees ht ha
  have hx2 := (h2.hasValue hn2).div_agrees ht ha
  have hf1 := hq.isFinite
  have hf2 := hag.isFinite ▸ hf1
  have heq := (hx1.hasValue hf1).agrees_iff (hx2.hasValue hf2) |>.1 hag
  obtain ⟨hlarge, hsmall⟩ := close_roots hle hb (h1.isFinite_iff.1 hn1) (h2.isFinite_iff.1 hn2) ha
    (hx1.isFinite_iff.1 hf1) (hx2.isFinite_iff.1 hf2) heq
  rw [← hq.unique (hx1.hasValue hf1)] at hsmall
  refine ⟨hsmall.trans_lt ?_, a, h.hasValue_a, ?_⟩
  · rw [leastError, show (4294967296 : Rat) = (2 : Rat) ^ (32 : Int) by norm_num,
      ← zpow_add₀ (by norm_num)]
    exact zpow_lt_zpow_right₀ (by norm_num) (by norm_num)
  · exact le_abs_of_root_le (hle.trans hlarge)

theorem sound_solve (ha : p.a.isFinite = true) (hb : p.b.isFinite = true) {solution : Solution}
    (h : p.solve = .ok solution) : solution.Sound := by
  have hs := p.solves_solve
  rw [h] at hs
  cases hs with
  | twoReal hz hd =>
    have hroot := sqrt_ne_nan hd
    exact .twoReal (root_ne_nan hb hz hd hroot) (root_ne_nan hb hz hd (neg_ne_nan hroot))
      fun q hq hs => (sameNumber_roots hz hd hq hs).1
  | oneReal hz hd => exact .oneReal (middle_ne_nan ha hb hz)
  | complexPair hz hp hd =>
    exact .complexPair (middle_ne_nan ha hb hz) (imaginary_eq_nan_or_isPositive hz hp hd)

end Quadratic

theorem Binary64.HasValue.double_moderate {x : Binary64} {q : Rat} (h : x.HasValue q)
    (hge : (2 : Rat) ^ (-480 : Int) ≤ |q|) (hle : |q| ≤ (2 : Rat) ^ (480 : Int)) :
    (2 * x).HasValue (2 * q) ∧ (2 : Rat) ^ (-479 : Int) ≤ |2 * q| := by
  have habs : |2 * q| = 2 * |q| := by rw [abs_mul, abs_of_pos (by norm_num)]
  constructor
  · have hpos : (0 : Rat) < (2 : Rat) ^ (481 : Int) := by positivity
    have hrange := inRange_of_representable
      (representable_two_zpow (e := 481) (by norm_num) (by norm_num))
    refine h.double (hrange.mono ?_)
    rw [habs, abs_of_pos hpos, show (481 : Int) = 480 + 1 from rfl, zpow_add_one₀ (by norm_num)]
    linarith
  · rw [habs, show (-479 : Int) = -480 + 1 from rfl, zpow_add_one₀ (by norm_num)]
    linarith

/-- All numbers are finite, two roots are distinct, and an imaginary part is above zero. -/
inductive Solution.WellFormed : Solution → Prop where
  | oneReal {x : Binary64} (hx : x.isFinite = true) : WellFormed (.oneReal x)
  | twoReal {x1 x2 : Binary64} (h1 : x1.isFinite = true) (h2 : x2.isFinite = true)
      (hne : x1.sameNumber x2 = false) : WellFormed (.twoReal x1 x2)
  | complexPair {u v : Binary64} (hu : u.isFinite = true) (hv : v.isFinite = true)
      (hpos : v.isPositive = true) : WellFormed (.complexPair u v)

/-- The coefficients as they were typed lie within `2 ^ 480`, and what is divided by within the
inverse. -/
def Coefficients.Moderate : Coefficients → Prop
  | linear p =>
    (∃ a, p.a.HasValue a ∧ (2 : Rat) ^ (-480 : Int) ≤ |a|) ∧ p.b.Within 480 ∧ p.c.Within 480
  | quadratic p =>
    (∃ a, p.a.HasValue a ∧ (2 : Rat) ^ (-480 : Int) ≤ |a| ∧ |a| ≤ (2 : Rat) ^ (480 : Int)) ∧
      p.b.Within 480 ∧ p.typedConstant.Within 480 ∧ p.typedRight.Within 480

theorem Linear.wellFormed_solve {p : Linear} (h : (Coefficients.linear p).Moderate)
    (hz : p.a.isZero = false) : p.solve.WellFormed := by
  obtain ⟨⟨a, ha, hle⟩, hb, hc⟩ := h
  rw [Linear.solve, hz]
  exact .oneReal ((hc.sub hb (by norm_num) (by norm_num)).div ha hle (by norm_num)
    (by norm_num)).isFinite

namespace Quadratic

section

variable {a b k r : Binary64} (h : (Coefficients.quadratic (.ofSides a b k r)).Moderate)
include h

theorem settledDiscriminant_within : (Quadratic.ofSides a b k r).settledDiscriminant.Within 964 := by
  obtain ⟨⟨q, ha, -, hle⟩, hb, hk, hr⟩ := h
  have h4 : (4 : Binary64).Within 2 := ⟨((4 : Int) : Rat), hasValue_ofInt (by norm_num), by norm_num⟩
  have hc := hk.sub hr (by norm_num) (by norm_num)
  have hsquare := hb.mul hb (by norm_num) (by norm_num)
  have hproduct := (h4.mul ⟨q, ha, hle⟩ (by norm_num) (by norm_num)).mul hc (by norm_num) (by norm_num)
  have hdisc := (hsquare.mono (k := 963) (by norm_num)).sub hproduct (by norm_num) (by norm_num)
  simp only [settledDiscriminant]
  split_ifs
  · exact ⟨_, hasValue_ofInt (n := 0) (by norm_num), by simp⟩
  · exact hdisc

theorem wellFormed_solve {solution : Solution}
    (hs : (Quadratic.ofSides a b k r).solve = .ok solution) : solution.WellFormed := by
  have hd := settledDiscriminant_within h
  obtain ⟨⟨q, ha, hge, hle⟩, hb, hk, hr⟩ := h
  obtain ⟨hdouble, hge'⟩ := ha.double_moderate hge hle
  have hmiddle := (hb.neg.div hdouble hge' (by norm_num) (by norm_num)).isFinite
  have hsound := sound_solve ha.isFinite hb.isFinite hs
  have hcases := (Quadratic.ofSides a b k r).solves_solve
  rw [hs] at hcases
  cases hcases with
  | twoReal hz hp =>
    have hroot := Within.sqrt (k := 482) hd hp
    have hnb := hb.neg.mono (k := 483) (by norm_num)
    have hx1 := ((hnb.add hroot (by norm_num) (by norm_num)).div hdouble hge' (by norm_num)
      (by norm_num)).isFinite
    have hx2 := ((hnb.sub hroot (by norm_num) (by norm_num)).div hdouble hge' (by norm_num)
      (by norm_num)).isFinite
    refine .twoReal hx1 hx2 (Bool.eq_false_iff.2 fun hsame => ?_)
    obtain ⟨x, hx⟩ := exists_hasValue hx1
    obtain ⟨-, q', ha', hlarge⟩ := sameNumber_roots hz hp hx hsame
    rw [ha.unique ha'] at hle
    exact absurd (hlarge.trans hle) (not_le.2 (zpow_lt_zpow_right₀ (by norm_num) (by norm_num)))
  | oneReal hz hp => exact .oneReal hmiddle
  | complexPair hz hp hn =>
    have hroot := Within.sqrt (k := 482) hd.neg (isPositive_neg hd.isFinite hp hn)
    have hge' : (2 : Rat) ^ (-479 : Int) ≤ |(|2 * q|)| := by rwa [abs_abs]
    have hv := (hroot.div hdouble.abs hge' (by norm_num) (by norm_num)).isFinite
    cases hsound with
    | complexPair hu hpos => exact .complexPair hmiddle hv (hpos.resolve_left (ne_nan_of_isFinite hv))

end

end Quadratic

/-- Every reported solution is sound: no real root is without a value, an imaginary part with a value
is above zero, and two finite roots are equal only next to zero. Where the typed coefficients are
moderate all numbers are finite, two roots are distinct and an imaginary part is above zero. -/
theorem reported_solution_wellFormed {raw : Text} {degree : Degree} {o : Options} {report : Report}
    (h : solveEquation raw degree o = .ok report) :
    report.solution.Sound ∧ (report.coefficients.Moderate → report.solution.WellFormed) := by
  obtain ⟨e, -, hr, hs, hc, -⟩ := TypedEquation.exists_of_report o h
  rw [hc]
  have hf := e.ofFinite_coefficients hr
  generalize e.coefficients = p at hs hf
  cases hf with
  | linear ha hb hc =>
    obtain ⟨hz, hs⟩ := Coefficients.solve_linear_eq_ok hs
    rw [← hs]
    exact ⟨Linear.sound_solve ha hb hc hz, fun hm => Linear.wellFormed_solve hm hz⟩
  | quadratic ha hb hk hd =>
    exact ⟨Quadratic.sound_solve ha hb hs, fun hm => Quadratic.wellFormed_solve hm hs⟩

theorem roots_one_and_two_wellFormed :
    ∃ report, solveEquation "x² - 3x + 2 = 0".toList .quadratic {} = .ok report ∧
      report.coefficients.Moderate ∧ report.solution.WellFormed := by
  have hmap : (solveEquation "x² - 3x + 2 = 0".toList .quadratic {}).map Report.coefficients =
      .ok (.quadratic (.ofSides 1 (-3) 2 0)) := by decide +kernel
  obtain ⟨report, h, hc⟩ := exists_of_map_eq_ok hmap
  have hwhole : ∀ n : Int, n.natAbs ≤ 3 → (ofInt n).Within 480 := fun n hn => by
    refine ⟨n, hasValue_ofInt (by omega), ?_⟩
    have h3 : |(n : Rat)| ≤ 3 := by
      rw [← Int.cast_abs, Int.abs_eq_natAbs]
      exact_mod_cast hn
    have h4 : (3 : Rat) ≤ (2 : Rat) ^ (2 : Int) := by norm_num
    exact h3.trans (h4.trans (zpow_le_zpow_right₀ (by norm_num) (by norm_num)))
  have hm : report.coefficients.Moderate := by
    rw [hc]
    refine ⟨⟨((1 : Int) : Rat), hasValue_ofInt (n := 1) (by norm_num), ?_, ?_⟩,
      (hwhole 3 (by norm_num)).neg, hwhole 2 (by norm_num), hwhole 0 (by norm_num)⟩
    · rw [Int.cast_one, abs_one]
      exact zpow_le_one_of_nonpos₀ (by norm_num) (by norm_num)
    · rw [Int.cast_one, abs_one]
      exact one_le_zpow₀ (by norm_num) (by norm_num)
  exact ⟨report, h, hm, (reported_solution_wellFormed h).2 hm⟩

/-- Out of range nothing more holds: with `4 a` beyond the greatest number the imaginary part is `nan`, a
quotient can be infinite, and a root next to zero is reported twice. -/
theorem ill_formed_out_of_range :
    (∃ report, solveEquation ('1' :: List.replicate 308 '0' ++ "x² = 0".toList) .quadratic {} =
        .ok report ∧ report.solution = .complexPair (.finite .minus .zero) .nan) ∧
    (∃ report, solveEquation ("0.1x = 1".toList ++ List.replicate 308 '0') .linear {} =
        .ok report ∧ report.solution = .oneReal (.infinity .plus)) ∧
    (∃ report, solveEquation ('1' :: List.replicate 300 '0' ++ "x² + 0.".toList ++
          List.replicate 150 '0' ++ "1x = 0".toList) .quadratic {} =
        .ok report ∧
      report.solution = .twoReal (.finite .plus .zero) (.finite .minus .zero)) ∧
    ∀ s ∈ [Solution.complexPair (.finite .minus .zero) .nan, .oneReal (.infinity .plus),
      .twoReal (.finite .plus .zero) (.finite .minus .zero)], ¬s.WellFormed := by
  refine ⟨exists_of_map_eq_ok ?_, exists_of_map_eq_ok ?_, exists_of_map_eq_ok ?_, ?_⟩
  · decide +kernel
  · decide +kernel
  · decide +kernel
  · intro s hs hw
    simp only [List.mem_cons, List.not_mem_nil, or_false] at hs
    rcases hs with rfl | rfl | rfl
    · cases hw with
      | complexPair hu hv hpos => cases hv
    · cases hw with
      | oneReal hx => cases hx
    · cases hw with
      | twoReal h1 h2 hne => exact absurd hne (by decide +kernel)

end SchoolAlgebra
