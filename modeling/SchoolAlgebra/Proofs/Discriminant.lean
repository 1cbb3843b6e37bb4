import SchoolAlgebra.Proofs.ErrorBounds
set_option autoImplicit false

namespace SchoolAlgebra.Quadratic
open Binary64

theorem hasValue_tolerance : tolerance.HasValue ((2 : Rat) ^ (-50 : Int)) := by
  have h4 : (4 : Binary64).HasValue ((4 : Int) : Rat) := hasValue_ofInt (by norm_num)
  have hd : (4503599627370496 : Binary64).HasValue ((4503599627370496 : Int) : Rat) :=
    hasValue_ofInt (by norm_num)
  have hq : ((4 : Int) : Rat) / ((4503599627370496 : Int) : Rat) = (2 : Rat) ^ (-50 : Int) := by
    norm_num
  have h := h4.div hd (by norm_num) (hq ▸ representable_two_zpow (by norm_num) (by norm_num))
  rwa [hq] at h

theorem inRange_noise {q : Rat} (h : Representable q) : InRange ((2 : Rat) ^ (-50 : Int) * q) := by
  refine (inRange_of_representable h).mono ?_
  rw [abs_mul]
  refine mul_le_of_le_one_left (abs_nonneg _) ?_
  norm_num

theorem hasValue_noise {x : Binary64} {q : Rat} (h : x.HasValue q) :
    (tolerance * x).HasValue (rounded ((2 : Rat) ^ (-50 : Int) * q)) := by
  have hmul := hasValue_tolerance.mul_agrees h
  exact hmul.hasValue (hmul.isFinite_iff.2 (inRange_noise h.representable))

/-- The settled discriminant from the values of its two terms. -/
def settled (square product : Rat) : Rat :=
  if |rounded (square - product)| ≤ rounded ((2 : Rat) ^ (-50 : Int) * max square |product|) then 0
  else rounded (square - product)

theorem hasValue_settled {p : Quadratic} {w v : Rat} (hw : (p.b * p.b).HasValue w)
    (hv : (4 * p.a * p.c).HasValue v) (hr : InRange (w - v)) :
    p.settledDiscriminant.HasValue (settled w v) := by
  have hdisc := hw.sub_agrees hv
  have hdisc : p.discriminant.HasValue (rounded (w - v)) := hdisc.hasValue (hdisc.isFinite_iff.2 hr)
  have hle := hdisc.abs.le_iff (hasValue_noise (hw.max hv.abs))
  simp only [settledDiscriminant, settled, ← hle]
  split_ifs
  · exact hasValue_ofInt (n := 0) (by norm_num)
  · exact hdisc

/-- The outcomes of a quadratic equation, each with what it is made of. -/
inductive Solves (p : Quadratic) : Except Fault Solution → Prop where
  | degenerate (ha : p.a.isZero = true) : Solves p (.error (.degenerate .quadratic))
  | twoReal (ha : p.a.isZero = false) (hd : p.settledDiscriminant.isPositive = true) :
      Solves p (.ok (.twoReal ((-p.b + p.settledDiscriminant.sqrt) / (2 * p.a))
        ((-p.b - p.settledDiscriminant.sqrt) / (2 * p.a))))
  | oneReal (ha : p.a.isZero = false) (hd : p.settledDiscriminant.isZero = true) :
      Solves p (.ok (.oneReal (-p.b / (2 * p.a))))
  | complexPair (ha : p.a.isZero = false) (hp : p.settledDiscriminant.isPositive = false)
      (hz : p.settledDiscriminant.isZero = false) :
      Solves p (.ok (.complexPair (-p.b / (2 * p.a))
        ((-p.settledDiscriminant).sqrt / (2 * p.a).abs)))

theorem solves_solve (p : Quadratic) : Solves p p.solve := by
  simp only [Quadratic.solve]
  split_ifs with ha hp hz
  · exact .degenerate ha
  · exact .twoReal (Bool.eq_false_iff.2 ha) hp
  · exact .oneReal (Bool.eq_false_iff.2 ha) hz
  · exact .complexPair (Bool.eq_false_iff.2 ha) (Bool.eq_false_iff.2 hp) (Bool.eq_false_iff.2 hz)

section

variable {p : Quadratic} {d : Rat} (hz : p.a.isZero = false) (hd : p.settledDiscriminant.HasValue d)
include hz hd

theorem solve_of_pos (h : 0 < d) :
    p.solve = .ok (.twoReal ((-p.b + p.settledDiscriminant.sqrt) / (2 * p.a))
      ((-p.b - p.settledDiscriminant.sqrt) / (2 * p.a))) := by
  simp only [Quadratic.solve, hz, hd.isPositive_iff.2 h]
  rfl

theorem solve_of_zero (h : d = 0) : p.solve = .ok (.oneReal (-p.b / (2 * p.a))) := by
  subst h
  simp only [Quadratic.solve, hz, hd.isZero_iff.2 rfl,
    Bool.eq_false_iff.2 (mt hd.isPositive_iff.1 (lt_irrefl 0))]
  rfl

theorem solve_of_neg (h : d < 0) :
    p.solve = .ok (.complexPair (-p.b / (2 * p.a))
      ((-p.settledDiscriminant).sqrt / (2 * p.a).abs)) := by
  simp only [Quadratic.solve, hz, hd.isZero_eq_false h.ne,
    Bool.eq_false_iff.2 (mt hd.isPositive_iff.1 h.not_gt)]
  rfl

end

theorem tolerance_mul_infinity : tolerance * .infinity .plus = .infinity .plus := by
  decide +kernel

variable {p : Quadratic}

theorem settledDiscriminant_of_not_isZero (h : p.settledDiscriminant.isZero = false) :
    p.settledDiscriminant = p.discriminant ∧
      p.discriminant.abs.le (tolerance * (p.b * p.b).max (4 * p.a * p.c).abs) = false := by
  simp only [settledDiscriminant] at h ⊢
  split_ifs at h ⊢ with hle
  · exact absurd h (by decide)
  · exact ⟨rfl, Bool.eq_false_iff.2 hle⟩

theorem infinity_le_tolerance_mul : (Binary64.infinity .plus).le (tolerance * .infinity .plus) = true := by
  rw [tolerance_mul_infinity]
  rfl

/-- A difference with an infinite term is settled, or has no value. -/
theorem isFinite_of_le_eq_false {x y : Binary64} (hx : x ≠ .infinity .minus) (hn : x - y ≠ .nan)
    (hle : (x - y).abs.le (tolerance * x.max y.abs) = false) :
    x.isFinite = true ∧ y.isFinite = true := by
  have hsettled : ¬(Binary64.infinity .plus).le (tolerance * .infinity .plus) = false := by
    rw [infinity_le_tolerance_mul]
    exact Bool.noConfusion
  cases x with
  | nan => exact absurd rfl hn
  | infinity s =>
    cases s with
    | minus => exact absurd rfl hx
    | plus =>
      cases y with
      | nan => exact absurd rfl hn
      | infinity t =>
        cases t with
        | plus => exact absurd rfl hn
        | minus => exact absurd hle hsettled
      | finite t n => exact absurd hle hsettled
  | finite s m =>
    cases y with
    | nan => exact absurd rfl hn
    | infinity t => cases t <;> exact absurd hle hsettled
    | finite t n => exact ⟨rfl, rfl⟩

theorem mul_self_ne_infinity_minus (x : Binary64) : x * x ≠ .infinity .minus := by
  change Binary64.mul x x ≠ _
  have hs : ∀ s : Sign, s.times s = .plus := fun s => by cases s <;> rfl
  cases x with
  | nan => simp [Binary64.mul]
  | infinity s => simp [Binary64.mul, hs]
  | finite s m =>
    simp only [Binary64.mul, hs, Binary64.round]
    split <;> simp

theorem isFinite_terms (h : p.settledDiscriminant.isZero = false)
    (hn : p.settledDiscriminant ≠ .nan) :
    (p.b * p.b).isFinite = true ∧ (4 * p.a * p.c).isFinite = true := by
  obtain ⟨hd, hle⟩ := settledDiscriminant_of_not_isZero h
  rw [hd] at hn
  exact isFinite_of_le_eq_false (mul_self_ne_infinity_minus p.b) hn hle

/-- A settled discriminant `d` other than zero, with the coefficients that it comes from. -/
structure Settled (p : Quadratic) (a b c d : Rat) : Prop where
  hasValue_a : p.a.HasValue a
  hasValue_b : p.b.HasValue b
  hasValue_c : p.c.HasValue c
  hasValue_d : p.settledDiscriminant.HasValue d
  fourfold_inRange : InRange (4 * a)
  square_inRange : InRange (b * b)
  product_inRange : InRange (4 * a * c)
  scaled_inRange :
    InRange ((2 : Rat) ^ (-50 : Int) * max (rounded (b * b)) |rounded (4 * a * c)|)
  eq : d = rounded (rounded (b * b) - rounded (4 * a * c))
  noise_lt : rounded ((2 : Rat) ^ (-50 : Int) * max (rounded (b * b)) |rounded (4 * a * c)|) < |d|

theorem exists_settled (h : p.settledDiscriminant.isZero = false)
    (hf : p.settledDiscriminant.isFinite = true) : ∃ a b c d, Settled p a b c d := by
  obtain ⟨hd, hle⟩ := settledDiscriminant_of_not_isZero h
  obtain ⟨hsquare, hproduct⟩ := isFinite_terms h (ne_nan_of_isFinite hf)
  obtain ⟨hfour, hc⟩ := isFinite_of_mul hproduct
  obtain ⟨a, ha⟩ := exists_hasValue (isFinite_of_mul hfour).2
  obtain ⟨b, hb⟩ := exists_hasValue (isFinite_of_mul hsquare).1
  obtain ⟨c, hc⟩ := exists_hasValue hc
  have h4 : (4 : Binary64).HasValue ((4 : Int) : Rat) := hasValue_ofInt (by norm_num)
  have hfourfold : InRange (4 * a) := (h4.mul_agrees ha).isFinite_iff.1 hfour
  have hfour := ha.fourfold hfourfold
  have hsq := (hb.mul_agrees hb).hasValue hsquare
  have hpr := (hfour.mul_agrees hc).hasValue hproduct
  rw [hd] at hf
  have hdisc : p.discriminant.HasValue _ := (hsq.sub_agrees hpr).hasValue hf
  have hscale := hsq.max hpr.abs
  refine ⟨a, b, c, _, ha, hb, hc, hd ▸ hdisc, hfourfold,
    (hb.mul_agrees hb).isFinite_iff.1 hsquare, (hfour.mul_agrees hc).isFinite_iff.1 hproduct,
    inRange_noise hscale.representable, rfl, ?_⟩
  exact not_le.1 fun hle' => by
    rw [(hdisc.abs.le_iff (hasValue_noise hscale)).2 hle'] at hle
    cases hle

theorem abs_le_of_noise_lt {w s d : Rat} (hw : InRange w)
    (hs : InRange ((2 : Rat) ^ (-50 : Int) * s)) (hle : |rounded w| ≤ s)
    (hlt : rounded ((2 : Rat) ^ (-50 : Int) * s) < |d|) (hd : 2 * leastError ≤ |d|) :
    |w| ≤ 4503599627370496 * |d| := by
  have h50 : (2 : Rat) ^ (-50 : Int) = 1 / 1125899906842624 := by norm_num
  have hnonneg : 0 ≤ s := le_trans (abs_nonneg _) hle
  have hw' := abs_rounded_sub_le hw
  have hdist := abs_sub_abs_le_abs_sub w (rounded w)
  rw [abs_sub_comm] at hdist
  have hs' := le_rounded hs
  rw [h50] at hs' hlt
  rw [abs_of_nonneg (by positivity), unitError_eq] at hs'
  rw [unitError_eq] at hw'
  linarith

namespace Settled

variable {a b c d : Rat}

theorem least_le (h : Settled p a b c d) (hd : d ≠ 0) : 2 * leastError ≤ |d| :=
  h.hasValue_d.representable.least_le hd

theorem square_le (h : Settled p a b c d) (hd : d ≠ 0) : b * b ≤ 4503599627370496 * |d| := by
  have hle := abs_le_of_noise_lt h.square_inRange h.scaled_inRange ?_ h.noise_lt (h.least_le hd)
  · rwa [abs_of_nonneg (mul_self_nonneg b)] at hle
  · rw [abs_of_nonneg (rounded_nonneg (mul_self_nonneg b))]
    exact le_max_left _ _

theorem product_le (h : Settled p a b c d) (hd : d ≠ 0) : |4 * a * c| ≤ 4503599627370496 * |d| :=
  abs_le_of_noise_lt h.product_inRange h.scaled_inRange (le_max_right _ _) h.noise_lt (h.least_le hd)

theorem ne_zero_of_neg (h : Settled p a b c d) (hd : d < 0) : c ≠ 0 := by
  intro hc
  have heq := h.eq
  rw [hc, mul_zero, rounded_zero, sub_zero] at heq
  exact absurd hd (not_lt.2 (heq ▸ rounded_nonneg (rounded_nonneg (mul_self_nonneg b))))

section

variable (h : Settled p a b c d) (hd : d ≠ 0)
include h hd

theorem zpow_le_root : (2 : Rat) ^ (-538 : Int) ≤ sqrtMagnitude |d| := by
  have hsq := (sqrtMagnitude_sq_bounds (abs_pos.2 hd)).1
  have hleast := h.least_le hd
  have hpos := sqrtMagnitude_pos (abs_pos.2 hd)
  have hpow : ((2 : Rat) ^ (-538 : Int)) ^ 2 ≤ leastError := by
    rw [leastError, ← zpow_natCast, ← zpow_mul]
    exact zpow_le_zpow_right₀ (by norm_num) (by norm_num)
  exact le_of_sq_le_sq (by linarith) hpos.le

theorem abs_b_le : |b| ≤ 134217728 * sqrtMagnitude |d| := by
  have hsq := (sqrtMagnitude_sq_bounds (abs_pos.2 hd)).1
  have hb := h.square_le hd
  have hpos := sqrtMagnitude_pos (abs_pos.2 hd)
  refine abs_le_of_sq_le_sq ?_ (by positivity)
  nlinarith

end

theorem lt_imaginary (h : Settled p a b c d) (hd : d < 0) (ha : a ≠ 0) :
    leastError < sqrtMagnitude |d| / |2 * a| := by
  have hd' : 0 < |d| := abs_pos.2 hd.ne
  have hroot := sqrtMagnitude_pos hd'
  have hsq := (sqrtMagnitude_sq_bounds hd').1
  have hproduct := h.product_le hd.ne
  have hc := h.hasValue_c.representable.least_le (h.ne_zero_of_neg hd)
  have ha' : 0 < |a| := abs_pos.2 ha
  have hleast := leastError_pos
  have htop := mul_leastError_lt h.fourfold_inRange
  rw [abs_mul, abs_of_pos (by norm_num)] at htop
  -- By its noise the discriminant is large where `a` is, since the constant is not zero.
  have hlarge : |a| * leastError ≤ 1125899906842624 * sqrtMagnitude |d| ^ 2 := by
    rw [abs_mul, abs_mul, abs_of_pos (by norm_num : (0 : Rat) < 4)] at hproduct
    have : 4 * |a| * (2 * leastError) ≤ 4 * |a| * |c| := by gcongr
    linarith
  have hsmall : (2 * |a| * leastError) ^ 2 < sqrtMagnitude |d| ^ 2 := by
    have h1 : (2 * |a| * leastError) ^ 2 = |a| * leastError * (4 * |a| * leastError) := by ring
    have h2 : |a| * leastError * (4 * |a| * leastError) ≤
        1125899906842624 * sqrtMagnitude |d| ^ 2 * (1 / 2251799813685248) :=
      mul_le_mul hlarge htop.le (by positivity) (by positivity)
    have h3 : 0 < sqrtMagnitude |d| ^ 2 := by positivity
    linarith
  rw [lt_div_iff₀ (abs_pos.2 (mul_ne_zero two_ne_zero ha)), abs_mul, abs_of_pos (by norm_num)]
  have hlt := lt_of_pow_lt_pow_left₀ 2 hroot.le hsmall
  linarith

end Settled

section

variable {b root : Rat} (hroot : (2 : Rat) ^ (-538 : Int) ≤ root) (hb : |b| ≤ 134217728 * root)
  (hplus : InRange (-b + root)) (hminus : InRange (-b - root))
include hroot hb hplus hminus

/-- The numerators of the two roots lie far apart for their size. -/
theorem numerators_apart :
    root ≤ rounded (-b + root) - rounded (-b - root) ∧
      |rounded (-b + root)| ≤ 268435456 * root ∧ |rounded (-b - root)| ≤ 268435456 * root := by
  have hpos : 0 < root := lt_of_lt_of_le (by positivity) hroot
  have hleast : leastError ≤ 1 / 1024 * root := by
    have hpow : 1024 * leastError ≤ (2 : Rat) ^ (-538 : Int) := by
      rw [leastError, show (1024 : Rat) = (2 : Rat) ^ (10 : Int) by norm_num,
        ← zpow_add₀ (by norm_num)]
      exact zpow_le_zpow_right₀ (by norm_num) (by norm_num)
    linarith
  have hp := abs_add_le (-b) root
  have hm := abs_sub (-b) root
  rw [abs_neg, abs_of_pos hpos] at hp hm
  have hplus' := abs_le.1 (abs_rounded_sub_le hplus)
  have hminus' := abs_le.1 (abs_rounded_sub_le hminus)
  have hn1 := abs_rounded_le hplus
  have hn2 := abs_rounded_le hminus
  rw [unitError_eq] at hplus' hminus' hn1 hn2
  exact ⟨by linarith, by linarith, by linarith⟩

theorem close_roots {t : Rat} (ht : t ≠ 0) (h1 : InRange (rounded (-b + root) / t))
    (h2 : InRange (rounded (-b - root) / t))
    (heq : rounded (rounded (-b + root) / t) = rounded (rounded (-b - root) / t)) :
    root ≤ 4 * leastError * |t| ∧
      |rounded (rounded (-b + root) / t)| ≤ 4294967296 * leastError := by
  obtain ⟨happart, hn1, hn2⟩ := numerators_apart hroot hb hplus hminus
  have ht' : 0 < |t| := abs_pos.2 ht
  generalize rounded (-b + root) = n1 at *
  generalize rounded (-b - root) = n2 at *
  have hdist : |n1 / t - n2 / t| = |n1 - n2| / |t| := by rw [← sub_div, abs_div]
  have hle : root ≤ |n1 - n2| := happart.trans (le_abs_self _)
  have hq : ∀ n : Rat, |n| ≤ 268435456 * root → |n / t| ≤ 268435456 * |n1 / t - n2 / t| := by
    intro n hn
    rw [hdist, abs_div, ← mul_div_assoc]
    gcongr
    linarith
  obtain ⟨hclose, hsmall⟩ := close_of_rounded_eq h1 h2 heq (hq n1 hn1) (hq n2 hn2)
  rw [hdist, div_le_iff₀ ht'] at hclose
  exact ⟨hle.trans hclose, hsmall⟩

end

end SchoolAlgebra.Quadratic
