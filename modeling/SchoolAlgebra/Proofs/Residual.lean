import SchoolAlgebra.Proofs.Planted
import SchoolAlgebra.Proofs.WellFormed
set_option autoImplicit false

/-!
What is left of a quadratic equation in whole numbers at its two reported roots. The roundings on the way
leave at most `2 ^ -51` of the larger of `b²` and the discriminant, divided by `a`; where `b²` is large
against `a` this is not small.
-/

namespace SchoolAlgebra.Quadratic
open Binary64

theorem abs_sqrtMagnitude_sq_sub_le {q : Rat} (hq : 0 < q) :
    |sqrtMagnitude q ^ 2 - q| ≤ 33 / 16 * unitError * sqrtMagnitude q ^ 2 := by
  obtain ⟨n, hn, hlow, -, hnext⟩ := exists_sqrtMagnitude hq
  have hn' : (4503599627370496 : Rat) ≤ n := by exact_mod_cast hlow
  have hp : (0 : Rat) < (4 : Rat) ^ rootPlace q := by positivity
  have hrad : q = q / (4 : Rat) ^ rootPlace q * (4 : Rat) ^ rootPlace q :=
    (div_mul_cancel₀ q hp.ne').symm
  obtain ⟨h1, h2⟩ := hnext
  rw [hn, mul_pow, ← four_zpow, unitError_eq]
  generalize q / (4 : Rat) ^ rootPlace q = radicand at hrad h1 h2
  generalize (4 : Rat) ^ rootPlace q = place at hp hrad
  subst hrad
  have hdist : |(n : Rat) ^ 2 - radicand| ≤ 33 / 16 * (1 / 9007199254740992) * (n : Rat) ^ 2 := by
    rw [abs_le]
    constructor <;> nlinarith
  calc |(n : Rat) ^ 2 * place - radicand * place| = |(n : Rat) ^ 2 - radicand| * place := by
        rw [← sub_mul, abs_mul, abs_of_pos hp]
    _ ≤ 33 / 16 * (1 / 9007199254740992) * (n : Rat) ^ 2 * place := by gcongr
    _ = 33 / 16 * (1 / 9007199254740992) * ((n : Rat) ^ 2 * place) := by ring

theorem leastError_le : leastError ≤ 1 / 1024 * unitError := by
  rw [leastError, unitError, show (1 / 1024 : Rat) = (2 : Rat) ^ (-10 : Int) by norm_num,
    ← zpow_add₀ (by norm_num)]
  exact zpow_le_zpow_right₀ (by norm_num) (by norm_num)

theorem abs_double_mul_quotient_sub_le {a n : Rat} (ha : a ≠ 0) (hfour : InRange (4 * a))
    (hn : InRange n) (hq : InRange (rounded n / (2 * a))) :
    |2 * a * rounded (rounded n / (2 * a)) - n| ≤ 33 / 16 * unitError * (|n| + 1) := by
  have h2a : 0 < |2 * a| := abs_pos.2 (mul_ne_zero two_ne_zero ha)
  have hleast : |2 * a| * leastError ≤ 2 * unitError := by
    have h := mul_leastError_lt hfour
    rw [abs_mul, abs_of_pos (by norm_num)] at h ⊢
    rw [unitError_eq]
    linarith
  have hsmall := leastError_le
  have hnum := abs_rounded_sub_le hn
  have hnum' := abs_rounded_le hn
  have hquot : |2 * a * rounded (rounded n / (2 * a)) - rounded n| ≤
      unitError * |rounded n| + 2 * unitError := by
    calc |2 * a * rounded (rounded n / (2 * a)) - rounded n| =
          |2 * a| * |rounded (rounded n / (2 * a)) - rounded n / (2 * a)| := by
          rw [← abs_mul, mul_sub, mul_div_cancel₀ _ (mul_ne_zero two_ne_zero ha)]
      _ ≤ |2 * a| * (unitError * |rounded n / (2 * a)| + leastError) := by
          gcongr
          exact abs_rounded_sub_le hq
      _ = unitError * |rounded n| + |2 * a| * leastError := by
          rw [abs_div]
          field_simp
      _ ≤ unitError * |rounded n| + 2 * unitError := by linarith
  have htri := abs_sub_le (2 * a * rounded (rounded n / (2 * a))) (rounded n) n
  rw [unitError_eq] at *
  linarith [abs_nonneg n]

theorem pos_of_rounded_pos {q : Rat} (hq : InRange q) (h : 0 < rounded q) : 0 < q := by
  obtain ⟨m, -, hr⟩ := exists_nearest hq
  by_contra hle
  rcases (not_lt.1 hle).eq_or_lt with rfl | hneg
  · rw [rounded_zero] at h
    exact lt_irrefl _ h
  · rw [hr, Sign.ofRat, if_pos hneg, Sign.apply_minus] at h
    linarith [m.value_nonneg]

/-- With `y = 2 a x + b` the residual is `(y² - D) / 4a`, and `y` is close to a root of `D`. -/
theorem abs_residual_le {a b c d s t x m : Rat} (hs : 0 ≤ s) (ht : t = s ∨ t = -s)
    (hone : 1 ≤ b ^ 2 - 4 * a * c) (hb : b ^ 2 ≤ m) (hm : b ^ 2 - 4 * a * c ≤ m)
    (hd : |d - (b ^ 2 - 4 * a * c)| ≤ unitError * (b ^ 2 - 4 * a * c) + leastError)
    (hroot : |s ^ 2 - d| ≤ 33 / 16 * unitError * s ^ 2)
    (hx : |2 * a * x - (-b + t)| ≤ 33 / 16 * unitError * (|-b + t| + 1)) :
    |a| * |a * x ^ 2 + b * x + c| ≤ 4 * unitError * m := by
  have hsmall := leastError_le
  have htt : t ^ 2 = s ^ 2 := by rcases ht with rfl | rfl <;> ring
  have htabs : |t| = s := by rcases ht with rfl | rfl <;> simp [abs_of_nonneg hs]
  -- The error of the root, that of the discriminant, and that of the numerator, once and squared.
  have hid : 4 * (a * (a * x ^ 2 + b * x + c)) =
      (s ^ 2 - d) + (d - (b ^ 2 - 4 * a * c)) +
        (2 * t * (2 * a * x - (-b + t)) + (2 * a * x - (-b + t)) ^ 2) := by
    rw [← htt]
    ring
  generalize b ^ 2 - 4 * a * c = disc at *
  generalize 2 * a * x - (-b + t) = e at *
  have hw : |(-b + t)| ≤ |b| + s := by
    have h := abs_add_le (-b) t
    rwa [abs_neg, htabs] at h
  have he : |e| ≤ 33 / 16 * unitError * (|b| + s + 1) := by
    refine hx.trans ?_
    rw [unitError_eq]
    linarith
  have hss : s ^ 2 ≤ (1 + 8 * unitError) * m := by
    have h1 := (abs_le.1 hroot).2
    have h2 := (abs_le.1 hd).2
    rw [unitError_eq] at *
    linarith
  have hbb := sq_abs b
  have hsw : s * (|b| + s + 1) ≤ (3 + 16 * unitError) * m := by
    have h1 := sq_nonneg (s - |b|)
    have h2 := sq_nonneg (s - 1)
    linarith
  have hww : (|b| + s + 1) ^ 2 ≤ 10 * m := by
    have h1 := sq_nonneg (s - |b|)
    have h2 := sq_nonneg (s - 1)
    have h3 := sq_nonneg (|b| - 1)
    rw [unitError_eq] at hss
    linarith
  have hu := unitError_pos
  have hcross : |2 * t * e| ≤ 33 / 8 * unitError * ((3 + 16 * unitError) * m) := by
    calc |2 * t * e| = 2 * s * |e| := by rw [abs_mul, abs_mul, htabs, abs_of_pos two_pos]
      _ ≤ 2 * s * (33 / 16 * unitError * (|b| + s + 1)) := by gcongr
      _ = 33 / 8 * unitError * (s * (|b| + s + 1)) := by ring
      _ ≤ 33 / 8 * unitError * ((3 + 16 * unitError) * m) := by gcongr
  have hsquare : |e ^ 2| ≤ (33 / 16 * unitError) ^ 2 * (10 * m) := by
    calc |e ^ 2| = |e| ^ 2 := abs_pow e 2
      _ ≤ (33 / 16 * unitError * (|b| + s + 1)) ^ 2 := by gcongr
      _ = (33 / 16 * unitError) ^ 2 * (|b| + s + 1) ^ 2 := mul_pow _ _ 2
      _ ≤ (33 / 16 * unitError) ^ 2 * (10 * m) := by gcongr
  have hall : 4 * (|a| * |a * x ^ 2 + b * x + c|) ≤
      |s ^ 2 - d| + |d - disc| + (|2 * t * e| + |e ^ 2|) := by
    calc 4 * (|a| * |a * x ^ 2 + b * x + c|) = |4 * (a * (a * x ^ 2 + b * x + c))| := by
          rw [abs_mul, abs_mul, abs_of_pos (by norm_num : (0 : Rat) < 4)]
      _ ≤ |s ^ 2 - d| + |d - disc| + (|2 * t * e| + |e ^ 2|) := by
          rw [hid]
          exact (abs_add_le _ _).trans (add_le_add (abs_add_le _ _) (abs_add_le _ _))
  rw [unitError_eq] at *
  linarith

theorem le_hundredth {a f m : Rat} (ha : a ≠ 0) (h : |a| * |f| ≤ (2 : Rat) ^ (-51 : Int) * m)
    (hm : 100 * m ≤ 2 ^ 51 * |a|) : |f| ≤ 1 / 100 := by
  refine le_of_mul_le_mul_left (h.trans ?_) (abs_pos.2 ha)
  norm_num
  linarith

section

variable {p : Quadratic} {a b c : Int} (hpa : p.a.HasValue a) (hpb : p.b.HasValue b)
  (hpc : p.c.HasValue c) (hb : b ^ 2 ≤ 9007199254740992) (hac : 4 * |a * c| ≤ 9007199254740992)
  (hd : p.settledDiscriminant.isPositive = true)
include hpa hpb hpc hb hac hd

theorem positive_discriminant_whole :
    InRange (4 * (a : Rat)) ∧ |(b : Rat) ^ 2 - 4 * a * c| ≤ (2 : Rat) ^ (54 : Int) ∧
      p.settledDiscriminant.HasValue (rounded ((b : Rat) ^ 2 - 4 * a * c)) := by
  have hz := isZero_of_isPositive hd
  obtain ⟨hsettled, -⟩ := settledDiscriminant_of_not_isZero hz
  obtain ⟨-, hproduct⟩ := isFinite_terms hz (isPositive_ne_nan hd)
  have h4 : (4 : Binary64).HasValue ((4 : Int) : Rat) := hasValue_ofInt (by norm_num)
  have hfour : InRange (4 * (a : Rat)) :=
    (h4.mul_agrees hpa).isFinite_iff.1 (isFinite_of_mul hproduct).1
  have hsq : (p.b * p.b).HasValue ((b * b : Int) : Rat) :=
    hpb.mulWhole hpb (by rw [← sq, ← Int.ofNat_le, Int.natCast_natAbs, abs_sq]; exact hb)
  have hpr := hasValue_product hpa hpc hfour (by
    rw [Int.abs_eq_natAbs] at hac
    rw [Int.mul_assoc]
    omega)
  have hdisc : p.discriminant.Agrees (ofRat ((b : Rat) ^ 2 - 4 * a * c)) := by
    have h := hsq.sub_agrees hpr
    rwa [show ((b * b : Int) : Rat) - ((4 * a * c : Int) : Rat) = (b : Rat) ^ 2 - 4 * a * c by
      push_cast
      ring] at h
  have hle : |(b : Rat) ^ 2 - 4 * a * c| ≤ (2 : Rat) ^ (54 : Int) := by
    have hb : (b : Rat) ^ 2 ≤ 9007199254740992 := by exact_mod_cast hb
    have hac : 4 * |(a : Rat) * c| ≤ 9007199254740992 := by exact_mod_cast hac
    have hac := abs_le.1 (le_div_iff₀' (by norm_num) |>.2 hac)
    rw [abs_le]
    norm_num at hac ⊢
    constructor <;> linarith [sq_nonneg (b : Rat)]
  have hin := inRange_of_abs_le_zpow hle (by norm_num) (by norm_num)
  exact ⟨hfour, hle, hsettled ▸ hdisc.hasValue (hdisc.isFinite_iff.2 hin)⟩

theorem exists_residual {t : Binary64} (ha : a ≠ 0)
    (ht : t = p.settledDiscriminant.sqrt ∨ t = -p.settledDiscriminant.sqrt) {m : Rat}
    (hm : (b : Rat) ^ 2 ≤ m) (hm' : (b : Rat) ^ 2 - 4 * a * c ≤ m) :
    ∃ q, ((-p.b + t) / (2 * p.a)).HasValue q ∧
      |(a : Rat)| * |a * q ^ 2 + b * q + c| ≤ (2 : Rat) ^ (-51 : Int) * m := by
  obtain ⟨hfour, hle, hdv⟩ := positive_discriminant_whole hpa hpb hpc hb hac hd
  have hin := inRange_of_abs_le_zpow hle (by norm_num) (by norm_num)
  have hpos := hdv.isPositive_iff.1 hd
  have hone : (1 : Rat) ≤ (b : Rat) ^ 2 - 4 * a * c := by
    have h := pos_of_rounded_pos hin hpos
    have h : 0 < b ^ 2 - 4 * a * c := by exact_mod_cast h
    exact_mod_cast Int.add_one_le_iff.2 h
  have hdist := abs_rounded_sub_le hin
  rw [abs_of_pos (lt_of_lt_of_le one_pos hone)] at hdist
  -- The sign of the root is chosen once for its value and its bound.
  obtain ⟨r, htr, hr, htw⟩ : ∃ r, t.HasValue r ∧
      (r = sqrtMagnitude (rounded ((b : Rat) ^ 2 - 4 * a * c)) ∨
        r = -sqrtMagnitude (rounded ((b : Rat) ^ 2 - 4 * a * c))) ∧ t.Within 28 := by
    have hw : p.settledDiscriminant.Within (2 * 27) := by
      refine ⟨_, hdv, ?_⟩
      have h := abs_rounded_le_of_representable
        (representable_two_zpow (e := 54) (by norm_num) (by norm_num))
        (hle.trans (le_abs_self _))
      rwa [abs_of_pos (by positivity : (0 : Rat) < 2 ^ (54 : Int))] at h
    have hroot := hdv.sqrt hpos
    have hwr := hw.sqrt hd
    rcases ht with rfl | rfl
    · exact ⟨_, hroot, .inl rfl, hwr⟩
    · exact ⟨_, hroot.neg, .inr rfl, hwr.neg⟩
  have hbw : p.b.Within 28 := by
    refine ⟨_, hpb, abs_le_of_sq_le_sq ?_ (by positivity)⟩
    have hb : (b : Rat) ^ 2 ≤ 9007199254740992 := by exact_mod_cast hb
    norm_num
    linarith
  have ha' : (a : Rat) ≠ 0 := by exact_mod_cast ha
  have hdouble : (2 * p.a).HasValue (2 * (a : Rat)) := by
    refine hpa.double (hfour.mono ?_)
    rw [abs_mul, abs_mul, abs_of_pos two_pos, abs_of_pos (by norm_num : (0 : Rat) < 4)]
    linarith [abs_nonneg (a : Rat)]
  have hage : (2 : Rat) ^ (-0 : Int) ≤ |2 * (a : Rat)| := by
    have h : (1 : Rat) ≤ |(a : Rat)| := by exact_mod_cast Int.one_le_abs ha
    rw [abs_mul, abs_of_pos two_pos]
    norm_num
    linarith
  have hnum := hpb.neg.add_agrees htr
  have hnw := hbw.neg.add htw (by norm_num) (by norm_num)
  have hquot := (hnum.hasValue hnw.isFinite).div_agrees hdouble (mul_ne_zero two_ne_zero ha')
  have hqw := hnw.div hdouble hage (by norm_num) (by norm_num)
  refine ⟨_, hquot.hasValue hqw.isFinite, ?_⟩
  rw [← four_mul_unitError]
  exact abs_residual_le (sqrtMagnitude_pos hpos).le hr hone hm hm' hdist
    (abs_sqrtMagnitude_sq_sub_le hpos)
    (abs_double_mul_quotient_sub_le ha' hfour (hnum.isFinite_iff.1 hnw.isFinite)
      (hquot.isFinite_iff.1 hqw.isFinite))

end

end SchoolAlgebra.Quadratic

namespace SchoolAlgebra

/-- Both reported roots of an equation in whole numbers have values, and the residual at them times `a` is
at most `2 ^ -51` of the larger of `b²` and the discriminant. Where that is small against `a` the
residual is at most a hundredth. -/
theorem two_roots_residual {a b c : Int} {xa xb xc x1 x2 : Binary64} (ha : a ≠ 0)
    (hb : b ^ 2 ≤ 2 ^ 53) (hac : 4 * |a * c| ≤ 2 ^ 53) (hxa : xa.HasValue a) (hxb : xb.HasValue b)
    (hxc : xc.HasValue c) (h : (Quadratic.ofSides xa xb xc 0).solve = .ok (.twoReal x1 x2)) :
    ∀ x ∈ [x1, x2], ∃ q, x.HasValue q ∧
      |(a : Rat)| * |a * q ^ 2 + b * q + c| ≤
        (2 : Rat) ^ (-51 : Int) * ((max (b ^ 2) (b ^ 2 - 4 * a * c) : Int) : Rat) ∧
      (100 * max (b ^ 2) (b ^ 2 - 4 * a * c) ≤ 2 ^ 51 * |a| →
        |(a : Rat) * q ^ 2 + b * q + c| ≤ 1 / 100) := by
  have hc : c.natAbs ≤ 9007199254740992 := by
    have h : |c| ≤ |a * c| := by
      rw [abs_mul]
      exact le_mul_of_one_le_left (abs_nonneg c) (Int.one_le_abs ha)
    simp only [Int.abs_eq_natAbs] at h hac
    omega
  have hpc : (Quadratic.ofSides xa xb xc 0).c.HasValue c := by
    have h := hxc.subWhole (Binary64.hasValue_ofInt (n := 0) (by norm_num)) (by simpa using hc)
    rwa [sub_zero] at h
  have hroot : ∀ t : Binary64,
      (Quadratic.ofSides xa xb xc 0).settledDiscriminant.isPositive = true →
      t = (Quadratic.ofSides xa xb xc 0).settledDiscriminant.sqrt ∨
        t = -(Quadratic.ofSides xa xb xc 0).settledDiscriminant.sqrt →
      ∃ q, ((-xb + t) / (2 * xa)).HasValue q ∧
        |(a : Rat)| * |a * q ^ 2 + b * q + c| ≤
          (2 : Rat) ^ (-51 : Int) * ((max (b ^ 2) (b ^ 2 - 4 * a * c) : Int) : Rat) ∧
        (100 * max (b ^ 2) (b ^ 2 - 4 * a * c) ≤ 2 ^ 51 * |a| →
          |(a : Rat) * q ^ 2 + b * q + c| ≤ 1 / 100) := by
    intro t hd ht
    obtain ⟨q, hq, hle⟩ := Quadratic.exists_residual hxa hxb hpc hb hac hd ha ht
      (m := ((max (b ^ 2) (b ^ 2 - 4 * a * c) : Int) : Rat))
      (by exact_mod_cast le_max_left _ _) (by exact_mod_cast le_max_right _ _)
    refine ⟨q, hq, hle, fun hmax => ?_⟩
    exact Quadratic.le_hundredth (by exact_mod_cast ha) hle (by exact_mod_cast hmax)
  have hs := (Quadratic.ofSides xa xb xc 0).solves_solve
  rw [h] at hs
  cases hs with
  | twoReal hz hd =>
    intro x hx
    simp only [List.mem_cons, List.not_mem_nil, or_false] at hx
    rcases hx with rfl | rfl
    · exact hroot _ hd (.inl rfl)
    · exact hroot _ hd (.inr rfl)

theorem residual_of_three_and_half :
    (Quadratic.ofSides 2 (-7) 3 0).solve = .ok (.twoReal 3 (1 / 2)) ∧
      ∀ x ∈ [(3 : Binary64), 1 / 2], ∃ q, x.HasValue q ∧ |(2 : Rat) * q ^ 2 + -7 * q + 3| ≤ 1 / 100 := by
  have hs : (Quadratic.ofSides 2 (-7) 3 0).solve = .ok (.twoReal 3 (1 / 2)) := by decide +kernel
  have h := two_roots_residual (a := 2) (b := -7) (c := 3) (by decide) (by decide) (by decide)
    (Binary64.hasValue_ofInt (n := 2) (by decide))
    (Binary64.hasValue_ofInt (n := 7) (by decide)).neg
    (Binary64.hasValue_ofInt (n := 3) (by decide)) hs
  refine ⟨hs, fun x hx => ?_⟩
  obtain ⟨q, hq, -, hle⟩ := h x hx
  exact ⟨q, hq, by simpa using hle (by decide)⟩

/-- Where `b²` is large against `a` the hundredth is missed: of `3x² + 40000000x + 4 = 0` the first
root is reported as `-27 / 2 ^ 28`, where the exact one lies next to `-1 / 10 ^ 7`. -/
theorem residual_above_hundredth :
    (40000000 : Int) ^ 2 ≤ 2 ^ 53 ∧ 4 * |(3 : Int) * 4| ≤ 2 ^ 53 ∧
      ∃ x1 x2, (Quadratic.ofSides 3 40000000 4 0).solve = .ok (.twoReal x1 x2) ∧
        x1.HasValue (-27 / 268435456) ∧
        1 / 100 < |3 * (-27 / 268435456 : Rat) ^ 2 + 40000000 * (-27 / 268435456) + 4| := by
  refine ⟨by decide, by decide, .ofRat (-27 / 268435456),
    .ofRat (-7158278826666613 / 536870912), by decide +kernel, ?_, ?_⟩
  · rw [Binary64.HasValue]
    decide +kernel
  · norm_num [abs_of_neg]

end SchoolAlgebra
