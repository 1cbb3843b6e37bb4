import SchoolAlgebra.Proofs.SquareRoot
set_option autoImplicit false

namespace SchoolAlgebra

theorem InRange.mono {q r : Rat} (h : InRange r) (hq : |q| ≤ |r|) : InRange q := lt_of_le_of_lt hq h

namespace Binary64

/-- The relative error of a rounding. -/
def unitError : Rat := (2 : Rat) ^ (-53 : Int)

/-- Half the least positive number, all that a rounding may lose of what is below the normal numbers. -/
def leastError : Rat := (2 : Rat) ^ (-1075 : Int)

theorem unitError_eq : unitError = 1 / 9007199254740992 := by
  norm_num [unitError]

theorem unitError_pos : 0 < unitError := by
  unfold unitError
  positivity

theorem unitError_lt_one : unitError < 1 := by
  rw [unitError_eq]
  norm_num

theorem four_mul_unitError : 4 * unitError = (2 : Rat) ^ (-51 : Int) := by
  norm_num [unitError]

theorem leastError_pos : 0 < leastError := by
  unfold leastError
  positivity

variable {x y : Binary64} {q r : Rat}

theorem Agrees.isFinite (h : Agrees x y) : x.isFinite = y.isFinite := by
  rcases h with rfl | ⟨hx, hy⟩
  · rfl
  · obtain ⟨s, rfl⟩ := exists_zero hx
    obtain ⟨t, rfl⟩ := exists_zero hy
    rfl

theorem Agrees.isFinite_iff (h : x.Agrees (ofRat q)) : x.isFinite = true ↔ InRange q := by
  rw [h.isFinite, isFinite_ofRat_iff]

theorem Agrees.hasValue (h : x.Agrees (ofRat q)) (hx : x.isFinite = true) :
    x.HasValue (rounded q) :=
  (hasValue_ofRat (h.isFinite_iff.1 hx)).congr h.symm

theorem exists_nearest (h : InRange q) :
    ∃ m, Magnitude.nearest? |q| = some m ∧ rounded q = (Sign.ofRat q).apply m.value := by
  cases hm : Magnitude.nearest? |q| with
  | none => exact absurd ((Magnitude.nearest?_eq_none_iff (abs_nonneg q)).1 hm) (not_le.2 h)
  | some m => exact ⟨m, rfl, by rw [rounded, hm]; rfl⟩

theorem abs_rounded_sub_eq {m : Magnitude} (h : Magnitude.nearest? |q| = some m) :
    |rounded q - q| = |m.value - (|q|)| := by
  have hr : rounded q = (Sign.ofRat q).apply m.value := by rw [rounded, h, Option.elim_some]
  rw [hr]
  nth_rewrite 2 [← Sign.apply_abs q]
  cases Sign.ofRat q with
  | plus => rfl
  | minus => rw [Sign.apply_minus, Sign.apply_minus, neg_sub_neg, abs_sub_comm]

theorem abs_rounded_sub_le (h : InRange q) : |rounded q - q| ≤ unitError * |q| + leastError := by
  obtain ⟨m, hm, -⟩ := exists_nearest h
  rw [abs_rounded_sub_eq hm]
  exact Magnitude.abs_value_sub_le (abs_nonneg q) hm

theorem abs_rounded_le (h : InRange q) : |rounded q| ≤ (1 + unitError) * |q| + leastError := by
  have herr := abs_rounded_sub_le h
  have := abs_sub_abs_le_abs_sub (rounded q) q
  linarith

theorem le_rounded (h : InRange q) : q - (unitError * |q| + leastError) ≤ rounded q := by
  have herr := (abs_le.1 (abs_rounded_sub_le h)).1
  linarith

theorem rounded_zero : rounded 0 = 0 := rounded_of_representable ⟨.zero, by simp⟩

theorem rounded_nonneg (hq : 0 ≤ q) : 0 ≤ rounded q := by
  have hs : Sign.ofRat q = .plus := by simp [Sign.ofRat, hq]
  rw [rounded, hs, Sign.apply_plus]
  cases Magnitude.nearest? |q| with
  | none => exact le_rfl
  | some m => exact m.value_nonneg

theorem isPositive_ofRat (h : leastError < q) : (ofRat q).isPositive = true := by
  have hq : 0 < q := leastError_pos.trans h
  rw [← Sign.apply_plus q, ofRat_apply .plus hq, round]
  cases hm : Magnitude.nearest? q with
  | none => decide
  | some m =>
    have hz : m ≠ .zero := by
      intro hz
      rw [hz, Magnitude.nearest?_eq_zero_iff hq.le] at hm
      exact absurd hm (not_le.2 h)
    rw [(hasValue_finite .plus m).isPositive_iff, Sign.apply_plus]
    exact lt_of_le_of_ne m.value_nonneg (Ne.symm (mt Magnitude.value_eq_zero_iff.1 hz))

/-- Two rationals that lie far apart for their size round to one number only next to zero. -/
theorem close_of_rounded_eq (hq : InRange q) (hr : InRange r) (h : rounded q = rounded r)
    (hql : |q| ≤ 268435456 * |q - r|) (hrl : |r| ≤ 268435456 * |q - r|) :
    |q - r| ≤ 4 * leastError ∧ |rounded q| ≤ 4294967296 * leastError := by
  have h1 := abs_rounded_sub_le hq
  have h2 := abs_rounded_sub_le hr
  have h3 := abs_rounded_le hq
  rw [← h] at h2
  have htri : |q - r| ≤ |rounded q - q| + |rounded q - r| := by
    rw [abs_sub_comm (rounded q) q]
    exact abs_sub_le q (rounded q) r
  have hpos := leastError_pos
  rw [unitError_eq] at h1 h2 h3
  constructor
  · linarith
  · linarith

theorem abs_rounded_le_of_representable (hr : Representable r) (h : |q| ≤ |r|) :
    |rounded q| ≤ |r| := by
  obtain ⟨m, hm, hround⟩ := exists_nearest ((inRange_of_representable hr).mono h)
  obtain ⟨n, hn⟩ := hr
  rw [hround, Sign.abs_apply _ m.value_nonneg, ← hn]
  exact Magnitude.value_le_value (abs_nonneg q) (hn ▸ h) hm (Magnitude.nearest?_value n)

theorem inRange_of_abs_le_zpow {q : Rat} {k : Int} (h : |q| ≤ (2 : Rat) ^ k) (hl : -1074 ≤ k)
    (hg : k ≤ 970) : InRange q := by
  refine (inRange_of_representable (representable_two_zpow hl hg)).mono ?_
  rwa [abs_of_pos (by positivity : (0 : Rat) < 2 ^ k)]

/-- The number is finite and its magnitude at most `2 ^ k`. -/
def Within (x : Binary64) (k : Int) : Prop := ∃ q, x.HasValue q ∧ |q| ≤ (2 : Rat) ^ k

theorem Within.isFinite {k : Int} (h : x.Within k) : x.isFinite = true := by
  obtain ⟨q, hq, -⟩ := h
  exact hq.isFinite

theorem Agrees.within {k : Int} (h : x.Agrees (ofRat q)) (hq : |q| ≤ (2 : Rat) ^ k)
    (hl : -1074 ≤ k) (hg : k ≤ 970) : x.Within k := by
  have hk : |(2 : Rat) ^ k| = (2 : Rat) ^ k := abs_of_pos (by positivity)
  have hr := representable_two_zpow hl hg
  rw [← hk] at hq
  have hin := (inRange_of_representable hr).mono hq
  have hle := abs_rounded_le_of_representable hr hq
  rw [hk] at hle
  exact ⟨_, h.hasValue (h.isFinite_iff.2 hin), hle⟩

section

variable {j k : Int}

theorem Within.neg (h : x.Within k) : (-x).Within k := by
  obtain ⟨q, hq, hle⟩ := h
  exact ⟨-q, hq.neg, by rwa [abs_neg]⟩

theorem Within.mono (h : x.Within j) (hjk : j ≤ k) : x.Within k := by
  obtain ⟨q, hq, hle⟩ := h
  exact ⟨q, hq, hle.trans (zpow_le_zpow_right₀ (by norm_num) hjk)⟩

theorem Within.add (hx : x.Within k) (hy : y.Within k) (hl : -1075 ≤ k) (hg : k ≤ 969) :
    (x + y).Within (k + 1) := by
  obtain ⟨q, hq, hqk⟩ := hx
  obtain ⟨r, hr, hrk⟩ := hy
  refine (hq.add_agrees hr).within ?_ (by omega) (by omega)
  rw [zpow_add_one₀ (by norm_num)]
  linarith [abs_add_le q r]

theorem Within.sub (hx : x.Within k) (hy : y.Within k) (hl : -1075 ≤ k) (hg : k ≤ 969) :
    (x - y).Within (k + 1) :=
  hx.add hy.neg hl hg

theorem Within.mul (hx : x.Within j) (hy : y.Within k) (hl : -1074 ≤ j + k) (hg : j + k ≤ 970) :
    (x * y).Within (j + k) := by
  obtain ⟨q, hq, hqj⟩ := hx
  obtain ⟨r, hr, hrk⟩ := hy
  refine (hq.mul_agrees hr).within ?_ hl hg
  rw [abs_mul, zpow_add₀ (by norm_num)]
  exact mul_le_mul hqj hrk (abs_nonneg r) (by positivity)

theorem Within.div (hx : x.Within j) (hy : y.HasValue r) (hr : (2 : Rat) ^ (-k) ≤ |r|)
    (hl : -1074 ≤ j + k) (hg : j + k ≤ 970) : (x / y).Within (j + k) := by
  obtain ⟨q, hq, hqj⟩ := hx
  have hpos : 0 < |r| := lt_of_lt_of_le (by positivity) hr
  refine (hq.div_agrees hy (abs_pos.1 hpos)).within ?_ hl hg
  rw [abs_div, div_le_iff₀ hpos, zpow_add₀ (by norm_num), Rat.mul_assoc]
  have hone : 1 ≤ (2 : Rat) ^ k * |r| := by
    calc (1 : Rat) = (2 : Rat) ^ k * (2 : Rat) ^ (-k) := by
          rw [← zpow_add₀ (by norm_num), add_neg_cancel, zpow_zero]
      _ ≤ (2 : Rat) ^ k * |r| := by gcongr
  exact hqj.trans (le_mul_of_one_le_right (by positivity) hone)

theorem Within.sqrt (h : x.Within (2 * k)) (hx : x.isPositive = true) : x.sqrt.Within (k + 1) := by
  obtain ⟨q, hq, hle⟩ := h
  have hpos := hq.isPositive_iff.1 hx
  have hroot := sqrtMagnitude_pos hpos
  rw [abs_of_pos hpos, Int.mul_comm, zpow_mul, zpow_ofNat] at hle
  refine ⟨_, hq.sqrt hpos, ?_⟩
  rw [abs_of_pos hroot, zpow_add_one₀ (by norm_num)]
  refine le_of_sq_le_sq ?_ (by positivity)
  have := (sqrtMagnitude_sq_bounds hpos).2
  have : (0 : Rat) < ((2 : Rat) ^ k) ^ 2 := by positivity
  rw [mul_pow]
  linarith

end

theorem isFinite_of_sub (h : (x - y).isFinite = true) : x.isFinite = true ∧ y.isFinite = true := by
  rw [sub_eq_add_neg] at h
  change (add x (neg y)).isFinite = true at h
  cases x with
  | nan => cases h
  | infinity s =>
    cases y with
    | nan => cases h
    | infinity t => cases s <;> cases t <;> cases h
    | finite t n => cases h
  | finite s m =>
    cases y with
    | nan => cases h
    | infinity t => cases h
    | finite t n => exact ⟨rfl, rfl⟩

theorem isFinite_of_mul (h : (x * y).isFinite = true) : x.isFinite = true ∧ y.isFinite = true := by
  change (mul x y).isFinite = true at h
  cases x with
  | nan => cases h
  | infinity s =>
    cases y with
    | nan => cases h
    | infinity t => cases h
    | finite t n =>
      simp only [mul] at h
      split_ifs at h <;> cases h
  | finite s m =>
    cases y with
    | nan => cases h
    | infinity t =>
      simp only [mul] at h
      split_ifs at h <;> cases h
    | finite t n => exact ⟨rfl, rfl⟩

theorem Representable.least_le (h : Representable q) (hq : q ≠ 0) : 2 * leastError ≤ |q| := by
  obtain ⟨m, hm⟩ := h
  have hpos : 0 < m.value := by
    rw [hm]
    exact abs_pos.2 hq
  have hlog := (Int.zpow_le_iff_le_log (b := 2) (by decide) hpos).2 (log_value_bounds hpos).1
  rw [← hm]
  refine le_trans (le_of_eq ?_) hlog
  rw [leastError, Nat.cast_ofNat, show (-1074 : Int) = 1 + -1075 from rfl, zpow_add₀ (by norm_num),
    zpow_one]

theorem mul_leastError_lt (h : InRange q) : |q| * leastError < 1 / 2251799813685248 := by
  have hpow : (2 : Rat) ^ 1024 * leastError = 1 / 2251799813685248 := by
    rw [leastError, ← zpow_natCast, ← zpow_add₀ (by norm_num)]
    norm_num
  have htop : |q| < (2 : Rat) ^ 1024 := lt_of_lt_of_le h (sub_le_self _ (by positivity))
  have hleast := leastError_pos
  calc |q| * leastError < (2 : Rat) ^ 1024 * leastError := by gcongr
    _ = 1 / 2251799813685248 := hpow

theorem Representable.double (h : Representable q) (hr : InRange (2 * q)) :
    Representable (2 * q) := by
  obtain ⟨m, hm⟩ := h
  have habs : |2 * q| = (m.significand : Rat) * (2 : Rat) ^ (m.exponent + 1) := by
    rw [abs_mul, abs_of_pos (by norm_num), ← hm, Magnitude.value, zpow_add_one₀ (by norm_num)]
    ring
  have hle : m.exponent + 1 ≤ 971 := by
    by_contra hgt
    have he : m.exponent + 1 = 2 + 970 := by
      have := m.le_greatest
      omega
    have hn : (4503599627370496 : Rat) ≤ m.significand := by
      have := m.normal
      exact_mod_cast (by omega : 4503599627370496 ≤ m.significand)
    have hp : (0 : Rat) < (2 : Rat) ^ (970 : Int) := by positivity
    rw [InRange, habs, he, Magnitude.top_eq, zpow_add₀ (by norm_num)] at hr
    generalize (2 : Rat) ^ (970 : Int) = half at hr hp
    nlinarith
  obtain ⟨n, hn⟩ := exists_value_eq m.significand_lt (by have := m.least_le; omega) hle
  exact ⟨n, by rw [hn, habs]⟩

theorem HasValue.double (h : x.HasValue q) (hr : InRange (2 * q)) : (2 * x).HasValue (2 * q) := by
  have h2 : (2 : Binary64).HasValue ((2 : Int) : Rat) := hasValue_ofInt (by norm_num)
  exact h2.mul h (h.representable.double hr)

theorem HasValue.fourfold (h : x.HasValue q) (hr : InRange (4 * q)) : (4 * x).HasValue (4 * q) := by
  have h4 : (4 : Binary64).HasValue ((4 : Int) : Rat) := hasValue_ofInt (by norm_num)
  have hq : 4 * q = 2 * (2 * q) := by ring
  have hle : |2 * q| ≤ |4 * q| := by
    rw [abs_mul, abs_mul, abs_of_pos (by norm_num : (0 : Rat) < 2),
      abs_of_pos (by norm_num : (0 : Rat) < 4)]
    linarith [abs_nonneg q]
  have h2 : Representable (2 * q) := h.representable.double (hr.mono hle)
  refine h4.mul h ?_
  rw [Int.cast_ofNat, hq]
  exact h2.double (hq ▸ hr)

end Binary64

end SchoolAlgebra
