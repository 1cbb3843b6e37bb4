import SchoolAlgebra.Proofs.Value
set_option autoImplicit false

namespace SchoolAlgebra.Binary64

def rootPlace (q : Rat) : Int := Int.log 2 q / 2 - 52

/-- A whole number next to the root of a radicand, told by squares. -/
structure NextToRoot (radicand : Rat) (n : Nat) : Prop where
  low : (2 * (n : Rat) - 1) ^ 2 ≤ 4 * radicand
  high : 4 * radicand ≤ (2 * (n : Rat) + 1) ^ 2

theorem NextToRoot.eq {n k : Nat} (h : NextToRoot ((k : Rat) ^ 2) n) (hn : 0 < n) : n = k := by
  have hlow : (2 * (n : Rat) - 1) ^ 2 ≤ (2 * (k : Rat)) ^ 2 := by linarith [h.low]
  have hhigh : (2 * (k : Rat)) ^ 2 ≤ (2 * (n : Rat) + 1) ^ 2 := by linarith [h.high]
  have hlow := le_of_abs_le (abs_le_of_sq_le_sq hlow (by positivity))
  have hhigh := le_of_abs_le (abs_le_of_sq_le_sq hhigh (by positivity))
  have h1 : 2 * (n : Rat) < 2 * k + 2 := by linarith
  have h2 : 2 * (k : Rat) < 2 * n + 2 := by linarith
  have h1 : 2 * n < 2 * k + 2 := by exact_mod_cast h1
  have h2 : 2 * k < 2 * n + 2 := by exact_mod_cast h2
  omega

theorem four_zpow (e : Int) : (4 : Rat) ^ e = ((2 : Rat) ^ e) ^ 2 := by
  rw [show (4 : Rat) = 2 * 2 by norm_num, mul_zpow, sq]

variable {q : Rat}

theorem radicand_bounds (hq : 0 < q) :
    (4503599627370496 : Rat) ^ 2 ≤ q / (4 : Rat) ^ rootPlace q ∧
      q / (4 : Rat) ^ rootPlace q < (9007199254740992 : Rat) ^ 2 := by
  have hl : (2 : Rat) ^ Int.log 2 q ≤ q := Int.zpow_log_le_self (b := 2) (by decide) hq
  have hu : q < (2 : Rat) ^ (Int.log 2 q + 1) := Int.lt_zpow_succ_log_self (b := 2) (by decide) q
  have h4 : ∀ k : Int, (4 : Rat) ^ k = (2 : Rat) ^ (2 * k) := fun k => by
    rw [zpow_mul]
    norm_num
  rw [le_div_iff₀ (by positivity), div_lt_iff₀ (by positivity), h4]
  constructor
  · calc (4503599627370496 : Rat) ^ 2 * (2 : Rat) ^ (2 * rootPlace q) =
          (2 : Rat) ^ (104 + 2 * rootPlace q) := by
          rw [zpow_add₀ (by norm_num)]
          norm_num
      _ ≤ (2 : Rat) ^ Int.log 2 q :=
          zpow_le_zpow_right₀ (by norm_num) (by unfold rootPlace; omega)
      _ ≤ q := hl
  · calc q < (2 : Rat) ^ (Int.log 2 q + 1) := hu
      _ ≤ (2 : Rat) ^ (106 + 2 * rootPlace q) :=
          zpow_le_zpow_right₀ (by norm_num) (by unfold rootPlace; omega)
      _ = (9007199254740992 : Rat) ^ 2 * (2 : Rat) ^ (2 * rootPlace q) := by
          rw [zpow_add₀ (by norm_num)]
          norm_num

theorem exists_sqrtMagnitude (hq : 0 < q) :
    ∃ n : Nat, sqrtMagnitude q = (n : Rat) * (2 : Rat) ^ rootPlace q ∧
      4503599627370496 ≤ n ∧ n ≤ 9007199254740992 ∧
      NextToRoot (q / (4 : Rat) ^ rootPlace q) n := by
  obtain ⟨hl, hu⟩ := radicand_bounds hq
  have he : binaryOrder q / 2 - 52 = rootPlace q := by rw [binaryOrder_eq_log hq, rootPlace]
  simp only [sqrtMagnitude, he]
  generalize q / (4 : Rat) ^ rootPlace q = radicand at hl hu
  have hr : 0 ≤ radicand := le_trans (by positivity) hl
  obtain ⟨hf1, hf2⟩ := floor_toNat_bounds hr
  generalize hf : radicand.floor.toNat = f at hf1 hf2
  have hs1 : (Nat.sqrt f : Rat) ^ 2 ≤ f := by exact_mod_cast Nat.sqrt_le' f
  have hs2 : (f : Rat) + 1 ≤ ((Nat.sqrt f : Rat) + 1) ^ 2 := by
    exact_mod_cast Nat.lt_succ_sqrt' f
  have hn1 : 4503599627370496 ≤ Nat.sqrt f := by
    have h : (4503599627370496 : Rat) ^ 2 < (f : Rat) + 1 := lt_of_le_of_lt hl hf2
    rw [Nat.le_sqrt']
    exact Nat.lt_succ_iff.1 (by exact_mod_cast h)
  have hn2 : Nat.sqrt f < 9007199254740992 := by
    rw [Nat.sqrt_lt']
    exact_mod_cast lt_of_le_of_lt hf1 hu
  -- Of the root of the floor only its bounds and those of its square matter from here on.
  generalize Nat.sqrt f = n at hs1 hs2 hn1 hn2
  have hn : (4503599627370496 : Rat) ≤ n := by exact_mod_cast hn1
  refine ⟨_, rfl, ?_, ?_, ?_⟩
  · split_ifs <;> omega
  · split_ifs <;> omega
  · split_ifs with h
    · constructor
      · push_cast
        linarith
      · push_cast
        nlinarith
    · constructor
      · nlinarith
      · linarith [not_lt.1 h]

theorem sqrtMagnitude_pos (hq : 0 < q) : 0 < sqrtMagnitude q := by
  obtain ⟨n, hn, hlow, -, -⟩ := exists_sqrtMagnitude hq
  have hpos : (0 : Rat) < n := by exact_mod_cast (by omega : 0 < n)
  rw [hn]
  positivity

/-- By its square a root is far closer to the exact one than this. -/
theorem sqrtMagnitude_sq_bounds (hq : 0 < q) :
    q ≤ 2 * sqrtMagnitude q ^ 2 ∧ sqrtMagnitude q ^ 2 ≤ 2 * q := by
  obtain ⟨n, hn, hlow, -, hnext⟩ := exists_sqrtMagnitude hq
  have hn' : (4503599627370496 : Rat) ≤ n := by exact_mod_cast hlow
  have hp : (0 : Rat) < (4 : Rat) ^ rootPlace q := by positivity
  have hrad : q = q / (4 : Rat) ^ rootPlace q * (4 : Rat) ^ rootPlace q :=
    (div_mul_cancel₀ q hp.ne').symm
  obtain ⟨h1, h2⟩ := hnext
  rw [hn, mul_pow, ← four_zpow]
  generalize q / (4 : Rat) ^ rootPlace q = radicand at hrad h1 h2
  generalize (4 : Rat) ^ rootPlace q = place at hp hrad
  subst hrad
  constructor
  · have h : radicand ≤ 2 * (n : Rat) ^ 2 := by nlinarith
    nlinarith
  · have h : (n : Rat) ^ 2 ≤ 2 * radicand := by nlinarith
    nlinarith

theorem log_value_bounds {m : Magnitude} (hm : 0 < m.value) :
    -1074 ≤ Int.log 2 m.value ∧ Int.log 2 m.value ≤ 1023 := by
  have hz : m ≠ .zero := fun h => by simp [h] at hm
  have hs := Magnitude.scale_value hz
  have hg := m.le_greatest
  refine ⟨?_, by unfold Magnitude.scale at hs; omega⟩
  have hn : (1 : Rat) ≤ m.significand := by
    have : m.significand ≠ 0 := fun h => hz (Magnitude.eq_zero_of_significand h)
    exact_mod_cast Nat.pos_of_ne_zero this
  apply (Int.zpow_le_iff_le_log (by decide) hm).1
  calc ((2 : Nat) : Rat) ^ (-1074 : Int) ≤ (2 : Rat) ^ m.exponent :=
        zpow_le_zpow_right₀ (by norm_num) m.least_le
    _ ≤ m.value := le_mul_of_one_le_left (by positivity) hn

theorem representable_sqrtMagnitude {m : Magnitude} (hm : 0 < m.value) :
    Representable (sqrtMagnitude m.value) := by
  obtain ⟨n, hn, -, hle, -⟩ := exists_sqrtMagnitude hm
  obtain ⟨hlow, hhigh⟩ := log_value_bounds hm
  rw [hn]
  exact representable_intCast_mul (n := n) (by simpa using hle) (by unfold rootPlace; omega)
    (by unfold rootPlace; omega)

theorem HasValue.sqrt {x : Binary64} (h : x.HasValue q) (hq : 0 < q) :
    x.sqrt.HasValue (sqrtMagnitude q) := by
  obtain ⟨s, m, rfl, rfl⟩ := h.exists_eq
  have hm := m.value_nonneg
  cases s with
  | minus => exact absurd hq (by simpa using hm)
  | plus =>
    have hz : m.isZero = false := by
      rw [Bool.eq_false_iff, ne_eq, Magnitude.isZero_iff]
      exact fun h => by simp [h] at hq
    rw [Sign.apply_plus] at hq ⊢
    simp only [Binary64.sqrt, hz]
    exact .of_agrees_ofRat (round_agrees .plus (sqrtMagnitude_pos hq).le)
      (representable_sqrtMagnitude hq)

theorem sqrtMagnitude_sq {m : Magnitude} (hm : 0 < m.value) :
    sqrtMagnitude (m.value ^ 2) = m.value := by
  have hz : m ≠ .zero := fun h => by simp [h] at hm
  have hlog : Int.log 2 (m.value ^ 2) / 2 = Int.log 2 m.value := by
    have hl : (2 : Rat) ^ Int.log 2 m.value ≤ m.value := Int.zpow_log_le_self (b := 2) (by decide) hm
    have hu : m.value < (2 : Rat) ^ (Int.log 2 m.value + 1) :=
      Int.lt_zpow_succ_log_self (b := 2) (by decide) m.value
    have hsq : ∀ k : Int, ((2 : Rat) ^ k) ^ 2 = ((2 : Nat) : Rat) ^ (2 * k) := fun k => by
      rw [Int.mul_comm, zpow_mul]
      norm_cast
    have h1 := (Int.zpow_le_iff_le_log (b := 2) (by decide) (pow_pos hm 2)).1
      ((hsq _).symm.trans_le (pow_le_pow_left₀ (by positivity) hl 2))
    have h2 := (Int.lt_zpow_iff_log_lt (b := 2) (by decide) (pow_pos hm 2)).1
      ((pow_lt_pow_left₀ hu hm.le (by norm_num)).trans_eq (hsq _))
    omega
  have hplace : rootPlace (m.value ^ 2) ≤ m.exponent := by
    have hs := Magnitude.scale_value hz
    unfold Magnitude.scale at hs
    unfold rootPlace
    omega
  obtain ⟨k, hk⟩ := m.exists_multiple hplace
  obtain ⟨n, hn, hpos, -, hnext⟩ := exists_sqrtMagnitude (pow_pos hm 2)
  generalize rootPlace (m.value ^ 2) = e at hk hn hnext
  have hrad : m.value ^ 2 / (4 : Rat) ^ e = (k : Rat) ^ 2 := by
    rw [hk, four_zpow, mul_pow, mul_div_cancel_right₀ _ (by positivity)]
  rw [hrad] at hnext
  rw [hn, hk, hnext.eq (by omega)]

end SchoolAlgebra.Binary64
