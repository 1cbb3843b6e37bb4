import Mathlib.Data.Int.Log
import Mathlib.Algebra.Order.Field.Power
import Mathlib.Data.Rat.Floor
import Mathlib.Tactic.Linarith
import Mathlib.Tactic.Positivity
import Mathlib.Tactic.FieldSimp
import Mathlib.Tactic.Ring
import Mathlib.Tactic.NormNum
import SchoolAlgebra.Binary64.Arithmetic
set_option autoImplicit false

namespace SchoolAlgebra

theorem floor_toNat_bounds {q : Rat} (hq : 0 ≤ q) :
    ((q.floor.toNat : Nat) : Rat) ≤ q ∧ q < (q.floor.toNat : Nat) + 1 := by
  have h0 : 0 ≤ q.floor := Rat.le_floor_iff.2 (by simpa using hq)
  have hn : ((q.floor.toNat : Nat) : Int) = q.floor := Int.toNat_of_nonneg h0
  have hc : ((q.floor.toNat : Nat) : Rat) = (q.floor : Rat) := by
    rw [← Int.cast_natCast, hn]
  rw [hc]
  have h := Rat.lt_floor_add_one q
  push_cast at h
  exact ⟨Rat.floor_le q, h⟩

/-- The one law of the rounding: where the whole number changes, and on which side of a half. -/
theorem halfEven_le_iff {q : Rat} (hq : 0 ≤ q) (n : Nat) :
    halfEven q ≤ n ↔ q < n + 1 / 2 ∨ q = n + 1 / 2 ∧ n % 2 = 0 := by
  obtain ⟨hl, hu⟩ := floor_toNat_bounds hq
  unfold halfEven
  generalize q.floor.toNat = f at hl hu
  simp only
  -- The half decides only where the floor is `n` itself.
  rcases lt_trichotomy f n with h | h | h
  · have hc : (f : Rat) + 1 ≤ n := by exact_mod_cast h
    have hr : q < n + 1 / 2 := by linarith
    simp only [hr, true_or, iff_true]
    split_ifs <;> omega
  · subst h
    split_ifs with h1 h2 h3
    · simp only [le_refl, true_iff]
      left; linarith
    · simp only [Nat.not_succ_le_self, false_iff]
      intro h
      rcases h with h | ⟨h, -⟩ <;> linarith
    · simp only [le_refl, true_iff]
      exact .inr ⟨by linarith, h3⟩
    · simp only [Nat.not_succ_le_self, false_iff]
      intro h
      rcases h with h | ⟨-, h⟩
      · linarith
      · exact h3 h
  · have hc : (n : Rat) + 1 ≤ f := by exact_mod_cast h
    have hn : ¬(q < n + 1 / 2 ∨ q = n + 1 / 2 ∧ n % 2 = 0) := by
      intro h
      rcases h with h | ⟨h, -⟩ <;> linarith
    simp only [hn, iff_false]
    split_ifs <;> omega

theorem halfEven_natCast (n : Nat) : halfEven (n : Rat) = n := by
  have hn : (0 : Rat) ≤ n := by positivity
  apply le_antisymm
  · exact (halfEven_le_iff hn n).2 (.inl (by linarith))
  · by_contra h
    obtain ⟨k, rfl⟩ : ∃ k, n = k + 1 := ⟨n - 1, by omega⟩
    have hk := (halfEven_le_iff hn k).1 (by omega)
    push_cast at hk
    rcases hk with h | ⟨h, -⟩ <;> linarith

theorem halfEven_le_of_le {q : Rat} (hq : 0 ≤ q) {n : Nat} (h : q ≤ n) : halfEven q ≤ n :=
  (halfEven_le_iff hq n).2 (.inl (by linarith))

theorem le_halfEven_of_le {q : Rat} {n : Nat} (h : (n : Rat) ≤ q) : n ≤ halfEven q := by
  have hq : 0 ≤ q := le_trans (by positivity) h
  by_contra hn
  obtain ⟨k, rfl⟩ : ∃ k, n = k + 1 := ⟨n - 1, by omega⟩
  have hk := (halfEven_le_iff hq k).1 (by omega)
  push_cast at h
  rcases hk with h' | ⟨h', -⟩ <;> linarith

theorem log_eq_of_bounds {b : Nat} (hb : 1 < b) {q : Rat} (hq : 0 < q) {k : Int}
    (hl : (b : Rat) ^ k ≤ q) (hu : q < (b : Rat) ^ (k + 1)) : Int.log b q = k := by
  have h1 := (Int.zpow_le_iff_le_log hb hq).1 hl
  have h2 := (Int.lt_zpow_iff_log_lt hb hq).1 hu
  omega

theorem log_of_quotient {b : Nat} (hb : 1 < b) {q : Rat} (hq : 0 < q) {i j : Nat}
    (hn : b ^ i ≤ q.num.natAbs ∧ q.num.natAbs < b ^ (i + 1))
    (hd : b ^ j ≤ q.den ∧ q.den < b ^ (j + 1)) :
    (if (b : Rat) ^ ((i : Int) - j) ≤ q then (i : Int) - j else (i : Int) - j - 1) =
      Int.log b q := by
  have hb0 : (0 : Rat) < b := by exact_mod_cast (by omega : 0 < b)
  have hden : (0 : Rat) < q.den := by exact_mod_cast q.den_pos
  have hnum : (q.num.natAbs : Rat) = q * q.den := by
    have h1 : ((q.num.natAbs : Int) : Rat) = (q.num : Rat) := by
      rw [Int.natAbs_of_nonneg (Rat.num_nonneg.2 hq.le)]
    rw [Rat.mul_den_eq_num, ← h1]; simp
  have n1 : (b : Rat) ^ i ≤ q * q.den := by rw [← hnum]; exact_mod_cast hn.1
  have n2 : q * q.den < (b : Rat) ^ (i + 1) := by rw [← hnum]; exact_mod_cast hn.2
  have d1 : (b : Rat) ^ j ≤ q.den := by exact_mod_cast hd.1
  have d2 : (q.den : Rat) < (b : Rat) ^ (j + 1) := by exact_mod_cast hd.2
  -- The quotient lies between two powers, and one comparison with the power between them decides.
  split_ifs with h
  · refine (log_eq_of_bounds hb hq h ?_).symm
    have : q * (b : Rat) ^ j < (b : Rat) ^ (i + 1) :=
      lt_of_le_of_lt (mul_le_mul_of_nonneg_left d1 hq.le) n2
    rw [show (i : Int) - j + 1 = ((i + 1 : Nat) : Int) - (j : Nat) by push_cast; ring,
      zpow_sub₀ hb0.ne', zpow_natCast, zpow_natCast, lt_div_iff₀ (by positivity)]
    exact this
  · refine (log_eq_of_bounds hb hq ?_ ?_).symm
    · have : (b : Rat) ^ i < q * (b : Rat) ^ (j + 1) :=
        lt_of_le_of_lt n1 (mul_lt_mul_of_pos_left d2 hq)
      rw [show (i : Int) - j - 1 = (i : Int) - ((j + 1 : Nat) : Int) by push_cast; ring,
        zpow_sub₀ hb0.ne', zpow_natCast, zpow_natCast, div_le_iff₀ (by positivity)]
      exact this.le
    · rw [sub_add_cancel]
      exact not_le.1 h

theorem binaryOrder_eq_log {q : Rat} (hq : 0 < q) : binaryOrder q = Int.log 2 q := by
  have hn : q.num.natAbs ≠ 0 := by simpa using hq.ne'
  exact log_of_quotient (by decide) hq ⟨Nat.log2_self_le hn, Nat.lt_log2_self⟩
    ⟨Nat.log2_self_le q.den_nz, Nat.lt_log2_self⟩

namespace Magnitude

theorem value_nonneg (m : Magnitude) : 0 ≤ m.value := by
  unfold value
  positivity

theorem eq_zero_of_significand {m : Magnitude} (h : m.significand = 0) : m = zero := by
  obtain ⟨n, e, hn, hl, hg, hc⟩ := m
  simp only at h
  subst h
  obtain rfl : e = -1074 := by omega
  rfl

theorem isZero_iff {m : Magnitude} : m.isZero = true ↔ m = zero := by
  constructor
  · intro h
    exact eq_zero_of_significand (by simpa [isZero] using h)
  · intro heq
    subst heq
    rfl

theorem value_eq_zero_iff {m : Magnitude} : m.value = 0 ↔ m = zero := by
  constructor
  · intro h
    have h2 : (2 : Rat) ^ m.exponent ≠ 0 := by positivity
    exact eq_zero_of_significand (by simpa [value, h2] using h)
  · intro heq
    subst heq
    exact value_zero

/-- The exponent at which a positive rational is rounded. -/
def scale (q : Rat) : Int := max (Int.log 2 q - 52) (-1074)

theorem nearest?_eq {q : Rat} (hq : 0 < q) :
    nearest? q = ofParts? (carry (halfEven (q / (2 : Rat) ^ scale q)) (scale q)).1
      (carry (halfEven (q / (2 : Rat) ^ scale q)) (scale q)).2 := by
  simp only [nearest?, hq.ne', if_false, binaryOrder_eq_log hq, scale]

theorem scaled_lt (q : Rat) : q / (2 : Rat) ^ scale q < 9007199254740992 := by
  have h : q < (2 : Rat) ^ (Int.log 2 q + 1) := Int.lt_zpow_succ_log_self (b := 2) (by decide) q
  have hs : Int.log 2 q + 1 ≤ 53 + scale q := by unfold scale; omega
  rw [div_lt_iff₀ (by positivity)]
  calc q < (2 : Rat) ^ (Int.log 2 q + 1) := h
    _ ≤ (2 : Rat) ^ (53 + scale q) := zpow_le_zpow_right₀ (by norm_num) hs
    _ = 9007199254740992 * (2 : Rat) ^ scale q := by
      rw [zpow_add₀ (by norm_num)]
      norm_num

theorem le_scaled {q : Rat} (hq : 0 < q) (h : scale q ≠ -1074) :
    4503599627370496 ≤ q / (2 : Rat) ^ scale q := by
  have hl : (2 : Rat) ^ Int.log 2 q ≤ q := Int.zpow_log_le_self (b := 2) (by decide) hq
  have hs : Int.log 2 q = 52 + scale q := by unfold scale at h ⊢; omega
  rw [le_div_iff₀ (by positivity)]
  calc 4503599627370496 * (2 : Rat) ^ scale q = (2 : Rat) ^ (52 + scale q) := by
        rw [zpow_add₀ (by norm_num)]
        norm_num
    _ ≤ q := hs ▸ hl

theorem scaled_nonneg {q : Rat} (hq : 0 < q) : 0 ≤ q / (2 : Rat) ^ scale q := by positivity

theorem halfEven_scaled_le {q : Rat} (hq : 0 < q) :
    halfEven (q / (2 : Rat) ^ scale q) ≤ 9007199254740992 :=
  halfEven_le_of_le (scaled_nonneg hq) (by exact_mod_cast (scaled_lt q).le)

theorem le_halfEven_scaled {q : Rat} (hq : 0 < q) (h : scale q ≠ -1074) :
    4503599627370496 ≤ halfEven (q / (2 : Rat) ^ scale q) :=
  le_halfEven_of_le (by exact_mod_cast le_scaled hq h)

theorem ofParts?_carry_eq_none_iff {n : Nat} {e : Int} (hn : n ≤ 9007199254740992)
    (hl : -1074 ≤ e) (hc : 4503599627370496 ≤ n ∨ e = -1074) :
    ofParts? (carry n e).1 (carry n e).2 = none ↔ 971 < e ∨ e = 971 ∧ n = 9007199254740992 := by
  unfold ofParts? carry
  by_cases h : n = 9007199254740992
  · simp only [h, if_true]
    split_ifs <;> simp <;> omega
  · simp only [h, if_false]
    split_ifs <;> simp <;> omega

theorem lt_mul_scale (q : Rat) : q < 9007199254740992 * (2 : Rat) ^ scale q := by
  have h := scaled_lt q
  rwa [div_lt_iff₀ (by positivity)] at h

theorem mul_scale_le {q : Rat} (hq : 0 < q) (h : scale q ≠ -1074) :
    4503599627370496 * (2 : Rat) ^ scale q ≤ q := by
  have h := le_scaled hq h
  rwa [le_div_iff₀ (by positivity)] at h

theorem top_eq : (2 : Rat) ^ 1024 - 2 ^ 970 = 18014398509481983 * (2 : Rat) ^ (970 : Int) := by
  have h : (2 : Rat) ^ 1024 = 18014398509481984 * 2 ^ 970 := by
    rw [show 1024 = 54 + 970 from rfl, pow_add]
    norm_num
  rw [h, show (2 : Rat) ^ (970 : Int) = 2 ^ 970 from zpow_natCast 2 970]
  generalize (2 : Rat) ^ 970 = half
  ring

theorem lt_top_of_scale_lt {q : Rat} (h : scale q < 971) : q < (2 : Rat) ^ 1024 - 2 ^ 970 := by
  have hle : (2 : Rat) ^ scale q ≤ (2 : Rat) ^ (970 : Int) :=
    zpow_le_zpow_right₀ (by norm_num) (by omega)
  have hp : (0 : Rat) < (2 : Rat) ^ (970 : Int) := by positivity
  rw [top_eq]
  generalize (2 : Rat) ^ (970 : Int) = half at hle hp ⊢
  linarith only [lt_mul_scale q, hle, hp]

theorem top_le_of_lt_scale {q : Rat} (hq : 0 < q) (h : 971 < scale q) :
    (2 : Rat) ^ 1024 - 2 ^ 970 ≤ q := by
  have h972 : (2 : Rat) ^ (972 : Int) = 4 * (2 : Rat) ^ (970 : Int) := by
    rw [show (972 : Int) = 2 + 970 from rfl, zpow_add₀ (by norm_num)]
    norm_num
  have hle : (2 : Rat) ^ (972 : Int) ≤ (2 : Rat) ^ scale q :=
    zpow_le_zpow_right₀ (by norm_num) (by omega)
  have hp : (0 : Rat) < (2 : Rat) ^ (970 : Int) := by positivity
  rw [h972] at hle
  rw [top_eq]
  generalize (2 : Rat) ^ (970 : Int) = half at hle hp ⊢
  linarith only [mul_scale_le hq (by omega), hle, hp]

/-- At the greatest exponent the significand overflows from a half below the next power on, since
the last significand is odd. -/
theorem halfEven_overflow_iff {q : Rat} (hq : 0 < q) (h : scale q = 971) :
    halfEven (q / (2 : Rat) ^ scale q) = 9007199254740992 ↔ (2 : Rat) ^ 1024 - 2 ^ 970 ≤ q := by
  have hle := halfEven_scaled_le hq
  have hiff := halfEven_le_iff (scaled_nonneg hq) 9007199254740991
  have hn : halfEven (q / (2 : Rat) ^ scale q) = 9007199254740992 ↔
      ¬halfEven (q / (2 : Rat) ^ scale q) ≤ 9007199254740991 := by omega
  have h971 : (2 : Rat) ^ scale q = 2 * (2 : Rat) ^ (970 : Int) := by
    rw [h, show (971 : Int) = 1 + 970 from rfl, zpow_add₀ (by norm_num), zpow_one]
  have hp : (0 : Rat) < (2 : Rat) ^ (970 : Int) := by positivity
  rw [hn, hiff, h971, top_eq]
  generalize (2 : Rat) ^ (970 : Int) = half at hp
  rw [div_lt_iff₀ (by positivity)]
  push_cast
  constructor
  · intro h'
    have := not_lt.1 fun hlt => h' (.inl hlt)
    linarith only [this]
  · intro hle h'
    rcases h' with hlt | ⟨-, hodd⟩
    · linarith only [hle, hlt]
    · omega

/-- From halfway between the greatest magnitude and the next power of two on there is no nearest
magnitude. -/
theorem nearest?_eq_none_iff {q : Rat} (hq : 0 ≤ q) :
    nearest? q = none ↔ (2 : Rat) ^ 1024 - 2 ^ 970 ≤ q := by
  rcases hq.eq_or_lt with rfl | hq
  · have hp : (0 : Rat) < (2 : Rat) ^ (970 : Int) := by positivity
    simp only [nearest?, if_true, reduceCtorEq, false_iff, top_eq]
    generalize (2 : Rat) ^ (970 : Int) = half at hp
    linarith only [hp]
  have hl : -1074 ≤ scale q := le_max_right _ _
  rw [nearest?_eq hq, ofParts?_carry_eq_none_iff (halfEven_scaled_le hq) hl
    (or_iff_not_imp_right.2 (le_halfEven_scaled hq))]
  rcases lt_trichotomy (scale q) 971 with h | h | h
  · have hn := not_le.2 (lt_top_of_scale_lt h)
    simp only [hn, iff_false]
    omega
  · rw [halfEven_overflow_iff hq h]
    simp [h]
  · have hn := top_le_of_lt_scale hq h
    simp only [hn, h, true_or]

theorem eq_zero_of_ofParts?_carry {n : Nat} {e : Int}
    (h : ofParts? (carry n e).1 (carry n e).2 = some zero) : n = 0 := by
  unfold ofParts? carry at h
  by_cases hn : n = 9007199254740992
  · simp [hn, zero] at h
  · simp only [hn, if_false] at h
    split_ifs at h
    simpa [zero] using (Magnitude.mk.inj (Option.some.inj h)).1

theorem scale_of_le {q : Rat} (hq : 0 < q) (h : q ≤ (2 : Rat) ^ (-1075 : Int)) :
    scale q = -1074 := by
  have hlog : Int.log 2 ((2 : Rat) ^ (-1075 : Int)) = -1075 := by
    have := Int.log_zpow (R := Rat) (b := 2) (by decide) (-1075)
    rwa [Nat.cast_ofNat] at this
  have := Int.log_mono_right (b := 2) hq h
  unfold scale
  omega

theorem halfEven_underflow_iff {q : Rat} (hq : 0 < q) (h : scale q = -1074) :
    halfEven (q / (2 : Rat) ^ scale q) = 0 ↔ q ≤ (2 : Rat) ^ (-1075 : Int) := by
  have h1074 : (2 : Rat) ^ scale q = 2 * (2 : Rat) ^ (-1075 : Int) := by
    rw [h, show (-1074 : Int) = 1 + -1075 from rfl, zpow_add₀ (by norm_num), zpow_one]
  have hp : (0 : Rat) < (2 : Rat) ^ (-1075 : Int) := by positivity
  rw [← Nat.le_zero, halfEven_le_iff (scaled_nonneg hq), h1074]
  generalize (2 : Rat) ^ (-1075 : Int) = half at hp
  rw [div_lt_iff₀ (by positivity), div_eq_iff (by positivity)]
  push_cast
  constructor
  · intro h'
    rcases h' with h' | ⟨h', -⟩ <;> linarith only [h']
  · intro hle
    rcases hle.eq_or_lt with h' | h'
    · exact .inr ⟨by linarith only [h'], trivial⟩
    · exact .inl (by linarith only [h'])

theorem nearest?_eq_zero_iff {q : Rat} (hq : 0 ≤ q) :
    nearest? q = some zero ↔ q ≤ (2 : Rat) ^ (-1075 : Int) := by
  rcases hq.eq_or_lt with rfl | hq
  · simp [nearest?]
  rw [nearest?_eq hq]
  constructor
  · intro h
    have hz := eq_zero_of_ofParts?_carry h
    have hs : scale q = -1074 := by
      by_contra hs
      have := le_halfEven_scaled hq hs
      omega
    exact (halfEven_underflow_iff hq hs).1 hz
  · intro h
    have hs := scale_of_le hq h
    rw [(halfEven_underflow_iff hq hs).2 h, hs]
    rfl

theorem scale_value {m : Magnitude} (h : m ≠ zero) : scale m.value = m.exponent := by
  obtain ⟨n, e, hn, hl, hg, hc⟩ := m
  have hpos : (0 : Rat) < n := by
    have : n ≠ 0 := fun h0 => h (eq_zero_of_significand h0)
    exact_mod_cast Nat.pos_of_ne_zero this
  have hv : (0 : Rat) < n * (2 : Rat) ^ e := by positivity
  simp only [scale, value]
  -- A significand of 53 bits shows the scale by its order; a shorter one has the least exponent.
  by_cases hn' : 4503599627370496 ≤ n
  · have hlog : Int.log 2 ((n : Rat) * (2 : Rat) ^ e) = 52 + e := by
      apply log_eq_of_bounds (by decide) hv
      · have : (4503599627370496 : Rat) ≤ n := by exact_mod_cast hn'
        calc ((2 : Nat) : Rat) ^ (52 + e) = 4503599627370496 * (2 : Rat) ^ e := by
              rw [zpow_add₀ (by norm_num)]
              norm_num
          _ ≤ n * (2 : Rat) ^ e := by gcongr
      · have : (n : Rat) < 9007199254740992 := by exact_mod_cast hn
        calc (n : Rat) * (2 : Rat) ^ e < 9007199254740992 * (2 : Rat) ^ e := by gcongr
          _ = ((2 : Nat) : Rat) ^ (52 + e + 1) := by
              rw [show 52 + e + 1 = 53 + e by ring, zpow_add₀ (by norm_num)]
              norm_num
    omega
  · obtain rfl : e = -1074 := by omega
    have hlog : Int.log 2 ((n : Rat) * (2 : Rat) ^ (-1074 : Int)) < -1022 := by
      apply (Int.lt_zpow_iff_log_lt (by decide) hv).1
      have : (n : Rat) < 4503599627370496 := by exact_mod_cast not_le.1 hn'
      calc (n : Rat) * (2 : Rat) ^ (-1074 : Int) <
            4503599627370496 * (2 : Rat) ^ (-1074 : Int) := by gcongr
        _ = ((2 : Nat) : Rat) ^ (-1022 : Int) := by
            rw [show (-1022 : Int) = 52 + -1074 from rfl, zpow_add₀ (by norm_num)]
            norm_num
    omega

theorem nearest?_value (m : Magnitude) : nearest? m.value = some m := by
  by_cases h : m = zero
  · subst h
    simp [nearest?]
  · have hv : 0 < m.value := lt_of_le_of_ne m.value_nonneg fun h0 =>
      h (value_eq_zero_iff.1 h0.symm)
    have hq : m.value / (2 : Rat) ^ m.exponent = m.significand := by
      rw [value, mul_div_assoc, div_self (by positivity), mul_one]
    rw [nearest?_eq hv, scale_value h, hq, halfEven_natCast, carry, if_neg m.significand_lt.ne]
    exact ofParts?_self m

end Magnitude

namespace Binary64

theorem round_value (s : Sign) (m : Magnitude) : round s m.value = .finite s m := by
  simp [round, Magnitude.nearest?_value]

theorem round_zero (s : Sign) : round s 0 = .finite s .zero := by
  rw [← Magnitude.value_zero, round_value]

theorem isFinite_round_iff {q : Rat} (hq : 0 ≤ q) (s : Sign) :
    (round s q).isFinite = true ↔ q < (2 : Rat) ^ 1024 - 2 ^ 970 := by
  rw [← not_le, ← Magnitude.nearest?_eq_none_iff hq, round]
  cases Magnitude.nearest? q <;> simp [isFinite]

theorem isZero_round_iff {q : Rat} (hq : 0 ≤ q) (s : Sign) :
    (round s q).isZero = true ↔ q ≤ (2 : Rat) ^ (-1075 : Int) := by
  rw [← Magnitude.nearest?_eq_zero_iff hq, round]
  cases Magnitude.nearest? q <;> simp [isZero, Magnitude.isZero_iff]

end Binary64

end SchoolAlgebra
