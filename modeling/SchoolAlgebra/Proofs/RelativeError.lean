import Mathlib.Algebra.Order.Group.MinMax
import SchoolAlgebra.Proofs.ErrorBounds
set_option autoImplicit false

/-!
Relative errors. Among numbers far from both ends of the format a rounding errs by one unit at most, and so
does every difference of two numbers of the format; a product or a quotient errs by the sum of the errors of
its operands and something smaller.
-/

namespace SchoolAlgebra
open Binary64

/-- Zero, or a magnitude between `2 ^ -k` and `2 ^ k`. -/
def Sized (k : Nat) (q : Rat) : Prop :=
  q = 0 ∨ (2 : Rat) ^ (-k : Int) ≤ |q| ∧ |q| ≤ (2 : Rat) ^ (k : Int)

namespace Sized

variable {j k : Nat} {q r : Rat}

theorem abs_le (h : Sized k q) : |q| ≤ (2 : Rat) ^ (k : Int) := by
  rcases h with rfl | h
  · rw [abs_zero]
    positivity
  · exact h.2

theorem le_abs (h : Sized k q) (hq : q ≠ 0) : (2 : Rat) ^ (-k : Int) ≤ |q| :=
  (h.resolve_left hq).1

theorem mono (h : Sized j q) (hjk : j ≤ k) : Sized k q := by
  rcases h with h | ⟨hl, hu⟩
  · exact .inl h
  · right
    exact ⟨(zpow_le_zpow_right₀ (by norm_num) (by omega)).trans hl,
      hu.trans (zpow_le_zpow_right₀ (by norm_num) (by omega))⟩

theorem neg (h : Sized k q) : Sized k (-q) := by
  rwa [Sized, neg_eq_zero, abs_neg]

theorem abs (h : Sized k q) : Sized k |q| := by
  rwa [Sized, abs_eq_zero, abs_abs]

theorem max (hq : Sized k q) (hr : Sized k r) : Sized k (max q r) := by
  rcases max_choice q r with h | h <;> rwa [h]

theorem mul (hq : Sized j q) (hr : Sized k r) : Sized (j + k) (q * r) := by
  rcases hq with rfl | ⟨hql, hqu⟩
  · exact .inl (zero_mul r)
  rcases hr with rfl | ⟨hrl, hru⟩
  · exact .inl (mul_zero q)
  right
  rw [abs_mul, Nat.cast_add, neg_add, zpow_add₀ (by norm_num), zpow_add₀ (by norm_num)]
  exact ⟨mul_le_mul hql hrl (by positivity) (abs_nonneg q),
    mul_le_mul hqu hru (abs_nonneg r) (by positivity)⟩

theorem inv (h : Sized k q) : Sized k q⁻¹ := by
  rcases h with rfl | ⟨hl, hu⟩
  · exact .inl inv_zero
  right
  have hpos : 0 < |q| := lt_of_lt_of_le (by positivity) hl
  constructor
  · rw [abs_inv, zpow_neg]
    exact inv_anti₀ hpos hu
  · rw [abs_inv, inv_le_comm₀ hpos (by positivity), ← zpow_neg]
    exact hl

theorem div (hq : Sized j q) (hr : Sized k r) : Sized (j + k) (q / r) := by
  rw [div_eq_mul_inv]
  exact hq.mul hr.inv

theorem two_zpow {e : Int} (hl : -k ≤ e) (hg : e ≤ k) : Sized k ((2 : Rat) ^ e) := by
  right
  rw [abs_of_pos (by positivity)]
  exact ⟨zpow_le_zpow_right₀ (by norm_num) hl, zpow_le_zpow_right₀ (by norm_num) hg⟩

theorem inRange (h : Sized k q) (hk : k ≤ 970) : InRange q :=
  inRange_of_abs_le_zpow h.abs_le (by omega) (by omega)

theorem inRange_sub (hq : Sized k q) (hr : Sized k r) (hk : k ≤ 969) : InRange (q - r) := by
  refine inRange_of_abs_le_zpow (k := k + 1) ?_ (by omega) (by omega)
  have htri := abs_sub q r
  have hq := hq.abs_le
  have hr := hr.abs_le
  rw [zpow_add_one₀ (by norm_num)]
  linarith

end Sized

theorem le_abs_rounded_of_representable {q r : Rat} (hr : Representable r) (hq : InRange q)
    (h : |r| ≤ |q|) : |r| ≤ |rounded q| := by
  obtain ⟨m, hm, hround⟩ := exists_nearest hq
  obtain ⟨n, hn⟩ := hr
  rw [hround, Sign.abs_apply _ m.value_nonneg, ← hn]
  exact Magnitude.value_le_value (abs_nonneg r) h (hn ▸ Magnitude.nearest?_value n) hm

theorem sized_rounded {k : Nat} {q : Rat} (h : Sized k q) (hk : k ≤ 970) :
    Sized k (rounded q) := by
  have hin := h.inRange hk
  rcases h with rfl | ⟨hle, hge⟩
  · exact .inl rounded_zero
  right
  have hpos : ∀ e : Int, |(2 : Rat) ^ e| = (2 : Rat) ^ e := fun e => abs_of_pos (by positivity)
  rw [← hpos] at hle hge
  have h1 := le_abs_rounded_of_representable (representable_two_zpow (by omega) (by omega)) hin hle
  have h2 := abs_rounded_le_of_representable (representable_two_zpow (by omega) (by omega)) hge
  rw [hpos] at h1 h2
  exact ⟨h1, h2⟩

/-- The number `r` is `q` up to the relative error `ε`. -/
def Near (ε q r : Rat) : Prop := |r - q| ≤ ε * |q|

namespace Near

variable {ε δ q r s t : Rat}

theorem abs_le (h : Near ε q r) : |r| ≤ (1 + ε) * |q| := by
  have := abs_sub_abs_le_abs_sub r q
  unfold Near at h
  linarith

theorem le_abs (h : Near ε q r) : (1 - ε) * |q| ≤ |r| := by
  have := abs_sub_abs_le_abs_sub q r
  rw [abs_sub_comm] at this
  unfold Near at h
  linarith

theorem mono (h : Near ε q r) (hε : ε ≤ δ) : Near δ q r := by
  refine le_trans h ?_
  gcongr

theorem neg (h : Near ε q r) : Near ε (-q) (-r) := by
  rwa [Near, neg_sub_neg, abs_sub_comm, abs_neg]

theorem const_mul (h : Near ε q r) (k : Rat) : Near ε (k * q) (k * r) := by
  rw [Near, ← mul_sub, abs_mul, abs_mul, mul_left_comm]
  exact mul_le_mul_of_nonneg_left h (abs_nonneg k)

theorem abs (h : Near ε q r) : Near ε |q| |r| := by
  rw [Near, abs_abs]
  exact (abs_abs_sub_abs_le r q).trans h

theorem max (h : Near ε q r) (h' : Near ε s t) (hε : 0 ≤ ε) (hq : 0 ≤ q) (hs : 0 ≤ s) :
    Near ε (max q s) (max r t) := by
  rw [Near, abs_of_nonneg hq] at h
  rw [Near, abs_of_nonneg hs] at h'
  rw [Near, abs_of_nonneg (le_max_of_le_left hq), mul_max_of_nonneg q s hε]
  exact (abs_max_sub_max_le_max r t q s).trans (max_le_max h h')

theorem trans (h : Near ε q r) (h' : Near δ r s) (hδ : 0 ≤ δ) : Near (ε + δ + ε * δ) q s := by
  have hr : δ * |r| ≤ δ * ((1 + ε) * |q|) := mul_le_mul_of_nonneg_left h.abs_le hδ
  have htri := abs_sub_le s r q
  unfold Near at *
  linarith

theorem mul (h : Near ε q r) (h' : Near δ s t) (hδ : 0 ≤ δ) :
    Near (ε + δ + ε * δ) (q * s) (r * t) := by
  have h1 := h.const_mul s
  rw [mul_comm s q, mul_comm s r] at h1
  exact h1.trans (h'.const_mul r) hδ

theorem ne_zero (h : Near ε q r) (hε : ε < 1) (hq : q ≠ 0) : r ≠ 0 := by
  have hpos : 0 < (1 - ε) * |q| := mul_pos (sub_pos.2 hε) (abs_pos.2 hq)
  exact abs_pos.1 (hpos.trans_le h.le_abs)

theorem inv (h : Near ε q r) (hε : ε < 1) (hq : q ≠ 0) : Near (ε / (1 - ε)) q⁻¹ r⁻¹ := by
  have hq' : 0 < |q| := abs_pos.2 hq
  have hr := h.ne_zero hε hq
  have heq : r⁻¹ - q⁻¹ = (q - r) / (q * r) := by field_simp
  rw [Near, heq, abs_div, abs_mul, abs_sub_comm, abs_inv, div_le_iff₀ (by positivity)]
  calc |r - q| ≤ ε * |q| := h
    _ = ε / (1 - ε) * |q|⁻¹ * (|q| * ((1 - ε) * |q|)) := by
        field_simp [(sub_pos.2 hε).ne']
    _ ≤ ε / (1 - ε) * |q|⁻¹ * (|q| * |r|) := by
        have hnonneg : 0 ≤ ε := by
          have := (abs_nonneg (r - q)).trans h
          exact nonneg_of_mul_nonneg_left this hq'
        have : 0 ≤ ε / (1 - ε) := div_nonneg hnonneg (sub_pos.2 hε).le
        gcongr
        exact h.le_abs

end Near

theorem near_rounded {q : Rat} (hin : InRange q) (hq : (2 : Rat) ^ (-1022 : Int) ≤ |q|) :
    Near unitError q (rounded q) := by
  have hpos : 0 < |q| := lt_of_lt_of_le (by positivity) hq
  obtain ⟨m, hm, -⟩ := exists_nearest hin
  have hhalf := Magnitude.abs_value_sub_le_half hpos hm
  have hscale : 4503599627370496 * (2 : Rat) ^ Magnitude.scale |q| ≤ |q| := by
    by_cases hs : Magnitude.scale |q| = -1074
    · rw [hs]
      refine le_trans (le_of_eq ?_) hq
      rw [show (-1022 : Int) = 52 + -1074 from rfl, zpow_add₀ (by norm_num)]
      norm_num
    · exact Magnitude.mul_scale_le hpos hs
  rw [Near, abs_rounded_sub_eq hm, unitError_eq]
  linarith

theorem near_rounded_of_sized {k : Nat} {q : Rat} (h : Sized k q) (hk : k ≤ 970) :
    Near unitError q (rounded q) := by
  rcases eq_or_ne q 0 with rfl | hq
  · rw [Near, rounded_zero, sub_zero, abs_zero, mul_zero]
  · exact near_rounded (h.inRange hk)
      (le_trans (zpow_le_zpow_right₀ (by norm_num) (by omega)) (h.le_abs hq))

/-- A number of the format lies on every grid that it exceeds by 52 places. -/
theorem Binary64.Representable.exists_int {q : Rat} {s : Int} (h : Representable q)
    (hs : s ≤ -1074 ∨ 4503599627370496 * (2 : Rat) ^ s ≤ |q|) :
    ∃ n : Int, q = (n : Rat) * (2 : Rat) ^ s := by
  obtain ⟨m, hm⟩ := h
  have hexp : s ≤ m.exponent := by
    rcases hs with hs | hs
    · exact hs.trans m.least_le
    · by_contra hlt
      exact absurd (m.value_lt (not_le.1 hlt)) (not_lt.2 (hm ▸ hs))
  obtain ⟨k, hk⟩ := m.exists_multiple hexp
  rw [hm] at hk
  rcases abs_choice q with hq | hq
  · exact ⟨k, by rw [← hq, hk, Int.cast_natCast]⟩
  · refine ⟨-k, ?_⟩
    rw [Int.cast_neg, Int.cast_natCast, neg_mul, ← hk]
    exact neg_eq_iff_eq_neg.1 hq.symm

theorem Sized.sub_of_representable {k : Nat} {q r : Rat} (hq : Sized k q) (hr : Sized k r)
    (hrq : Representable q) (hrr : Representable r) : Sized (k + 52) (q - r) := by
  by_cases hzq : q = 0
  · rw [hzq, zero_sub]
    exact hr.neg.mono (by omega)
  by_cases hzr : r = 0
  · rw [hzr, sub_zero]
    exact hq.mono (by omega)
  have hgrid : (4503599627370496 : Rat) * (2 : Rat) ^ (-((k + 52 : Nat) : Int)) =
      (2 : Rat) ^ (-k : Int) := by
    rw [Nat.cast_add, neg_add, zpow_add₀ (by norm_num)]
    norm_num
    ring
  -- Both are multiples of the least place that a number of their size can have, and so is the difference.
  obtain ⟨m, hm⟩ := hrq.exists_int (.inr (hgrid.trans_le (hq.le_abs hzq)))
  obtain ⟨n, hn⟩ := hrr.exists_int (.inr (hgrid.trans_le (hr.le_abs hzr)))
  by_cases hmn : m - n = 0
  · left
    rw [hm, hn, ← sub_mul, ← Int.cast_sub, hmn, Int.cast_zero, zero_mul]
  · right
    constructor
    · have hone : (1 : Rat) ≤ |((m - n : Int) : Rat)| := by
        exact_mod_cast Int.one_le_abs hmn
      rw [hm, hn, ← sub_mul, ← Int.cast_sub, abs_mul, abs_of_pos (a := (2 : Rat) ^ _) (by positivity)]
      exact le_mul_of_one_le_left (by positivity) hone
    · calc |q - r| ≤ |q| + |r| := abs_sub q r
        _ ≤ (2 : Rat) ^ (k : Int) + (2 : Rat) ^ (k : Int) := add_le_add hq.abs_le hr.abs_le
        _ = (2 : Rat) ^ ((k + 1 : Nat) : Int) := by
            rw [Nat.cast_add, zpow_add₀ (by norm_num)]
            norm_num
            ring
        _ ≤ (2 : Rat) ^ ((k + 52 : Nat) : Int) := zpow_le_zpow_right₀ (by norm_num) (by omega)

/-- Next to zero differences are exact, since all numbers are multiples of the least one. -/
theorem near_rounded_sub {q r : Rat} (hq : Representable q) (hr : Representable r)
    (hin : InRange (q - r)) : Near unitError (q - r) (rounded (q - r)) := by
  by_cases hn : (2 : Rat) ^ (-1022 : Int) ≤ |q - r|
  · exact near_rounded hin hn
  · obtain ⟨m, rfl⟩ := hq.exists_int (.inl le_rfl)
    obtain ⟨n, rfl⟩ := hr.exists_int (.inl le_rfl)
    have hrep : Representable ((m : Rat) * (2 : Rat) ^ (-1074 : Int) -
        (n : Rat) * (2 : Rat) ^ (-1074 : Int)) := by
      have hlt := not_le.1 hn
      rw [← sub_mul, abs_mul, abs_of_pos (by positivity : (0 : Rat) < (2 : Rat) ^ (-1074 : Int)),
        show (-1022 : Int) = 52 + -1074 from rfl, zpow_add₀ (by norm_num)] at hlt
      have hlt := lt_of_mul_lt_mul_right hlt (by positivity)
      have hlt : |m - n| < 4503599627370496 := by
        rw [← Int.cast_lt (R := Rat)]
        push_cast
        norm_num at hlt
        exact hlt
      rw [← sub_mul, ← Int.cast_sub]
      refine representable_intCast_mul ?_ (by norm_num) (by norm_num)
      rw [Int.abs_eq_natAbs] at hlt
      omega
    rw [Near, rounded_of_representable hrep, sub_self, abs_zero, unitError_eq]
    positivity

end SchoolAlgebra
