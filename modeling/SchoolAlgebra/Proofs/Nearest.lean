import SchoolAlgebra.Proofs.Rounding
set_option autoImplicit false

/-!
Rounding to binary64 as a choice among all values of the format: no other value lies closer, a tie goes
to the even significand, and so rounding keeps the order and errs by half a last place at most.
-/

namespace SchoolAlgebra

/-- The rounded whole number lies within a half, and at a half it is even. -/
structure HalfEvenBounds (q : Rat) (n : Nat) : Prop where
  le : (n : Rat) - 1 / 2 ≤ q
  ge : q ≤ n + 1 / 2
  even_low : q = n - 1 / 2 → n % 2 = 0
  even_high : q = n + 1 / 2 → n % 2 = 0

theorem halfEven_bounds {q : Rat} (hq : 0 ≤ q) : HalfEvenBounds q (halfEven q) := by
  have hu := (halfEven_le_iff hq (halfEven q)).1 le_rfl
  generalize hn : halfEven q = n at hu
  have hl : (n : Rat) - 1 / 2 ≤ q ∧ (q = n - 1 / 2 → n % 2 = 0) := by
    cases n with
    | zero =>
      refine ⟨?_, fun _ => rfl⟩
      push_cast
      linarith
    | succ k =>
      have hk : ¬halfEven q ≤ k := by omega
      rw [halfEven_le_iff hq, not_or, not_lt, not_and] at hk
      obtain ⟨hk, hodd⟩ := hk
      push_cast at hk ⊢
      refine ⟨by linarith, fun heq => ?_⟩
      have := hodd (by linarith)
      omega
  refine ⟨hl.1, ?_, hl.2, ?_⟩
  · rcases hu with h | ⟨h, -⟩ <;> linarith
  · intro heq
    rcases hu with h | ⟨-, h⟩
    · linarith
    · exact h

namespace HalfEvenBounds

variable {q : Rat} {n : Nat}

theorem abs_sub_le (h : HalfEvenBounds q n) : |(n : Rat) - q| ≤ 1 / 2 := by
  rw [abs_le]
  exact ⟨by linarith [h.ge], by linarith [h.le]⟩

theorem abs_sub_ge (h : HalfEvenBounds q n) {k : Nat} (hk : k ≠ n) : 1 / 2 ≤ |(k : Rat) - q| := by
  rcases Nat.lt_or_gt_of_ne hk with hlt | hgt
  · have hc : (k : Rat) + 1 ≤ n := by exact_mod_cast hlt
    exact le_trans (by linarith [h.le]) (neg_le_abs _)
  · have hc : (n : Rat) + 1 ≤ k := by exact_mod_cast hgt
    exact le_trans (by linarith [h.ge]) (le_abs_self _)

theorem nearest (h : HalfEvenBounds q n) (k : Nat) : |(n : Rat) - q| ≤ |(k : Rat) - q| := by
  by_cases hk : k = n
  · rw [hk]
  · exact h.abs_sub_le.trans (h.abs_sub_ge hk)

theorem even_of_tie (h : HalfEvenBounds q n) {k : Nat} (hk : k ≠ n)
    (ht : |(k : Rat) - q| = |(n : Rat) - q|) : n % 2 = 0 := by
  have hhalf : |(n : Rat) - q| = 1 / 2 := le_antisymm h.abs_sub_le (ht ▸ h.abs_sub_ge hk)
  rcases abs_eq (by norm_num) |>.1 hhalf with h' | h'
  · exact h.even_low (by linarith)
  · exact h.even_high (by linarith)

end HalfEvenBounds

namespace Magnitude

theorem exists_multiple (m : Magnitude) {s : Int} (h : s ≤ m.exponent) :
    ∃ k : Nat, m.value = (k : Rat) * (2 : Rat) ^ s := by
  obtain ⟨j, hj⟩ := Int.le.dest h
  refine ⟨m.significand * 2 ^ j, ?_⟩
  rw [value, ← hj, zpow_add₀ (by norm_num), zpow_natCast]
  push_cast
  ring

theorem value_lt (m : Magnitude) {s : Int} (h : m.exponent < s) :
    m.value < 4503599627370496 * (2 : Rat) ^ s := by
  have hs : (m.significand : Rat) < 9007199254740992 := by exact_mod_cast m.significand_lt
  have hp : (2 : Rat) ^ m.exponent ≤ (2 : Rat) ^ (s - 1) :=
    zpow_le_zpow_right₀ (by norm_num) (by omega)
  calc m.value < 9007199254740992 * (2 : Rat) ^ m.exponent := by
        unfold value
        gcongr
    _ ≤ 9007199254740992 * (2 : Rat) ^ (s - 1) := by gcongr
    _ = 4503599627370496 * (2 : Rat) ^ s := by
        rw [zpow_sub_one₀ (by norm_num)]
        ring

theorem abs_multiple_sub (k : Nat) (q : Rat) (s : Int) :
    |(k : Rat) * (2 : Rat) ^ s - q| = |(k : Rat) - q / (2 : Rat) ^ s| * (2 : Rat) ^ s := by
  have hs : (0 : Rat) < (2 : Rat) ^ s := by positivity
  rw [← abs_of_pos hs, ← abs_mul, abs_of_pos hs, sub_mul, div_mul_cancel₀ _ hs.ne']

theorem parts_of_ofParts? {n : Nat} {e : Int} {m : Magnitude} (h : ofParts? n e = some m) :
    m.significand = n ∧ m.exponent = e := by
  unfold ofParts? at h
  split_ifs at h
  obtain rfl := Option.some.inj h
  exact ⟨rfl, rfl⟩

theorem carry_value (n : Nat) (e : Int) :
    ((carry n e).1 : Rat) * (2 : Rat) ^ (carry n e).2 = (n : Rat) * (2 : Rat) ^ e := by
  unfold carry
  split_ifs with hn
  · rw [hn, zpow_add_one₀ (by norm_num)]
    push_cast
    ring
  · rfl

theorem even_carry {n : Nat} (e : Int) (h : n % 2 = 0) : (carry n e).1 % 2 = 0 := by
  unfold carry
  split_ifs
  · norm_num
  · exact h

/-- No magnitude lies closer to `q`, and if another one lies as close, this one is even. -/
structure IsNearest (m : Magnitude) (q : Rat) : Prop where
  le : ∀ n : Magnitude, |m.value - q| ≤ |n.value - q|
  even : ∀ n : Magnitude, n ≠ m → |n.value - q| = |m.value - q| → m.significand % 2 = 0

section

variable {q : Rat} {m : Magnitude}

theorem value_nearest? (hq : 0 < q) (h : nearest? q = some m) :
    m.value = (halfEven (q / (2 : Rat) ^ scale q) : Rat) * (2 : Rat) ^ scale q := by
  rw [nearest?_eq hq] at h
  obtain ⟨hn, he⟩ := parts_of_ofParts? h
  rw [value, hn, he, carry_value]

theorem abs_value_sub_le_half (hq : 0 < q) (h : nearest? q = some m) :
    |m.value - q| ≤ (2 : Rat) ^ scale q / 2 := by
  have hs : (0 : Rat) < (2 : Rat) ^ scale q := by positivity
  have hb := (halfEven_bounds (scaled_nonneg hq)).abs_sub_le
  rw [value_nearest? hq h, abs_multiple_sub]
  calc _ ≤ 1 / 2 * (2 : Rat) ^ scale q := by gcongr
    _ = (2 : Rat) ^ scale q / 2 := by ring

theorem abs_sub_lt_of_exponent_lt (hq : 0 < q) (h : nearest? q = some m) {n : Magnitude}
    (hn : n.exponent < scale q) : |m.value - q| < |n.value - q| := by
  have hs : (0 : Rat) < (2 : Rat) ^ scale q := by positivity
  have hle : 4503599627370496 * (2 : Rat) ^ scale q ≤ q :=
    mul_scale_le hq (by have := n.least_le; omega)
  have hlt := n.value_lt hn
  have hgrid := (halfEven_bounds (scaled_nonneg hq)).nearest 4503599627370496
  have hgrid := mul_le_mul_of_nonneg_right hgrid hs.le
  rw [← abs_multiple_sub, ← abs_multiple_sub, ← value_nearest? hq h] at hgrid
  push_cast at hgrid
  rw [abs_of_nonpos (by linarith : n.value - q ≤ 0)]
  rw [abs_of_nonpos (by linarith : 4503599627370496 * (2 : Rat) ^ scale q - q ≤ 0)] at hgrid
  linarith

theorem isNearest_of_pos (hq : 0 < q) (h : nearest? q = some m) : m.IsNearest q := by
  have hs : (0 : Rat) < (2 : Rat) ^ scale q := by positivity
  have hb := halfEven_bounds (scaled_nonneg hq)
  have hv := value_nearest? hq h
  constructor
  · intro n
    by_cases hn : n.exponent < scale q
    · exact (abs_sub_lt_of_exponent_lt hq h hn).le
    · obtain ⟨k, hk⟩ := n.exists_multiple (not_lt.1 hn)
      rw [hk, hv, abs_multiple_sub, abs_multiple_sub]
      exact mul_le_mul_of_nonneg_right (hb.nearest k) hs.le
  · intro n hne ht
    by_cases hn : n.exponent < scale q
    · exact absurd ht (abs_sub_lt_of_exponent_lt hq h hn).ne'
    · obtain ⟨k, hk⟩ := n.exists_multiple (not_lt.1 hn)
      rw [hk, hv, abs_multiple_sub, abs_multiple_sub] at ht
      have hkn : k ≠ halfEven (q / (2 : Rat) ^ scale q) := by
        intro heq
        have hmn : nearest? n.value = nearest? m.value := by rw [hk, hv, heq]
        rw [nearest?_value, nearest?_value] at hmn
        exact hne (Option.some.inj hmn)
      rw [nearest?_eq hq] at h
      rw [(parts_of_ofParts? h).1]
      exact even_carry _ (hb.even_of_tie hkn (mul_right_cancel₀ hs.ne' ht))

/-- Rounding is the choice of the nearest magnitude, a tie going to the even one. -/
theorem isNearest_of_nearest? (hq : 0 ≤ q) (h : nearest? q = some m) : m.IsNearest q := by
  rcases hq.eq_or_lt with rfl | hq
  · obtain rfl : zero = m := by simpa [nearest?] using h
    refine ⟨fun n => ?_, fun _ _ _ => rfl⟩
    simp
  · exact isNearest_of_pos hq h

def next (m : Magnitude) (h : m.significand % 2 = 0) : Magnitude where
  significand := m.significand + 1
  exponent := m.exponent
  significand_lt := by have := m.significand_lt; omega
  least_le := m.least_le
  le_greatest := m.le_greatest
  normal := by have := m.normal; omega

theorem value_next {m : Magnitude} (h : m.significand % 2 = 0) :
    (m.next h).value = m.value + (2 : Rat) ^ m.exponent := by
  simp only [value, next]
  push_cast
  ring

theorem next_le {m n : Magnitude} (h : m.significand % 2 = 0) (hmn : m.value < n.value) :
    (m.next h).value ≤ n.value := by
  have hp : (0 : Rat) < (2 : Rat) ^ m.exponent := by positivity
  by_cases he : n.exponent < m.exponent
  · have hm : (4503599627370496 : Rat) ≤ m.significand := by
      have := m.normal
      have := n.least_le
      exact_mod_cast (by omega : 4503599627370496 ≤ m.significand)
    have hlt : n.value < m.value :=
      lt_of_lt_of_le (n.value_lt he) (mul_le_mul_of_nonneg_right hm hp.le)
    exact absurd hmn hlt.not_gt
  · obtain ⟨k, hk⟩ := n.exists_multiple (not_lt.1 he)
    rw [hk, value] at hmn
    have hlt := lt_of_mul_lt_mul_right hmn hp.le
    have hle : (m.significand : Rat) + 1 ≤ k := by
      exact_mod_cast (by exact_mod_cast hlt : m.significand < k)
    rw [hk, value_next h, value]
    nlinarith

theorem IsNearest.not_value_lt {n : Magnitude} (hm : m.IsNearest q) (hn : n.IsNearest q) :
    ¬m.value < n.value := by
  intro hlt
  have ht : |n.value - q| = |m.value - q| := le_antisymm (hn.le m) (hm.le n)
  have hne : n ≠ m := fun h => by simp [h] at hlt
  have hme := hm.even n hne ht
  have hne' := hn.even m hne.symm ht.symm
  -- Both lie at the same distance, so the number after the smaller one would lie between them.
  have h1 : m.value - q = -(n.value - q) := by
    rcases abs_eq_abs.1 ht.symm with h | h
    · linarith
    · exact h
  have hp : (0 : Rat) < (2 : Rat) ^ m.exponent := by positivity
  have hnext := value_next hme
  rcases (next_le hme hlt).eq_or_lt with heq | hlt'
  · have hsame : nearest? (m.next hme).value = nearest? n.value := by rw [heq]
    rw [nearest?_value, nearest?_value] at hsame
    rw [← Option.some.inj hsame, next] at hne'
    simp only at hne'
    omega
  · have hcloser := hm.le (m.next hme)
    rw [abs_of_neg (by linarith : m.value - q < 0)] at hcloser
    have hinside : |(m.next hme).value - q| < -(m.value - q) := abs_lt.2 ⟨by linarith, by linarith⟩
    linarith

theorem IsNearest.unique {n : Magnitude} (hm : m.IsNearest q) (hn : n.IsNearest q) : m = n := by
  have hv : m.value = n.value := le_antisymm (not_lt.1 (hn.not_value_lt hm)) (not_lt.1 (hm.not_value_lt hn))
  have hsame : nearest? m.value = nearest? n.value := by rw [hv]
  rw [nearest?_value, nearest?_value] at hsame
  exact Option.some.inj hsame

theorem add_le_of_abs_sub_le {a b r : Rat} (hab : a < b) (h : |b - r| ≤ |a - r|) :
    a + b ≤ 2 * r := by
  have hsq := sq_le_sq.2 h
  by_contra hlt
  have hprod : 0 < (b - a) * (a + b - 2 * r) :=
    mul_pos (sub_pos.2 hab) (sub_pos.2 (not_le.1 hlt))
  linarith

theorem le_add_of_abs_sub_le {a b r : Rat} (hab : a < b) (h : |a - r| ≤ |b - r|) :
    2 * r ≤ a + b := by
  have hn : |-a - -r| ≤ |-b - -r| := by
    rwa [neg_sub_neg, neg_sub_neg, abs_sub_comm r a, abs_sub_comm r b]
  have := add_le_of_abs_sub_le (neg_lt_neg hab) hn
  linarith

/-- Rounding keeps the order: to round out of order, the smaller rational would have to lie beyond the
middle between the two values, and the greater one before it. -/
theorem value_le_value {r : Rat} {n : Magnitude} (hq : 0 ≤ q) (hqr : q ≤ r)
    (hm : nearest? q = some m) (hn : nearest? r = some n) : m.value ≤ n.value := by
  rcases hqr.eq_or_lt with rfl | hlt
  · obtain rfl := Option.some.inj (hm.symm.trans hn)
    exact le_rfl
  · by_contra hgt
    have hgt := not_le.1 hgt
    have h1 := add_le_of_abs_sub_le hgt ((isNearest_of_nearest? hq hm).le n)
    have h2 := le_add_of_abs_sub_le hgt ((isNearest_of_nearest? (hq.trans hqr) hn).le m)
    linarith

theorem abs_value_sub_le (hq : 0 ≤ q) (h : nearest? q = some m) :
    |m.value - q| ≤ (2 : Rat) ^ (-53 : Int) * q + (2 : Rat) ^ (-1075 : Int) := by
  have h53 : (2 : Rat) ^ (-53 : Int) = 1 / 9007199254740992 := by norm_num
  have hu : (0 : Rat) < (2 : Rat) ^ (-1075 : Int) := by positivity
  rcases hq.eq_or_lt with rfl | hpos
  · obtain rfl : zero = m := by simpa [nearest?] using h
    rw [value_zero, sub_zero, abs_zero, mul_zero, zero_add]
    exact hu.le
  · have herr := abs_value_sub_le_half hpos h
    rw [h53]
    by_cases hs : scale q = -1074
    · have hleast : (2 : Rat) ^ (-1074 : Int) = 2 * (2 : Rat) ^ (-1075 : Int) := by
        rw [show (-1074 : Int) = 1 + -1075 from rfl, zpow_add₀ (by norm_num), zpow_one]
      rw [hs, hleast] at herr
      generalize (2 : Rat) ^ (-1075 : Int) = least at *
      linarith
    · have hle := mul_scale_le hpos hs
      generalize (2 : Rat) ^ (-1075 : Int) = least at *
      linarith

end

end Magnitude

end SchoolAlgebra
