import SchoolAlgebra.Proofs.Agreement
import SchoolAlgebra.Proofs.Nearest
set_option autoImplicit false

namespace SchoolAlgebra

theorem Rat.abs_eq (q : Rat) : q.abs = |q| := by
  rcases le_total 0 q with h | h
  · rw [Rat.abs_of_nonneg h, abs_of_nonneg h]
  · rw [Rat.abs_of_nonpos h, abs_of_nonpos h]

namespace Sign

theorem abs_apply (s : Sign) {q : Rat} (hq : 0 ≤ q) : |s.apply q| = q := by
  cases s <;> simp [abs_of_nonneg hq]

theorem ofRat_apply (s : Sign) {q : Rat} (hq : 0 < q) : ofRat (s.apply q) = s := by
  cases s <;> simp [ofRat, hq, not_lt.2 hq.le]

theorem apply_abs (q : Rat) : (ofRat q).apply |q| = q := by
  rcases lt_or_ge q 0 with h | h
  · simp [ofRat, h, abs_of_neg h]
  · simp [ofRat, not_lt.2 h, abs_of_nonneg h]

theorem apply_flip (s : Sign) (q : Rat) : s.flip.apply q = -s.apply q := by
  cases s <;> simp [flip]

theorem times_apply (s t : Sign) (q r : Rat) : (s.times t).apply (q * r) = s.apply q * t.apply r := by
  cases s <;> cases t <;> simp [times, flip]

end Sign

/-- Rationals that round to a finite number. -/
def InRange (q : Rat) : Prop := |q| < (2 : Rat) ^ 1024 - 2 ^ 970

/-- The value of the nearest number; zero out of range, where there is none. -/
def rounded (q : Rat) : Rat :=
  (Sign.ofRat q).apply ((Magnitude.nearest? |q|).elim 0 Magnitude.value)

namespace Binary64

/-- The number is finite, and this is its exact value. -/
def HasValue (x : Binary64) (q : Rat) : Prop := x.value? = some q

/-- Rationals that the format holds. -/
def Representable (q : Rat) : Prop := ∃ m : Magnitude, m.value = |q|

variable {x y : Binary64} {q r : Rat}

theorem hasValue_finite (s : Sign) (m : Magnitude) : (finite s m).HasValue (s.apply m.value) := rfl

theorem HasValue.exists_eq (h : x.HasValue q) : ∃ s m, x = finite s m ∧ s.apply m.value = q := by
  cases x with
  | nan => cases h
  | infinity s => cases h
  | finite s m => exact ⟨s, m, rfl, Option.some.inj h⟩

theorem exists_hasValue (h : x.isFinite = true) : ∃ q, x.HasValue q := by
  cases x with
  | nan => cases h
  | infinity s => cases h
  | finite s m => exact ⟨_, rfl⟩

theorem HasValue.isFinite (h : x.HasValue q) : x.isFinite = true := by
  obtain ⟨s, m, rfl, -⟩ := h.exists_eq
  rfl

theorem HasValue.unique (h : x.HasValue q) (h' : x.HasValue r) : q = r :=
  Option.some.inj (Eq.trans (Eq.symm h) h')

theorem HasValue.agrees_iff (hx : x.HasValue q) (hy : y.HasValue r) : Agrees x y ↔ q = r := by
  obtain ⟨s, m, rfl, rfl⟩ := hx.exists_eq
  obtain ⟨t, n, rfl, rfl⟩ := hy.exists_eq
  exact agrees_finite_iff

theorem HasValue.congr (hx : x.HasValue q) (h : Agrees x y) : y.HasValue q := by
  rcases h with rfl | ⟨hx', hy⟩
  · exact hx
  · obtain ⟨s, rfl⟩ := exists_zero hx'
    obtain ⟨t, rfl⟩ := exists_zero hy
    rw [hx.unique (hasValue_finite s .zero), Magnitude.value_zero, Sign.apply_eq_zero_iff.2 rfl]
    exact congrArg some (by rw [Magnitude.value_zero, Sign.apply_eq_zero_iff.2 rfl])

theorem HasValue.representable (h : x.HasValue q) : Representable q := by
  obtain ⟨s, m, rfl, rfl⟩ := h.exists_eq
  exact ⟨m, (Sign.abs_apply s m.value_nonneg).symm⟩

theorem HasValue.le_iff (hx : x.HasValue q) (hy : y.HasValue r) : x.le y = true ↔ q ≤ r := by
  obtain ⟨s, m, rfl, rfl⟩ := hx.exists_eq
  obtain ⟨t, n, rfl, rfl⟩ := hy.exists_eq
  simp [le]

theorem HasValue.isZero_iff (h : x.HasValue q) : x.isZero = true ↔ q = 0 := by
  obtain ⟨s, m, rfl, rfl⟩ := h.exists_eq
  rw [isZero_finite_iff, Sign.apply_eq_zero_iff, Magnitude.value_eq_zero_iff]

theorem HasValue.isZero_eq_false (h : x.HasValue q) (hq : q ≠ 0) : x.isZero = false :=
  Bool.eq_false_iff.2 (mt h.isZero_iff.1 hq)

theorem hasValue_zero : zero.HasValue 0 := by
  rw [HasValue, zero, value?, Magnitude.value_zero, Sign.apply_plus]

theorem HasValue.isPositive_iff (h : x.HasValue q) : x.isPositive = true ↔ 0 < q := by
  have h1 := hasValue_zero.le_iff h
  have h2 := h.le_iff hasValue_zero
  rw [isPositive, lt, Bool.and_eq_true, h1, Bool.not_eq_true', Bool.eq_false_iff, ne_eq, h2, not_le]
  exact ⟨fun h => h.2, fun h => ⟨h.le, h⟩⟩

theorem HasValue.neg (h : x.HasValue q) : (-x).HasValue (-q) := by
  obtain ⟨s, m, rfl, rfl⟩ := h.exists_eq
  exact congrArg some (Sign.apply_flip s m.value)

theorem HasValue.abs (h : x.HasValue q) : x.abs.HasValue |q| := by
  obtain ⟨s, m, rfl, rfl⟩ := h.exists_eq
  exact congrArg some (Sign.abs_apply s m.value_nonneg).symm

theorem ofRat_apply (s : Sign) (hq : 0 < q) : ofRat (s.apply q) = round s q := by
  rw [ofRat, Rat.abs_eq, Sign.ofRat_apply s hq, Sign.abs_apply s hq.le]

theorem ofRat_zero : ofRat 0 = zero := round_zero .plus

theorem round_agrees (s : Sign) (hq : 0 ≤ q) : (round s q).Agrees (ofRat (s.apply q)) := by
  rcases hq.eq_or_lt with rfl | hq
  · rw [round_zero, Sign.apply_eq_zero_iff.2 rfl, ofRat_zero]
    exact .of_isZero rfl rfl
  · rw [ofRat_apply s hq]
    exact .refl _

theorem hasValue_ofRat (h : InRange q) : (ofRat q).HasValue (rounded q) := by
  rw [ofRat, rounded, Rat.abs_eq, round]
  cases hn : Magnitude.nearest? |q| with
  | some m => exact hasValue_finite _ m
  | none => exact absurd ((Magnitude.nearest?_eq_none_iff (abs_nonneg q)).1 hn) (not_le.2 h)

theorem isFinite_ofRat_iff : (ofRat q).isFinite = true ↔ InRange q := by
  rw [ofRat, Rat.abs_eq]
  exact isFinite_round_iff (abs_nonneg q) _

theorem rounded_of_representable (h : Representable q) : rounded q = q := by
  obtain ⟨m, hm⟩ := h
  rw [rounded, ← hm, Magnitude.nearest?_value, Option.elim_some, hm, Sign.apply_abs]

theorem inRange_of_representable (h : Representable q) : InRange q := by
  obtain ⟨m, hm⟩ := h
  rw [InRange, ← hm, ← not_le, ← Magnitude.nearest?_eq_none_iff m.value_nonneg,
    Magnitude.nearest?_value]
  exact Option.some_ne_none m

theorem HasValue.add_agrees (hx : x.HasValue q) (hy : y.HasValue r) :
    (x + y).Agrees (ofRat (q + r)) := by
  obtain ⟨s, m, rfl, rfl⟩ := hx.exists_eq
  obtain ⟨t, n, rfl, rfl⟩ := hy.exists_eq
  change (Binary64.add (finite s m) (finite t n)).Agrees _
  simp only [Binary64.add]
  split_ifs with h
  · rw [h, ofRat_zero]
    exact .of_isZero rfl rfl
  · rw [h, ofRat_zero]
    exact .of_isZero rfl rfl
  · exact .refl _

theorem HasValue.sub_agrees (hx : x.HasValue q) (hy : y.HasValue r) :
    (x - y).Agrees (ofRat (q - r)) := by
  rw [show q - r = q + -r by ring]
  exact hx.add_agrees hy.neg

theorem HasValue.mul_agrees (hx : x.HasValue q) (hy : y.HasValue r) :
    (x * y).Agrees (ofRat (q * r)) := by
  obtain ⟨s, m, rfl, rfl⟩ := hx.exists_eq
  obtain ⟨t, n, rfl, rfl⟩ := hy.exists_eq
  rw [← Sign.times_apply]
  exact round_agrees _ (mul_nonneg m.value_nonneg n.value_nonneg)

theorem HasValue.div_agrees (hx : x.HasValue q) (hy : y.HasValue r) (hr : r ≠ 0) :
    (x / y).Agrees (ofRat (q / r)) := by
  have hz := hy.isZero_eq_false hr
  obtain ⟨s, m, rfl, rfl⟩ := hx.exists_eq
  obtain ⟨t, n, rfl, rfl⟩ := hy.exists_eq
  have hinv : (t.apply n.value)⁻¹ = t.apply n.value⁻¹ := by
    cases t <;> simp [inv_neg]
  change (Binary64.div (finite s m) (finite t n)).Agrees _
  rw [div_eq_mul_inv (s.apply m.value), hinv, ← Sign.times_apply, ← div_eq_mul_inv]
  simp only [Binary64.div, show n.isZero = false from hz]
  exact round_agrees _ (div_nonneg m.value_nonneg n.value_nonneg)

theorem HasValue.of_agrees_ofRat (h : x.Agrees (ofRat q)) (hr : Representable q) : x.HasValue q := by
  have hq := hasValue_ofRat (inRange_of_representable hr)
  rw [rounded_of_representable hr] at hq
  exact hq.congr h.symm

section

variable (hx : x.HasValue q) (hy : y.HasValue r)
include hx hy

theorem HasValue.add (h : Representable (q + r)) : (x + y).HasValue (q + r) :=
  .of_agrees_ofRat (hx.add_agrees hy) h

theorem HasValue.sub (h : Representable (q - r)) : (x - y).HasValue (q - r) :=
  .of_agrees_ofRat (hx.sub_agrees hy) h

theorem HasValue.mul (h : Representable (q * r)) : (x * y).HasValue (q * r) :=
  .of_agrees_ofRat (hx.mul_agrees hy) h

theorem HasValue.div (hr : r ≠ 0) (h : Representable (q / r)) : (x / y).HasValue (q / r) :=
  .of_agrees_ofRat (hx.div_agrees hy hr) h

theorem HasValue.max : (x.max y).HasValue (Max.max q r) := by
  have hle := hx.le_iff hy
  obtain ⟨s, m, rfl, rfl⟩ := hx.exists_eq
  obtain ⟨t, n, rfl, rfl⟩ := hy.exists_eq
  simp only [Binary64.max]
  split_ifs with h
  · rw [max_eq_right (hle.1 h)]
    exact hasValue_finite t n
  · rw [max_eq_left (le_of_not_ge (mt hle.2 h))]
    exact hasValue_finite s m

end

theorem exists_value_eq {n : Nat} {e : Int} (hn : n < 9007199254740992) (hl : -1074 ≤ e)
    (hg : e ≤ 971) : ∃ m : Magnitude, m.value = (n : Rat) * (2 : Rat) ^ e := by
  rcases Nat.eq_zero_or_pos n with rfl | hpos
  · exact ⟨.zero, by simp⟩
  have hq : (0 : Rat) < (n : Rat) * (2 : Rat) ^ e := by positivity
  have hs : Magnitude.scale ((n : Rat) * (2 : Rat) ^ e) ≤ e := by
    have hlt : (n : Rat) * (2 : Rat) ^ e < ((2 : Nat) : Rat) ^ (53 + e) := by
      have hc : (n : Rat) < 9007199254740992 := by exact_mod_cast hn
      calc (n : Rat) * (2 : Rat) ^ e < 9007199254740992 * (2 : Rat) ^ e := by gcongr
        _ = ((2 : Nat) : Rat) ^ (53 + e) := by
          rw [zpow_add₀ (by norm_num)]
          norm_num
    have := (Int.lt_zpow_iff_log_lt (by decide) hq).1 hlt
    unfold Magnitude.scale
    omega
  -- The scale is at most `e`, so the number is a multiple of it and rounding leaves it alone.
  cases hm : Magnitude.nearest? ((n : Rat) * (2 : Rat) ^ e) with
  | none =>
    have hle := (Magnitude.nearest?_eq_none_iff hq.le).1 hm
    have hc : (n : Rat) ≤ 9007199254740991 := by exact_mod_cast Nat.le_of_lt_succ hn
    have hp : (2 : Rat) ^ e ≤ (2 : Rat) ^ (971 : Int) := zpow_le_zpow_right₀ (by norm_num) hg
    have h971 : (2 : Rat) ^ (971 : Int) = 2 * (2 : Rat) ^ (970 : Int) := by
      rw [show (971 : Int) = 1 + 970 from rfl, zpow_add₀ (by norm_num), zpow_one]
    have hbound : (n : Rat) * (2 : Rat) ^ e ≤ 9007199254740991 * (2 : Rat) ^ (971 : Int) := by
      gcongr
    have hpos : (0 : Rat) < (2 : Rat) ^ (970 : Int) := by positivity
    rw [Magnitude.top_eq] at hle
    rw [h971] at hbound
    generalize (2 : Rat) ^ (970 : Int) = half at hle hbound hpos
    linarith only [hle, hbound, hpos]
  | some m =>
    obtain ⟨j, hj⟩ := Int.le.dest hs
    refine ⟨m, ?_⟩
    have hk : (n : Rat) * (2 : Rat) ^ e / (2 : Rat) ^ Magnitude.scale ((n : Rat) * (2 : Rat) ^ e) =
        ((n * 2 ^ j : Nat) : Rat) := by
      rw [div_eq_iff (by positivity)]
      nth_rewrite 1 [← hj]
      rw [zpow_add₀ (by norm_num), zpow_natCast]
      push_cast
      ring
    rw [Magnitude.value_nearest? hq hm, hk, halfEven_natCast, ← hk, div_mul_cancel₀ _ (by positivity)]

theorem representable_intCast_mul {n : Int} {e : Int} (hn : n.natAbs ≤ 9007199254740992)
    (hl : -1074 ≤ e) (hg : e ≤ 970) : Representable ((n : Rat) * (2 : Rat) ^ e) := by
  have habs : |(n : Rat) * (2 : Rat) ^ e| = (n.natAbs : Rat) * (2 : Rat) ^ e := by
    rw [abs_mul, abs_of_pos (show (0 : Rat) < (2 : Rat) ^ e by positivity), Nat.cast_natAbs, Int.cast_abs]
  rw [Representable, habs]
  rcases hn.lt_or_eq with hlt | heq
  · exact exists_value_eq hlt hl (by omega)
  · obtain ⟨m, hm⟩ := exists_value_eq (n := 4503599627370496) (e := e + 1) (by norm_num)
      (by omega) (by omega)
    refine ⟨m, ?_⟩
    rw [hm, heq, zpow_add_one₀ (by norm_num)]
    push_cast
    ring

theorem representable_intCast {n : Int} (hn : n.natAbs ≤ 9007199254740992) :
    Representable (n : Rat) := by
  have h := representable_intCast_mul (e := 0) hn (by norm_num) (by norm_num)
  rwa [zpow_zero, mul_one] at h

theorem representable_two_zpow {e : Int} (hl : -1074 ≤ e) (hg : e ≤ 970) :
    Representable ((2 : Rat) ^ e) := by
  have h := representable_intCast_mul (n := 1) (e := e) (by norm_num) hl hg
  rwa [Int.cast_one, one_mul] at h

theorem hasValue_ofInt {n : Int} (hn : n.natAbs ≤ 9007199254740992) :
    (ofInt n).HasValue n := by
  have hs : (Sign.ofInt n).apply (n.natAbs : Rat) = n := by
    rw [show Sign.ofInt n = Sign.ofRat n by simp [Sign.ofInt, Sign.ofRat], Nat.cast_natAbs,
      Int.cast_abs, Sign.apply_abs]
  have h := round_agrees (Sign.ofInt n) (Nat.cast_nonneg (α := Rat) n.natAbs)
  rw [hs] at h
  exact .of_agrees_ofRat h (representable_intCast hn)

end Binary64

end SchoolAlgebra
