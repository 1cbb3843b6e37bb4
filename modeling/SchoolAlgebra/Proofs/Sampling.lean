import SchoolAlgebra.Proofs.Planted
set_option autoImplicit false

namespace SchoolAlgebra

namespace Window

variable {w : Window}

/-- No point of a window leaves the 32 bits, not even next to the greatest one. -/
theorem toInt_point {i : Nat} (h : i < w.size) :
    (Int32.ofInt (w.first.toInt + (i : Int))).toInt = w.first.toInt + i := by
  have hfirst := w.first.le_toInt
  have hlast := w.last.toInt_lt
  unfold size at h
  exact Int32.toInt_ofInt_of_le (by omega) (by omega)

theorem ascending_points (w : Window) : w.points.Pairwise (· < ·) := by
  rw [points, List.pairwise_map]
  refine List.pairwise_lt_range.imp_of_mem ?_
  intro i j hi hj h
  rw [Int32.lt_iff_toInt_lt, toInt_point (List.mem_range.1 hi), toInt_point (List.mem_range.1 hj)]
  omega

theorem mem_points_iff {x : Int32} : x ∈ w.points ↔ w.first ≤ x ∧ x ≤ w.last := by
  simp only [points, List.mem_map, List.mem_range, Int32.le_iff_toInt_le]
  constructor
  · intro h
    obtain ⟨i, hi, rfl⟩ := h
    rw [toInt_point hi]
    unfold size at hi
    omega
  · intro h
    refine ⟨(x.toInt - w.first.toInt).toNat, by unfold size; omega, ?_⟩
    rw [show w.first.toInt + ((x.toInt - w.first.toInt).toNat : Int) = x.toInt by omega,
      Int32.ofInt_toInt]

end Window

/-- One entry for each whole number of the window and no other, in ascending order. -/
structure Samples (w : Window) (table : List TableEntry) : Prop where
  ascending : (table.map TableEntry.x).Pairwise (· < ·)
  mem_iff (x : Int32) : x ∈ table.map TableEntry.x ↔ w.first ≤ x ∧ x ≤ w.last

theorem Coefficients.samples_table (p : Coefficients) (o : Options) :
    Samples (o.sampling.window p.degree) (p.table o) := by
  constructor
  · rw [p.map_x_table]
    exact Window.ascending_points _
  · intro x
    rw [p.map_x_table]
    exact Window.mem_points_iff

open Binary64

theorem Binary64.Agrees.fixed {x y : Binary64} (h : x.Agrees y) (places : Nat) :
    x.fixed places = y.fixed places := by
  rcases h with rfl | ⟨hx, hy⟩
  · rfl
  · obtain ⟨s, rfl⟩ := exists_zero hx
    obtain ⟨t, rfl⟩ := exists_zero hy
    rfl

theorem Binary64.HasValue.fixed_eq {x y : Binary64} {q : Rat} (hx : x.HasValue q)
    (hy : y.HasValue q) (places : Nat) : x.fixed places = y.fixed places :=
  ((hx.agrees_iff hy).2 rfl).fixed places

theorem isZero_ofInt {n : Int} (hn : n ≠ 0) (hle : n.natAbs ≤ 9007199254740992) :
    (Binary64.ofInt n).isZero = false := by
  rw [Bool.eq_false_iff, ne_eq, (hasValue_ofInt hle).isZero_iff]
  exact_mod_cast hn

theorem hasValue_point (x : Int32) : (Binary64.ofInt x.toInt).HasValue x.toInt := by
  have hlow := x.le_toInt
  have hhigh := x.toInt_lt
  exact hasValue_ofInt (by omega)

theorem Linear.evaluateLeft_whole {p : Linear} {x : Binary64} {a b t : Int} (hpa : p.a.HasValue a)
    (hpb : p.b.HasValue b) (hx : x.HasValue t) (hat : (a * t).natAbs ≤ 9007199254740992)
    (hatb : (a * t + b).natAbs ≤ 9007199254740992) :
    (p.evaluateLeft x).HasValue ((a * t + b : Int) : Rat) :=
  (hpa.mulWhole hx hat).addWhole hpb hatb

namespace Quadratic

section

variable {p : Quadratic} {x : Binary64} {a b k t : Int} (hpa : p.a.HasValue a)
  (hpb : p.b.HasValue b) (hpk : p.typedConstant.HasValue k) (hx : x.HasValue t)
include hpa hpb hpk hx

theorem evaluateLeft_whole (hat : (a * t).natAbs ≤ 9007199254740992)
    (hatt : (a * t * t).natAbs ≤ 9007199254740992) (hbt : (b * t).natAbs ≤ 9007199254740992)
    (hsum : (a * t * t + b * t).natAbs ≤ 9007199254740992)
    (hall : (a * t * t + b * t + k).natAbs ≤ 9007199254740992) :
    (p.evaluateLeft x).HasValue ((a * t * t + b * t + k : Int) : Rat) :=
  (((hpa.mulWhole hx hat).mulWhole hx hatt).addWhole (hpb.mulWhole hx hbt) hsum).addWhole hpk hall

end

/-- At a planted root every step of the evaluation is exact, and the left side is the right one. -/
theorem evaluateLeft_planted {p : Quadratic} {x : Binary64} {a r s d t : Int} (ha : a ≠ 0)
    (hle : |a| * (|r| + |s| + 1) ≤ 16777216) (hd : |d| ≤ 1125899906842624)
    (hpa : p.a.HasValue a) (hpb : p.b.HasValue ((-a * (r + s) : Int) : Rat))
    (hpk : p.typedConstant.HasValue ((a * r * s + d : Int) : Rat)) (hx : x.HasValue t)
    (ht : t = r ∨ t = s) : (p.evaluateLeft x).HasValue d := by
  have hbound := planted_bounds hle
  have hprod := planted_product_le ha hle
  have hat : |a * t| ≤ 16777216 := by
    rcases ht with rfl | rfl
    · linarith [abs_nonneg a, abs_nonneg (a * s)]
    · linarith [abs_nonneg a, abs_nonneg (a * r)]
  have ht' : |t| ≤ 16777216 := by
    rw [abs_mul] at hat
    exact (le_mul_of_one_le_left (abs_nonneg t) (Int.one_le_abs ha)).trans hat
  have hsum : |a * r + a * s| ≤ 16777216 := by
    linarith [abs_add_le (a * r) (a * s), abs_nonneg a]
  have hatt : |a * t * t| ≤ 281474976710656 := by
    rw [abs_mul]
    exact (mul_le_mul hat ht' (abs_nonneg t) (by norm_num)).trans (by norm_num)
  have hbt : |-a * (r + s) * t| ≤ 281474976710656 := by
    rw [show -a * (r + s) = -(a * r + a * s) by ring, abs_mul, abs_neg]
    exact (mul_le_mul hsum ht' (abs_nonneg t) (by norm_num)).trans (by norm_num)
  have hroot : a * t * t + -a * (r + s) * t = -(a * r * s) := by
    rcases ht with rfl | rfl <;> ring
  have hall : a * t * t + -a * (r + s) * t + (a * r * s + d) = d := by
    rw [hroot]
    ring
  rw [← hall]
  rw [Int.abs_eq_natAbs] at hprod hd hat hatt hbt
  exact evaluateLeft_whole hpa hpb hpk hx (by omega) (by omega) (by omega) (by omega) (by omega)

end Quadratic

theorem Coefficients.y_of_mem_table {p : Coefficients} {o : Options} {e : TableEntry}
    (h : e ∈ p.table o) : e.y = (p.evaluateLeft (.ofInt e.x.toInt)).fixed o.decimals.toNat := by
  obtain ⟨x, -, rfl⟩ := List.mem_map.1 h
  rfl

theorem TypedEquation.exists_table {degree : Degree} (e : TypedEquation degree) (o : Options)
    {raw : Text} (ht : e.text = raw.withoutBlanks) (hr : ∀ s ∈ e.numerals, ¬Unreadable s)
    (hz : e.coefficients.leading.isZero = false) :
    ∃ report, solveEquation raw degree o = .ok report ∧ report.table = e.coefficients.table o := by
  obtain ⟨solution, hs⟩ := Coefficients.exists_solve hz
  rw [solveEquation_of_coefficients o (e.check_eq_ok ht)
    (e.reads_ofSides.ok (firstUnreadable_eq_none_iff.2 hr)), hs]
  exact ⟨_, rfl, rfl⟩

section

variable (o : Options) {a b k d : Int} (ha : a ≠ 0) (ha' : a.natAbs ≤ 9007199254740992)
  (hb : b.natAbs ≤ 9007199254740992) (hd : d.natAbs ≤ 9007199254740992)
include ha ha' hb hd

theorem exists_table_linearWhole :
    ∃ report, solveEquation (linearWholeText a b d) .linear o = .ok report ∧
      report.table = (Coefficients.linear ⟨.ofInt a, .ofInt b, .ofInt d⟩).table o := by
  rw [← coefficients_linearWhole]
  refine (linearWhole a b d).exists_table o (text_linearWhole a b d)
    (readable_linearWhole (inRange_intCast ha') (inRange_intCast hb) (inRange_intCast hd)) ?_
  rw [coefficients_linearWhole]
  exact isZero_ofInt ha ha'

theorem exists_table_quadraticWhole (hk : k.natAbs ≤ 9007199254740992) :
    ∃ report, solveEquation (quadraticWholeText a b k d) .quadratic o = .ok report ∧
      report.table = (Coefficients.quadratic
        (.ofSides (.ofInt a) (.ofInt b) (.ofInt k) (.ofInt d))).table o := by
  rw [← coefficients_quadraticWhole]
  refine (quadraticWhole a b k d).exists_table o (text_quadraticWhole a b k d)
    (readable_quadraticWhole (inRange_intCast ha') (inRange_intCast hb) (inRange_intCast hk)
      (inRange_intCast hd)) ?_
  rw [coefficients_quadraticWhole]
  exact isZero_ofInt ha ha'

end

/-- Every table has one entry for each whole number of its window, in ascending order, and each entry
shows the left side as typed at its point. The entry of a planted root is the typed right side: in
`a x² - a(r+s) x + (ars+d) = d`, and in `a x + b = ar+b`. -/
theorem table_meets_right_side (o : Options) :
    (∀ p : Coefficients, Samples (o.sampling.window p.degree) (p.table o) ∧
      ∀ e ∈ p.table o, e.y = (p.evaluateLeft (.ofInt e.x.toInt)).fixed o.decimals.toNat) ∧
    (∀ a r s d : Int, a ≠ 0 → |a| * (|r| + |s| + 1) ≤ 2 ^ 24 → |d| ≤ 2 ^ 50 →
      ∃ report, solveEquation (quadraticWholeText a (-a * (r + s)) (a * r * s + d) d) .quadratic o =
          .ok report ∧
        Samples o.sampling.quadratic report.table ∧
        ∀ e ∈ report.table, e.x.toInt = r ∨ e.x.toInt = s →
          e.y = (Binary64.ofInt d).fixed o.decimals.toNat) ∧
    (∀ a r b : Int, a ≠ 0 → |a| ≤ 2 ^ 53 → |b| ≤ 2 ^ 53 → |a * r| ≤ 2 ^ 53 →
      |a * r + b| ≤ 2 ^ 53 →
      ∃ report, solveEquation (linearWholeText a b (a * r + b)) .linear o = .ok report ∧
        Samples o.sampling.linear report.table ∧
        ∀ e ∈ report.table, e.x.toInt = r →
          e.y = (Binary64.ofInt (a * r + b)).fixed o.decimals.toNat) := by
  refine ⟨fun p => ⟨p.samples_table o, fun e => Coefficients.y_of_mem_table⟩, ?_, ?_⟩
  · intro a r s d ha hle hd
    obtain ⟨ha', hb', hk', hd'⟩ := Quadratic.planted_numbers_le ha hle hd
    obtain ⟨report, hr, ht⟩ := exists_table_quadraticWhole o ha ha' hb' hd' hk'
    refine ⟨report, hr, ?_, ?_⟩
    · rw [ht]
      exact Coefficients.samples_table (.quadratic _) o
    · intro e he hx
      rw [ht] at he
      rw [Coefficients.y_of_mem_table he]
      refine HasValue.fixed_eq ?_ (hasValue_ofInt hd') _
      exact Quadratic.evaluateLeft_planted ha hle hd (hasValue_ofInt ha') (hasValue_ofInt hb')
        (hasValue_ofInt hk') (hasValue_point e.x) hx
  · intro a r b ha ha' hb har hc
    simp only [Int.abs_eq_natAbs] at ha' hb har hc
    have ha' : a.natAbs ≤ 9007199254740992 := by omega
    have hb' : b.natAbs ≤ 9007199254740992 := by omega
    have hc' : (a * r + b).natAbs ≤ 9007199254740992 := by omega
    obtain ⟨report, hr, ht⟩ := exists_table_linearWhole o ha ha' hb' hc'
    refine ⟨report, hr, ?_, ?_⟩
    · rw [ht]
      exact Coefficients.samples_table (.linear _) o
    · intro e he hx
      rw [ht] at he
      rw [Coefficients.y_of_mem_table he]
      refine HasValue.fixed_eq ?_ (hasValue_ofInt hc') _
      exact Linear.evaluateLeft_whole (hasValue_ofInt ha') (hasValue_ofInt hb')
        (hx ▸ hasValue_point e.x) (by omega) hc'

theorem table_of_two_equations :
    (∃ report, solveEquation (quadraticWholeText 2 (-2) (-9) 3) .quadratic
          (Options.withQuadratic {} ⟨-2, 2147483647⟩) = .ok report ∧
      Samples ⟨-2, 2147483647⟩ report.table ∧
      ∀ e ∈ report.table, e.x.toInt = 3 ∨ e.x.toInt = -2 → e.y = (Binary64.ofInt 3).fixed 2) ∧
    ∃ report, solveEquation (linearWholeText 2 5 (-1)) .linear {} = .ok report ∧
      Samples ⟨-5, 5⟩ report.table ∧
      ∀ e ∈ report.table, e.x.toInt = -3 → e.y = (Binary64.ofInt (-1)).fixed 2 := by
  obtain ⟨-, hq, -⟩ := table_meets_right_side (Options.withQuadratic {} ⟨-2, 2147483647⟩)
  obtain ⟨-, -, hl⟩ := table_meets_right_side {}
  have hpair := hq 2 3 (-2) 3 (by decide) (by decide) (by decide)
  have hline := hl 2 (-3) 5 (by decide) (by decide) (by decide) (by decide) (by decide)
  norm_num at hpair hline
  exact ⟨hpair, hline⟩

end SchoolAlgebra
