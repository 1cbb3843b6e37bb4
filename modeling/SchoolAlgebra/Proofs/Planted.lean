import SchoolAlgebra.Proofs.Discriminant
import SchoolAlgebra.Proofs.WholeText
set_option autoImplicit false

namespace SchoolAlgebra

namespace Binary64

section

variable {x y : Binary64} {m n : Int} (hx : x.HasValue m) (hy : y.HasValue n)
include hx hy

theorem HasValue.addWhole (h : (m + n).natAbs ≤ 9007199254740992) :
    (x + y).HasValue ((m + n : Int) : Rat) := by
  have hr := representable_intCast h
  push_cast at hr ⊢
  exact hx.add hy hr

theorem HasValue.subWhole (h : (m - n).natAbs ≤ 9007199254740992) :
    (x - y).HasValue ((m - n : Int) : Rat) := by
  have hr := representable_intCast h
  push_cast at hr ⊢
  exact hx.sub hy hr

theorem HasValue.mulWhole (h : (m * n).natAbs ≤ 9007199254740992) :
    (x * y).HasValue ((m * n : Int) : Rat) := by
  have hr := representable_intCast h
  push_cast at hr ⊢
  exact hx.mul hy hr

theorem HasValue.divWhole {k : Int} (hn : n ≠ 0) (hk : k.natAbs ≤ 9007199254740992)
    (hm : m = n * k) : (x / y).HasValue k := by
  have hn : (n : Rat) ≠ 0 := by exact_mod_cast hn
  have hq : (m : Rat) / n = k := by
    rw [hm, Int.cast_mul, mul_div_cancel_left₀ _ hn]
  have h := hx.div hy hn (hq ▸ representable_intCast hk)
  rwa [hq] at h

end

theorem HasValue.sqrtWhole {x : Binary64} {n : Int} (h : x.HasValue ((n * n : Int) : Rat))
    (hn : 0 < n) (hle : n.natAbs ≤ 9007199254740992) : x.sqrt.HasValue n := by
  have hpos : (0 : Rat) < n := by exact_mod_cast hn
  obtain ⟨m, hm⟩ := representable_intCast hle
  rw [abs_of_pos hpos] at hm
  have hsq := sqrtMagnitude_sq (m := m) (hm ▸ hpos)
  rw [hm, sq, ← Int.cast_mul] at hsq
  have h := h.sqrt (by exact_mod_cast Int.mul_pos hn hn)
  rwa [hsq] at h

end Binary64

open Binary64

theorem Linear.solve_planted {p : Linear} {a r b : Int} (ha : a ≠ 0) (hpa : p.a.HasValue a)
    (hpb : p.b.HasValue b) (hpc : p.c.HasValue ((a * r + b : Int) : Rat))
    (har : (a * r).natAbs ≤ 9007199254740992) :
    ∃ x, p.solve = .oneReal x ∧ x.HasValue r := by
  have hz := hpa.isZero_eq_false (by exact_mod_cast ha)
  have hsub := hpc.subWhole hpb (by simpa using har)
  rw [add_sub_cancel_right] at hsub
  have hr : r.natAbs ≤ (a * r).natAbs := by
    rw [Int.natAbs_mul]
    exact Nat.le_mul_of_pos_left _ (Int.natAbs_pos.2 ha)
  refine ⟨_, by rw [Linear.solve, hz]; rfl, ?_⟩
  exact hsub.divWhole hpa ha (hr.trans har) rfl

namespace Quadratic

theorem settled_whole {w v : Int} (hw : w.natAbs ≤ 9007199254740992)
    (hv : v.natAbs ≤ 9007199254740992) (hd : (w - v).natAbs ≤ 9007199254740992) :
    settled w v =
      if |((w - v : Int) : Rat)| ≤ (2 : Rat) ^ (-50 : Int) * ((max w |v| : Int) : Rat) then 0
      else ((w - v : Int) : Rat) := by
  have hmax : (max w |v|).natAbs ≤ 9007199254740992 := by
    rw [Int.abs_eq_natAbs]
    omega
  have hnoise := representable_intCast_mul (e := -50) hmax (by norm_num) (by norm_num)
  rw [Rat.mul_comm] at hnoise
  have hdiff := representable_intCast hd
  have hcast : ((max w |v| : Int) : Rat) = max (w : Rat) |(v : Rat)| := by
    rw [Int.cast_max, Int.cast_abs]
  rw [settled, ← Int.cast_sub, ← hcast, rounded_of_representable hdiff,
    rounded_of_representable hnoise]

section

variable {p : Quadratic} {a b c : Int} (hpa : p.a.HasValue a) (hpb : p.b.HasValue b)
  (hpc : p.c.HasValue c) (hfour : InRange (4 * (a : Rat)))

include hpa hpc hfour in
/-- The product is exact as long as `4 a` has a value, however large it is. -/
theorem hasValue_product (hc : (4 * a * c).natAbs ≤ 9007199254740992) :
    (4 * p.a * p.c).HasValue ((4 * a * c : Int) : Rat) := by
  have hrep := representable_intCast hc
  push_cast at hrep ⊢
  exact (hpa.fourfold hfour).mul hpc hrep

include hpa hpb hpc hfour in
theorem settledDiscriminant_hasValue (hb : (b * b).natAbs ≤ 9007199254740992)
    (hc : (4 * a * c).natAbs ≤ 9007199254740992)
    (hd : (b * b - 4 * a * c).natAbs ≤ 9007199254740992) :
    p.settledDiscriminant.HasValue
      (if |((b * b - 4 * a * c : Int) : Rat)| ≤
          (2 : Rat) ^ (-50 : Int) * ((max (b * b) |4 * a * c| : Int) : Rat) then 0
        else ((b * b - 4 * a * c : Int) : Rat)) := by
  rw [← settled_whole hb hc hd]
  refine hasValue_settled (hpb.mulWhole hpb hb) (hasValue_product hpa hpc hfour hc) ?_
  rw [← Int.cast_sub]
  exact inRange_of_representable (representable_intCast hd)

end

theorem planted_bounds {a r s : Int} (h : |a| * (|r| + |s| + 1) ≤ 16777216) :
    |a| + |a * r| + |a * s| ≤ 16777216 := by
  rw [abs_mul, abs_mul]
  linarith

theorem planted_product_le {a r s : Int} (ha : a ≠ 0) (h : |a| * (|r| + |s| + 1) ≤ 16777216) :
    |a * r * s| ≤ 281474976710656 := by
  have hbound := planted_bounds h
  have hs : |s| ≤ |a * s| := by
    rw [abs_mul]
    exact le_mul_of_one_le_left (abs_nonneg s) (Int.one_le_abs ha)
  rw [abs_mul]
  nlinarith [abs_nonneg a, abs_nonneg (a * r), abs_nonneg s, abs_nonneg (a * s)]

theorem planted_numbers_le {a r s d : Int} (ha : a ≠ 0) (h : |a| * (|r| + |s| + 1) ≤ 16777216)
    (hd : |d| ≤ 1125899906842624) :
    a.natAbs ≤ 9007199254740992 ∧ (-a * (r + s)).natAbs ≤ 9007199254740992 ∧
      (a * r * s + d).natAbs ≤ 9007199254740992 ∧ d.natAbs ≤ 9007199254740992 := by
  have hbound := planted_bounds h
  have hprod := planted_product_le ha h
  rw [show -a * (r + s) = -(a * r + a * s) by ring]
  simp only [Int.abs_eq_natAbs] at hbound hprod hd
  omega

theorem sq_le_of_abs_le {w : Int} (h : |w| ≤ 16777216) : w * w ≤ 281474976710656 := by
  have h' := abs_le.1 h
  nlinarith

theorem hasValue_root {p : Quadratic} {a t : Int} {x : Binary64} (ha : a ≠ 0)
    (hpa : p.a.HasValue a) (hx : x.HasValue ((2 * (a * t) : Int) : Rat)) (hbound : |a| ≤ 16777216)
    (ht : |a * t| ≤ 16777216) : (x / (2 * p.a)).HasValue t := by
  have h2 : (2 : Binary64).HasValue ((2 : Int) : Rat) := hasValue_ofInt (by norm_num)
  rw [Int.abs_eq_natAbs] at hbound ht
  have hle : t.natAbs ≤ (a * t).natAbs := by
    rw [Int.natAbs_mul]
    exact Nat.le_mul_of_pos_left _ (Int.natAbs_pos.2 ha)
  exact hx.divWhole (h2.mulWhole hpa (by omega)) (by omega) (by omega) (by ring)

theorem add_abs_sub (u v : Int) : u + v + |u - v| = 2 * max u v := by
  rw [Int.abs_eq_natAbs]
  omega

theorem sub_abs_sub (u v : Int) : u + v - |u - v| = 2 * min u v := by
  rw [Int.abs_eq_natAbs]
  omega

/-- The greater root is the first for a positive `a`, and the second for a negative one. -/
def firstRoot (a r s : Int) : Int := if 0 < a then max r s else min r s

def secondRoot (a r s : Int) : Int := if 0 < a then min r s else max r s

theorem max_mul_eq (a r s : Int) : max (a * r) (a * s) = a * firstRoot a r s := by
  unfold firstRoot
  split_ifs with h
  · exact (mul_max_of_nonneg r s h.le).symm
  · exact (antitone_mul_left (not_lt.1 h)).map_min.symm

theorem min_mul_eq (a r s : Int) : min (a * r) (a * s) = a * secondRoot a r s := by
  unfold secondRoot
  split_ifs with h
  · exact (mul_min_of_nonneg r s h.le).symm
  · exact (antitone_mul_left (not_lt.1 h)).map_max.symm

section

variable {p : Quadratic} {a r s : Int} (ha : a ≠ 0) (hle : |a| * (|r| + |s| + 1) ≤ 16777216)
  (hpa : p.a.HasValue a) (hpb : p.b.HasValue ((-a * (r + s) : Int) : Rat))
  (hpc : p.c.HasValue ((a * r * s : Int) : Rat))
include hle hpa hpb hpc

/-- The settled discriminant is the exact one: it is zero, or far above the tolerance. -/
theorem settledDiscriminant_planted :
    p.settledDiscriminant.HasValue ((|a * r - a * s| * |a * r - a * s| : Int) : Rat) := by
  have hbound := planted_bounds hle
  have hsum := sq_le_of_abs_le (w := a * r + a * s) (by
    linarith [abs_add_le (a * r) (a * s), abs_nonneg a])
  have hdiff := sq_le_of_abs_le (w := a * r - a * s) (by
    linarith [abs_sub (a * r) (a * s), abs_nonneg a])
  have hsum0 := mul_self_nonneg (a * r + a * s)
  have hdiff0 := mul_self_nonneg (a * r - a * s)
  have h4a : |4 * a| ≤ 67108864 := by
    rw [abs_mul, abs_of_pos (by norm_num)]
    linarith [abs_nonneg (a * r), abs_nonneg (a * s)]
  have hb : -a * (r + s) * (-a * (r + s)) = (a * r + a * s) * (a * r + a * s) := by ring
  have hc : 4 * a * (a * r * s) =
      (a * r + a * s) * (a * r + a * s) - (a * r - a * s) * (a * r - a * s) := by ring
  have hfour := inRange_of_representable (representable_intCast (n := 4 * a) (by
    rw [Int.abs_eq_natAbs] at h4a
    omega))
  rw [Int.cast_mul, Int.cast_ofNat] at hfour
  have h := settledDiscriminant_hasValue hpa hpb hpc hfour (by rw [hb]; omega)
    (by rw [hc]; omega) (by rw [hb, hc]; omega)
  rw [hb, hc, sub_sub_cancel] at h
  rw [abs_mul_abs_self]
  generalize (a * r + a * s) * (a * r + a * s) = square at hsum hsum0 h
  generalize (a * r - a * s) * (a * r - a * s) = discriminant at hdiff hdiff0 h ⊢
  -- The discriminant of distinct roots is at least 1, and the tolerance there is at most a quarter.
  rcases hdiff0.eq_or_lt with rfl | hpos
  · rwa [Int.cast_zero, ite_self] at h
  · rwa [if_neg] at h
    have hmax : max square |square - discriminant| ≤ 281474976710656 := by
      rw [Int.abs_eq_natAbs]
      omega
    have hmax : ((max square |square - discriminant| : Int) : Rat) ≤ 281474976710656 := by
      exact_mod_cast hmax
    have hone : (1 : Rat) ≤ discriminant := by exact_mod_cast hpos
    have h50 : (2 : Rat) ^ (-50 : Int) = 1 / 1125899906842624 := by norm_num
    rw [abs_of_pos (by linarith), h50]
    linarith

include ha

theorem solve_planted_double (h : r = s) : ∃ x, p.solve = .ok (.oneReal x) ∧ x.HasValue r := by
  subst h
  have hbound := planted_bounds hle
  have hz := hpa.isZero_eq_false (by exact_mod_cast ha)
  have hd := settledDiscriminant_planted hle hpa hpb hpc
  rw [sub_self, abs_zero, mul_zero, Int.cast_zero] at hd
  have hnum : (-p.b).HasValue ((2 * (a * r) : Int) : Rat) := by
    rw [show 2 * (a * r) = -(-a * (r + r)) by ring, Int.cast_neg]
    exact hpb.neg
  refine ⟨-p.b / (2 * p.a), solve_of_zero hz hd rfl, hasValue_root ha hpa hnum ?_ ?_⟩
  · linarith [abs_nonneg (a * r)]
  · linarith [abs_nonneg a, abs_nonneg (a * r)]

theorem solve_planted_pair (h : r ≠ s) :
    ∃ x1 x2, p.solve = .ok (.twoReal x1 x2) ∧ x1.HasValue (firstRoot a r s) ∧
      x2.HasValue (secondRoot a r s) := by
  have hbound := planted_bounds hle
  have hz := hpa.isZero_eq_false (by exact_mod_cast ha)
  have hdist : 0 < |a * r - a * s| := by
    rw [← mul_sub, abs_pos]
    exact mul_ne_zero ha (sub_ne_zero.2 h)
  have hd := settledDiscriminant_planted hle hpa hpb hpc
  have hpos : (0 : Rat) < ((|a * r - a * s| * |a * r - a * s| : Int) : Rat) := by
    exact_mod_cast Int.mul_pos hdist hdist
  have hmax : |max (a * r) (a * s)| ≤ 16777216 := by
    simp only [Int.abs_eq_natAbs] at hbound ⊢
    omega
  have hmin : |min (a * r) (a * s)| ≤ 16777216 := by
    simp only [Int.abs_eq_natAbs] at hbound ⊢
    omega
  have ha' : |a| ≤ 16777216 := by linarith [abs_nonneg (a * r), abs_nonneg (a * s)]
  have hroot := hd.sqrtWhole hdist (by simp only [Int.abs_eq_natAbs] at hbound ⊢; omega)
  have hnb : (-p.b).HasValue ((a * r + a * s : Int) : Rat) := by
    rw [show a * r + a * s = -(-a * (r + s)) by ring, Int.cast_neg]
    exact hpb.neg
  have hplus := hnb.addWhole hroot (by rw [add_abs_sub]; rw [Int.abs_eq_natAbs] at hmax; omega)
  have hminus := hnb.subWhole hroot (by rw [sub_abs_sub]; rw [Int.abs_eq_natAbs] at hmin; omega)
  rw [add_abs_sub, max_mul_eq] at hplus
  rw [sub_abs_sub, min_mul_eq] at hminus
  rw [max_mul_eq] at hmax
  rw [min_mul_eq] at hmin
  exact ⟨_, _, solve_of_pos hz hd hpos, hasValue_root ha hpa hplus ha' hmax,
    hasValue_root ha hpa hminus ha' hmin⟩

end

end Quadratic

theorem inRange_intCast {n : Int} (h : n.natAbs ≤ 9007199254740992) : InRange n :=
  inRange_of_representable (representable_intCast h)

section

variable (o : Options) {a b k d : Int} (ha : a.natAbs ≤ 9007199254740992)
  (hb : b.natAbs ≤ 9007199254740992) (hd : d.natAbs ≤ 9007199254740992)
include ha hb hd

theorem exists_report_linearWhole {solution : Solution}
    (hs : (Coefficients.linear ⟨.ofInt a, .ofInt b, .ofInt d⟩).solve = .ok solution) :
    ∃ report, solveEquation (linearWholeText a b d) .linear o = .ok report ∧
      report.solution = solution := by
  rw [← coefficients_linearWhole] at hs
  obtain ⟨report, hr, -, hs⟩ := (linearWhole a b d).exists_report o (text_linearWhole a b d)
    (readable_linearWhole (inRange_intCast ha) (inRange_intCast hb) (inRange_intCast hd)) hs
  exact ⟨report, hr, hs⟩

theorem exists_report_quadraticWhole (hk : k.natAbs ≤ 9007199254740992) {solution : Solution}
    (hs : (Quadratic.ofSides (.ofInt a) (.ofInt b) (.ofInt k) (.ofInt d)).solve = .ok solution) :
    ∃ report, solveEquation (quadraticWholeText a b k d) .quadratic o = .ok report ∧
      report.solution = solution := by
  have hs : (quadraticWhole a b k d).coefficients.solve = .ok solution := by
    rw [coefficients_quadraticWhole]
    exact hs
  obtain ⟨report, hr, -, hs⟩ := (quadraticWhole a b k d).exists_report o (text_quadraticWhole a b k d)
    (readable_quadraticWhole (inRange_intCast ha) (inRange_intCast hb) (inRange_intCast hk)
      (inRange_intCast hd)) hs
  exact ⟨report, hr, hs⟩

end

/-- Planted whole roots come back as they are: from the text of `a x² - a(r+s) x + (ars+d) = d`, and
from that of `a x + b = ar+b`. -/
theorem planted_roots_recovered (o : Options) :
    (∀ a r s d : Int, a ≠ 0 → |a| * (|r| + |s| + 1) ≤ 2 ^ 24 → |d| ≤ 2 ^ 50 →
      ∃ report, solveEquation (quadraticWholeText a (-a * (r + s)) (a * r * s + d) d) .quadratic o =
          .ok report ∧
        if r = s then ∃ x, report.solution = .oneReal x ∧ x.HasValue r
        else ∃ x1 x2, report.solution = .twoReal x1 x2 ∧
          x1.HasValue ((if 0 < a then max r s else min r s : Int) : Rat) ∧
          x2.HasValue ((if 0 < a then min r s else max r s : Int) : Rat)) ∧
    (∀ a r b : Int, a ≠ 0 → |a| ≤ 2 ^ 53 → |b| ≤ 2 ^ 53 → |a * r| ≤ 2 ^ 53 →
      |a * r + b| ≤ 2 ^ 53 →
      ∃ report, solveEquation (linearWholeText a b (a * r + b)) .linear o = .ok report ∧
        ∃ x, report.solution = .oneReal x ∧ x.HasValue r) := by
  constructor
  · intro a r s d ha hle hd
    obtain ⟨ha', hb', hk', hd'⟩ := Quadratic.planted_numbers_le ha hle hd
    have hprod := Quadratic.planted_product_le ha hle
    have hc : (ofInt (a * r * s + d) - ofInt d).HasValue ((a * r * s : Int) : Rat) := by
      have h := (hasValue_ofInt hk').subWhole (hasValue_ofInt hd') (by
        rw [add_sub_cancel_right, ← Int.ofNat_le, Int.natCast_natAbs]
        exact hprod.trans (by norm_num))
      rwa [add_sub_cancel_right] at h
    by_cases h : r = s
    · obtain ⟨x, hs, hx⟩ := Quadratic.solve_planted_double
        (p := .ofSides (.ofInt a) (.ofInt (-a * (r + s))) (.ofInt (a * r * s + d)) (.ofInt d))
        ha hle (hasValue_ofInt ha') (hasValue_ofInt hb') hc h
      obtain ⟨report, hr, hs⟩ := exists_report_quadraticWhole o ha' hb' hd' hk' hs
      refine ⟨report, hr, ?_⟩
      rw [if_pos h]
      exact ⟨x, hs, hx⟩
    · obtain ⟨x1, x2, hs, hx⟩ := Quadratic.solve_planted_pair
        (p := .ofSides (.ofInt a) (.ofInt (-a * (r + s))) (.ofInt (a * r * s + d)) (.ofInt d))
        ha hle (hasValue_ofInt ha') (hasValue_ofInt hb') hc h
      obtain ⟨report, hr, hs⟩ := exists_report_quadraticWhole o ha' hb' hd' hk' hs
      refine ⟨report, hr, ?_⟩
      rw [if_neg h]
      exact ⟨x1, x2, hs, hx⟩
  · intro a r b ha ha' hb har hc
    simp only [Int.abs_eq_natAbs] at ha' hb har hc
    have ha' : a.natAbs ≤ 9007199254740992 := by omega
    have hb' : b.natAbs ≤ 9007199254740992 := by omega
    have hc' : (a * r + b).natAbs ≤ 9007199254740992 := by omega
    obtain ⟨x, hs, hx⟩ := Linear.solve_planted
      (p := ⟨.ofInt a, .ofInt b, .ofInt (a * r + b)⟩) ha (hasValue_ofInt ha')
      (hasValue_ofInt hb') (hasValue_ofInt hc') (by omega)
    have hs : (Coefficients.linear ⟨.ofInt a, .ofInt b, .ofInt (a * r + b)⟩).solve =
        .ok (.oneReal x) := by rw [Coefficients.solve, hs]
    obtain ⟨report, hr, hs⟩ := exists_report_linearWhole o ha' hb' hc' hs
    exact ⟨report, hr, x, hs, hx⟩

theorem planted_roots_of_three_equations :
    (∃ report, solveEquation (quadraticWholeText (-3) (-3) 25 7) .quadratic {} = .ok report ∧
      ∃ x1 x2, report.solution = .twoReal x1 x2 ∧ x1.HasValue ((-3 : Int) : Rat) ∧
        x2.HasValue ((2 : Int) : Rat)) ∧
    (∃ report, solveEquation (quadraticWholeText 1 (-8) 16 0) .quadratic {} = .ok report ∧
      ∃ x, report.solution = .oneReal x ∧ x.HasValue ((4 : Int) : Rat)) ∧
    ∃ report, solveEquation (linearWholeText 2 5 (-9)) .linear {} = .ok report ∧
      ∃ x, report.solution = .oneReal x ∧ x.HasValue ((-7 : Int) : Rat) := by
  obtain ⟨hq, hl⟩ := planted_roots_recovered {}
  have hpair := hq (-3) 2 (-3) 7 (by decide) (by decide) (by decide)
  have hdouble := hq 1 4 4 0 (by decide) (by decide) (by decide)
  have hline := hl 2 (-7) 5 (by decide) (by decide) (by decide) (by decide) (by decide)
  norm_num at hpair hdouble hline
  exact ⟨by simpa using hpair, by simpa using hdouble, by simpa using hline⟩

end SchoolAlgebra
