import SchoolAlgebra.Proofs.Denotation
import SchoolAlgebra.Proofs.Tolerance
set_option autoImplicit false

namespace SchoolAlgebra
open Binary64

theorem Reading.abs_value {r : Reading} (h : 0 ≤ r.magnitude) : |r.value| = r.magnitude :=
  Sign.abs_apply _ h

theorem Binary64.Rounds.hasValue {x : Binary64} {r : Reading} (h : x.Rounds r)
    (hr : 0 ≤ r.magnitude) (hin : InRange r.value) : x.HasValue (rounded r.value) := by
  have hlt : r.magnitude < (2 : Rat) ^ 1024 - 2 ^ 970 := by
    rwa [InRange, Reading.abs_value hr] at hin
  rw [h.unique (rounds_round r.sign hr hlt)]
  have hag := round_agrees r.sign hr
  exact hag.hasValue (hag.isFinite_iff.2 hin)

theorem Monomial.reading_nonneg (m : Monomial) : 0 ≤ m.reading.magnitude := by
  rw [reading]
  split_ifs
  · exact writtenMagnitude_nonneg m.factor
  · exact coefficientMagnitude_nonneg m.factor

theorem SideParts.coefficient_nonneg {degree : Degree} (p : SideParts degree) (k : Nat) :
    0 ≤ (p.coefficient k).magnitude := by
  rw [coefficient]
  cases p.monomials.find? (·.power == k) with
  | none => exact le_rfl
  | some m => exact m.reading_nonneg

theorem readable_of_inRange {s : Text} (hd : HasDigit s) (h : InRange (numeralReading s).value) :
    ¬Unreadable s := by
  rw [InRange, Reading.abs_value (writtenMagnitude_nonneg s)] at h
  rintro (hn | hle)
  · exact hn hd
  · exact absurd h (not_lt.2 hle)

theorem readable_written_of_inRange {l : Text} (hd : ∀ s ∈ written l, HasDigit s)
    (h : InRange (coefficientReading l).value) : ∀ s ∈ written l, ¬Unreadable s := by
  intro s hs
  have hdigit := hd s hs
  rw [written] at hs
  split_ifs at hs with hb
  · cases hs
  · obtain rfl := List.mem_singleton.1 hs
    rw [coefficientReading, coefficientMagnitude, if_neg hb] at h
    exact readable_of_inRange hdigit h

namespace TypedEquation

/-- The numerals have digits, and over the rationals the equation is `a x² + b x + c = d`. -/
structure Says (e : TypedEquation .quadratic) (a b c d : Rat) : Prop where
  hasDigit : ∀ s ∈ e.numerals, HasDigit s
  square : (e.left.coefficient 2).value = a
  linear : (e.left.coefficient 1).value = b
  constant : (e.left.coefficient 0).value = c
  right : (numeralReading e.right).value = d

namespace Says

variable {e : TypedEquation .quadratic} {a b c d : Rat} (h : e.Says a b c d) (ha : InRange a)
  (hb : InRange b) (hc : InRange c) (hd : InRange d)
include h ha hb hc hd

theorem readable : ∀ s ∈ e.numerals, ¬Unreadable s := by
  obtain ⟨hdigit, rfl, rfl, rfl, rfl⟩ := h
  obtain ⟨left, right, hr⟩ := e
  cases left with
  | quadratic p =>
    rw [SideParts.coefficient_quadratic_two] at ha
    rw [SideParts.coefficient_quadratic_one] at hb
    rw [SideParts.coefficient_quadratic_zero] at hc
    simp only [numerals, SideParts.numerals, List.forall_mem_cons, List.forall_mem_append]
      at hdigit ⊢
    obtain ⟨hright, hlinear, hlead, hconstant⟩ := hdigit
    refine ⟨readable_of_inRange hright hd, ?_, readable_written_of_inRange hlead ha, ?_⟩
    · cases hl : p.linear with
      | none => simp
      | some t =>
        rw [hl] at hlinear hb
        exact readable_written_of_inRange hlinear hb
    · cases hk : p.constant with
      | none => simp
      | some k =>
        rw [hk] at hconstant hc
        simpa using readable_of_inRange (hconstant k (by simp)) hc

theorem exists_coefficients :
    ∃ p : Quadratic, e.coefficients = .quadratic p ∧ p.a.HasValue (rounded a) ∧
      p.b.HasValue (rounded b) ∧ p.typedConstant.HasValue (rounded c) ∧
      p.typedRight.HasValue (rounded d) ∧ p.c = p.typedConstant - p.typedRight := by
  have hden := e.denotes_coefficients (h.readable ha hb hc hd)
  obtain ⟨-, rfl, rfl, rfl, rfl⟩ := h
  have hdegree := e.degree_coefficients
  cases hp : e.coefficients with
  | linear p =>
    rw [hp] at hdegree
    cases hdegree
  | quadratic p =>
    rw [hp] at hden
    obtain ⟨h2, h1, h0, hright, hsub⟩ := hden
    exact ⟨p, rfl, h2.hasValue (e.left.coefficient_nonneg 2) ha,
      h1.hasValue (e.left.coefficient_nonneg 1) hb, h0.hasValue (e.left.coefficient_nonneg 0) hc,
      hright.hasValue (writtenMagnitude_nonneg e.right) hd, hsub⟩

end Says

end TypedEquation

namespace Quadratic

theorem abs_sub_le_of_near {ε δ q w v : Rat} (hq : 0 ≤ q) (hε : 0 ≤ ε) (hw : Near ε q w)
    (hv : Near δ q v) (h : ε + δ ≤ 45 / 8 * unitError) :
    |w - v| ≤ 23 / 4 * unitError * max w |v| := by
  have hlow : (1 - 45 / 8 * unitError) * q ≤ max w |v| := by
    refine le_trans ?_ (hv.le_abs.trans (le_max_right w |v|))
    rw [abs_of_nonneg hq]
    gcongr
    linarith
  rw [Near, abs_of_nonneg hq] at hw hv
  rw [abs_sub_comm] at hv
  calc |w - v| ≤ (ε + δ) * q := by linarith [abs_sub_le w q v]
    _ ≤ 45 / 8 * unitError * q := by gcongr
    _ ≤ 23 / 4 * unitError * ((1 - 45 / 8 * unitError) * q) := by
        rw [unitError_eq]
        linarith
    _ ≤ 23 / 4 * unitError * max w |v| := by
        gcongr
        exact mul_nonneg (by norm_num) unitError_pos.le

section

variable {p : Quadratic} {a b : Rat} (hpa : p.a.HasValue (rounded a))
  (hpb : p.b.HasValue (rounded b)) (ha : Sized 400 a) (hb : Sized 400 b) (hne : a ≠ 0)
include hpa hpb ha hb hne

theorem exists_middle :
    ∃ q, (-p.b / (2 * p.a)).HasValue q ∧ Near ((2 : Rat) ^ (-51 : Int)) (-b / (2 * a)) q := by
  have hna := near_rounded_of_sized ha (by norm_num)
  have hnb := near_rounded_of_sized hb (by norm_num)
  have hsa := (Sized.two_zpow (e := 1) (k := 1) (by norm_num) (by norm_num)).mul
    (sized_rounded ha (by norm_num))
  have hsb := (sized_rounded hb (by norm_num)).neg
  rw [zpow_one] at hsa
  have hsized := hsb.div hsa
  have hne' := (hna.const_mul 2).ne_zero unitError_lt_one (mul_ne_zero two_ne_zero hne)
  have hquot := hpb.neg.div_agrees (hpa.double (hsa.inRange (by norm_num))) hne'
  refine ⟨_, hquot.hasValue (hquot.isFinite_iff.2 (hsized.inRange (by norm_num))), ?_⟩
  have hinv := (hna.const_mul 2).inv unitError_lt_one (mul_ne_zero two_ne_zero hne)
  have hprod := hnb.neg.mul hinv (by rw [unitError_eq]; norm_num)
  rw [← div_eq_mul_inv, ← div_eq_mul_inv] at hprod
  refine (hprod.trans (near_rounded_of_sized hsized (by norm_num)) unitError_pos.le).mono ?_
  rw [← four_mul_unitError, unitError_eq]
  norm_num

end

section

variable {p : Quadratic} {a b : Rat} (hpa : p.a.HasValue (rounded a))
  (hpb : p.b.HasValue (rounded b)) (ha : Sized 400 a) (hb : Sized 400 b)
include hpa hpb ha hb

/-- The constant may be off by one more unit and a half than a rounding leaves it. -/
theorem solve_near_square {c q : Rat} (hpc : p.c.HasValue q) (hq : Sized 400 q) (hne : a ≠ 0)
    (hc : Near (41 / 16 * unitError) c q) (hsquare : b * b = 4 * a * c) :
    p.solve = .ok (.oneReal (-p.b / (2 * p.a))) := by
  have hna := near_rounded_of_sized ha (by norm_num)
  have hnb := near_rounded_of_sized hb (by norm_num)
  have hw := hnb.mul hnb unitError_pos.le
  have hv := (hna.const_mul 4).mul hc (mul_nonneg (by norm_num) unitError_pos.le)
  rw [← hsquare] at hv
  have hz := hpa.isZero_eq_false (hna.ne_zero unitError_lt_one hne)
  refine solve_within_units hpa hpb hpc (sized_rounded ha (by norm_num))
    (sized_rounded hb (by norm_num)) hq hz ?_
  rw [sq]
  refine abs_sub_le_of_near (mul_self_nonneg b) ?_ hw hv ?_ <;> rw [unitError_eq] <;> norm_num

end

theorem solve_square {p : Quadratic} {a r : Rat} (hpa : p.a.HasValue (rounded a))
    (hpb : p.b.HasValue (rounded (-2 * a * r))) (hpc : p.c.HasValue (rounded (a * r ^ 2)))
    (ha : Sized 400 a) (hb : Sized 400 (-2 * a * r)) (hc : Sized 400 (a * r ^ 2)) (hne : a ≠ 0) :
    p.solve = .ok (.oneReal (-p.b / (2 * p.a))) := by
  have hnc := near_rounded_of_sized hc (by norm_num)
  refine solve_near_square hpa hpb ha hb hpc (sized_rounded hc (by norm_num)) hne
    (hnc.mono ?_) (by ring)
  linarith [unitError_pos]

end Quadratic

/-- A perfect square `a x² - 2 a r x + a r² = 0` is reported with one root, which is `r` but for four units
of rounding, however it is written and whatever its decimals. -/
theorem perfect_square_has_one_root {raw : Text} {e : TypedEquation .quadratic} {a r : Rat}
    (o : Options) (ht : e.text = raw.withoutBlanks) (h : e.Says a (-2 * a * r) (a * r ^ 2) 0)
    (hne : a ≠ 0) (ha : Sized 400 a) (hb : Sized 400 (-2 * a * r)) (hc : Sized 400 (a * r ^ 2)) :
    ∃ report x q, solveEquation raw .quadratic o = .ok report ∧ report.solution = .oneReal x ∧
      x.HasValue q ∧ |q - r| ≤ (2 : Rat) ^ (-51 : Int) * |r| := by
  have hin : ∀ {q : Rat}, Sized 400 q → InRange q := fun h => h.inRange (by norm_num)
  have h0 : InRange 0 := hin (.inl rfl)
  obtain ⟨p, hp, hpa, hpb, hpk, hpr, hsub⟩ := h.exists_coefficients (hin ha) (hin hb) (hin hc) h0
  have hpc : p.c.HasValue (rounded (a * r ^ 2)) := by
    rw [rounded_zero] at hpr
    have hk := hpk.sub hpr (by simpa using hpk.representable)
    rwa [sub_zero, ← hsub] at hk
  have hs : e.coefficients.solve = .ok (.oneReal (-p.b / (2 * p.a))) := by
    rw [hp]
    exact Quadratic.solve_square hpa hpb hpc ha hb hc hne
  obtain ⟨report, hr, -, hs⟩ := e.exists_report o ht (h.readable (hin ha) (hin hb) (hin hc) h0) hs
  obtain ⟨q, hq, hnear⟩ := Quadratic.exists_middle hpa hpb ha hb hne
  rw [show -(-2 * a * r) / (2 * a) = r by field_simp] at hnear
  exact ⟨report, _, q, hr, hs, hq, hnear⟩

def squareOfTenth : TypedEquation .quadratic where
  left := .quadratic {
    lead := []
    square := ['x', '²']
    linear := some ("-0.2".toList, ['x'])
    constant := some "+0.01".toList
    lead_mem := ⟨[], .inl rfl, [], Grammar.pointedDigits_mem [], rfl⟩
    square_mem := xSquared_mem_square
    linear_mem := by
      intro t ht
      obtain rfl := Option.some.inj ht
      exact ⟨⟨['-'], .inr rfl, _, Grammar.pointedDigits_mem "0.2".toList, rfl⟩, x_mem_unknown⟩
    constant_mem := by
      intro k hk
      obtain rfl := Option.some.inj hk
      exact ⟨['+'], .inl rfl, _, Grammar.numeral_of_numeral? (s := "0.01".toList) (r := []) rfl, rfl⟩ }
  right := ['0']
  right_mem := Grammar.isNumeral_iff.1 rfl

theorem perfect_square_of_tenth :
    ∃ report x q, solveEquation "x² - 0.2x + 0.01 = 0".toList .quadratic {} = .ok report ∧
      report.solution = .oneReal x ∧ x.HasValue q ∧
      |q - 1 / 10| ≤ (2 : Rat) ^ (-51 : Int) * |1 / 10| := by
  have hsized : ∀ q : Rat, 1 / 128 ≤ |q| → |q| ≤ 128 → Sized 400 q := fun q hl hu =>
    Sized.mono (j := 7) (.inr ⟨by norm_num; linarith, by norm_num; linarith⟩) (by norm_num)
  have hsays : squareOfTenth.Says 1 (-2 * 1 * (1 / 10)) (1 * (1 / 10) ^ 2) 0 := by
    constructor <;> decide +kernel
  exact perfect_square_has_one_root {} (by decide) hsays one_ne_zero
    (hsized _ (by norm_num) (by norm_num)) (hsized _ (by norm_num [abs_of_neg]) (by norm_num [abs_of_neg]))
    (hsized _ (by norm_num [abs_of_pos]) (by norm_num [abs_of_pos]))

end SchoolAlgebra
