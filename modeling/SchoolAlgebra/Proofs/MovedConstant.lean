import SchoolAlgebra.Proofs.PerfectSquare
set_option autoImplicit false

/-!
A constant moved to the other side. Both constants of `a x² + b x + (c + d) = d` are rounded before they are
subtracted, so the standard form has the constant `c` only up to what these roundings lose. Where they lose
nothing, or little against the discriminant, the kind of solution is that of `a x² + b x + c = 0`. The
tolerance of the discriminant is measured with the difference and does not know of the loss.
-/

namespace SchoolAlgebra
open Binary64

/-- What the roundings of `c + d` and of `d` lose of the difference `c`. -/
def rebalancingLoss (c d : Rat) : Rat := |rounded (c + d) - rounded d - c|

theorem rebalancingLoss_nonneg (c d : Rat) : 0 ≤ rebalancingLoss c d := abs_nonneg _

theorem rebalancingLoss_of_representable {c d : Rat} (hk : Representable (c + d))
    (hd : Representable d) : rebalancingLoss c d = 0 := by
  rw [rebalancingLoss, rounded_of_representable hk, rounded_of_representable hd, add_sub_cancel_right,
    sub_self, abs_zero]

theorem rebalancingLoss_le {k : Nat} {c d : Rat} (hc : Sized k (c + d)) (hd : Sized k d)
    (hk : k ≤ 970) : rebalancingLoss c d ≤ unitError * (|c + d| + |d|) := by
  have hleft := near_rounded_of_sized hc hk
  have hright := near_rounded_of_sized hd hk
  have heq : rounded (c + d) - rounded d - c = rounded (c + d) - (c + d) - (rounded d - d) := by ring
  have htri := abs_sub (rounded (c + d) - (c + d)) (rounded d - d)
  unfold Near at hleft hright
  rw [rebalancingLoss, heq]
  linarith

section

variable {c d : Rat} (hk : Sized 300 (c + d)) (hd : Sized 300 d)
include hk hd

theorem sized_difference : Sized 352 (rounded (c + d) - rounded d) :=
  (sized_rounded hk (by norm_num)).sub_of_representable (sized_rounded hd (by norm_num))
    (hasValue_ofRat (hk.inRange (by norm_num))).representable
    (hasValue_ofRat (hd.inRange (by norm_num))).representable

theorem abs_rebalanced_sub_le :
    |rounded (rounded (c + d) - rounded d) - c| ≤
      unitError * |c| + (1 + unitError) * rebalancingLoss c d := by
  have hround := near_rounded_of_sized (sized_difference hk hd) (by norm_num)
  have hsize := abs_sub_abs_le_abs_sub (rounded (c + d) - rounded d) c
  have htri := abs_sub_le (rounded (rounded (c + d) - rounded d)) (rounded (c + d) - rounded d) c
  rw [Near, unitError_eq] at hround
  rw [rebalancingLoss, unitError_eq]
  linarith

end

namespace Quadratic

section

variable {p : Quadratic} {a b c q loss : Rat} (ha : Sized 400 a) (hloss : 0 ≤ loss)
  (hc : |q - c| ≤ unitError * |c| + (1 + unitError) * loss)
include ha hc

theorem abs_product_sub_le :
    |4 * rounded a * q - 4 * a * c| ≤
      (2 * unitError + unitError * unitError) * |4 * a * c| +
        (1 + unitError) ^ 2 * (4 * (|a| * loss)) := by
  have hna := near_rounded_of_sized ha (by norm_num)
  have hfirst : |rounded a| * |q - c| ≤
      (1 + unitError) * |a| * (unitError * |c| + (1 + unitError) * loss) :=
    mul_le_mul hna.abs_le hc (abs_nonneg _) (by have := unitError_pos; positivity)
  have hsecond : |rounded a - a| * |c| ≤ unitError * |a| * |c| :=
    mul_le_mul_of_nonneg_right hna (abs_nonneg c)
  have hfour : |4 * a * c| = 4 * (|a| * |c|) := by
    rw [abs_mul, abs_mul, abs_of_pos (by norm_num), mul_assoc]
  calc |4 * rounded a * q - 4 * a * c|
      = |4 * (rounded a * (q - c)) + 4 * ((rounded a - a) * c)| := by
        congr 1
        ring
    _ ≤ 4 * (|rounded a| * |q - c|) + 4 * (|rounded a - a| * |c|) := by
        refine (abs_add_le _ _).trans_eq ?_
        rw [abs_mul, abs_mul, abs_mul, abs_mul, abs_of_pos (by norm_num : (0 : Rat) < 4)]
    _ ≤ _ := by
        rw [hfour]
        linarith

variable (hpa : p.a.HasValue (rounded a)) (hpb : p.b.HasValue (rounded b)) (hpc : p.c.HasValue q)
  (hb : Sized 400 b) (hq : Sized 400 q) (hne : a ≠ 0)
include hloss hpa hpb hpc hb hq hne

theorem ofOutcome_of_rounded
    (h : (2 : Rat) ^ (-48 : Int) * max (b ^ 2) |4 * a * c| + 8 * (|a| * loss) <
      |b ^ 2 - 4 * a * c|) :
    Branch.ofOutcome p.solve = .ofSign (b ^ 2 - 4 * a * c) := by
  have hnb := near_rounded_of_sized hb (by norm_num)
  have hna := near_rounded_of_sized ha (by norm_num)
  have hw := hnb.mul hnb unitError_pos.le
  rw [Near, abs_of_nonneg (mul_self_nonneg b), ← sq, ← sq] at hw
  have hv := abs_product_sub_le ha hc
  have hwm := le_max_left (b ^ 2) |4 * a * c|
  have hvm := le_max_right (b ^ 2) |4 * a * c|
  have hlarger : 0 ≤ max (b ^ 2) |4 * a * c| := le_max_of_le_left (sq_nonneg b)
  have hextra : 0 ≤ |a| * loss := mul_nonneg (abs_nonneg a) hloss
  have hw' := (abs_le.1 hw).2
  have hv' := abs_sub_abs_le_abs_sub (4 * rounded a * q) (4 * a * c)
  rw [unitError_eq] at hw hv hw'
  -- In units of the larger term: the terms move by four, and the test looks at sixteen of thirty-two.
  have hdist : |rounded b ^ 2 - 4 * rounded a * q - (b ^ 2 - 4 * a * c)| ≤
      5 * unitError * max (b ^ 2) |4 * a * c| + 5 * (|a| * loss) := by
    have htri := abs_sub (rounded b ^ 2 - b ^ 2) (4 * rounded a * q - 4 * a * c)
    rw [sub_sub_sub_comm, unitError_eq]
    linarith
  have hscale : max (rounded b ^ 2) |4 * rounded a * q| ≤
      9 / 8 * max (b ^ 2) |4 * a * c| + 5 * (|a| * loss) :=
    max_le (by linarith) (by linarith)
  have hsize := abs_sub_abs_le_abs_sub (b ^ 2 - 4 * a * c) (rounded b ^ 2 - 4 * rounded a * q)
  rw [abs_sub_comm (b ^ 2 - 4 * a * c)] at hsize
  rw [show (2 : Rat) ^ (-48 : Int) = 32 * unitError by rw [unitError_eq]; norm_num] at h
  rw [unitError_eq] at h hdist
  have hfar : (2 : Rat) ^ (-49 : Int) * max (rounded b ^ 2) |4 * rounded a * q| <
      |rounded b ^ 2 - 4 * rounded a * q| := by
    rw [show (2 : Rat) ^ (-49 : Int) = 1 / 562949953421312 by norm_num]
    linarith
  rw [ofOutcome_outside hpa hpb hpc (sized_rounded ha (by norm_num))
    (sized_rounded hb (by norm_num)) hq
    (hpa.isZero_eq_false (hna.ne_zero unitError_lt_one hne)) hfar]
  exact Branch.ofSign_eq_of_abs_sub_lt (by linarith)

end

end Quadratic

/-- The discriminant from the exact coefficients `a` and `b` and the constant of the standard form. -/
def Quadratic.computedDiscriminant (a b q : Rat) : Rat :=
  settled (rounded (rounded b * rounded b)) (rounded (4 * rounded a * q))

/-- The kind of the reported solution. -/
def solutionKind (raw : Text) (o : Options) : Branch :=
  .ofOutcome ((solveEquation raw .quadratic o).map Report.solution)

section

variable {e f : TypedEquation .quadratic} {raw raw' : Text} {a b c d : Rat} (o : Options)
  (he : e.Says a b (c + d) d) (hraw : e.text = raw.withoutBlanks)

section

variable (ha : InRange a) (hb : InRange b) (hk : InRange (c + d)) (hd : InRange d)
include he hraw ha hb hk hd

theorem TypedEquation.Says.exists_standard_form :
    ∃ p : Quadratic, (solveEquation raw .quadratic o).map Report.solution = p.solve ∧
      p.a.HasValue (rounded a) ∧ p.b.HasValue (rounded b) ∧
      p.c.Agrees (ofRat (rounded (c + d) - rounded d)) := by
  obtain ⟨p, hp, hpa, hpb, hpk, hpr, hsub⟩ := he.exists_coefficients ha hb hk hd
  refine ⟨p, ?_, hpa, hpb, hsub ▸ hpk.sub_agrees hpr⟩
  rw [e.map_solution o hraw (he.readable ha hb hk hd), hp]
  rfl

variable (hf : f.Says a b c 0) (hraw' : f.text = raw'.withoutBlanks) (hc : InRange c)
include hf hraw' hc

/-- Without a loss both constants are rounded to the same number, and without a highest power both
equations are at fault. -/
theorem sameOutcome_of_lossless (h : rounded a = 0 ∨ rebalancingLoss c d = 0) :
    SameOutcome ((solveEquation raw .quadratic o).map Report.solution)
      ((solveEquation raw' .quadratic o).map Report.solution) := by
  obtain ⟨p, hp, hpa, hpb, hpc⟩ := he.exists_standard_form o hraw ha hb hk hd
  obtain ⟨q, hq, hqa, hqb, hqc⟩ := TypedEquation.Says.exists_standard_form o
    ((add_zero c).symm ▸ hf) hraw' ha hb ((add_zero c).symm ▸ hc)
    (inRange_of_representable ⟨.zero, by simp⟩)
  rw [hp, hq]
  rcases h with hzero | hloss
  · rw [hzero] at hpa hqa
    rw [Quadratic.solve, Quadratic.solve, if_pos (hpa.isZero_iff.2 rfl), if_pos (hqa.isZero_iff.2 rfl)]
    exact .fault _
  · rw [add_zero, rounded_zero, sub_zero] at hqc
    rw [sub_eq_zero.1 (abs_eq_zero.1 hloss)] at hpc
    have hround := hasValue_ofRat hc
    have hagain := HasValue.of_agrees_ofRat (.refl _) hround.representable
    exact Quadratic.Agrees.solve ⟨(hpa.agrees_iff hqa).2 rfl, (hpb.agrees_iff hqb).2 rfl,
      hpc.trans (((hround.agrees_iff hagain).2 rfl).trans hqc.symm)⟩

end

section

variable (hne : a ≠ 0) (ha : Sized 300 a) (hb : Sized 300 b) (hk : Sized 300 (c + d))
  (hd : Sized 300 d)
include he hraw ha hb hk hd

theorem TypedEquation.Says.exists_sized_form :
    ∃ p : Quadratic, (solveEquation raw .quadratic o).map Report.solution = p.solve ∧
      p.a.HasValue (rounded a) ∧ p.b.HasValue (rounded b) ∧
      p.c.HasValue (rounded (rounded (c + d) - rounded d)) ∧
      Sized 400 (rounded (rounded (c + d) - rounded d)) := by
  have hin : ∀ {q : Rat}, Sized 300 q → InRange q := fun h => h.inRange (by norm_num)
  obtain ⟨p, hp, hpa, hpb, hpc⟩ :=
    he.exists_standard_form o hraw (hin ha) (hin hb) (hin hk) (hin hd)
  have hdiff := sized_difference hk hd
  exact ⟨p, hp, hpa, hpb, hpc.hasValue (hpc.isFinite_iff.2 (hdiff.inRange (by norm_num))),
    (sized_rounded hdiff (by norm_num)).mono (by norm_num)⟩

include hne

theorem TypedEquation.Says.solutionKind_eq :
    solutionKind raw o = .ofSign
      (Quadratic.computedDiscriminant a b (rounded (rounded (c + d) - rounded d))) := by
  obtain ⟨p, hp, hpa, hpb, hpc, hq⟩ := he.exists_sized_form o hraw ha hb hk hd
  have hna := near_rounded_of_sized ha (by norm_num)
  have hsa := sized_rounded ha (by norm_num)
  have hsb := sized_rounded hb (by norm_num)
  rw [solutionKind, hp]
  exact Quadratic.ofOutcome_solve (hpa.isZero_eq_false (hna.ne_zero unitError_lt_one hne))
    (Quadratic.settledDiscriminant_of_sized hpa hpb hpc (hsa.mono (by norm_num))
      (hsb.mono (by norm_num)) hq)

theorem TypedEquation.Says.solutionKind_of_far {loss : Rat} (hloss : 0 ≤ loss)
    (hc : |rounded (rounded (c + d) - rounded d) - c| ≤
      unitError * |c| + (1 + unitError) * loss)
    (h : (2 : Rat) ^ (-48 : Int) * max (b ^ 2) |4 * a * c| + 8 * (|a| * loss) <
      |b ^ 2 - 4 * a * c|) : solutionKind raw o = .ofSign (b ^ 2 - 4 * a * c) := by
  obtain ⟨p, hp, hpa, hpb, hpc, hq⟩ := he.exists_sized_form o hraw ha hb hk hd
  rw [solutionKind, hp]
  exact Quadratic.ofOutcome_of_rounded (ha.mono (by norm_num)) hloss hc hpa hpb hpc
    (hb.mono (by norm_num)) hq hne h

theorem TypedEquation.Says.solutionKind_of_square
    (hc : Near (41 / 16 * unitError) c (rounded (rounded (c + d) - rounded d)))
    (hsquare : b ^ 2 = 4 * a * c) : solutionKind raw o = .one := by
  obtain ⟨p, hp, hpa, hpb, hpc, hq⟩ := he.exists_sized_form o hraw ha hb hk hd
  rw [solutionKind, hp, Quadratic.solve_near_square hpa hpb (ha.mono (by norm_num))
    (hb.mono (by norm_num)) hpc hq hne hc (by rw [← sq, hsquare])]
  rfl

end

end

theorem near_rebalanced_of_small_loss {c d : Rat} (hk : Sized 300 (c + d)) (hd : Sized 300 d)
    (h : rebalancingLoss c d ≤ 3 * (2 : Rat) ^ (-54 : Int) * |c|) :
    Near (41 / 16 * unitError) c (rounded (rounded (c + d) - rounded d)) := by
  have hle := abs_rebalanced_sub_le hk hd
  have hpos := abs_nonneg c
  rw [show (2 : Rat) ^ (-54 : Int) = unitError / 2 by rw [unitError_eq]; norm_num] at h
  rw [unitError_eq] at h hle
  rw [Near, unitError_eq]
  linarith

theorem rounded_rebalanced_zero {c : Rat} (hc : InRange c) :
    rounded (rounded (c + 0) - rounded 0) = rounded c := by
  rw [add_zero, rounded_zero, sub_zero, rounded_of_representable (hasValue_ofRat hc).representable]

/-- The equations `a x² + b x + (c + d) = d` and `a x² + b x + c = 0`. Their solutions are the same where the
rebalancing loses nothing of the constant. Otherwise their kinds are those of discriminants that differ in the
constant only. Both are the kind of the exact discriminant if the loss is small against that, and both one
root for a perfect square if it is below one and a half units of the constant; it is not more than a unit of
the constants as they are written. -/
theorem moved_constant_keeps_kind {raw raw' : Text} {e f : TypedEquation .quadratic}
    {a b c d : Rat} (o : Options) (hraw : e.text = raw.withoutBlanks)
    (hraw' : f.text = raw'.withoutBlanks) (he : e.Says a b (c + d) d) (hf : f.Says a b c 0)
    (ha : InRange a) (hb : InRange b) (hc : InRange c) (hd : InRange d) (hk : InRange (c + d)) :
    (rounded a = 0 ∨ rebalancingLoss c d = 0 →
      SameOutcome ((solveEquation raw .quadratic o).map Report.solution)
        ((solveEquation raw' .quadratic o).map Report.solution)) ∧
    (a ≠ 0 → (∀ q ∈ [a, b, c, d, c + d], Sized 300 q) →
      (solutionKind raw o = .ofSign
          (Quadratic.computedDiscriminant a b (rounded (rounded (c + d) - rounded d))) ∧
        solutionKind raw' o = .ofSign (Quadratic.computedDiscriminant a b (rounded c))) ∧
      ((2 : Rat) ^ (-48 : Int) * max (b ^ 2) |4 * a * c| + 8 * (|a| * rebalancingLoss c d) <
          |b ^ 2 - 4 * a * c| →
        solutionKind raw o = .ofSign (b ^ 2 - 4 * a * c) ∧
          solutionKind raw' o = .ofSign (b ^ 2 - 4 * a * c)) ∧
      (b ^ 2 = 4 * a * c → rebalancingLoss c d ≤ 3 * (2 : Rat) ^ (-54 : Int) * |c| →
        solutionKind raw o = .one ∧ solutionKind raw' o = .one) ∧
      rebalancingLoss c d ≤ (2 : Rat) ^ (-53 : Int) * (|c + d| + |d|)) := by
  refine ⟨sameOutcome_of_lossless o he hraw ha hb hk hd hf hraw' hc, fun hne hsized => ?_⟩
  simp only [List.forall_mem_cons] at hsized
  have hround := rounded_rebalanced_zero hc
  obtain ⟨ha, hb, hc, hd, hk, -⟩ := hsized
  -- The second equation is the first one with zero in the place of the constant that is moved.
  have hf' : f.Says a b (c + 0) 0 := (add_zero c).symm ▸ hf
  have hk' : Sized 300 (c + 0) := (add_zero c).symm ▸ hc
  have hzero := near_rounded_of_sized hc (by norm_num)
  rw [← hround] at hzero
  refine ⟨⟨?_, ?_⟩, fun hfar => ⟨?_, ?_⟩, fun hsquare hloss => ⟨?_, ?_⟩,
    rebalancingLoss_le hk hd (by norm_num)⟩
  · exact he.solutionKind_eq o hraw hne ha hb hk hd
  · rw [hf'.solutionKind_eq o hraw' hne ha hb hk' (.inl rfl), hround]
  · exact he.solutionKind_of_far o hraw hne ha hb hk hd (rebalancingLoss_nonneg c d)
      (abs_rebalanced_sub_le hk hd) hfar
  · refine hf'.solutionKind_of_far o hraw' hne ha hb hk' (.inl rfl) le_rfl ?_ ?_
    · exact le_trans hzero (by rw [mul_zero, add_zero])
    · have hextra := mul_nonneg (abs_nonneg a) (rebalancingLoss_nonneg c d)
      linarith
  · exact he.solutionKind_of_square o hraw hne ha hb hk hd (near_rebalanced_of_small_loss hk hd hloss)
      hsquare
  · refine hf'.solutionKind_of_square o hraw' hne ha hb hk' (.inl rfl) (hzero.mono ?_) hsquare
    linarith [unitError_pos]

def TypedEquation.withConstants (e : TypedEquation .quadratic) (k r : Text)
    (hk : Text.constant? k = some (k, [])) (hr : Text.isNumeral r = true) :
    TypedEquation .quadratic where
  left := match e.left with
    | .quadratic p => .quadratic
      { p with
        constant := some k
        constant_mem := fun _ h => Option.some.inj h ▸ Grammar.constant_of_constant? hk }
  right := r
  right_mem := Grammar.isNumeral_iff.1 hr

theorem moved_constants_of_tenth :
    SameOutcome
        ((solveEquation "x² - 0.2x + 12 = 10".toList .quadratic {}).map Report.solution)
        ((solveEquation "x² - 0.2x + 2 = 0".toList .quadratic {}).map Report.solution) ∧
      solutionKind "x² - 0.2x + 12 = 10".toList {} = .complex ∧
      solutionKind "x² - 0.2x + 0.012 = 0.002".toList {} = .one := by
  have hsized : ∀ q : Rat, 1 / 1024 ≤ |q| → |q| ≤ 1024 → Sized 300 q := fun q hl hu =>
    Sized.mono (j := 10) (.inr ⟨by norm_num; linarith, by norm_num; linarith⟩) (by norm_num)
  have hin : ∀ q : Rat, Sized 300 q → InRange q := fun q h => h.inRange (by norm_num)
  have h1 : Sized 300 1 := hsized 1 (by norm_num) (by norm_num)
  have hb : Sized 300 (-1 / 5) := by apply hsized <;> norm_num [abs_div]
  have h2 : Sized 300 2 := by apply hsized <;> norm_num
  have h10 : Sized 300 10 := by apply hsized <;> norm_num
  have h12 : Sized 300 (2 + 10) := by apply hsized <;> norm_num
  have hc : Sized 300 (1 / 100) := by apply hsized <;> norm_num
  have hd : Sized 300 (1 / 500) := by apply hsized <;> norm_num
  have hk : Sized 300 (1 / 100 + 1 / 500) := by apply hsized <;> norm_num
  have hall : ∀ {c d : Rat}, Sized 300 c → Sized 300 d → Sized 300 (c + d) →
      ∀ q ∈ [1, -1 / 5, c, d, c + d], Sized 300 q := fun hc hd hk => by
    simp only [List.forall_mem_cons]
    exact ⟨h1, hb, hc, hd, hk, by simp⟩
  have hwhole := moved_constant_keeps_kind (a := 1) (b := -1 / 5) (c := 2) (d := 10) {}
    (show (squareOfTenth.withConstants "+12".toList "10".toList rfl rfl).text =
      Text.withoutBlanks "x² - 0.2x + 12 = 10".toList by decide)
    (show (squareOfTenth.withConstants "+2".toList "0".toList rfl rfl).text =
      Text.withoutBlanks "x² - 0.2x + 2 = 0".toList by decide)
    (by constructor <;> decide +kernel) (by constructor <;> decide +kernel)
    (hin _ h1) (hin _ hb) (hin _ h2) (hin _ h10) (hin _ h12)
  have hsmall := moved_constant_keeps_kind (a := 1) (b := -1 / 5) (c := 1 / 100) (d := 1 / 500) {}
    (show (squareOfTenth.withConstants "+0.012".toList "0.002".toList rfl rfl).text =
      Text.withoutBlanks "x² - 0.2x + 0.012 = 0.002".toList by decide)
    (show squareOfTenth.text = Text.withoutBlanks "x² - 0.2x + 0.01 = 0".toList by decide)
    (by constructor <;> decide +kernel) (by constructor <;> decide +kernel)
    (hin _ h1) (hin _ hb) (hin _ hc) (hin _ hd) (hin _ hk)
  have hlossless : rebalancingLoss 2 10 = 0 := rebalancingLoss_of_representable
    (by norm_num; exact representable_intCast (n := 12) (by decide))
    (representable_intCast (n := 10) (by decide))
  obtain ⟨-, hfar, -, -⟩ := hwhole.2 one_ne_zero (hall h2 h10 h12)
  obtain ⟨-, -, hsquare, hloss⟩ := hsmall.2 one_ne_zero (hall hc hd hk)
  refine ⟨hwhole.1 (.inr hlossless), ?_, (hsquare (by norm_num) (hloss.trans (by norm_num))).1⟩
  rw [(hfar (by rw [hlossless]; norm_num [abs_of_neg])).1, Branch.ofSign_eq_complex_iff]
  norm_num

/-- The square of `x - 0.1` moved by ten: rounding `10.01` loses the last digits of the constant, the
discriminant counts as positive, and the double root is told twice. -/
theorem moved_square_of_tenth :
    (∃ e f : TypedEquation .quadratic, e.text = Text.withoutBlanks "x² - 0.2x + 10.01 = 10".toList ∧
      f.text = Text.withoutBlanks "x² - 0.2x + 0.01 = 0".toList ∧
      e.Says 1 (-1 / 5) (1 / 100 + 10) 10 ∧ f.Says 1 (-1 / 5) (1 / 100) 0) ∧
    solutionKind "x² - 0.2x + 10.01 = 10".toList {} = .two ∧
    solutionKind "x² - 0.2x + 0.01 = 0".toList {} = .one := by
  refine ⟨⟨squareOfTenth.withConstants "+10.01".toList "10".toList rfl rfl, squareOfTenth, by decide,
    by decide, ?_, ?_⟩, by decide +kernel, by decide +kernel⟩
  · constructor <;> decide +kernel
  · constructor <;> decide +kernel

end SchoolAlgebra
