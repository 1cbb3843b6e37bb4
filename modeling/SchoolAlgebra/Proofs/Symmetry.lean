import SchoolAlgebra.Proofs.Discriminant
set_option autoImplicit false

namespace SchoolAlgebra

@[simp] theorem Sign.times_flip (s t : Sign) : s.times t.flip = (s.times t).flip := by
  cases s <;> cases t <;> rfl

@[simp] theorem Sign.flip_times (s t : Sign) : s.flip.times t = (s.times t).flip := by
  cases s <;> cases t <;> rfl

@[simp] theorem Sign.flip_inj {s t : Sign} : s.flip = t.flip ↔ s = t := by
  cases s <;> cases t <;> decide

theorem Sign.flip_ofRat {q : Rat} (hq : q ≠ 0) : (ofRat q).flip = ofRat (-q) := by
  rcases hq.lt_or_gt with h | h
  · rw [ofRat, ofRat, if_pos h, if_neg (by linarith)]
    rfl
  · rw [ofRat, ofRat, if_neg (by linarith), if_pos (by linarith)]
    rfl

namespace Binary64

theorem isZero_neg (x : Binary64) : (-x).isZero = x.isZero := by
  cases x <;> rfl

theorem abs_opposite (x : Binary64) : (-x).abs = x.abs := by
  cases x <;> rfl

theorem neg_round (s : Sign) (q : Rat) : -round s q = round s.flip q := by
  unfold round
  cases Magnitude.nearest? q <;> rfl

theorem neg_ofRat {q : Rat} (hq : q ≠ 0) : -ofRat q = ofRat (-q) := by
  rw [ofRat, ofRat, neg_round, Sign.flip_ofRat hq, Rat.abs_neg]

theorem mul_neg_left (x y : Binary64) : -x * y = -(x * y) := by
  change mul (neg x) y = neg (mul x y)
  cases x with
  | nan => rfl
  | infinity s =>
    cases y with
    | nan => rfl
    | infinity t => simp only [neg, mul, Sign.flip_times]
    | finite t n => cases hn : n.isZero <;> simp [neg, mul, hn]
  | finite s m =>
    cases y with
    | nan => rfl
    | infinity t => cases hm : m.isZero <;> simp [neg, mul, hm]
    | finite t n =>
      simp only [neg, mul, Sign.flip_times]
      exact (neg_round _ _).symm

theorem mul_neg_right (x y : Binary64) : x * -y = -(x * y) := by
  rw [mul_comm x, mul_neg_left, mul_comm y]

theorem div_neg_left (x y : Binary64) : -x / y = -(x / y) := by
  change div (neg x) y = neg (div x y)
  cases x with
  | nan => rfl
  | infinity s => cases y <;> simp [neg, div]
  | finite s m =>
    cases y with
    | nan => rfl
    | infinity t => simp only [neg, div, Sign.flip_times]
    | finite t n =>
      cases hn : n.isZero with
      | true => cases hm : m.isZero <;> simp [neg, div, hn, hm]
      | false =>
        simp only [neg, div, hn, Sign.flip_times]
        exact (neg_round _ _).symm

theorem div_neg_right (x y : Binary64) : x / -y = -(x / y) := by
  rw [← div_neg_left]
  change div x (neg y) = div (neg x) y
  cases x with
  | nan => rfl
  | infinity s => cases y <;> simp [neg, div]
  | finite s m =>
    cases y with
    | nan => rfl
    | infinity t => simp only [neg, div, Sign.flip_times, Sign.times_flip]
    | finite t n => simp only [neg, div, Sign.flip_times, Sign.times_flip]

/-- Only a sum of zero may show that the signs were changed before it was taken. -/
theorem add_neg_agrees (x y : Binary64) : (-x + -y).Agrees (-(x + y)) := by
  change (add (neg x) (neg y)).Agrees (neg (add x y))
  cases x with
  | nan => exact .refl _
  | infinity s =>
    cases y with
    | nan => exact .refl _
    | infinity t =>
      simp only [neg, add, Sign.flip_inj]
      split_ifs <;> exact .refl _
    | finite t n => exact .refl _
  | finite s m =>
    cases y with
    | nan => exact .refl _
    | infinity t => exact .refl _
    | finite t n =>
      have hsum : s.flip.apply m.value + t.flip.apply n.value =
          -(s.apply m.value + t.apply n.value) := by
        rw [Sign.apply_flip, Sign.apply_flip, ← neg_add]
      simp only [neg, add, hsum, neg_eq_zero]
      by_cases hz : s.apply m.value + t.apply n.value = 0
      · rw [if_pos hz, if_pos hz]
        exact .of_isZero rfl rfl
      · rw [if_neg hz, if_neg hz, ← neg_ofRat hz]
        exact .refl _

end Binary64

namespace Solution

def swapped : Solution → Solution
  | twoReal x1 x2 => twoReal x2 x1
  | solution => solution

/-- All roots with the opposite real part; the greater of two becomes the smaller one. -/
def mirrored : Solution → Solution
  | noSolution => noSolution
  | oneReal x => oneReal (-x)
  | twoReal x1 x2 => twoReal (-x2) (-x1)
  | complexPair real imaginary => complexPair (-real) imaginary

end Solution

namespace Quadratic
open Binary64

theorem settledDiscriminant_eq {p q : Quadratic} (hsquare : p.b * p.b = q.b * q.b)
    (hproduct : 4 * p.a * p.c = 4 * q.a * q.c) : p.settledDiscriminant = q.settledDiscriminant := by
  rw [settledDiscriminant, settledDiscriminant, discriminant, discriminant, hsquare, hproduct]

section

variable (a b c right constant right' constant' : Binary64)

theorem solve_negated :
    SameOutcome (Quadratic.mk (-a) (-b) (-c) right' constant').solve
      ((Quadratic.mk a b c right constant).solve.map Solution.swapped) := by
  have hd : (Quadratic.mk (-a) (-b) (-c) right' constant').settledDiscriminant =
      (Quadratic.mk a b c right constant).settledDiscriminant :=
    settledDiscriminant_eq (by simp only [mul_neg_left, mul_neg_right, neg_neg])
      (by simp only [mul_neg_left, mul_neg_right, neg_neg])
  simp only [Quadratic.solve, hd, isZero_neg, mul_neg_right, neg_neg]
  generalize (Quadratic.mk a b c right constant).settledDiscriminant = d
  have hquotient (y : Binary64) : ((b + y) / -(2 * a)).Agrees ((-b - y) / (2 * a)) := by
    rw [div_neg_right, ← div_neg_left]
    exact (add_neg_agrees b y).symm.div _
  split_ifs
  · exact .fault _
  · refine .solution (.twoReal (hquotient d.sqrt) ?_)
    have h := hquotient (-d.sqrt)
    rwa [sub_eq_add_neg (-b), neg_neg] at h
  · rw [div_neg_right, ← div_neg_left]
    exact .solution (.refl _)
  · rw [div_neg_right, ← div_neg_left, abs_opposite]
    exact .solution (.refl _)

theorem solve_mirrored :
    SameOutcome (Quadratic.mk a (-b) c right' constant').solve
      ((Quadratic.mk a b c right constant).solve.map Solution.mirrored) := by
  have hd : (Quadratic.mk a (-b) c right' constant').settledDiscriminant =
      (Quadratic.mk a b c right constant).settledDiscriminant :=
    settledDiscriminant_eq (by simp only [mul_neg_left, mul_neg_right, neg_neg]) rfl
  simp only [Quadratic.solve, hd, neg_neg]
  generalize (Quadratic.mk a b c right constant).settledDiscriminant = d
  have hquotient (y : Binary64) : ((b + y) / (2 * a)).Agrees (-((-b - y) / (2 * a))) := by
    rw [← div_neg_left]
    have h := (add_neg_agrees (-b) (-y)).div (2 * a)
    rwa [neg_neg, neg_neg] at h
  split_ifs
  · exact .fault _
  · refine .solution (.twoReal (hquotient d.sqrt) ?_)
    have h := hquotient (-d.sqrt)
    rwa [sub_eq_add_neg (-b), neg_neg] at h
  · rw [← neg_neg (b / (2 * a)), ← div_neg_left]
    exact .solution (.refl _)
  · rw [← neg_neg (b / (2 * a)), ← div_neg_left]
    exact .solution (.refl _)

end

end Quadratic

/-- With the signs of all coefficients changed an equation has the same roots, two real ones in the other
order, and with the sign of the linear one changed the roots of opposite real part; what is a fault for one of
the three is the same fault for the others. The sides as they were typed do not count. -/
theorem solving_respects_signs (a b c right constant right' constant' : Binary64) :
    SameOutcome (Quadratic.mk (-a) (-b) (-c) right' constant').solve
        ((Quadratic.mk a b c right constant).solve.map Solution.swapped) ∧
      SameOutcome (Quadratic.mk a (-b) c right' constant').solve
        ((Quadratic.mk a b c right constant).solve.map Solution.mirrored) :=
  ⟨Quadratic.solve_negated a b c right constant right' constant',
    Quadratic.solve_mirrored a b c right constant right' constant'⟩

end SchoolAlgebra
