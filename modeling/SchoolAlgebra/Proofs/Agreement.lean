import SchoolAlgebra.Solution
import SchoolAlgebra.Proofs.Rounding
set_option autoImplicit false

/-!
Numbers that agree: the same, or both a zero. Every operation but division by a zero takes agreeing
numbers to agreeing numbers, so agreeing coefficients have agreeing solutions.
-/

namespace SchoolAlgebra

theorem Magnitude.value_injective : Function.Injective Magnitude.value := by
  intro m n h
  have hm := Magnitude.nearest?_value m
  rw [h, Magnitude.nearest?_value] at hm
  exact (Option.some.inj hm).symm

theorem Sign.apply_eq_zero_iff {s : Sign} {q : Rat} : s.apply q = 0 ↔ q = 0 := by
  cases s <;> simp

namespace Binary64

def Agrees (x y : Binary64) : Prop := x = y ∨ x.isZero = true ∧ y.isZero = true

variable {x y x' y' z : Binary64}

theorem Agrees.refl (x : Binary64) : Agrees x x := .inl rfl

theorem Agrees.of_isZero (hx : x.isZero = true) (hy : y.isZero = true) : Agrees x y := .inr ⟨hx, hy⟩

theorem Agrees.symm (h : Agrees x y) : Agrees y x := by
  rcases h with h | ⟨hx, hy⟩
  · exact .inl h.symm
  · exact .inr ⟨hy, hx⟩

theorem Agrees.trans (h : Agrees x y) (h' : Agrees y z) : Agrees x z := by
  rcases h with rfl | ⟨hx, hy⟩
  · exact h'
  · rcases h' with rfl | ⟨-, hz⟩
    · exact .inr ⟨hx, hy⟩
    · exact .inr ⟨hx, hz⟩

theorem isZero_finite_iff {s : Sign} {m : Magnitude} :
    (finite s m).isZero = true ↔ m = .zero := Magnitude.isZero_iff

theorem exists_zero (h : x.isZero = true) : ∃ s, x = finite s .zero := by
  cases x with
  | nan => cases h
  | infinity s => cases h
  | finite s m => exact ⟨s, by rw [isZero_finite_iff.1 h]⟩

theorem Agrees.isZero (h : Agrees x y) : x.isZero = y.isZero := by
  rcases h with rfl | ⟨hx, hy⟩
  · rfl
  · rw [hx, hy]

theorem Agrees.eq_of_not_isZero (h : Agrees x y) (hx : x.isZero = false) : x = y := by
  rcases h with h | ⟨hx', -⟩
  · exact h
  · rw [hx] at hx'
    cases hx'

theorem zero_le_congr (s t : Sign) (y : Binary64) :
    (finite s .zero).le y = (finite t .zero).le y := by
  cases y with
  | nan => rfl
  | infinity u => cases u <;> rfl
  | finite u n => cases s <;> cases t <;> simp [le]

theorem le_zero_congr (s t : Sign) (y : Binary64) :
    y.le (finite s .zero) = y.le (finite t .zero) := by
  cases y with
  | nan => rfl
  | infinity u => cases u <;> rfl
  | finite u n => cases s <;> cases t <;> simp [le]

theorem Agrees.le (hx : Agrees x x') (hy : Agrees y y') : x.le y = x'.le y' := by
  have h1 : x.le y = x'.le y := by
    rcases hx with rfl | ⟨hx, hx'⟩
    · rfl
    · obtain ⟨s, rfl⟩ := exists_zero hx
      obtain ⟨t, rfl⟩ := exists_zero hx'
      exact zero_le_congr s t y
  rcases hy with rfl | ⟨hy, hy'⟩
  · exact h1
  · obtain ⟨s, rfl⟩ := exists_zero hy
    obtain ⟨t, rfl⟩ := exists_zero hy'
    rw [h1, le_zero_congr s t]

theorem Agrees.isPositive (h : Agrees x y) : x.isPositive = y.isPositive := by
  rw [Binary64.isPositive, Binary64.isPositive, lt, lt, (Agrees.refl zero).le h,
    h.le (Agrees.refl zero)]

theorem agrees_finite_iff {s t : Sign} {m n : Magnitude} :
    Agrees (finite s m) (finite t n) ↔ s.apply m.value = t.apply n.value := by
  have hm := m.value_nonneg
  have hn := n.value_nonneg
  constructor
  · intro h
    rcases h with h | ⟨h1, h2⟩
    · cases h
      rfl
    · rw [isZero_finite_iff.1 h1, isZero_finite_iff.1 h2]
      cases s <;> cases t <;> simp
  · intro h
    by_cases hz : m.value = 0
    · rw [hz, show s.apply 0 = 0 from Sign.apply_eq_zero_iff.2 rfl, eq_comm,
        Sign.apply_eq_zero_iff] at h
      exact .inr ⟨isZero_finite_iff.2 (Magnitude.value_eq_zero_iff.1 hz),
        isZero_finite_iff.2 (Magnitude.value_eq_zero_iff.1 h)⟩
    · have hpos : 0 < m.value := lt_of_le_of_ne hm (Ne.symm hz)
      left
      cases s <;> cases t <;> simp only [Sign.apply_plus, Sign.apply_minus, neg_inj] at h
      · rw [Magnitude.value_injective h]
      · linarith
      · linarith
      · rw [Magnitude.value_injective h]

theorem le_self_iff : x.le x = true ↔ x ≠ nan := by
  cases x with
  | nan => simp [Binary64.le]
  | infinity s => cases s <;> simp [Binary64.le]
  | finite s m => simp [Binary64.le]

theorem sameNumber_iff : x.sameNumber y = true ↔ Agrees x y ∧ x ≠ nan := by
  constructor
  · intro h
    obtain ⟨h1, h2⟩ := Bool.and_eq_true_iff.1 h
    cases x with
    | nan => cases h1
    | infinity s =>
      refine ⟨.inl ?_, by simp⟩
      cases y with
      | nan => cases s <;> cases h1
      | infinity t => cases s <;> cases t <;> simp_all [Binary64.le]
      | finite t n => cases s <;> simp_all [Binary64.le]
    | finite s m =>
      refine ⟨?_, by simp⟩
      cases y with
      | nan => cases h1
      | infinity t => cases t <;> simp_all [Binary64.le]
      | finite t n =>
        simp only [Binary64.le, decide_eq_true_eq] at h1 h2
        exact agrees_finite_iff.2 (le_antisymm h1 h2)
  · intro h
    obtain ⟨h, hn⟩ := h
    have hl := le_self_iff.2 hn
    rw [sameNumber, ← (Agrees.refl x).le h, ← h.le (Agrees.refl x), hl]
    rfl

theorem Agrees.sameNumber (h : Agrees x y) (hy : y ≠ nan) : x.sameNumber y = true := by
  rw [sameNumber_comm]
  exact sameNumber_iff.2 ⟨h.symm, hy⟩

theorem ne_nan_of_isFinite (h : x.isFinite = true) : x ≠ nan := by
  intro hx
  rw [hx] at h
  cases h

theorem round_ne_nan (s : Sign) (q : Rat) : round s q ≠ nan := by
  unfold round
  split <;> simp

theorem sub_ne_nan (hx : x.isFinite = true) (hy : y.isFinite = true) : x - y ≠ nan := by
  cases x with
  | nan => cases hx
  | infinity s => cases hx
  | finite s m =>
    cases y with
    | nan => cases hy
    | infinity t => cases hy
    | finite t n =>
      change add (finite s m) (finite t.flip n) ≠ nan
      simp only [add]
      split_ifs
      · simp
      · simp
      · exact round_ne_nan _ _

theorem Agrees.map {f : Binary64 → Binary64}
    (hf : ∀ s t, Agrees (f (finite s .zero)) (f (finite t .zero))) (h : Agrees x y) :
    Agrees (f x) (f y) := by
  rcases h with rfl | ⟨hx, hy⟩
  · exact .refl _
  · obtain ⟨s, rfl⟩ := exists_zero hx
    obtain ⟨t, rfl⟩ := exists_zero hy
    exact hf s t

theorem Agrees.map₂ {f : Binary64 → Binary64 → Binary64}
    (hl : ∀ s t y, Agrees (f (finite s .zero) y) (f (finite t .zero) y))
    (hr : ∀ s t x, Agrees (f x (finite s .zero)) (f x (finite t .zero)))
    (hx : Agrees x x') (hy : Agrees y y') : Agrees (f x y) (f x' y') := by
  have h1 : Agrees (f x y) (f x' y) := hx.map (f := (f · y)) fun s t => hl s t y
  have h2 : Agrees (f x' y) (f x' y') := hy.map fun s t => hr s t x'
  exact h1.trans h2

theorem Agrees.neg (h : Agrees x y) : Agrees (-x) (-y) :=
  h.map fun _ _ => .of_isZero rfl rfl

theorem Agrees.abs (h : Agrees x y) : Agrees x.abs y.abs :=
  h.map fun _ _ => .refl _

theorem Agrees.sqrt (h : Agrees x y) : Agrees x.sqrt y.sqrt :=
  h.map fun _ _ => .of_isZero rfl rfl

theorem zero_add_congr (s t : Sign) (y : Binary64) :
    Agrees (finite s .zero + y) (finite t .zero + y) := by
  change Agrees (add _ y) (add _ y)
  cases y with
  | nan => exact .refl _
  | infinity u => exact .refl _
  | finite u n =>
    have hs : ∀ v : Sign, v.apply (0 : Rat) = 0 := fun v => Sign.apply_eq_zero_iff.2 rfl
    simp only [add, Magnitude.value_zero, hs, zero_add]
    by_cases hn : u.apply n.value = 0
    · rw [if_pos hn, if_pos hn]
      exact .of_isZero rfl rfl
    · rw [if_neg hn, if_neg hn]
      exact .refl _

theorem add_comm (x y : Binary64) : x + y = y + x := by
  change add x y = add y x
  cases x with
  | nan => cases y <;> rfl
  | infinity s =>
    cases y with
    | nan => rfl
    | infinity t => cases s <;> cases t <;> rfl
    | finite t n => rfl
  | finite s m =>
    cases y with
    | nan => rfl
    | infinity t => rfl
    | finite t n =>
      simp only [add, Rat.add_comm (s.apply m.value)]
      cases s <;> cases t <;> rfl

theorem Agrees.add (hx : Agrees x x') (hy : Agrees y y') : Agrees (x + y) (x' + y') := by
  refine Agrees.map₂ (f := (· + ·)) zero_add_congr (fun s t x => ?_) hx hy
  rw [add_comm x, add_comm x]
  exact zero_add_congr s t x

theorem Agrees.sub (hx : Agrees x x') (hy : Agrees y y') : Agrees (x - y) (x' - y') :=
  hx.add hy.neg

theorem zero_mul_congr (s t : Sign) (y : Binary64) :
    Agrees (finite s .zero * y) (finite t .zero * y) := by
  change Agrees (mul _ y) (mul _ y)
  cases y with
  | nan => exact .refl _
  | infinity u => exact .refl _
  | finite u n =>
    simp only [mul, Magnitude.value_zero, zero_mul, round_zero]
    exact .of_isZero rfl rfl

theorem mul_comm (x y : Binary64) : x * y = y * x := by
  have hs : ∀ s t : Sign, s.times t = t.times s := by
    intro s t
    cases s <;> cases t <;> rfl
  change mul x y = mul y x
  cases x <;> cases y <;> simp only [mul, hs, Rat.mul_comm]

theorem Agrees.mul (hx : Agrees x x') (hy : Agrees y y') : Agrees (x * y) (x' * y') := by
  refine Agrees.map₂ (f := (· * ·)) zero_mul_congr (fun s t x => ?_) hx hy
  rw [mul_comm x, mul_comm x]
  exact zero_mul_congr s t x

theorem zero_div_congr (s t : Sign) (z : Binary64) :
    Agrees (finite s .zero / z) (finite t .zero / z) := by
  change Agrees (div _ z) (div _ z)
  cases z with
  | nan => exact .refl _
  | infinity u => exact .of_isZero rfl rfl
  | finite u n =>
    simp only [div, Magnitude.value_zero, zero_div, round_zero]
    by_cases hn : n.isZero
    · rw [if_pos hn, if_pos hn]
      exact .refl _
    · rw [if_neg hn, if_neg hn]
      exact .of_isZero rfl rfl

/-- The divisor is the same, since a zero there would show its sign. -/
theorem Agrees.div (h : Agrees x y) (z : Binary64) : Agrees (x / z) (y / z) :=
  h.map (f := (· / z)) fun s t => zero_div_congr s t z

theorem zero_max_congr (s t : Sign) (y : Binary64) :
    Agrees ((finite s .zero).max y) ((finite t .zero).max y) := by
  cases hy : y with
  | nan => exact .of_isZero rfl rfl
  | infinity u => cases u <;> simp [Binary64.max, Binary64.le, Agrees, isZero_finite_iff]
  | finite u n =>
    simp only [Binary64.max, zero_le_congr s t]
    split_ifs
    · exact .refl _
    · exact .of_isZero rfl rfl

theorem max_zero_congr (s t : Sign) (y : Binary64) :
    Agrees (y.max (finite s .zero)) (y.max (finite t .zero)) := by
  cases hy : y with
  | nan => exact .of_isZero rfl rfl
  | infinity u => cases u <;> simp [Binary64.max, Binary64.le, Agrees, isZero_finite_iff]
  | finite u n =>
    simp only [Binary64.max, le_zero_congr s t]
    split_ifs
    · exact .of_isZero rfl rfl
    · exact .refl _

theorem Agrees.max (hx : Agrees x x') (hy : Agrees y y') : Agrees (x.max y) (x'.max y') :=
  Agrees.map₂ zero_max_congr max_zero_congr hx hy

end Binary64

/-- The same kind of solution, with agreeing numbers. -/
inductive Solution.Agrees : Solution → Solution → Prop where
  | noSolution : Agrees .noSolution .noSolution
  | oneReal {x y : Binary64} (h : x.Agrees y) : Agrees (.oneReal x) (.oneReal y)
  | twoReal {x1 x2 y1 y2 : Binary64} (h1 : x1.Agrees y1) (h2 : x2.Agrees y2) :
      Agrees (.twoReal x1 x2) (.twoReal y1 y2)
  | complexPair {u v u' v' : Binary64} (hr : u.Agrees u') (hi : v.Agrees v') :
      Agrees (.complexPair u v) (.complexPair u' v')

theorem Solution.Agrees.refl (s : Solution) : s.Agrees s := by
  cases s with
  | noSolution => exact .noSolution
  | oneReal x => exact .oneReal (.refl x)
  | twoReal x1 x2 => exact .twoReal (.refl x1) (.refl x2)
  | complexPair u v => exact .complexPair (.refl u) (.refl v)

theorem Solution.Agrees.trans {s t u : Solution} (h : s.Agrees t) (h' : t.Agrees u) :
    s.Agrees u := by
  cases h with
  | noSolution => exact h'
  | oneReal h =>
    cases h' with
    | oneReal k => exact .oneReal (h.trans k)
  | twoReal h1 h2 =>
    cases h' with
    | twoReal k1 k2 => exact .twoReal (h1.trans k1) (h2.trans k2)
  | complexPair hr hi =>
    cases h' with
    | complexPair kr ki => exact .complexPair (hr.trans kr) (hi.trans ki)

/-- The same fault, or agreeing solutions. -/
inductive SameOutcome : Except Fault Solution → Except Fault Solution → Prop where
  | fault (f : Fault) : SameOutcome (.error f) (.error f)
  | solution {s t : Solution} (h : s.Agrees t) : SameOutcome (.ok s) (.ok t)

namespace Linear

structure Agrees (p q : Linear) : Prop where
  a : p.a.Agrees q.a
  b : p.b.Agrees q.b
  c : p.c.Agrees q.c

theorem Agrees.solve {p q : Linear} (h : Agrees p q) : p.solve.Agrees q.solve := by
  unfold Linear.solve
  rw [← h.a.isZero]
  by_cases ha : p.a.isZero = true
  · rw [if_pos ha, if_pos ha]
    exact .noSolution
  · rw [if_neg ha, if_neg ha, ← h.a.eq_of_not_isZero (Bool.eq_false_iff.2 ha)]
    exact .oneReal ((h.c.sub h.b).div p.a)

end Linear

namespace Quadratic

/-- Agreement in standard form; the sides as they were typed do not count. -/
structure Agrees (p q : Quadratic) : Prop where
  a : p.a.Agrees q.a
  b : p.b.Agrees q.b
  c : p.c.Agrees q.c

variable {p q : Quadratic}

theorem Agrees.fourfold (h : Agrees p q) :
    (4 * p.a * p.c).Agrees (4 * q.a * q.c) :=
  ((Binary64.Agrees.refl 4).mul h.a).mul h.c

theorem Agrees.discriminant (h : Agrees p q) : p.discriminant.Agrees q.discriminant :=
  (h.b.mul h.b).sub h.fourfold

theorem Agrees.settledDiscriminant (h : Agrees p q) :
    p.settledDiscriminant.Agrees q.settledDiscriminant := by
  have hscale := (h.b.mul h.b).max h.fourfold.abs
  have hle := h.discriminant.abs.le ((Binary64.Agrees.refl tolerance).mul hscale)
  simp only [Quadratic.settledDiscriminant, hle]
  split_ifs
  · exact .refl 0
  · exact h.discriminant

theorem Agrees.solve (h : Agrees p q) : SameOutcome p.solve q.solve := by
  have hd := h.settledDiscriminant
  unfold Quadratic.solve
  rw [← h.a.isZero]
  by_cases ha : p.a.isZero = true
  · rw [if_pos ha, if_pos ha]
    exact .fault _
  · rw [if_neg ha, if_neg ha, ← h.a.eq_of_not_isZero (Bool.eq_false_iff.2 ha)]
    simp only [← hd.isPositive, ← hd.isZero]
    split_ifs
    · exact .solution (.twoReal ((h.b.neg.add hd.sqrt).div _) ((h.b.neg.sub hd.sqrt).div _))
    · exact .solution (.oneReal (h.b.neg.div _))
    · exact .solution (.complexPair (h.b.neg.div _) (hd.neg.sqrt.div _))

end Quadratic

theorem SameOutcome.of_linear {p q : Linear} (h : p.solve.Agrees q.solve) :
    SameOutcome (Coefficients.linear p).solve (Coefficients.linear q).solve := by
  simp only [Coefficients.solve]
  generalize p.solve = s at h
  generalize q.solve = t at h
  cases h with
  | noSolution => exact .fault _
  | oneReal h => exact .solution (.oneReal h)
  | twoReal h1 h2 => exact .solution (.twoReal h1 h2)
  | complexPair hr hi => exact .solution (.complexPair hr hi)

end SchoolAlgebra
