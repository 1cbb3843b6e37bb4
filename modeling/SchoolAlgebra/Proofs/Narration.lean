import SchoolAlgebra.Proofs.Restatement
import SchoolAlgebra.Proofs.Value
set_option autoImplicit false

/-!
The equations of a derivation keep the solution: whoever reads one of them from its line and solves
it arrives at the outcome of the equation that was given.
-/

namespace SchoolAlgebra

/-- What stands behind the first colon with a blank. -/
def afterColon : Text → Text
  | ':' :: ' ' :: s => s
  | _ :: s => afterColon s
  | [] => []

theorem afterColon_append {t : Text} (h : ':' ∉ t) (s : Text) :
    afterColon (t ++ ": ".toList ++ s) = s := by
  induction t with
  | nil => rfl
  | cons c t ih =>
    have hc : c ≠ ':' := fun hc => h (by simp [hc])
    have ht : ':' ∉ t := fun ht => h (List.mem_cons_of_mem _ ht)
    rw [List.cons_append, List.cons_append, afterColon, ih ht]
    exact fun _ h => absurd h hc

theorem Grammar.Writable.colon_not_mem {s : Text} (h : Grammar.Writable s) : ':' ∉ s := by
  intro hc
  rcases h _ hc with h | h <;> revert h <;> decide

theorem Binary64.colon_not_mem_plain (x : Binary64) : ':' ∉ x.plain := by
  cases x with
  | nan => decide
  | infinity s => cases s <;> decide
  | finite s m =>
    have h := Grammar.writable_signedNumeral _ (rightPart_mem s m)
    exact h.colon_not_mem

theorem Move.colon_not_mem_text (move : Move) : ':' ∉ move.text := by
  cases move with
  | given => decide
  | carried amount =>
    change ':' ∉ if amount.isNegative then "Add ".toList ++ (-amount).plain ++ " to both sides".toList
      else "Subtract ".toList ++ amount.plain ++ " from both sides".toList
    split_ifs
    · rw [List.mem_append, List.mem_append, not_or, not_or]
      exact ⟨⟨by decide, (-amount).colon_not_mem_plain⟩, by decide⟩
    · rw [List.mem_append, List.mem_append, not_or, not_or]
      exact ⟨⟨by decide, amount.colon_not_mem_plain⟩, by decide⟩
  | divided divisor =>
    change ':' ∉ "Divide both sides by ".toList ++ divisor.plain
    rw [List.mem_append, not_or]
    exact ⟨by decide, divisor.colon_not_mem_plain⟩

theorem afterColon_text (move : Move) (left : List Binary64) (right : Binary64) (places : Nat) :
    afterColon ((Step.equation move left right).text places) = Step.equationText left right :=
  afterColon_append move.colon_not_mem_text _

namespace Binary64

theorem sub_zero_agrees (x : Binary64) : (x - 0).Agrees x := by
  rw [zero_eq]
  change (add x (finite .minus .zero)).Agrees x
  cases x with
  | nan => exact .refl _
  | infinity s => exact .refl _
  | finite s m =>
    simp only [add, Magnitude.value_zero, Sign.apply_minus, neg_zero, add_zero]
    by_cases hm : m.value = 0
    · rw [if_pos (Sign.apply_eq_zero_iff.2 hm)]
      exact .of_isZero rfl (isZero_finite_iff.2 (Magnitude.value_eq_zero_iff.1 hm))
    · have hpos : 0 < m.value := lt_of_le_of_ne m.value_nonneg (Ne.symm hm)
      rw [if_neg (mt Sign.apply_eq_zero_iff.1 hm), ofRat_apply s hpos, round_value]
      exact .refl _

theorem one_isZero : (1 : Binary64).isZero = false := by
  rw [one_eq]
  rfl

theorem div_one_eq (x : Binary64) : x / 1 = x := by
  have hs : ∀ s : Sign, s.times .plus = s := by
    intro s
    cases s <;> rfl
  rw [one_eq]
  change div x (finite .plus .one) = x
  cases x with
  | nan => rfl
  | infinity s => simp only [div, hs]
  | finite s m =>
    simp only [div, Magnitude.value_one, div_one, hs, round_value]
    exact if_neg (by decide)

end Binary64

/-- Behind its first colon the line has the equation with these numbers and nothing else. -/
def Shows (line : Text) (left : List Binary64) (right : Binary64) : Prop :=
  afterColon line = Step.equationText left right

/-- Reading the equation that a line shows and solving it ends as solving `p` does. -/
def KeepsSolution (line : Text) (p : Coefficients) : Prop :=
  SameOutcome (Coefficients.read (afterColon line) p.degree >>= Coefficients.solve) p.solve

theorem keepsSolution_of_read {p q : Coefficients} {move : Move} {left : List Binary64}
    {right : Binary64} {places : Nat}
    (h : Coefficients.read (Step.equationText left right) p.degree = .ok q)
    (hs : SameOutcome q.solve p.solve) :
    KeepsSolution ((Step.equation move left right).text places) p := by
  rw [KeepsSolution, afterColon_text, h]
  exact hs

theorem Linear.solve_of_isZero {p : Linear} (h : p.a.isZero = true) : p.solve = .noSolution :=
  if_pos h

theorem Linear.solve_of_not_isZero {p : Linear} (h : p.a.isZero = false) :
    p.solve = .oneReal ((p.c - p.b) / p.a) :=
  if_neg (by simp [h])

theorem Linear.carried_solve (a b c : Binary64) :
    (Linear.mk a 0 (c - b)).solve.Agrees (Linear.mk a b c).solve := by
  cases h : a.isZero with
  | true =>
    rw [Linear.solve_of_isZero h, Linear.solve_of_isZero h]
    exact .noSolution
  | false =>
    rw [Linear.solve_of_not_isZero h, Linear.solve_of_not_isZero h]
    exact .oneReal ((Binary64.sub_zero_agrees (c - b)).div a)

theorem Linear.divided_solve {a : Binary64} (b c : Binary64) (h : a.isZero = false) :
    (Linear.mk 1 0 ((c - b) / a)).solve.Agrees (Linear.mk a b c).solve := by
  rw [Linear.solve_of_not_isZero Binary64.one_isZero, Linear.solve_of_not_isZero h]
  refine .oneReal ?_
  rw [Binary64.div_one_eq]
  exact Binary64.sub_zero_agrees _

theorem isFinite_one : (1 : Binary64).isFinite = true := by
  rw [Binary64.one_eq]
  rfl

section

variable {a b c k d : Binary64} (places : Nat)

theorem keeps_linear (move : Move) (ha : a.isFinite = true) (hb : b.isFinite = true)
    (hc : c.isFinite = true) {p : Linear} (h : (Linear.mk a b c).solve.Agrees p.solve) :
    KeepsSolution ((Step.equation move [a, b] c).text places) (.linear p) := by
  obtain ⟨q, hq, hag⟩ := exists_read_linear ha hb hc
  exact keepsSolution_of_read hq (.of_linear (hag.solve.trans h))

theorem keeps_quadratic (move : Move) (ha : a.isFinite = true) (hb : b.isFinite = true)
    (hk : k.isFinite = true) (hd : d.isFinite = true) {p : Quadratic}
    (h : (Quadratic.ofSides a b k d).Agrees p) :
    KeepsSolution ((Step.equation move [a, b, k] d).text places) (.quadratic p) := by
  obtain ⟨a', b', k', d', hq, haa, hbb, hkk, hdd⟩ := exists_read_quadratic ha hb hk hd
  refine keepsSolution_of_read hq (Quadratic.Agrees.solve ⟨?_, ?_, ?_⟩)
  · exact haa.trans h.a
  · exact hbb.trans h.b
  · exact (hkk.sub hdd).trans h.c

end

/-- The lines of a linear derivation show the given equation, then `a x = c - b`, then
`x = (c - b) / a`; those of a quadratic one the given equation and, where the right side is not zero,
the one with that side taken over. Each keeps the solution if its numbers are finite. -/
theorem derivation_keeps_solution (places : Nat) :
    (∀ a b c : Binary64, a.isFinite = true → b.isFinite = true → c.isFinite = true →
      let p := Coefficients.linear ⟨a, b, c⟩
      (∃ line, (p.procedure places)[0]? = some line ∧ Shows line [a, b] c ∧
        KeepsSolution line p) ∧
      ((c - b).isFinite = true →
        ∃ line, (p.procedure places)[1]? = some line ∧ Shows line [a, 0] (c - b) ∧
          KeepsSolution line p) ∧
      (a.isZero = false → ((c - b) / a).isFinite = true →
        ∃ line, (p.procedure places)[2]? = some line ∧ Shows line [1, 0] ((c - b) / a) ∧
          KeepsSolution line p)) ∧
    (∀ a b k d : Binary64, a.isFinite = true → b.isFinite = true → k.isFinite = true →
      d.isFinite = true →
      let p := Coefficients.quadratic (.ofSides a b k d)
      (∃ line, (p.procedure places)[0]? = some line ∧ Shows line [a, b, k] d ∧
        KeepsSolution line p) ∧
      (d.isZero = false → (k - d).isFinite = true →
        ∃ line, (p.procedure places)[1]? = some line ∧ Shows line [a, b, k - d] 0 ∧
          KeepsSolution line p)) := by
  refine ⟨fun a b c ha hb hc => ⟨?_, fun hm => ?_, fun hz hq => ?_⟩,
    fun a b k d ha hb hk hd => ⟨?_, fun hz hm => ?_⟩⟩
  · exact ⟨_, rfl, afterColon_text .., keeps_linear places .given ha hb hc (.refl _)⟩
  · exact ⟨_, rfl, afterColon_text ..,
      keeps_linear places (.carried b) ha isFinite_zero hm (Linear.carried_solve a b c)⟩
  · refine ⟨_, ?_, afterColon_text ..,
      keeps_linear places (.divided a) isFinite_one isFinite_zero hq (Linear.divided_solve b c hz)⟩
    simp [Coefficients.procedure, Coefficients.derivation, Linear.derivation, hz]
  · exact ⟨_, rfl, afterColon_text ..,
      keeps_quadratic places .given ha hb hk hd ⟨.refl _, .refl _, .refl _⟩⟩
  · refine ⟨_, ?_, afterColon_text .., keeps_quadratic places (.carried d) ha hb hm isFinite_zero
      ⟨.refl _, .refl _, Binary64.sub_zero_agrees (k - d)⟩⟩
    simp [Coefficients.procedure, Coefficients.derivation, Quadratic.derivation, Quadratic.ofSides,
      hz]

theorem two_x_plus_three_keeps_solution :
    (∃ line, ((Coefficients.linear ⟨2, 3, 7⟩).procedure 2)[1]? = some line ∧
      Shows line [2, 0] (7 - 3) ∧ KeepsSolution line (.linear ⟨2, 3, 7⟩)) ∧
    (∃ line, ((Coefficients.linear ⟨2, 3, 7⟩).procedure 2)[2]? = some line ∧
      Shows line [1, 0] ((7 - 3) / 2) ∧ KeepsSolution line (.linear ⟨2, 3, 7⟩)) ∧
    ∃ line, ((Coefficients.quadratic (.ofSides 1 (-3) 4 2)).procedure 2)[1]? = some line ∧
      Shows line [1, -3, 4 - 2] 0 ∧ KeepsSolution line (.quadratic (.ofSides 1 (-3) 4 2)) := by
  obtain ⟨hl, hq⟩ := derivation_keeps_solution 2
  refine ⟨(hl 2 3 7 ?_ ?_ ?_).2.1 ?_, (hl 2 3 7 ?_ ?_ ?_).2.2 ?_ ?_,
    (hq 1 (-3) 4 2 ?_ ?_ ?_ ?_).2 ?_ ?_⟩ <;> decide +kernel

end SchoolAlgebra
