import SchoolAlgebra.Proofs.Discriminant
import SchoolAlgebra.Proofs.Restatement
set_option autoImplicit false

/-!
A derivation tells what the solving does: its branch is the kind of the solution, its root lines end in
the roots of the solution text, and its discriminant has the sign that the branch says.
-/

namespace SchoolAlgebra

/-- What stands behind the last blank. -/
def lastWord (line : Text) : Text := (line.reverse.takeWhile (· != ' ')).reverse

/-- A line without what stands between its first equals sign and its last word. -/
def withoutWorking (line : Text) : Text :=
  line.takeWhile (· != '=') ++ "= ".toList ++ lastWord line

theorem lastWord_append {s t : Text} (hs : s.getLast? = some ' ') (ht : ' ' ∉ t) (front : Text) :
    lastWord (front ++ s ++ t) = t := by
  obtain ⟨r, rfl⟩ := List.getLast?_eq_some_iff.1 hs
  have hp : ∀ c ∈ t.reverse, (c != ' ') = true := by
    intro c hc
    simpa using fun h : c = ' ' => ht (h ▸ List.mem_reverse.1 hc)
  rw [lastWord, List.reverse_append, List.takeWhile_append_of_pos hp]
  simp

theorem Grammar.Writable.blank_not_mem {s : Text} (h : Grammar.Writable s) : ' ' ∉ s := by
  intro hc
  rcases h _ hc with h | h <;> revert h <;> decide

theorem Decimal.writable_withPoint {s : Text} (hs : Grammar.AllDigits s) (places : Nat) :
    Grammar.Writable (withPoint s places) := by
  by_cases hp : places = 0
  · rw [withPoint, if_pos hp]
    exact (allDigits_leftpad hs _).writable
  · obtain ⟨p, -, hu, hm, -⟩ := exists_numberParts_withPoint (.inl rfl) hs hp
    rw [← hu]
    exact Grammar.writable_pointedDigits _ (Grammar.pointedDigits_of_numeral hm)

namespace Binary64

theorem writable_mark (s : Sign) (m : Magnitude) : Grammar.Writable (mark s m) :=
  Grammar.writable_optional Grammar.writable_sign _ (mark_mem s m)

theorem blank_not_mem_plain (x : Binary64) : ' ' ∉ x.plain := by
  cases x with
  | nan => decide
  | infinity s => cases s <;> decide
  | finite s m => exact (Grammar.writable_signedNumeral _ (rightPart_mem s m)).blank_not_mem

theorem blank_not_mem_fixed (x : Binary64) (places : Nat) : ' ' ∉ x.fixed places := by
  cases x with
  | nan => exact blank_not_mem_plain .nan
  | infinity s => exact blank_not_mem_plain (.infinity s)
  | finite s m =>
    obtain ⟨n, k, ht, -⟩ := m.exists_fixed places
    rw [fixed, ht]
    exact ((writable_mark s m).append
      (Decimal.writable_withPoint (Decimal.allDigits_padded n k) places)).blank_not_mem

end Binary64

namespace Step

variable (places : Nat)

theorem lastWord_equation (move : Move) (left : List Binary64) (right : Binary64) :
    lastWord ((equation move left right).text places) = right.plain := by
  change lastWord (move.text ++ ": ".toList ++
    (Polynomial.textAsTyped left ++ " = ".toList ++ right.plain)) = _
  rw [← List.append_assoc, ← List.append_assoc]
  exact lastWord_append rfl right.blank_not_mem_plain _

theorem lastWord_discriminant (a b c value : Binary64) :
    lastWord ((discriminant a b c value).text places) = value.plain :=
  lastWord_append rfl value.blank_not_mem_plain _

theorem lastWord_firstRoot (a b radicand x : Binary64) :
    lastWord ((firstRoot a b radicand x).text places) = x.fixed places :=
  lastWord_append rfl (x.blank_not_mem_fixed places) _

theorem lastWord_secondRoot (a b radicand x : Binary64) :
    lastWord ((secondRoot a b radicand x).text places) = x.fixed places :=
  lastWord_append rfl (x.blank_not_mem_fixed places) _

theorem lastWord_doubleRoot (a b x : Binary64) :
    lastWord ((doubleRoot a b x).text places) = x.fixed places :=
  lastWord_append rfl (x.blank_not_mem_fixed places) _

theorem withoutWorking_firstRoot (a b radicand x : Binary64) :
    withoutWorking ((firstRoot a b radicand x).text places) = "x₁ = ".toList ++ x.fixed places := by
  rw [withoutWorking, lastWord_firstRoot]
  rfl

theorem withoutWorking_secondRoot (a b radicand x : Binary64) :
    withoutWorking ((secondRoot a b radicand x).text places) = "x₂ = ".toList ++ x.fixed places := by
  rw [withoutWorking, lastWord_secondRoot]
  rfl

theorem withoutWorking_doubleRoot (a b x : Binary64) :
    withoutWorking ((doubleRoot a b x).text places) = "x = ".toList ++ x.fixed places := by
  rw [withoutWorking, lastWord_doubleRoot]
  rfl

end Step

def Move.opening : Move → Char
  | given => 'I'
  | carried amount => if amount.isNegative then 'A' else 'S'
  | divided _ => 'D'

def Step.opening : Step → Char
  | equation move _ _ => move.opening
  | noUniqueSolution => 'T'
  | coefficients _ _ _ | complexHeading => 'C'
  | formula => 'Q'
  | discriminant _ _ _ _ => 'D'
  | twoRoots | oneRoot | noRealRoots => 'Δ'
  | firstRoot _ _ _ _ | secondRoot _ _ _ _ | doubleRoot _ _ _ => 'x'
  | firstComplex _ _ | secondComplex _ _ => 'x'
  | notQuadratic => 'a'

theorem Move.text_carried (amount : Binary64) :
    (carried amount).text =
      if amount.isNegative then "Add ".toList ++ (-amount).plain ++ " to both sides".toList
      else "Subtract ".toList ++ amount.plain ++ " from both sides".toList := rfl

theorem Move.exists_text (move : Move) : ∃ t, move.text = move.opening :: t := by
  cases move with
  | given => exact ⟨_, rfl⟩
  | carried amount =>
    by_cases h : amount.isNegative = true
    · refine ⟨"dd ".toList ++ (-amount).plain ++ " to both sides".toList, ?_⟩
      rw [text_carried, opening, if_pos h, if_pos h]
      rfl
    · refine ⟨"ubtract ".toList ++ amount.plain ++ " from both sides".toList, ?_⟩
      rw [text_carried, opening, if_neg h, if_neg h]
      rfl
  | divided divisor => exact ⟨_, rfl⟩

theorem Step.exists_text (places : Nat) (s : Step) : ∃ t, s.text places = s.opening :: t := by
  cases s with
  | equation move left right =>
    obtain ⟨t, ht⟩ := move.exists_text
    refine ⟨t ++ ": ".toList ++ equationText left right, ?_⟩
    change move.text ++ ": ".toList ++ equationText left right = _
    rw [ht]
    rfl
  | _ => exact ⟨_, rfl⟩

theorem Step.opening_eq_of_text_eq {places : Nat} {s t : Step} (h : s.text places = t.text places) :
    s.opening = t.opening := by
  obtain ⟨u, hu⟩ := s.exists_text places
  obtain ⟨v, hv⟩ := t.exists_text places
  rw [hu, hv] at h
  exact (List.cons.inj h).1

theorem Step.opening_of_prefix {places : Nat} {s : Step} {c : Char} {t : Text}
    (h : c :: t <+: s.text places) : s.opening = c := by
  obtain ⟨u, hu⟩ := s.exists_text places
  obtain ⟨v, hv⟩ := h
  rw [hu] at hv
  exact (List.cons.inj hv).1.symm

theorem Move.opening_mem (move : Move) : move.opening ∈ ['I', 'A', 'S', 'D'] := by
  cases move with
  | given => decide
  | carried amount =>
    rw [opening]
    split_ifs <;> decide
  | divided divisor => simp [opening]

theorem Step.eq_of_text_eq_remark {places : Nat} {s r : Step}
    (hr : r = notQuadratic ∨ r = noUniqueSolution) (h : s.text places = r.text places) : s = r := by
  have ho := opening_eq_of_text_eq h
  rcases hr with rfl | rfl
  · cases s with
    | equation move left right =>
      have hm := move.opening_mem
      rw [show move.opening = 'a' from ho] at hm
      exact absurd hm (by decide)
    | notQuadratic => rfl
    | _ => exact absurd ho (by simp [opening])
  · cases s with
    | equation move left right =>
      have hm := move.opening_mem
      rw [show move.opening = 'T' from ho] at hm
      exact absurd hm (by decide)
    | noUniqueSolution => rfl
    | _ => exact absurd ho (by simp [opening])

/-- A text that stands for a positive number, which may be the infinite one. -/
def TellsPositive (s : Text) : Prop :=
  s = "inf".toList ∨ s ∈ Grammar.numeral ∧ 0 < writtenMagnitude s

namespace Binary64

variable {x : Binary64}

theorem tellsPositive_plain (h : x.isPositive = true) : TellsPositive x.plain := by
  cases x with
  | nan => cases h
  | infinity s =>
    cases s with
    | plus => exact .inl rfl
    | minus => cases h
  | finite s m =>
    have hpos := (hasValue_finite s m).isPositive_iff.1 h
    have hs : s = .plus := by
      cases s with
      | plus => rfl
      | minus => exact absurd hpos (not_lt.2 (neg_nonpos.2 m.value_nonneg))
    have hnearest := m.nearest?_plain (.inl rfl)
    rw [plain, hs, mark_plus]
    refine .inr ⟨m.plain_mem, lt_of_le_of_ne (writtenMagnitude_nonneg _) fun hz => ?_⟩
    rw [← hz] at hnearest
    obtain rfl : Magnitude.zero = m := by simpa [Magnitude.nearest?] using hnearest
    rw [Magnitude.value_zero, Sign.apply_eq_zero_iff.2 rfl] at hpos
    exact lt_irrefl _ hpos

theorem plain_of_isZero (h : x.isZero = true) : x.plain = ['0'] := by
  obtain ⟨s, rfl⟩ := exists_zero h
  rfl

theorem minus_prefix_plain (hn : x ≠ nan) (hp : x.isPositive = false) (hz : x.isZero = false) :
    ['-'] <+: x.plain := by
  cases x with
  | nan => exact absurd rfl hn
  | infinity s =>
    cases s with
    | plus => cases hp
    | minus => exact ⟨"inf".toList, rfl⟩
  | finite s m =>
    have hpos := mt (hasValue_finite s m).isPositive_iff.2 (Bool.eq_false_iff.1 hp)
    have hs : s = .minus := by
      cases s with
      | minus => rfl
      | plus =>
        refine absurd (lt_of_le_of_ne m.value_nonneg fun h0 => ?_) hpos
        rw [isZero, Magnitude.isZero_iff.2 (Magnitude.value_eq_zero_iff.1 h0.symm)] at hz
        cases hz
    have hmark : mark s m = ['-'] := by
      rw [mark, show m.isZero = false from hz, hs]
      rfl
    exact ⟨m.plain, by rw [plain, hmark]⟩

end Binary64

/-- The root lines show the solution text: those of real roots without their working, those of complex
roots, behind a heading, as they are. -/
def Solution.ShownBy (places : Nat) (roots : List Text) : Solution → Prop
  | noSolution => False
  | oneReal x =>
    roots.map lastWord = [x.fixed places] ∧
      ", ".toList.intercalate (roots.map withoutWorking) = (oneReal x).text places
  | twoReal x1 x2 =>
    roots.map lastWord = [x1.fixed places, x2.fixed places] ∧
      ", ".toList.intercalate (roots.map withoutWorking) = (twoReal x1 x2).text places
  | complexPair real imaginary =>
    ∃ heading first second, roots = [heading, first, second] ∧
      first ++ ", ".toList ++ second = (complexPair real imaginary).text places

/-- The outcomes that a derivation branches into. -/
inductive Branch where
  | two
  | one
  | complex
  | degenerate
  deriving DecidableEq, Repr

namespace Branch

def text : Branch → Text
  | two => "Δ > 0: two real solutions".toList
  | one => "Δ = 0: one real solution".toList
  | complex => "Δ < 0: no real solutions".toList
  | degenerate => "a = 0: the equation is not quadratic".toList

theorem text_injective : Function.Injective text := by
  intro a b h
  cases a <;> cases b <;> first | rfl | exact absurd h (by decide)

def ofOutcome : Except Fault Solution → Branch
  | .ok (.twoReal _ _) => two
  | .ok (.oneReal _) => one
  | .ok (.complexPair _ _) => complex
  | .ok .noSolution | .error _ => degenerate

variable {outcome : Except Fault Solution}

theorem ofOutcome_eq_two_iff :
    ofOutcome outcome = two ↔ ∃ x1 x2, outcome = .ok (.twoReal x1 x2) := by
  rcases outcome with fault | (_ | _ | _ | _) <;> simp [ofOutcome]

theorem ofOutcome_eq_one_iff : ofOutcome outcome = one ↔ ∃ x, outcome = .ok (.oneReal x) := by
  rcases outcome with fault | (_ | _ | _ | _) <;> simp [ofOutcome]

theorem ofOutcome_eq_complex_iff :
    ofOutcome outcome = complex ↔ ∃ u v, outcome = .ok (.complexPair u v) := by
  rcases outcome with fault | (_ | _ | _ | _) <;> simp [ofOutcome]

theorem ofOutcome_eq_degenerate_iff (h : outcome ≠ .ok .noSolution) :
    ofOutcome outcome = degenerate ↔ ∃ fault, outcome = .error fault := by
  rcases outcome with fault | (_ | _ | _ | _)
  · simp [ofOutcome]
  · exact absurd rfl h
  all_goals simp [ofOutcome]

end Branch

namespace Quadratic

/-- The lines behind the formula tell the outcome of the solving: which of the four branches is told, in
the root lines the solution, and at the end of the discriminant line a number with the sign of the
branch. -/
structure ToldBy (p : Quadratic) (places : Nat) (discriminant branch : Text) (roots : List Text) :
    Prop where
  twoReal_iff : branch = "Δ > 0: two real solutions".toList ↔
    ∃ x1 x2, p.solve = .ok (.twoReal x1 x2)
  oneReal_iff : branch = "Δ = 0: one real solution".toList ↔ ∃ x, p.solve = .ok (.oneReal x)
  complexPair_iff : branch = "Δ < 0: no real solutions".toList ↔
    ∃ real imaginary, p.solve = .ok (.complexPair real imaginary)
  degenerate_iff : branch = "a = 0: the equation is not quadratic".toList ↔
    ∃ fault, p.solve = .error fault
  shown : ∀ solution, p.solve = .ok solution → solution.ShownBy places roots
  positive : ∀ x1 x2, p.solve = .ok (.twoReal x1 x2) → TellsPositive (lastWord discriminant)
  zero : ∀ x, p.solve = .ok (.oneReal x) → lastWord discriminant = ['0']
  negative : ∀ real imaginary, p.solve = .ok (.complexPair real imaginary) →
    p.settledDiscriminant ≠ .nan → ['-'] <+: lastWord discriminant

variable {p : Quadratic} (places : Nat)

theorem intercalate_pair (separator s t : Text) :
    separator.intercalate [s, t] = s ++ separator ++ t := by
  simp [List.intercalate]

theorem shownBy_twoReal (x1 x2 : Binary64) :
    (Solution.twoReal x1 x2).ShownBy places
      ([Step.firstRoot p.a p.b p.settledDiscriminant x1,
        .secondRoot p.a p.b p.settledDiscriminant x2].map (Step.text places)) := by
  constructor
  · simp only [List.map_cons, List.map_nil, Step.lastWord_firstRoot, Step.lastWord_secondRoot]
  · simp only [List.map_cons, List.map_nil, Step.withoutWorking_firstRoot,
      Step.withoutWorking_secondRoot, intercalate_pair]
    change _ = "x₁ = ".toList ++ x1.fixed places ++ (", ".toList ++ "x₂ = ".toList) ++
      x2.fixed places
    simp only [List.append_assoc]

theorem shownBy_oneReal (x : Binary64) :
    (Solution.oneReal x).ShownBy places ([Step.doubleRoot p.a p.b x].map (Step.text places)) := by
  constructor
  · simp only [List.map_cons, List.map_nil, Step.lastWord_doubleRoot]
  · simp only [List.map_cons, List.map_nil, Step.withoutWorking_doubleRoot,
      List.intercalate_singleton]
    rfl

theorem shownBy_complexPair (real imaginary : Binary64) :
    (Solution.complexPair real imaginary).ShownBy places
      ([Step.complexHeading, .firstComplex real imaginary, .secondComplex real imaginary].map
        (Step.text places)) := by
  refine ⟨_, _, _, rfl, ?_⟩
  change "x₁ = ".toList ++ Solution.complexText (real.fixed places) (imaginary.fixed places) '+' ++
      ", ".toList ++
        ("x₂ = ".toList ++ Solution.complexText (real.fixed places) (imaginary.fixed places) '-') =
    "x₁ = ".toList ++ Solution.complexText (real.fixed places) (imaginary.fixed places) '+' ++
      (", ".toList ++ "x₂ = ".toList) ++
        Solution.complexText (real.fixed places) (imaginary.fixed places) '-'
  simp only [List.append_assoc]

def introduction (p : Quadratic) : List Step :=
  .equation .given [p.a, p.b, p.typedConstant] p.typedRight ::
    (if p.typedRight.isZero then [] else [.equation (.carried p.typedRight) [p.a, p.b, p.c] 0]) ++
    [.coefficients p.a p.b p.c, .formula]

theorem derivation_eq (p : Quadratic) :
    p.derivation =
      p.introduction ++ .discriminant p.a p.b p.c p.settledDiscriminant :: p.rootSteps := by
  simp [derivation, introduction]

theorem opening_introduction : ∀ s ∈ p.introduction, s.opening ∈ ['I', 'A', 'S', 'C', 'Q'] := by
  intro s hs
  simp only [introduction, List.cons_append, List.mem_cons, List.mem_append, List.not_mem_nil,
    or_false] at hs
  rcases hs with rfl | hs | rfl | rfl
  · simp [Step.opening, Move.opening]
  · split_ifs at hs
    · cases hs
    · obtain rfl := List.mem_singleton.1 hs
      simp only [Step.opening, Move.opening]
      split_ifs <;> decide
  · simp [Step.opening]
  · decide

theorem solve_ne_noSolution (p : Quadratic) : p.solve ≠ .ok .noSolution := by
  intro h
  have hs := p.solves_solve
  rw [h] at hs
  cases hs

theorem rootSteps_text (p : Quadratic) :
    ∃ steps : List Step, p.rootSteps.map (Step.text places) =
        (Branch.ofOutcome p.solve).text :: steps.map (Step.text places) ∧
      ∀ solution, p.solve = .ok solution → solution.ShownBy places (steps.map (Step.text places)) := by
  have hne := p.solve_ne_noSolution
  unfold rootSteps
  rcases ho : p.solve with fault | (_ | x | ⟨x1, x2⟩ | ⟨u, v⟩)
  · exact ⟨[], rfl, fun _ h => nomatch h⟩
  · exact absurd ho hne
  · refine ⟨_, rfl, fun solution h => ?_⟩
    obtain rfl := Except.ok.inj h
    exact shownBy_oneReal places x
  · refine ⟨_, rfl, fun solution h => ?_⟩
    obtain rfl := Except.ok.inj h
    exact shownBy_twoReal places x1 x2
  · refine ⟨_, rfl, fun solution h => ?_⟩
    obtain rfl := Except.ok.inj h
    exact shownBy_complexPair places u v

theorem exists_toldBy (p : Quadratic) (places : Nat) :
    ∃ branch roots, p.rootSteps.map (Step.text places) = branch :: roots ∧
      p.ToldBy places ((Step.discriminant p.a p.b p.c p.settledDiscriminant).text places) branch
        roots := by
  obtain ⟨steps, hsteps, hshown⟩ := p.rootSteps_text places
  have hd := Step.lastWord_discriminant places p.a p.b p.c p.settledDiscriminant
  have hs := p.solves_solve
  refine ⟨_, _, hsteps,
    (Branch.text_injective.eq_iff (b := .two)).trans Branch.ofOutcome_eq_two_iff,
    (Branch.text_injective.eq_iff (b := .one)).trans Branch.ofOutcome_eq_one_iff,
    (Branch.text_injective.eq_iff (b := .complex)).trans Branch.ofOutcome_eq_complex_iff,
    (Branch.text_injective.eq_iff (b := .degenerate)).trans
      (Branch.ofOutcome_eq_degenerate_iff p.solve_ne_noSolution),
    hshown, fun x1 x2 ho => ?_, fun x ho => ?_, fun u v ho hn => ?_⟩
  · rw [ho] at hs
    cases hs with
    | twoReal ha hp =>
      rw [hd]
      exact Binary64.tellsPositive_plain hp
  · rw [ho] at hs
    cases hs with
    | oneReal ha hz =>
      rw [hd]
      exact Binary64.plain_of_isZero hz
  · rw [ho] at hs
    cases hs with
    | complexPair ha hp hz =>
      rw [hd]
      exact Binary64.minus_prefix_plain hn hp hz

/-- The lines of a derivation: those that tell the outcome stand behind the discriminant, which no line
in front of them begins with. -/
theorem exists_procedure (p : Quadratic) (places : Nat) :
    ∃ front discriminant branch roots,
      (Coefficients.quadratic p).procedure places = front ++ discriminant :: branch :: roots ∧
      "Discriminant: ".toList <+: discriminant ∧
      (∀ line ∈ front, ¬"Discriminant: ".toList <+: line) ∧
      p.ToldBy places discriminant branch roots := by
  obtain ⟨branch, roots, hroots, htold⟩ := p.exists_toldBy places
  refine ⟨p.introduction.map (Step.text places), _, branch, roots, ?_, ?_, ?_, htold⟩
  · rw [Coefficients.procedure, Coefficients.derivation, derivation_eq, List.map_append,
      List.map_cons, hroots]
  · exact ⟨_, by
      change "Discriminant: ".toList ++ _ = "Discriminant: ".toList ++ "Δ = b² - 4ac = ".toList ++
        p.b.parenthesized ++ "² - 4(".toList ++ p.a.plain ++ ")(".toList ++ p.c.plain ++
        ") = ".toList ++ p.settledDiscriminant.plain
      simp only [List.append_assoc]
      rfl⟩
  · intro line hline hprefix
    obtain ⟨s, hs, rfl⟩ := List.mem_map.1 hline
    have ho := opening_introduction s hs
    rw [Step.opening_of_prefix (c := 'D') hprefix] at ho
    exact absurd ho (by decide)

end Quadratic

theorem Linear.exists_procedure (p : Linear) (places : Nat) :
    ∃ front line, (Coefficients.linear p).procedure places = front ++ [line] ∧
      (line = "The coefficient of x is 0: there is no unique solution".toList ↔
        p.solve = .noSolution) ∧
      (p.solve ≠ .noSolution → ∃ x, p.solve = .oneReal x ∧ lastWord line = x.plain) := by
  have hprocedure (last : Step)
      (hl : (if p.a.isZero then .noUniqueSolution
        else .equation (.divided p.a) [1, 0] ((p.c - p.b) / p.a)) = last) :
      (Coefficients.linear p).procedure places =
        [Step.equation .given [p.a, p.b] p.c,
          .equation (.carried p.b) [p.a, 0] (p.c - p.b)].map (Step.text places) ++
        [last.text places] := by
    rw [Coefficients.procedure, Coefficients.derivation, Linear.derivation, hl, List.map_cons,
      List.map_cons, List.map_singleton]
    rfl
  by_cases hz : p.a.isZero = true
  · have hs : p.solve = .noSolution := if_pos hz
    exact ⟨_, _, hprocedure _ (if_pos hz), iff_of_true rfl hs, fun hne => absurd hs hne⟩
  · have hs : p.solve = .oneReal ((p.c - p.b) / p.a) := if_neg hz
    refine ⟨_, _, hprocedure _ (if_neg hz), iff_of_false (fun h => ?_) (hs ▸ nofun), fun _ =>
      ⟨_, hs, Step.lastWord_equation places _ _ _⟩⟩
    cases Step.eq_of_text_eq_remark (r := .noUniqueSolution) (.inr rfl) h

theorem Coefficients.remark_not_mem {p : Coefficients} {solution : Solution}
    (h : p.solve = .ok solution) {r : Step} (hr : r = .notQuadratic ∨ r = .noUniqueSolution) :
    r ∉ p.derivation := by
  cases p with
  | linear p =>
    obtain ⟨hz, -⟩ := solve_linear_eq_ok h
    rcases hr with rfl | rfl <;> simp [derivation, Linear.derivation, hz]
  | quadratic p =>
    have hintro : r ∉ p.introduction := by
      intro hm
      have ho := Quadratic.opening_introduction r hm
      rcases hr with rfl | rfl <;> revert ho <;> decide
    have hroots : r ∉ p.rootSteps := by
      rw [Quadratic.rootSteps, show p.solve = .ok solution from h]
      rcases solution with _ | x | ⟨x1, x2⟩ | ⟨u, v⟩
      · exact absurd h p.solve_ne_noSolution
      all_goals rcases hr with rfl | rfl <;> simp
    rw [derivation, Quadratic.derivation_eq, List.mem_append, List.mem_cons]
    rintro (hm | rfl | hm)
    · exact hintro hm
    · rcases hr with hr | hr <;> cases hr
    · exact hroots hm

theorem remark_not_mem_procedure {raw : Text} {degree : Degree} {o : Options} {report : Report}
    (h : solveEquation raw degree o = .ok report) {r : Step}
    (hr : r = .notQuadratic ∨ r = .noUniqueSolution) :
    r.text o.decimals.toNat ∉ report.procedure := by
  obtain ⟨e, -, -, hs, -, hp⟩ := TypedEquation.exists_of_report o h
  rw [hp, Coefficients.procedure]
  intro hm
  obtain ⟨s, hmem, ht⟩ := List.mem_map.1 hm
  obtain rfl := Step.eq_of_text_eq_remark hr ht
  exact Coefficients.remark_not_mem hs hr hmem

/-- The derivation of any coefficients, to any count of decimals, tells what the solving of them gives;
and where it tells that there is nothing to solve, there is no report. -/
theorem derivation_tells_outcome :
    (∀ (p : Linear) (places : Nat),
      ∃ front line, (Coefficients.linear p).procedure places = front ++ [line] ∧
        (line = "The coefficient of x is 0: there is no unique solution".toList ↔
          p.solve = .noSolution) ∧
        (p.solve ≠ .noSolution → ∃ x, p.solve = .oneReal x ∧ lastWord line = x.plain)) ∧
    (∀ (p : Quadratic) (places : Nat),
      ∃ front discriminant branch roots,
        (Coefficients.quadratic p).procedure places = front ++ discriminant :: branch :: roots ∧
        "Discriminant: ".toList <+: discriminant ∧
        (∀ line ∈ front, ¬"Discriminant: ".toList <+: line) ∧
        p.ToldBy places discriminant branch roots) ∧
    ∀ (raw : Text) (degree : Degree) (o : Options) (report : Report),
      solveEquation raw degree o = .ok report →
        "a = 0: the equation is not quadratic".toList ∉ report.procedure ∧
        "The coefficient of x is 0: there is no unique solution".toList ∉ report.procedure :=
  ⟨Linear.exists_procedure, Quadratic.exists_procedure, fun _ _ _ _ h =>
    ⟨remark_not_mem_procedure h (.inl rfl), remark_not_mem_procedure h (.inr rfl)⟩⟩

theorem outcomes_of_four_equations :
    (∃ front line, (Coefficients.linear ⟨2, 3, 7⟩).procedure 2 = front ++ [line] ∧
      lastWord line = ['2']) ∧
    (∃ front discriminant branch roots,
      (Coefficients.quadratic (.ofSides 1 (-3) 2 0)).procedure 2 =
        front ++ discriminant :: branch :: roots ∧
      TellsPositive (lastWord discriminant) ∧ roots.map lastWord = ["2.00".toList, "1.00".toList]) ∧
    (∃ front discriminant branch roots,
      (Coefficients.quadratic (.ofSides 1 2 5 0)).procedure 0 =
        front ++ discriminant :: branch :: roots ∧
      ['-'] <+: lastWord discriminant ∧ branch = "Δ < 0: no real solutions".toList) ∧
    ∃ report, solveEquation "x² - 3x + 2 = 0".toList .quadratic {} = .ok report ∧
      "a = 0: the equation is not quadratic".toList ∉ report.procedure := by
  obtain ⟨hl, hq, hr⟩ := derivation_tells_outcome
  refine ⟨?_, ?_, ?_, ?_⟩
  · have hs : Linear.solve ⟨2, 3, 7⟩ = .oneReal 2 := by decide +kernel
    obtain ⟨front, line, hp, -, hline⟩ := hl ⟨2, 3, 7⟩ 2
    obtain ⟨x, hx, hw⟩ := hline (hs ▸ nofun)
    obtain rfl := Solution.oneReal.inj (hs.symm.trans hx)
    exact ⟨front, line, hp, hw.trans (by decide +kernel)⟩
  · have hs : (Quadratic.ofSides 1 (-3) 2 0).solve = .ok (.twoReal 2 1) := by decide +kernel
    obtain ⟨front, d, branch, roots, hp, -, -, ht⟩ := hq (.ofSides 1 (-3) 2 0) 2
    refine ⟨front, d, branch, roots, hp, ht.positive 2 1 hs, ?_⟩
    exact (ht.shown _ hs).1.trans (by decide +kernel)
  · have hs : (Quadratic.ofSides 1 2 5 0).solve = .ok (.complexPair (-1) 2) := by decide +kernel
    obtain ⟨front, d, branch, roots, hp, -, -, ht⟩ := hq (.ofSides 1 2 5 0) 0
    exact ⟨front, d, branch, roots, hp, ht.negative _ _ hs (by decide +kernel),
      ht.complexPair_iff.2 ⟨_, _, hs⟩⟩
  · have hmap : (solveEquation "x² - 3x + 2 = 0".toList .quadratic {}).map Report.solution =
        .ok (.twoReal 2 1) := by decide +kernel
    obtain ⟨report, h, -⟩ := exists_of_map_eq_ok hmap
    exact ⟨report, h, (hr _ _ _ _ h).1⟩

end SchoolAlgebra
