import SchoolAlgebra.Report
import SchoolAlgebra.Proofs.Typed
set_option autoImplicit false

/-!
The outcome of a typed equation from its text alone: which fault it has, by conditions of which each
presupposes that the ones before it do not hold, and that without any of them it is solved.
-/

namespace SchoolAlgebra

def Degree.fault : Degree → Fault
  | linear => .noSolution
  | quadratic => .degenerate .quadratic

def Coefficients.leading : Coefficients → Binary64
  | linear p => p.a
  | quadratic p => p.a

theorem Coefficients.solve_of_isZero {p : Coefficients} (h : p.leading.isZero = true) :
    p.solve = .error p.degree.fault := by
  cases p with
  | linear p => simp_all [leading, solve, Linear.solve, degree, Degree.fault]
  | quadratic p => simp_all [leading, solve, Quadratic.solve, degree, Degree.fault]

theorem Coefficients.exists_solve {p : Coefficients} (h : p.leading.isZero = false) :
    ∃ solution, p.solve = .ok solution := by
  cases p with
  | linear p =>
    simp only [leading] at h
    exact ⟨.oneReal ((p.c - p.b) / p.a), by simp [solve, Linear.solve, h]⟩
  | quadratic p =>
    simp only [leading] at h
    simp only [solve, Quadratic.solve, h, Bool.false_eq_true, if_false]
    split_ifs <;> exact ⟨_, rfl⟩

theorem Coefficients.solve_linear_eq_ok {p : Linear} {solution : Solution}
    (h : (linear p).solve = .ok solution) : p.a.isZero = false ∧ p.solve = solution := by
  cases hz : p.a.isZero with
  | true =>
    rw [Coefficients.solve, Linear.solve, hz] at h
    cases h
  | false =>
    rw [Coefficients.solve, Linear.solve, hz] at h
    rw [Linear.solve, hz]
    exact ⟨rfl, Except.ok.inj h⟩

namespace TypedEquation

variable {degree : Degree}

theorem degree_coefficients (e : TypedEquation degree) : e.coefficients.degree = degree := by
  obtain ⟨left, right, hr⟩ := e
  cases left <;> rfl

theorem leading_coefficients (e : TypedEquation degree) :
    e.coefficients.leading = coefficientNumber e.left.lead := by
  obtain ⟨left, right, hr⟩ := e
  cases left <;> rfl

/-- The highest power is lost: its coefficient lies within half the least positive number of zero. -/
def Vanishes (e : TypedEquation degree) : Prop :=
  coefficientMagnitude e.left.lead ≤ (2 : Rat) ^ (-1075 : Int)

theorem isZero_leading_iff (e : TypedEquation degree) :
    e.coefficients.leading.isZero = true ↔ e.Vanishes := by
  rw [leading_coefficients]
  exact Binary64.isZero_round_iff (coefficientMagnitude_nonneg _) _

theorem splitsInto (e : TypedEquation degree) : Sides.SplitsInto e.text e.sides := by
  have hl : e.left.text ∈ Grammar.side degree := SideParts.mem_side.2 ⟨e.left, rfl⟩
  exact ⟨rfl, (Grammar.writable_side degree _ hl).separator_not_mem,
    (Grammar.writable_signedNumeral _ e.right_mem).separator_not_mem⟩

theorem check_eq_ok (e : TypedEquation degree) {raw : Text} (h : e.text = raw.withoutBlanks) :
    Sides.check raw degree = .ok e.sides :=
  Sides.check_eq_ok_iff.2 ⟨h ▸ e.splitsInto, SideParts.mem_side.2 ⟨e.left, rfl⟩, e.right_mem⟩

theorem exists_of_check {raw : Text} {sides : Sides} (h : Sides.check raw degree = .ok sides) :
    ∃ e : TypedEquation degree, e.text = raw.withoutBlanks ∧ e.sides = sides := by
  obtain ⟨hs, hl, hr⟩ := Sides.check_eq_ok_iff.1 h
  obtain ⟨p, hp⟩ := SideParts.mem_side.1 hl
  refine ⟨⟨p, sides.right, hr⟩, ?_, ?_⟩
  · rw [hs.1, text, hp, Sides.text]
  · rw [TypedEquation.sides, hp]

theorem read_eq_ok (e : TypedEquation degree) {raw : Text} (h : e.text = raw.withoutBlanks)
    (hr : ∀ s ∈ e.numerals, ¬Unreadable s) : Coefficients.read raw degree = .ok e.coefficients := by
  rw [Coefficients.read, e.check_eq_ok h]
  exact e.reads_ofSides.ok (firstUnreadable_eq_none_iff.2 hr)

theorem exists_text_of_read {raw : Text} {p : Coefficients}
    (h : Coefficients.read raw degree = .ok p) :
    ∃ e : TypedEquation degree, e.text = raw.withoutBlanks ∧ e.coefficients = p ∧
      ∀ s ∈ e.numerals, ¬Unreadable s := by
  cases hc : Sides.check raw degree with
  | error fault =>
    rw [Coefficients.read, hc] at h
    cases h
  | ok sides =>
    obtain ⟨e, ht, rfl⟩ := exists_of_check hc
    rw [Coefficients.read, hc] at h
    change Coefficients.ofSides degree e.sides = .ok p at h
    cases hu : firstUnreadable e.numerals with
    | some s =>
      rw [e.reads_ofSides.error hu] at h
      cases h
    | none =>
      rw [e.reads_ofSides.ok hu] at h
      exact ⟨e, ht, Except.ok.inj h, firstUnreadable_eq_none_iff.1 hu⟩

theorem exists_of_read {raw : Text} {p : Coefficients} (h : Coefficients.read raw degree = .ok p) :
    ∃ e : TypedEquation degree, e.coefficients = p ∧ ∀ s ∈ e.numerals, ¬Unreadable s := by
  obtain ⟨e, -, he⟩ := exists_text_of_read h
  exact ⟨e, he⟩

theorem ofSides_ne_form (e : TypedEquation degree) (other : Degree) :
    Coefficients.ofSides degree e.sides ≠ .error (.form other) := by
  intro h
  cases hs : firstUnreadable e.numerals with
  | some s =>
    rw [e.reads_ofSides.error hs] at h
    cases h
  | none =>
    rw [e.reads_ofSides.ok hs] at h
    cases h

end TypedEquation

/-- The faults of a text for a degree. Each is told only where the ones before it do not apply. -/
inductive Faulty (raw : Text) (degree : Degree) : Fault → Prop where
  | separators (h : raw.count '=' ≠ 1) : Faulty raw degree (.separators (raw.count '='))
  | form (sides : Sides) (split : Sides.SplitsInto raw.withoutBlanks sides)
      (h : ¬(sides.left ∈ Grammar.side degree ∧ sides.right ∈ Grammar.signedNumeral)) :
      Faulty raw degree (.form degree)
  | numeral (e : TypedEquation degree) (text : e.text = raw.withoutBlanks) (s : Text)
      (h : firstUnreadable e.numerals = some s) : Faulty raw degree (.numeral s)
  | vanishing (e : TypedEquation degree) (text : e.text = raw.withoutBlanks)
      (readable : ∀ s ∈ e.numerals, ¬Unreadable s) (h : e.Vanishes) : Faulty raw degree degree.fault

section

variable {raw : Text} {degree : Degree} (o : Options)

theorem solveEquation_of_check_error {fault : Fault} (h : Sides.check raw degree = .error fault) :
    solveEquation raw degree o = .error fault := by
  rw [solveEquation, h]
  rfl

theorem solveEquation_of_ofSides_error {sides : Sides} {fault : Fault}
    (h : Sides.check raw degree = .ok sides)
    (hs : Coefficients.ofSides degree sides = .error fault) :
    solveEquation raw degree o = .error fault := by
  simp only [solveEquation, h, bind, Except.bind, hs]

theorem solveEquation_of_coefficients {sides : Sides} {p : Coefficients}
    (h : Sides.check raw degree = .ok sides) (hs : Coefficients.ofSides degree sides = .ok p) :
    solveEquation raw degree o = p.solve.map fun solution =>
      { degree, sides, coefficients := p, solution, table := p.table o
        procedure := p.procedure o.decimals.toNat, decimals := o.decimals } := by
  simp only [solveEquation, h, bind, Except.bind, hs]
  cases p.solve <;> rfl

theorem Sides.check_eq_error_of_count (h : raw.count '=' ≠ 1) :
    check raw degree = .error (.separators (raw.count '=')) := by
  rw [check, read_eq_error_iff.2 ⟨h, rfl⟩]

theorem Sides.check_eq_error_of_form {sides : Sides} (hs : SplitsInto raw.withoutBlanks sides)
    (h : ¬(sides.left ∈ Grammar.side degree ∧ sides.right ∈ Grammar.signedNumeral)) :
    check raw degree = .error (.form degree) := by
  rw [check, read_eq_ok_iff.2 hs]
  rw [← Degree.acceptsLeft_iff, ← Grammar.isNumeral_iff, ← Bool.and_eq_true] at h
  exact if_neg h

theorem solveEquation_of_faulty {fault : Fault} (h : Faulty raw degree fault) :
    solveEquation raw degree o = .error fault := by
  cases h with
  | separators h => exact solveEquation_of_check_error o (Sides.check_eq_error_of_count h)
  | form sides hs h => exact solveEquation_of_check_error o (Sides.check_eq_error_of_form hs h)
  | numeral e ht s h =>
    exact solveEquation_of_ofSides_error o (e.check_eq_ok ht) (e.reads_ofSides.error h)
  | vanishing e ht hr hv =>
    rw [solveEquation_of_coefficients o (e.check_eq_ok ht)
      (e.reads_ofSides.ok (firstUnreadable_eq_none_iff.2 hr)),
      Coefficients.solve_of_isZero (e.isZero_leading_iff.2 hv), e.degree_coefficients]
    rfl

theorem Faulty.isValidation_iff {fault : Fault} (h : Faulty raw degree fault) :
    fault.isValidation = true ↔ Sides.isAccepted raw degree = false := by
  cases h with
  | separators hc => simp [Fault.isValidation, Sides.isAccepted, Sides.check_eq_error_of_count hc]
  | form sides hs hf =>
    simp [Fault.isValidation, Sides.isAccepted, Sides.check_eq_error_of_form hs hf]
  | numeral e ht s hu => simp [Fault.isValidation, Sides.isAccepted, e.check_eq_ok ht]
  | vanishing e ht hr hv =>
    cases degree <;> simp [Degree.fault, Fault.isValidation, Sides.isAccepted, e.check_eq_ok ht]

/-- An accepted equation with readable numerals and a highest power. -/
def Solvable (raw : Text) (degree : Degree) : Prop :=
  ∃ e : TypedEquation degree,
    e.text = raw.withoutBlanks ∧ (∀ s ∈ e.numerals, ¬Unreadable s) ∧ ¬e.Vanishes

theorem exists_solveEquation (h : Solvable raw degree) :
    ∃ report, solveEquation raw degree o = .ok report := by
  obtain ⟨e, ht, hr, hv⟩ := h
  have hz : e.coefficients.leading.isZero = false :=
    Bool.eq_false_iff.2 fun hz => hv (e.isZero_leading_iff.1 hz)
  obtain ⟨solution, hs⟩ := Coefficients.exists_solve hz
  rw [solveEquation_of_coefficients o (e.check_eq_ok ht)
    (e.reads_ofSides.ok (firstUnreadable_eq_none_iff.2 hr)), hs]
  exact ⟨_, rfl⟩

theorem solvable_or_faulty (raw : Text) (degree : Degree) :
    Solvable raw degree ∨ ∃ fault, Faulty raw degree fault := by
  by_cases hc : raw.count '=' = 1
  · obtain ⟨sides, hs⟩ : ∃ sides, Sides.read raw = .ok sides := by
      cases hr : Sides.read raw with
      | ok sides => exact ⟨sides, rfl⟩
      | error fault => exact absurd hc (Sides.read_eq_error_iff.1 hr).1
    have hs := Sides.read_eq_ok_iff.1 hs
    by_cases hf : sides.left ∈ Grammar.side degree ∧ sides.right ∈ Grammar.signedNumeral
    · obtain ⟨e, ht, -⟩ := TypedEquation.exists_of_check (Sides.check_eq_ok_iff.2 ⟨hs, hf⟩)
      cases hu : firstUnreadable e.numerals with
      | some s => exact .inr ⟨_, .numeral e ht s hu⟩
      | none =>
        have hr := firstUnreadable_eq_none_iff.1 hu
        by_cases hv : e.Vanishes
        · exact .inr ⟨_, .vanishing e ht hr hv⟩
        · exact .inl ⟨e, ht, hr, hv⟩
    · exact .inr ⟨_, .form sides hs hf⟩
  · exact .inr ⟨_, .separators hc⟩

theorem exists_of_map_eq_ok {α β : Type} {x : Except Fault α} {f : α → β} {b : β}
    (h : x.map f = .ok b) : ∃ a, x = .ok a ∧ f a = b := by
  cases x with
  | error fault => cases h
  | ok a => exact ⟨a, rfl, Except.ok.inj h⟩

theorem TypedEquation.exists_of_report {report : Report}
    (h : solveEquation raw degree o = .ok report) :
    ∃ e : TypedEquation degree, e.text = raw.withoutBlanks ∧ (∀ s ∈ e.numerals, ¬Unreadable s) ∧
      e.coefficients.solve = .ok report.solution ∧ report.coefficients = e.coefficients ∧
      report.procedure = e.coefficients.procedure o.decimals.toNat := by
  rcases solvable_or_faulty raw degree with hs | ⟨fault, hf⟩
  · obtain ⟨e, ht, hr, -⟩ := hs
    rw [solveEquation_of_coefficients o (e.check_eq_ok ht)
      (e.reads_ofSides.ok (firstUnreadable_eq_none_iff.2 hr))] at h
    cases hs : e.coefficients.solve with
    | error fault =>
      rw [hs] at h
      cases h
    | ok solution =>
      rw [hs] at h
      obtain rfl := Except.ok.inj h
      exact ⟨e, ht, hr, hs, rfl, rfl⟩
  · rw [solveEquation_of_faulty o hf] at h
    cases h

/-- The outcome of an equation is told by its text: it ends in a fault exactly where the text has that
fault, and in a report exactly where the text is solvable. The faults of the gate are those of
rejected texts, and behind the gate no fault of form is found. -/
theorem solveEquation_outcome (raw : Text) (degree : Degree) (o : Options) :
    (∀ fault, solveEquation raw degree o = .error fault ↔ Faulty raw degree fault) ∧
    ((∃ report, solveEquation raw degree o = .ok report) ↔ Solvable raw degree) ∧
    (∀ fault, solveEquation raw degree o = .error fault →
      (fault.isValidation = true ↔ Sides.isAccepted raw degree = false)) ∧
    (∀ sides, Sides.check raw degree = .ok sides →
      ∀ other, Coefficients.ofSides degree sides ≠ .error (.form other)) := by
  have hfault : ∀ fault, solveEquation raw degree o = .error fault ↔ Faulty raw degree fault := by
    intro fault
    refine ⟨fun h => ?_, solveEquation_of_faulty o⟩
    rcases solvable_or_faulty raw degree with hs | ⟨other, ho⟩
    · obtain ⟨report, hr⟩ := exists_solveEquation o hs
      rw [h] at hr
      cases hr
    · rw [solveEquation_of_faulty o ho] at h
      cases h
      exact ho
  refine ⟨hfault, ⟨fun h => ?_, exists_solveEquation o⟩, fun fault h => ?_, fun sides h => ?_⟩
  · obtain ⟨report, hr⟩ := h
    refine (solvable_or_faulty raw degree).resolve_right fun ⟨fault, hf⟩ => ?_
    rw [solveEquation_of_faulty o hf] at hr
    cases hr
  · exact ((hfault fault).1 h).isValidation_iff
  · obtain ⟨e, -, rfl⟩ := TypedEquation.exists_of_check h
    exact e.ofSides_ne_form

end

theorem solveEquation_lone_point :
    solveEquation ".x = 1".toList .linear {} = .error (.numeral ['.']) ∧
    Faulty ".x = 1".toList .linear (.numeral ['.']) ∧
    Sides.isAccepted ".x = 1".toList .linear = true ∧
    ∀ other, Coefficients.ofSides .linear ⟨['.', 'x'], ['1']⟩ ≠ .error (.form other) := by
  have h := solveEquation_outcome ".x = 1".toList .linear {}
  have he : solveEquation ".x = 1".toList .linear {} = .error (.numeral ['.']) := by decide +kernel
  have hc : Sides.check ".x = 1".toList .linear = .ok ⟨['.', 'x'], ['1']⟩ := by decide +kernel
  refine ⟨he, (h.1 _).1 he, ?_, h.2.2.2 _ hc⟩
  apply Bool.eq_true_of_not_eq_false
  intro hf
  exact absurd ((h.2.2.1 _ he).2 hf) (by decide)

end SchoolAlgebra
