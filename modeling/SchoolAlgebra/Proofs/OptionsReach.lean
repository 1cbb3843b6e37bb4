import SchoolAlgebra.Proofs.Consistency
set_option autoImplicit false

/-!
How far the options reach. A text is read and solved before they come in, so they change neither the fault
nor the solution; of the procedure they reach only the roots behind its branch line, and of the windows
each degree sees its own.
-/

namespace SchoolAlgebra

/-- A text that has been read and solved. -/
structure Solved where
  sides : Sides
  coefficients : Coefficients
  solution : Solution

def solved (raw : Text) (degree : Degree) : Except Fault Solved := do
  let sides ← Sides.check raw degree
  let coefficients ← Coefficients.ofSides degree sides
  let solution ← coefficients.solve
  .ok ⟨sides, coefficients, solution⟩

def Solved.report (s : Solved) (degree : Degree) (o : Options) : Report where
  degree := degree
  sides := s.sides
  coefficients := s.coefficients
  solution := s.solution
  table := s.coefficients.table o
  procedure := s.coefficients.procedure o.decimals.toNat
  decimals := o.decimals

section

variable {raw : Text} {degree : Degree} {s : Solved}

theorem solveEquation_eq_map (raw : Text) (degree : Degree) (o : Options) :
    solveEquation raw degree o = (solved raw degree).map (·.report degree o) := by
  unfold solveEquation solved
  cases Sides.check raw degree with
  | error fault => rfl
  | ok sides =>
    simp only [bind, Except.bind]
    cases Coefficients.ofSides degree sides with
    | error fault => rfl
    | ok p =>
      simp only
      cases p.solve <;> rfl

theorem solve_of_solved (h : solved raw degree = .ok s) :
    s.coefficients.degree = degree ∧ s.coefficients.solve = .ok s.solution := by
  have hr := solveEquation_eq_map raw degree {}
  rw [h] at hr
  obtain ⟨e, -, -, hs, hc, -⟩ := TypedEquation.exists_of_report {} hr
  rw [show s.coefficients = e.coefficients from hc]
  exact ⟨e.degree_coefficients, hs⟩

end

def Step.isRounded : Step → Bool
  | firstRoot _ _ _ _ | secondRoot _ _ _ _ | doubleRoot _ _ _ => true
  | firstComplex _ _ | secondComplex _ _ => true
  | _ => false

theorem Step.text_eq {s : Step} (h : s.isRounded = false) (m n : Nat) : s.text m = s.text n := by
  cases s <;> first | rfl | cases h

theorem map_text_eq {steps : List Step} (h : ∀ s ∈ steps, s.isRounded = false) (m n : Nat) :
    steps.map (Step.text m) = steps.map (Step.text n) :=
  List.map_congr_left fun s hs => Step.text_eq (h s hs) m n

theorem Linear.isRounded_derivation (p : Linear) : ∀ s ∈ p.derivation, s.isRounded = false := by
  intro s hs
  simp only [derivation, List.mem_cons, List.not_mem_nil, or_false] at hs
  rcases hs with rfl | rfl | rfl
  · rfl
  · rfl
  · split_ifs <;> rfl

def Branch.step : Branch → Step
  | two => .twoRoots
  | one => .oneRoot
  | complex => .noRealRoots
  | degenerate => .notQuadratic

theorem Branch.text_step (b : Branch) (places : Nat) : b.step.text places = b.text := by
  cases b <;> rfl

namespace Quadratic

def front (p : Quadratic) : List Step :=
  p.introduction ++ [.discriminant p.a p.b p.c p.settledDiscriminant]

theorem isRounded_front (p : Quadratic) : ∀ s ∈ p.front, s.isRounded = false := by
  intro s hs
  simp only [front, introduction, List.cons_append, List.mem_cons, List.mem_append,
    List.not_mem_nil, or_false] at hs
  rcases hs with rfl | (hs | rfl | rfl) | rfl
  · rfl
  · split_ifs at hs
    · cases hs
    · obtain rfl := List.mem_singleton.1 hs
      rfl
  · rfl
  · rfl
  · rfl

theorem branch_not_mem_front (p : Quadratic) (places : Nat) (b : Branch) :
    b.text ∉ p.front.map (Step.text places) := by
  intro hm
  obtain ⟨s, hs, ht⟩ := List.mem_map.1 hm
  rw [← b.text_step places] at ht
  have ho := Step.opening_eq_of_text_eq ht
  rcases List.mem_append.1 hs with hs | hs
  · have := opening_introduction s hs
    rw [ho] at this
    cases b <;> exact absurd this (by decide)
  · obtain rfl := List.mem_singleton.1 hs
    cases b <;> exact absurd ho (by simp [Step.opening, Branch.step])

theorem exists_rootSteps (p : Quadratic) :
    ∃ roots, p.rootSteps = (Branch.ofOutcome p.solve).step :: roots := by
  unfold rootSteps
  rcases p.solve with fault | (_ | x | ⟨x1, x2⟩ | ⟨u, v⟩) <;> exact ⟨_, rfl⟩

theorem exists_procedure_eq (p : Quadratic) :
    ∃ roots : List Step, ∀ places, (Coefficients.quadratic p).procedure places =
      p.front.map (Step.text 0) ++
        (Branch.ofOutcome p.solve).text :: roots.map (Step.text places) := by
  obtain ⟨roots, h⟩ := p.exists_rootSteps
  refine ⟨roots, fun places => ?_⟩
  rw [map_text_eq p.isRounded_front 0 places, Coefficients.procedure, Coefficients.derivation,
    derivation_eq, h, front]
  simp [Branch.text_step]

end Quadratic

/-- The two procedures of a quadratic equation: the same up to their branch line, which tells the branch
of the solution and is the first to tell a branch, and equally long behind it. -/
def SameUpToBranch (branch : Branch) (steps steps' : List Text) : Prop :=
  ∃ front roots roots', steps = front ++ branch.text :: roots ∧
    steps' = front ++ branch.text :: roots' ∧ roots.length = roots'.length ∧
    ∀ b : Branch, b.text ∉ front

/-- What two reports on one text have in common, made with options `o` and `o'`. -/
structure SameButShown (degree : Degree) (o o' : Options) (r r' : Report) : Prop where
  degree_eq : r.degree = r'.degree
  sides_eq : r.sides = r'.sides
  coefficients_eq : r.coefficients = r'.coefficients
  solution_eq : r.solution = r'.solution
  linear_procedure_eq : degree = .linear → r.procedure = r'.procedure
  linear_unrounded : degree = .linear → ∃ front line x, r.procedure = front ++ [line] ∧
    r.solution = .oneReal x ∧ lastWord line = x.plain
  quadratic_procedure : degree = .quadratic →
    SameUpToBranch (.ofOutcome (.ok r.solution)) r.procedure r'.procedure
  table_x_eq : o.sampling.window degree = o'.sampling.window degree →
    r.table.map TableEntry.x = r'.table.map TableEntry.x
  eq : o.decimals = o'.decimals → o.sampling.window degree = o'.sampling.window degree → r = r'

section

variable {degree : Degree} {s : Solved} (o o' : Options)

theorem Solved.sameUpToBranch (hd : s.coefficients.degree = .quadratic)
    (hs : s.coefficients.solve = .ok s.solution) (m n : Nat) :
    SameUpToBranch (.ofOutcome (.ok s.solution)) (s.coefficients.procedure m)
      (s.coefficients.procedure n) := by
  rw [← hs]
  cases hp : s.coefficients with
  | linear p =>
    rw [hp] at hd
    cases hd
  | quadratic p =>
    obtain ⟨roots, h⟩ := p.exists_procedure_eq
    refine ⟨_, _, _, h m, h n, ?_, p.branch_not_mem_front 0⟩
    rw [List.length_map, List.length_map]

theorem Solved.linear_procedure (hd : s.coefficients.degree = .linear)
    (hs : s.coefficients.solve = .ok s.solution) :
    (∀ m n, s.coefficients.procedure m = s.coefficients.procedure n) ∧
      ∀ places, ∃ front line x, s.coefficients.procedure places = front ++ [line] ∧
        s.solution = .oneReal x ∧ lastWord line = x.plain := by
  cases hp : s.coefficients with
  | linear p =>
    rw [hp] at hs
    obtain ⟨hz, hs⟩ := Coefficients.solve_linear_eq_ok hs
    refine ⟨fun m n => map_text_eq p.isRounded_derivation m n, fun places => ?_⟩
    obtain ⟨front, line, h, -, hx⟩ := p.exists_procedure places
    obtain ⟨x, hx, hw⟩ := hx (by simp [Linear.solve, hz])
    exact ⟨front, line, x, h, hs.symm.trans hx, hw⟩
  | quadratic p =>
    rw [hp] at hd
    cases hd

theorem Solved.sameButShown (hd : s.coefficients.degree = degree)
    (hs : s.coefficients.solve = .ok s.solution) :
    SameButShown degree o o' (s.report degree o) (s.report degree o') where
  degree_eq := rfl
  sides_eq := rfl
  coefficients_eq := rfl
  solution_eq := rfl
  linear_procedure_eq hl := (s.linear_procedure (hd.trans hl) hs).1 _ _
  linear_unrounded hl := (s.linear_procedure (hd.trans hl) hs).2 _
  quadratic_procedure hq := s.sameUpToBranch (hd.trans hq) hs _ _
  table_x_eq hw := by
    change (s.coefficients.table o).map _ = (s.coefficients.table o').map _
    rw [Coefficients.map_x_table, Coefficients.map_x_table, hd, hw]
  eq hn hw := by
    have ht : s.coefficients.table o = s.coefficients.table o' := by
      rw [Coefficients.table, Coefficients.table, hd, hw, hn]
    simp only [report, ht, hn]

end

/-- Options change nothing but what is shown. Under any two of them a text has the same fault, or it is
reported under both with the same solution, and with the same report where the count of decimals and the
window of its own degree agree. -/
theorem options_change_display_only (raw : Text) (degree : Degree) (o o' : Options) :
    (∀ fault, solveEquation raw degree o = .error fault ↔
      solveEquation raw degree o' = .error fault) ∧
    ∀ r, solveEquation raw degree o = .ok r →
      ∃ r', solveEquation raw degree o' = .ok r' ∧ SameButShown degree o o' r r' := by
  cases h : solved raw degree with
  | error fault =>
    have hfault (o : Options) : solveEquation raw degree o = .error fault := by
      rw [solveEquation_eq_map, h]
      rfl
    refine ⟨fun _ => by rw [hfault o, hfault o'], fun r hr => ?_⟩
    rw [hfault o] at hr
    cases hr
  | ok s =>
    have hreport (o : Options) : solveEquation raw degree o = .ok (s.report degree o) := by
      rw [solveEquation_eq_map, h]
      rfl
    obtain ⟨hd, hs⟩ := solve_of_solved h
    refine ⟨fun _ => by rw [hreport o, hreport o']; exact ⟨nofun, nofun⟩, fun r hr => ?_⟩
    rw [hreport o] at hr
    obtain rfl := Except.ok.inj hr
    exact ⟨_, hreport o', s.sameButShown o o' hd hs⟩

theorem options_of_square_two :
    ∃ r r', solveEquation "x² - 2 = 0".toList .quadratic {} = .ok r ∧
      solveEquation "x² - 2 = 0".toList .quadratic (Options.withDecimals {} 5) = .ok r' ∧
      r.solution = r'.solution ∧ SameUpToBranch .two r.procedure r'.procedure ∧
      r.procedure ≠ r'.procedure ∧
      solveEquation "x² - 2 = 0".toList .quadratic (Options.withLinear {} ⟨0, 1⟩) = .ok r := by
  have hmap : (solveEquation "x² - 2 = 0".toList .quadratic {}).map
        (fun r => (r.solution, r.procedure.getLast?)) =
      .ok (.twoReal (Binary64.sqrt 2) (-Binary64.sqrt 2),
        some "x₂ = (0 - √8) / 2 = -1.41".toList) := by decide +kernel
  have hmap' : (solveEquation "x² - 2 = 0".toList .quadratic (Options.withDecimals {} 5)).map
        (fun r => r.procedure.getLast?) =
      .ok (some "x₂ = (0 - √8) / 2 = -1.41421".toList) := by decide +kernel
  obtain ⟨r, h, hr⟩ := exists_of_map_eq_ok hmap
  obtain ⟨-, hd⟩ := options_change_display_only "x² - 2 = 0".toList .quadratic {}
    (Options.withDecimals {} 5)
  obtain ⟨-, hw⟩ := options_change_display_only "x² - 2 = 0".toList .quadratic {}
    (Options.withLinear {} ⟨0, 1⟩)
  obtain ⟨r', h', hsame⟩ := hd r h
  obtain ⟨r'', h'', hsame'⟩ := hw r h
  obtain ⟨hs, hl⟩ := Prod.mk.inj hr
  have hbranch := hsame.quadratic_procedure rfl
  rw [hs] at hbranch
  refine ⟨r, r', h, h', hsame.solution_eq, hbranch, fun heq => ?_, ?_⟩
  · rw [h'] at hmap'
    have hl' : r'.procedure.getLast? = _ := Except.ok.inj hmap'
    rw [← heq, hl] at hl'
    exact absurd hl' (by decide)
  · rw [hsame'.eq rfl rfl]
    exact h''

end SchoolAlgebra
