import SchoolAlgebra.Proofs.Outcome
import SchoolAlgebra.Proofs.ReadBack
import SchoolAlgebra.Proofs.Value
set_option autoImplicit false

namespace SchoolAlgebra

def wholeText (n : Int) : Text := (if n < 0 then ['-'] else []) ++ Nat.toDigits 10 n.natAbs

/-- The same behind another term, where a sign stands in any case. -/
def signedWholeText (n : Int) : Text := (if n < 0 then '-' else '+') :: Nat.toDigits 10 n.natAbs

example : wholeText (-3) ++ signedWholeText 0 ++ signedWholeText (-12) = "-3+0-12".toList := by decide

/-- A text that spells a whole number behind some sign. -/
def SpellsWhole (t : Text) (n : Int) : Prop :=
  ∃ mark ∈ Grammar.optional Grammar.sign,
    writtenSign mark = .ofInt n ∧ t = mark ++ Nat.toDigits 10 n.natAbs

theorem wholeText_spells (n : Int) : SpellsWhole (wholeText n) n := by
  unfold wholeText
  split_ifs with h
  · exact ⟨['-'], .inr (.inr rfl), by simp [writtenSign, Sign.ofInt, h], rfl⟩
  · exact ⟨[], .inl rfl, by simp [writtenSign, Sign.ofInt, h], rfl⟩

theorem signedWholeText_spells (n : Int) : SpellsWhole (signedWholeText n) n := by
  unfold signedWholeText
  split_ifs with h
  · exact ⟨['-'], .inr (.inr rfl), by simp [writtenSign, Sign.ofInt, h], rfl⟩
  · exact ⟨['+'], .inr (.inl rfl), by simp [writtenSign, Sign.ofInt, h], rfl⟩

theorem toDigits_mem (n : Nat) : Nat.toDigits 10 n ∈ Grammar.numeral :=
  Grammar.mem_numeral.2 ⟨_, Decimal.allDigits_toDigits n, .inl ⟨rfl, by simp⟩⟩

theorem wholeText_mem (n : Int) : wholeText n ∈ Grammar.signedNumeral := by
  obtain ⟨mark, hm, -, ht⟩ := wholeText_spells n
  rw [ht]
  exact Language.append_mem_mul hm (toDigits_mem _)

theorem signedWholeText_mem (n : Int) : signedWholeText n ∈ Grammar.constant := by
  refine ⟨[if n < 0 then '-' else '+'], ?_, _, toDigits_mem n.natAbs, rfl⟩
  split_ifs
  · exact .inr rfl
  · exact .inl rfl

namespace SpellsWhole

variable {t : Text} {n : Int}

theorem hasDigit (h : SpellsWhole t n) : HasDigit t := by
  obtain ⟨mark, -, -, rfl⟩ := h
  exact (hasDigit_of_numeral (toDigits_mem _)).append mark

theorem written (h : SpellsWhole t n) :
    writtenSign t = .ofInt n ∧ writtenMagnitude t = (n.natAbs : Rat) := by
  obtain ⟨mark, hm, hs, rfl⟩ := h
  obtain ⟨p, rfl, hu, -, hv⟩ := Decimal.exists_numberParts_whole hm
    (Decimal.allDigits_toDigits n.natAbs) (by simp)
  rw [← hu]
  change writtenSign p.text = _ ∧ writtenMagnitude p.text = _
  rw [p.writtenSign_text, p.writtenMagnitude_text, hv, Nat.ofDigitChars_ten_toDigits]
  exact ⟨hs, rfl⟩

theorem number (h : SpellsWhole t n) : number t = .ofInt n := by
  rw [SchoolAlgebra.number, h.written.1, h.written.2]
  rfl

theorem coefficientNumber (h : SpellsWhole t n) : coefficientNumber t = .ofInt n := by
  rw [SchoolAlgebra.coefficientNumber, coefficientMagnitude, if_neg (not_bare_of_hasDigit h.hasDigit)]
  exact h.number

theorem readable (h : SpellsWhole t n) (hn : InRange n) : ¬Unreadable t := by
  rintro (hd | hle)
  · exact hd h.hasDigit
  · rw [h.written.2, Nat.cast_natAbs, Int.cast_abs] at hle
    exact absurd hn (not_lt.2 hle)

theorem readable_written (h : SpellsWhole t n) (hn : InRange n) :
    ∀ s ∈ SchoolAlgebra.written t, ¬Unreadable s := by
  intro s hs
  rw [SchoolAlgebra.written, if_neg (not_bare_of_hasDigit h.hasDigit), List.mem_singleton] at hs
  rw [hs]
  exact h.readable hn

end SpellsWhole

/-- The text `ax+b = c`. -/
def linearWholeText (a b c : Int) : Text :=
  wholeText a ++ ['x'] ++ signedWholeText b ++ " = ".toList ++ wholeText c

/-- The text `ax²+bx+k = d`. -/
def quadraticWholeText (a b k d : Int) : Text :=
  wholeText a ++ "x²".toList ++ signedWholeText b ++ ['x'] ++ signedWholeText k ++ " = ".toList ++
    wholeText d

theorem x_mem_unknown : ['x'] ∈ Grammar.unknown := .inl rfl

theorem xSquared_mem_square : ['x', '²'] ∈ Grammar.square :=
  ⟨['x'], x_mem_unknown, ['²'], .inl rfl, rfl⟩

def linearWhole (a b c : Int) : TypedEquation .linear where
  left := .linear {
    lead := wholeText a
    unknown := ['x']
    constant := some (signedWholeText b)
    lead_mem := leading_of_signedNumeral (wholeText_mem a)
    unknown_mem := x_mem_unknown
    constant_mem := by simpa using signedWholeText_mem b }
  right := wholeText c
  right_mem := wholeText_mem c

def quadraticWhole (a b k d : Int) : TypedEquation .quadratic where
  left := .quadratic {
    lead := wholeText a
    square := ['x', '²']
    linear := some (signedWholeText b, ['x'])
    constant := some (signedWholeText k)
    lead_mem := leading_of_signedNumeral (wholeText_mem a)
    square_mem := xSquared_mem_square
    linear_mem := by
      intro t ht
      obtain rfl := Option.some.inj ht
      obtain ⟨m, hm, n, hn, h⟩ := Language.mem_mul.1 (signedWholeText_mem b)
      exact ⟨h ▸ Language.append_mem_mul hm (Grammar.pointedDigits_of_numeral hn), x_mem_unknown⟩
    constant_mem := by simpa using signedWholeText_mem k }
  right := wholeText d
  right_mem := wholeText_mem d

theorem withoutBlanks_wholeText (n : Int) : (wholeText n).withoutBlanks = wholeText n :=
  (Grammar.writable_signedNumeral _ (wholeText_mem n)).withoutBlanks

theorem withoutBlanks_signedWholeText (n : Int) :
    (signedWholeText n).withoutBlanks = signedWholeText n :=
  (Grammar.writable_constant _ (signedWholeText_mem n)).withoutBlanks

theorem text_linearWhole (a b c : Int) :
    (linearWhole a b c).text = (linearWholeText a b c).withoutBlanks := by
  have hx : Text.withoutBlanks ['x'] = ['x'] := by decide
  have heq : Text.withoutBlanks " = ".toList = ['='] := by decide
  simp only [linearWholeText, Text.withoutBlanks_append, withoutBlanks_wholeText,
    withoutBlanks_signedWholeText, hx, heq]
  simp [TypedEquation.text, linearWhole, SideParts.text, LinearParts.text, constantText]

theorem text_quadraticWhole (a b k d : Int) :
    (quadraticWhole a b k d).text = (quadraticWholeText a b k d).withoutBlanks := by
  have hx : Text.withoutBlanks ['x'] = ['x'] := by decide
  have hsq : Text.withoutBlanks "x²".toList = ['x', '²'] := by decide
  have heq : Text.withoutBlanks " = ".toList = ['='] := by decide
  simp only [quadraticWholeText, Text.withoutBlanks_append, withoutBlanks_wholeText,
    withoutBlanks_signedWholeText, hx, hsq, heq]
  simp [TypedEquation.text, quadraticWhole, SideParts.text, QuadraticParts.text,
    QuadraticParts.linearText, constantText]

theorem coefficients_linearWhole (a b c : Int) :
    (linearWhole a b c).coefficients = .linear ⟨.ofInt a, .ofInt b, .ofInt c⟩ := by
  simp only [TypedEquation.coefficients, linearWhole, SideParts.coefficients, constantNumber,
    Option.elim_some, (wholeText_spells a).coefficientNumber, (signedWholeText_spells b).number,
    (wholeText_spells c).number]

theorem coefficients_quadraticWhole (a b k d : Int) :
    (quadraticWhole a b k d).coefficients =
      .quadratic (.ofSides (.ofInt a) (.ofInt b) (.ofInt k) (.ofInt d)) := by
  simp only [TypedEquation.coefficients, quadraticWhole, SideParts.coefficients, constantNumber,
    Option.elim_some, (wholeText_spells a).coefficientNumber,
    (signedWholeText_spells b).coefficientNumber, (signedWholeText_spells k).number,
    (wholeText_spells d).number]

section

variable {a b k d : Int}

theorem readable_linearWhole (ha : InRange a) (hb : InRange b) (hd : InRange d) :
    ∀ s ∈ (linearWhole a b d).numerals, ¬Unreadable s := by
  simp only [TypedEquation.numerals, linearWhole, SideParts.numerals, List.forall_mem_cons,
    List.forall_mem_append, Option.toList_some]
  exact ⟨(wholeText_spells d).readable hd, (wholeText_spells a).readable_written ha,
    (signedWholeText_spells b).readable hb, by simp⟩

theorem readable_quadraticWhole (ha : InRange a) (hb : InRange b) (hk : InRange k) (hd : InRange d) :
    ∀ s ∈ (quadraticWhole a b k d).numerals, ¬Unreadable s := by
  simp only [TypedEquation.numerals, quadraticWhole, SideParts.numerals, List.forall_mem_cons,
    List.forall_mem_append, Option.toList_some, Option.elim_some]
  exact ⟨(wholeText_spells d).readable hd, (signedWholeText_spells b).readable_written hb,
    (wholeText_spells a).readable_written ha, (signedWholeText_spells k).readable hk, by simp⟩

end

theorem TypedEquation.exists_report {degree : Degree} (e : TypedEquation degree) (o : Options)
    {raw : Text} (ht : e.text = raw.withoutBlanks) (hr : ∀ s ∈ e.numerals, ¬Unreadable s)
    {solution : Solution} (hs : e.coefficients.solve = .ok solution) :
    ∃ report, solveEquation raw degree o = .ok report ∧ report.coefficients = e.coefficients ∧
      report.solution = solution := by
  rw [solveEquation_of_coefficients o (e.check_eq_ok ht)
    (e.reads_ofSides.ok (firstUnreadable_eq_none_iff.2 hr)), hs]
  exact ⟨_, rfl, rfl, rfl⟩

theorem TypedEquation.map_solution {degree : Degree} (e : TypedEquation degree) (o : Options)
    {raw : Text} (ht : e.text = raw.withoutBlanks) (hr : ∀ s ∈ e.numerals, ¬Unreadable s) :
    (solveEquation raw degree o).map Report.solution = e.coefficients.solve := by
  rw [solveEquation_of_coefficients o (e.check_eq_ok ht)
    (e.reads_ofSides.ok (firstUnreadable_eq_none_iff.2 hr))]
  cases e.coefficients.solve <;> rfl

end SchoolAlgebra
