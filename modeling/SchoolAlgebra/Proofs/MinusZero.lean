import Mathlib.Data.List.TakeWhile
import SchoolAlgebra.Proofs.OptionsReach
import SchoolAlgebra.Proofs.RootOrder
set_option autoImplicit false

/-!
Where a minus stands in front of zeros. A zero is written without a sign, but a number below zero keeps its
sign when rounding leaves no other digit of it. The plain writings round nothing, so that a report shows such
a number exactly where a root, a part of a complex root or a value of the table is that small.
-/

namespace SchoolAlgebra

/-- No other digit stands in the text. -/
def OnlyZeros (s : Text) : Prop := ∀ c ∈ s, c.isDigit = true → c = '0'

instance (s : Text) : Decidable (OnlyZeros s) :=
  List.decidableBAll (fun c : Char => c.isDigit = true → c = '0') s

@[simp] theorem onlyZeros_nil : OnlyZeros [] := List.forall_mem_nil _

@[simp] theorem onlyZeros_cons {c : Char} {s : Text} :
    OnlyZeros (c :: s) ↔ (c.isDigit = true → c = '0') ∧ OnlyZeros s := List.forall_mem_cons

theorem digit_eq_zero_iff {c : Char} (h : c.isDigit = true) : c.toNat - '0'.toNat = 0 ↔ c = '0' := by
  have hc := Grammar.toNat_of_isDigit h
  rw [show '0'.toNat = 48 from rfl]
  constructor
  · intro hz
    exact Char.toNat_inj.1 (show c.toNat = 48 by omega)
  · rintro rfl
    rfl

theorem ofDigitChars_eq_zero_iff {s : Text} (hs : Grammar.AllDigits s) (n : Nat) :
    Nat.ofDigitChars 10 s n = 0 ↔ n = 0 ∧ OnlyZeros s := by
  induction s generalizing n with
  | nil => simp [Nat.ofDigitChars]
  | cons c s ih =>
    obtain ⟨hc, hs⟩ := List.forall_mem_cons.1 hs
    rw [Nat.ofDigitChars_cons, ih hs, Nat.add_eq_zero_iff, digit_eq_zero_iff hc, onlyZeros_cons]
    simp [hc, and_assoc]

namespace Decimal

theorem mem_withPoint {s : Text} {places : Nat} {c : Char} :
    c ∈ withPoint s places ↔ c ∈ s.leftpad (places + 1) '0' ∨ places ≠ 0 ∧ c = '.' := by
  rw [withPoint]
  split_ifs with h
  · simp [h]
  · generalize s.leftpad (places + 1) '0' = padded
    conv_rhs => rw [← List.take_append_drop (padded.length - places) padded]
    rw [List.mem_append, List.mem_cons, List.mem_append]
    tauto

theorem forall_mem_withPoint {P : Char → Prop} (hzero : P '0') (hpoint : P '.') {s : Text}
    {places : Nat} : (∀ c ∈ withPoint s places, P c) ↔ ∀ c ∈ s, P c := by
  simp only [mem_withPoint, List.leftpad, List.mem_append, List.mem_replicate]
  constructor
  · exact fun h c hc => h c (.inl (.inr hc))
  · rintro h c ((⟨-, rfl⟩ | hc) | ⟨-, rfl⟩)
    exacts [hzero, h c hc, hpoint]

theorem forall_mem_positional {P : Char → Prop} (hzero : P '0') (hpoint : P '.') {n : Nat}
    {e : Int} : (∀ c ∈ positional n e, P c) ↔ ∀ c ∈ Nat.toDigits 10 n, P c := by
  unfold positional
  split_ifs
  · rw [List.forall_mem_append, and_iff_left fun c hc => List.eq_of_mem_replicate hc ▸ hzero]
  · exact forall_mem_withPoint hzero hpoint

theorem hasDigit_withPoint {s : Text} (hs : Grammar.AllDigits s) (places : Nat) :
    HasDigit (withPoint s places) := by
  have hlen := lt_length_leftpad s places
  obtain ⟨c, hc⟩ := List.exists_mem_of_length_pos (Nat.zero_lt_of_lt hlen)
  exact ⟨c, mem_withPoint.2 (.inl hc), allDigits_leftpad hs _ c hc⟩

theorem onlyZeros_toDigits {n : Nat} : OnlyZeros (Nat.toDigits 10 n) ↔ n = 0 := by
  have h := ofDigitChars_eq_zero_iff (allDigits_toDigits n) 0
  rw [Nat.ofDigitChars_ten_toDigits] at h
  simpa using h.symm

end Decimal

theorem halfEven_eq_zero_iff {q : Rat} (hq : 0 ≤ q) : halfEven q = 0 ↔ q ≤ 1 / 2 := by
  have h := halfEven_le_iff hq 0
  rw [Nat.le_zero, Nat.cast_zero, zero_add] at h
  rw [h, le_iff_lt_or_eq]
  simp

def inNumeral (c : Char) : Bool := c.isDigit || c == '.'

theorem inNumeral_of_allDigits {s : Text} (hs : Grammar.AllDigits s) : ∀ c ∈ s, inNumeral c = true :=
  fun c hc => by rw [inNumeral, hs c hc, Bool.true_or]

namespace Magnitude

variable {m : Magnitude}

theorem not_onlyZeros_plain (h : m ≠ .zero) : ¬OnlyZeros m.plain := by
  obtain ⟨n, e, ht, hn⟩ := m.exists_plain
  rw [ht, OnlyZeros, Decimal.forall_mem_positional (fun _ => rfl) (by decide)]
  intro hz
  rw [Decimal.onlyZeros_toDigits.1 hz, Nat.cast_zero, zero_mul] at hn
  exact h (Option.some.inj hn).symm

theorem inNumeral_plain : ∀ c ∈ m.plain, inNumeral c = true := by
  obtain ⟨n, e, ht, -⟩ := m.exists_plain
  rw [ht]
  exact (Decimal.forall_mem_positional (P := fun c => inNumeral c = true) rfl rfl).2
    (inNumeral_of_allDigits (Decimal.allDigits_toDigits n))

/-- The last decimal is rounded, unless the decimals reach beyond the last place. -/
theorem onlyZeros_fixed (h : 0 < m.value) (places : Nat) :
    OnlyZeros (m.fixed places) ↔ m.value * (10 : Rat) ^ places ≤ 1 / 2 := by
  obtain ⟨n, k, ht, hn⟩ := m.exists_fixed places
  have hiff : OnlyZeros (m.fixed places) ↔ n = 0 := by
    rw [ht, OnlyZeros, Decimal.forall_mem_withPoint (fun _ => rfl) (by decide),
      List.forall_mem_append, and_iff_left fun c hc _ => List.eq_of_mem_replicate hc]
    exact Decimal.onlyZeros_toDigits
  rw [hiff, hn]
  rcases Nat.le_total places (-m.exponent).toNat with hle | hle
  · rw [min_eq_left hle]
    exact halfEven_eq_zero_iff (by positivity)
  · obtain ⟨n, hn⟩ := m.exists_value_mul
    rw [zpow_natCast] at hn
    have hpos : 0 < m.value * (10 : Rat) ^ (-m.exponent).toNat := by positivity
    rw [hn, Nat.cast_pos] at hpos
    have hone : (1 : Rat) ≤ n := by exact_mod_cast hpos
    have hmono : m.value * (10 : Rat) ^ (-m.exponent).toNat ≤ m.value * (10 : Rat) ^ places :=
      mul_le_mul_of_nonneg_left (pow_le_pow_right₀ (by norm_num) hle) h.le
    rw [min_eq_right hle, hn, halfEven_natCast]
    constructor
    · intro hz
      omega
    · intro hhalf
      linarith

theorem inNumeral_fixed (places : Nat) : ∀ c ∈ m.fixed places, inNumeral c = true := by
  obtain ⟨n, k, ht, -⟩ := m.exists_fixed places
  rw [ht]
  exact (Decimal.forall_mem_withPoint (P := fun c => inNumeral c = true) rfl rfl).2
    (inNumeral_of_allDigits (Decimal.allDigits_padded n k))

theorem hasDigit_fixed (places : Nat) : HasDigit (m.fixed places) := by
  obtain ⟨n, k, ht, -⟩ := m.exists_fixed places
  rw [ht]
  exact Decimal.hasDigit_withPoint (Decimal.allDigits_padded n k) places

end Magnitude

def numeralStart (s : Text) : Text := s.takeWhile inNumeral

/-- Somewhere in the text a minus stands in front of a number that has no digit but zeros. -/
def ShowsMinusZero : Text → Prop
  | [] => False
  | c :: s => (c = '-' ∧ HasDigit (numeralStart s) ∧ OnlyZeros (numeralStart s)) ∨ ShowsMinusZero s

instance decidableShowsMinusZero : (s : Text) → Decidable (ShowsMinusZero s)
  | [] => .isFalse id
  | _ :: s => @instDecidableOr _ _ inferInstance (decidableShowsMinusZero s)

theorem numeralStart_eq_self {s : Text} (h : ∀ c ∈ s, inNumeral c = true) : numeralStart s = s :=
  List.takeWhile_eq_self_iff.2 h

theorem numeralStart_append_cons {c : Char} (hc : inNumeral c = false) (s t : Text) :
    numeralStart (s ++ c :: t) = numeralStart s := by
  induction s with
  | nil => simp [numeralStart, hc]
  | cons d s ih =>
    simp only [numeralStart] at ih
    simp [numeralStart, List.takeWhile_cons, ih]

namespace ShowsMinusZero

variable {c : Char} {s t : Text}

@[simp] theorem nil_iff : ShowsMinusZero [] ↔ False := Iff.rfl

@[simp] theorem cons_iff (h : c ≠ '-') : ShowsMinusZero (c :: s) ↔ ShowsMinusZero s := by
  simp [ShowsMinusZero, h]

@[simp] theorem minus_cons_iff (h : inNumeral c = false) :
    ShowsMinusZero ('-' :: c :: s) ↔ ShowsMinusZero (c :: s) := by
  have hstart : numeralStart (c :: s) = [] := by simp [numeralStart, h]
  simp [ShowsMinusZero, hstart, HasDigit]

@[simp] theorem append_cons_iff (h : inNumeral c = false) :
    ShowsMinusZero (s ++ c :: t) ↔ ShowsMinusZero s ∨ ShowsMinusZero (c :: t) := by
  induction s with
  | nil => simp
  | cons d s ih =>
    simp only [List.cons_append, ShowsMinusZero, numeralStart_append_cons h] at ih ⊢
    rw [ih, or_assoc]

theorem not_of_minus_not_mem (h : '-' ∉ s) : ¬ShowsMinusZero s := by
  induction s with
  | nil => exact id
  | cons c s ih =>
    rw [List.mem_cons, not_or] at h
    rw [cons_iff fun hc => h.1 hc.symm]
    exact ih h.2

end ShowsMinusZero

theorem minus_not_mem_of_inNumeral {s : Text} (h : ∀ c ∈ s, inNumeral c = true) : '-' ∉ s :=
  fun hs => absurd (h '-' hs) (by decide)

theorem showsMinusZero_signed {s : Text} (h : ∀ c ∈ s, inNumeral c = true) (hd : HasDigit s) :
    ShowsMinusZero ('-' :: s) ↔ OnlyZeros s := by
  have hnot := ShowsMinusZero.not_of_minus_not_mem (minus_not_mem_of_inNumeral h)
  simp [ShowsMinusZero, numeralStart_eq_self h, hd, hnot]

theorem showsMinusZero_iff_head {mark s : Text} (hm : mark = [] ∨ mark = ['-'])
    (h : ∀ c ∈ s, inNumeral c = true) (hd : HasDigit s) :
    ShowsMinusZero (mark ++ s) ↔ (mark ++ s).head? = some '-' ∧ OnlyZeros (mark ++ s) := by
  have hnot := minus_not_mem_of_inNumeral h
  rcases hm with rfl | rfl
  · exact iff_of_false (ShowsMinusZero.not_of_minus_not_mem hnot) fun hs =>
      hnot (List.mem_of_head? hs.1)
  · rw [List.singleton_append, showsMinusZero_signed h hd]
    simp

namespace Binary64

/-- A number below zero, by no more than half a unit of its last decimal. -/
def RoundsToMinusZero (x : Binary64) (places : Nat) : Prop :=
  ∃ q, x.HasValue q ∧ q < 0 ∧ |q| * (10 : Rat) ^ places ≤ 1 / 2

theorem roundsToMinusZero_finite {s : Sign} {m : Magnitude} {places : Nat} :
    (finite s m).RoundsToMinusZero places ↔
      s.apply m.value < 0 ∧ m.value * (10 : Rat) ^ places ≤ 1 / 2 := by
  have habs := Sign.abs_apply s m.value_nonneg
  constructor
  · rintro ⟨q, hq, h⟩
    obtain rfl := (hasValue_finite s m).unique hq
    rwa [habs] at h
  · intro h
    refine ⟨_, hasValue_finite s m, ?_⟩
    rwa [habs]

theorem mark_cases (s : Sign) (m : Magnitude) :
    mark s m = [] ∧ 0 ≤ s.apply m.value ∨
      mark s m = ['-'] ∧ 0 < m.value ∧ s.apply m.value = -m.value := by
  by_cases hz : m.isZero = true
  · left
    rw [mark, if_pos hz, Magnitude.isZero_iff.1 hz, Magnitude.value_zero,
      Sign.apply_eq_zero_iff.2 rfl]
    exact ⟨rfl, le_rfl⟩
  · rw [mark, if_neg hz]
    cases s with
    | plus => exact .inl ⟨rfl, m.value_nonneg⟩
    | minus =>
      have hne : m.value ≠ 0 := mt (fun h => Magnitude.isZero_iff.2 (Magnitude.value_eq_zero_iff.1 h)) hz
      exact .inr ⟨rfl, lt_of_le_of_ne m.value_nonneg hne.symm, rfl⟩

@[simp] theorem showsMinusZero_plain (x : Binary64) : ShowsMinusZero x.plain ↔ False := by
  refine iff_false_intro ?_
  cases x with
  | nan => decide
  | infinity s => cases s <;> decide
  | finite s m =>
    rw [plain]
    rcases mark_cases s m with ⟨hm, -⟩ | ⟨hm, hpos, -⟩
    · rw [hm]
      exact ShowsMinusZero.not_of_minus_not_mem (minus_not_mem_of_inNumeral m.inNumeral_plain)
    · rw [hm, List.singleton_append,
        showsMinusZero_signed m.inNumeral_plain (hasDigit_of_numeral m.plain_mem)]
      exact Magnitude.not_onlyZeros_plain fun h => hpos.ne' (Magnitude.value_eq_zero_iff.2 h)

@[simp] theorem showsMinusZero_fixed (x : Binary64) (places : Nat) :
    ShowsMinusZero (x.fixed places) ↔ x.RoundsToMinusZero places := by
  cases x with
  | nan => exact iff_of_false (showsMinusZero_plain .nan).1 (by rintro ⟨q, hq, -⟩; cases hq)
  | infinity s =>
    exact iff_of_false (showsMinusZero_plain (.infinity s)).1 (by rintro ⟨q, hq, -⟩; cases hq)
  | finite s m =>
    rw [fixed, roundsToMinusZero_finite]
    rcases mark_cases s m with ⟨hm, hv⟩ | ⟨hm, hpos, hv⟩
    · rw [hm]
      exact iff_of_false (ShowsMinusZero.not_of_minus_not_mem
        (minus_not_mem_of_inNumeral (m.inNumeral_fixed places))) fun h => absurd h.1 (not_lt.2 hv)
    · rw [hm, List.singleton_append,
        showsMinusZero_signed (m.inNumeral_fixed places) (m.hasDigit_fixed places),
        Magnitude.onlyZeros_fixed hpos, hv, and_iff_right (neg_lt_zero.2 hpos)]

theorem showsMinusZero_plain_iff_head {x : Binary64} (h : x.isFinite = true) :
    ShowsMinusZero x.plain ↔ x.plain.head? = some '-' ∧ OnlyZeros x.plain := by
  obtain ⟨s, m, rfl⟩ := exists_finite h
  exact showsMinusZero_iff_head ((mark_cases s m).imp And.left And.left) m.inNumeral_plain
    (hasDigit_of_numeral m.plain_mem)

theorem showsMinusZero_fixed_iff_head {x : Binary64} (h : x.isFinite = true) (places : Nat) :
    ShowsMinusZero (x.fixed places) ↔
      (x.fixed places).head? = some '-' ∧ OnlyZeros (x.fixed places) := by
  obtain ⟨s, m, rfl⟩ := exists_finite h
  exact showsMinusZero_iff_head ((mark_cases s m).imp And.left And.left) (m.inNumeral_fixed places)
    (m.hasDigit_fixed places)

@[simp] theorem showsMinusZero_parenthesized (x : Binary64) :
    ShowsMinusZero x.parenthesized ↔ False := by
  unfold parenthesized
  split_ifs <;> simp [inNumeral]

theorem minus_abs_plain (x : Binary64) :
    (if x.isNegative then ['-'] else []) ++ x.abs.plain = x.plain := by
  cases x with
  | nan => rfl
  | infinity s => cases s <;> rfl
  | finite s m =>
    simp only [isNegative_finite, abs, plain]
    cases s <;> cases hz : m.isZero <;> simp [mark, Sign.mark, hz]

theorem minus_not_mem_abs_plain (x : Binary64) : '-' ∉ x.abs.plain := by
  cases x with
  | nan => decide
  | infinity s => exact fun h => absurd h (by decide : '-' ∉ "inf".toList)
  | finite s m =>
    rw [abs, plain, mark_plus, List.nil_append]
    exact minus_not_mem_of_inNumeral m.inNumeral_plain

end Binary64

namespace Polynomial

@[simp] theorem showsMinusZero_append_power {s : Text} (k : Nat) :
    ShowsMinusZero (s ++ power k) ↔ ShowsMinusZero s := by
  unfold power
  split <;> simp [inNumeral]

@[simp] theorem showsMinusZero_body (c : Binary64) (k : Nat) :
    ShowsMinusZero (body c k) ↔ False := by
  have hpower := showsMinusZero_append_power (s := []) k
  have habs := ShowsMinusZero.not_of_minus_not_mem c.minus_not_mem_abs_plain
  unfold body
  split_ifs
  · simpa using hpower
  · simp [habs]

@[simp] theorem showsMinusZero_leadingTerm (t : Binary64 × Nat) :
    ShowsMinusZero (leadingTerm t) ↔ False := by
  obtain ⟨c, k⟩ := t
  unfold leadingTerm body
  by_cases hunit : 0 < k ∧ c.abs.sameNumber 1 = true
  · obtain ⟨t, ht⟩ : ∃ t, power k = 'x' :: t := by
      unfold power
      split
      · exact absurd hunit.1 (lt_irrefl 0)
      all_goals exact ⟨_, rfl⟩
    have hpower := showsMinusZero_append_power (s := []) k
    rw [List.nil_append, ht] at hpower
    rw [if_pos hunit, ht]
    split_ifs <;> simpa [inNumeral] using hpower
  · rw [if_neg hunit, ← List.append_assoc, c.minus_abs_plain]
    simp

theorem showsMinusZero_append_furtherTerm (s : Text) (t : Binary64 × Nat) :
    ShowsMinusZero (s ++ furtherTerm t) ↔ ShowsMinusZero s := by
  unfold furtherTerm
  split_ifs <;> simp [inNumeral]

theorem showsMinusZero_append_terms (s : Text) (ts : List (Binary64 × Nat)) :
    ShowsMinusZero (s ++ ts.flatMap furtherTerm) ↔ ShowsMinusZero s := by
  induction ts generalizing s with
  | nil => simp
  | cons t ts ih =>
    rw [List.flatMap_cons, ← List.append_assoc, ih, showsMinusZero_append_furtherTerm]

@[simp] theorem showsMinusZero_textAsTyped (cs : List Binary64) :
    ShowsMinusZero (textAsTyped cs) ↔ False := by
  unfold textAsTyped
  cases terms cs with
  | nil => exact iff_of_false (by decide) id
  | cons t ts => simp [joined, showsMinusZero_append_terms]

end Polynomial

/-- The numbers that a step writes to a count of decimals. -/
def Step.rounded : Step → List Binary64
  | firstRoot _ _ _ x | secondRoot _ _ _ x | doubleRoot _ _ x => [x]
  | firstComplex real imaginary | secondComplex real imaginary => [real, imaginary]
  | _ => []

@[simp] theorem Move.showsMinusZero_text (move : Move) : ShowsMinusZero move.text ↔ False := by
  cases move with
  | given => exact iff_of_false (by decide) id
  | carried amount =>
    rw [text_carried]
    split_ifs <;> simp [inNumeral]
  | divided divisor =>
    unfold text
    simp

namespace Step

variable (places : Nat)

theorem showsMinusZero_text (s : Step) :
    ShowsMinusZero (s.text places) ↔ ∃ x ∈ s.rounded, x.RoundsToMinusZero places := by
  unfold text
  cases s with
  | equation move left right => simp [equationText, rounded, inNumeral]
  | coefficients a b c => simp [rounded, inNumeral]
  | discriminant a b c value => simp [rounded, inNumeral]
  | firstRoot a b radicand x => simp [quotientText, rounded, inNumeral]
  | secondRoot a b radicand x => simp [quotientText, rounded, inNumeral]
  | doubleRoot a b x => simp [rounded, inNumeral]
  | firstComplex real imaginary => simp [Solution.complexText, rounded, inNumeral]
  | secondComplex real imaginary => simp [Solution.complexText, rounded, inNumeral]
  | _ => exact iff_of_false (by dsimp only; decide) (by simp [rounded])

theorem rounded_eq_nil {s : Step} (h : s.isRounded = false) : s.rounded = [] := by
  cases s <;> first | rfl | cases h

end Step

theorem Solution.showsMinusZero_text (solution : Solution) (places : Nat) :
    ShowsMinusZero (solution.text places) ↔
      ∃ x ∈ solution.values, x.RoundsToMinusZero places := by
  unfold text
  cases solution with
  | noSolution => exact iff_of_false (by dsimp only; decide) (by simp [values])
  | oneReal x => simp [values]
  | twoReal x1 x2 => simp [values, inNumeral]
  | complexPair real imaginary =>
    simp only [values, complexText]
    simp [inNumeral]
    tauto

namespace Quadratic

variable {p : Quadratic} {solution : Solution}

theorem mem_rounded_rootSteps (h : p.solve = .ok solution) (hn : solution ≠ .noSolution)
    {x : Binary64} : (∃ s ∈ p.rootSteps, x ∈ s.rounded) ↔ x ∈ solution.values := by
  cases solution with
  | noSolution => exact absurd rfl hn
  | oneReal x => simp [rootSteps, h, Step.rounded, Solution.values]
  | twoReal x1 x2 => simp [rootSteps, h, Step.rounded, Solution.values]
  | complexPair real imaginary => simp [rootSteps, h, Step.rounded, Solution.values]

theorem derivation_eq_front (p : Quadratic) : p.derivation = p.front ++ p.rootSteps := by
  rw [derivation_eq, front, List.append_assoc]
  rfl

end Quadratic

namespace Coefficients

variable {p : Coefficients} {solution : Solution}

theorem mem_rounded_derivation (h : p.solve = .ok solution) {x : Binary64} :
    (∃ s ∈ p.derivation, x ∈ s.rounded) ↔ p.degree = .quadratic ∧ x ∈ solution.values := by
  have hunrounded : ∀ {steps : List Step}, (∀ s ∈ steps, s.isRounded = false) →
      ¬∃ s ∈ steps, x ∈ s.rounded := by
    rintro steps hs ⟨s, hmem, hx⟩
    rw [Step.rounded_eq_nil (hs s hmem)] at hx
    cases hx
  cases p with
  | linear p =>
    exact iff_of_false (hunrounded p.isRounded_derivation) fun hd => nomatch hd.1
  | quadratic p =>
    have hn : solution ≠ .noSolution := fun hs => p.solve_ne_noSolution (hs ▸ h)
    have hfront := hunrounded p.isRounded_front
    simp only [derivation, p.derivation_eq_front, List.mem_append, or_and_right, exists_or, hfront,
      false_or, Quadratic.mem_rounded_rootSteps h hn]
    exact (and_iff_right rfl).symm

theorem exists_line_showsMinusZero (h : p.solve = .ok solution) (places : Nat) :
    (∃ line ∈ p.procedure places, ShowsMinusZero line) ↔
      p.degree = .quadratic ∧ ∃ x ∈ solution.values, x.RoundsToMinusZero places := by
  simp only [procedure, List.mem_map, exists_exists_and_eq_and, Step.showsMinusZero_text]
  constructor
  · rintro ⟨s, hs, x, hx, hr⟩
    obtain ⟨hd, hx⟩ := (mem_rounded_derivation h).1 ⟨s, hs, hx⟩
    exact ⟨hd, x, hx, hr⟩
  · rintro ⟨hd, x, hx, hr⟩
    obtain ⟨s, hs, hx⟩ := (mem_rounded_derivation h).2 ⟨hd, hx⟩
    exact ⟨s, hs, x, hx, hr⟩

theorem showsMinusZero_table {o : Options} {entry : TableEntry} (h : entry ∈ p.table o) :
    ShowsMinusZero entry.y ↔
      (p.evaluateLeft (.ofInt entry.x.toInt)).RoundsToMinusZero o.decimals.toNat := by
  obtain ⟨x, -, rfl⟩ := List.mem_map.1 h
  exact Binary64.showsMinusZero_fixed _ _

end Coefficients

/-- A plain writing that begins with a minus has another digit than zeros. One with a count of decimals has
none exactly if the number is below zero by no more than half a unit of the last decimal. These are the minus
zeros of a report: in the solution text and in the procedure of a quadratic equation they are roots or parts
of them, in the table they are its values, and the procedure of a linear equation shows none. -/
theorem minus_zero_shown_iff {x : Binary64} (hx : x.isFinite = true) (places : Nat) {raw : Text}
    {degree : Degree} {o : Options} {report : Report}
    (h : solveEquation raw degree o = .ok report) :
    (x.plain.head? = some '-' → ∃ c ∈ x.plain, c.isDigit = true ∧ c ≠ '0') ∧
    ((x.fixed places).head? = some '-' ∧ OnlyZeros (x.fixed places) ↔
      x.RoundsToMinusZero places) ∧
    (ShowsMinusZero report.solutionText ↔
      ∃ y ∈ report.solution.values, y.RoundsToMinusZero o.decimals.toNat) ∧
    (∀ entry ∈ report.table, ShowsMinusZero entry.y ↔
      (report.coefficients.evaluateLeft (.ofInt entry.x.toInt)).RoundsToMinusZero
        o.decimals.toNat) ∧
    ((∃ line ∈ report.procedure, ShowsMinusZero line) ↔
      degree = .quadratic ∧ ∃ y ∈ report.solution.values, y.RoundsToMinusZero o.decimals.toNat) := by
  rw [solveEquation_eq_map] at h
  obtain ⟨s, hs, rfl⟩ := exists_of_map_eq_ok h
  obtain ⟨rfl, hsolve⟩ := solve_of_solved hs
  refine ⟨fun hminus => ?_, ?_, s.solution.showsMinusZero_text _,
    fun _ hentry => Coefficients.showsMinusZero_table hentry,
    Coefficients.exists_line_showsMinusZero hsolve _⟩
  · have hnot := x.showsMinusZero_plain.not.2 id
    rw [Binary64.showsMinusZero_plain_iff_head hx, not_and] at hnot
    have hother := hnot hminus
    rw [OnlyZeros] at hother
    push Not at hother
    exact hother
  · rw [← Binary64.showsMinusZero_fixed_iff_head hx, Binary64.showsMinusZero_fixed]

/-- The root of `1000x = -1` is rounded to a minus zero, in the solution text though not in the procedure,
and the second root of `x² + 0.004x = 0` is in both. -/
theorem minus_zero_of_thousandth :
    (∃ report, solveEquation "1000x = -1".toList .linear {} = .ok report ∧
      ShowsMinusZero report.solutionText ∧ ¬∃ line ∈ report.procedure, ShowsMinusZero line) ∧
    (∃ report, solveEquation "x² + 0.004x = 0".toList .quadratic {} = .ok report ∧
      ShowsMinusZero report.solutionText ∧ ∃ line ∈ report.procedure, ShowsMinusZero line) ∧
    ∃ c ∈ (Binary64.ofRat (-1 / 1000)).plain, c.isDigit = true ∧ c ≠ '0' := by
  have hrounds : ∀ {x : Binary64}, ShowsMinusZero (x.fixed 2) → x.RoundsToMinusZero 2 :=
    (Binary64.showsMinusZero_fixed _ 2).1
  have hfinite : (Binary64.ofRat (-1 / 1000)).isFinite = true := by decide +kernel
  obtain ⟨linear, hlinear, hl⟩ := exists_of_map_eq_ok (f := Report.solution)
    (b := .oneReal (.ofRat (-1 / 1000)))
    (show (solveEquation "1000x = -1".toList .linear {}).map Report.solution = _ by decide +kernel)
  obtain ⟨quadratic, hquadratic, hq⟩ := exists_of_map_eq_ok (f := Report.solution)
    (b := .twoReal 0 (.ofRat (-1 / 250)))
    (show (solveEquation "x² + 0.004x = 0".toList .quadratic {}).map Report.solution = _ by
      decide +kernel)
  obtain ⟨hplain, -, htext, -, hline⟩ := minus_zero_shown_iff hfinite 2 hlinear
  obtain ⟨-, -, htext', -, hline'⟩ := minus_zero_shown_iff hfinite 2 hquadratic
  rw [hl] at htext
  rw [hq] at htext' hline'
  have hx := hrounds (x := .ofRat (-1 / 1000)) (by decide +kernel)
  have hx' := hrounds (x := .ofRat (-1 / 250)) (by decide +kernel)
  refine ⟨⟨linear, hlinear, htext.2 ⟨_, List.mem_singleton.2 rfl, hx⟩, fun h => nomatch (hline.1 h).1⟩,
    ⟨quadratic, hquadratic, htext'.2 ⟨_, ?_, hx'⟩, hline'.2 ⟨rfl, _, ?_, hx'⟩⟩,
    hplain (by decide +kernel)⟩
  all_goals simp [Solution.values]

theorem rounded_minus_zero :
    (Binary64.ofRat (-1 / 1000)).isFinite = true ∧
      (Binary64.ofRat (-1 / 1000)).fixed 2 = "-0.00".toList ∧
      (solveEquation "1000x = -1".toList .linear {}).map Report.solutionText =
        .ok "x = -0.00".toList ∧
      (solveEquation "x² - 0.001 = 0".toList .quadratic {}).map
        (fun report => report.table.any fun entry => entry.y == "-0.00".toList) = .ok true := by
  decide +kernel

end SchoolAlgebra
