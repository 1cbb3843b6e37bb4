import SchoolAlgebra.Proofs.Agreement
import SchoolAlgebra.Proofs.Outcome
import SchoolAlgebra.Proofs.ReadBack
import SchoolAlgebra.Derivation
set_option autoImplicit false

namespace SchoolAlgebra

def Sign.between : Sign → Text
  | plus => ['+']
  | minus => ['-']

theorem Sign.between_mem (s : Sign) : s.between ∈ Grammar.sign := by
  cases s
  · exact .inl rfl
  · exact .inr rfl

@[simp] theorem writtenSign_between (s : Sign) : writtenSign s.between = s := by
  cases s <;> rfl

namespace Binary64

theorem exists_finite {x : Binary64} (h : x.isFinite = true) : ∃ s m, x = finite s m := by
  cases x with
  | nan => cases h
  | infinity s => cases h
  | finite s m => exact ⟨s, m, rfl⟩

theorem mark_mem (s : Sign) (m : Magnitude) : mark s m ∈ Grammar.optional Grammar.sign := by
  unfold mark
  split_ifs
  · exact .inl rfl
  · cases s
    · exact .inl rfl
    · exact .inr (.inr rfl)

@[simp] theorem mark_plus (m : Magnitude) : mark .plus m = [] := by
  unfold mark
  split_ifs <;> rfl

theorem agrees_mark (s : Sign) (m : Magnitude) :
    Agrees (finite (writtenSign (mark s m)) m) (finite s m) := by
  by_cases h : m.isZero = true
  · exact .of_isZero h h
  · rw [mark, if_neg h]
    cases s <;> exact .refl _

theorem isNegative_finite (s : Sign) (m : Magnitude) :
    (finite s m).isNegative = true ↔ s = .minus ∧ m.isZero = false := by
  have hm := m.value_nonneg
  have hz : m.isZero = false ↔ 0 < m.value := by
    rw [hm.lt_iff_ne', Bool.eq_false_iff, ne_eq, ne_eq, Magnitude.isZero_iff,
      Magnitude.value_eq_zero_iff]
  rw [hz]
  cases s with
  | plus => simp [isNegative, lt, zero, le, hm]
  | minus => simp [isNegative, lt, zero, le, hm]

theorem abs_sameNumber_one (s : Sign) (m : Magnitude) :
    (finite s m).abs.sameNumber 1 = true ↔ m = .one := by
  rw [sameNumber_iff, one_eq, abs, agrees_finite_iff]
  simp [Magnitude.value_injective.eq_iff]

end Binary64

namespace Polynomial

theorem textAsTyped_pair (a b : Binary64) :
    textAsTyped [a, b] = leadingTerm (a, 1) ++ if b.isZero then [] else furtherTerm (b, 0) := by
  cases h : b.isZero <;> simp [textAsTyped, terms, nonzero, joined, h]

theorem textAsTyped_triple (a b c : Binary64) :
    textAsTyped [a, b, c] = leadingTerm (a, 2) ++ (if b.isZero then [] else furtherTerm (b, 1)) ++
      if c.isZero then [] else furtherTerm (c, 0) := by
  cases h : b.isZero <;> cases h' : c.isZero <;>
    simp [textAsTyped, terms, nonzero, joined, h, h']

theorem body_power (s : Sign) (m : Magnitude) {k : Nat} (hk : 0 < k) :
    body (.finite s m) k = m.coefficientText ++ power k := by
  unfold body Magnitude.coefficientText
  by_cases h : m = .one
  · rw [if_pos ⟨hk, (Binary64.abs_sameNumber_one s m).2 h⟩, if_pos h, List.nil_append]
  · rw [if_neg fun h' => h ((Binary64.abs_sameNumber_one s m).1 h'.2), if_neg h]
    simp [Binary64.abs, Binary64.plain, Binary64.mark, Sign.mark]

theorem body_constant (s : Sign) (m : Magnitude) : body (.finite s m) 0 = m.plain := by
  simp [body, power, Binary64.abs, Binary64.plain, Binary64.mark, Sign.mark]

theorem leadingTerm_finite (s : Sign) (m : Magnitude) {k : Nat} (hk : 0 < k) :
    leadingTerm (.finite s m, k) = Binary64.mark s m ++ m.coefficientText ++ power k := by
  have hmark : (if (Binary64.finite s m).isNegative then ['-'] else []) = Binary64.mark s m := by
    simp only [Binary64.isNegative_finite]
    cases s <;> cases hz : m.isZero <;> simp [Binary64.mark, Sign.mark, hz]
  rw [leadingTerm, hmark, body_power s m hk, List.append_assoc]

theorem withoutBlanks_furtherTerm (s : Sign) {m : Magnitude} (hm : m.isZero = false) (k : Nat) :
    Text.withoutBlanks (furtherTerm (.finite s m, k)) =
      s.between ++ Text.withoutBlanks (body (.finite s m) k) := by
  simp only [furtherTerm, Binary64.isNegative_finite, hm, Text.withoutBlanks_append]
  cases s <;> rfl

end Polynomial

theorem Magnitude.withoutBlanks_plain (m : Magnitude) : m.plain.withoutBlanks = m.plain :=
  (Grammar.writable_pointedDigits _ (Grammar.pointedDigits_of_numeral m.plain_mem)).withoutBlanks

theorem Magnitude.withoutBlanks_coefficientText (m : Magnitude) :
    m.coefficientText.withoutBlanks = m.coefficientText :=
  (Grammar.writable_pointedDigits _ m.coefficientText_mem).withoutBlanks

theorem Binary64.withoutBlanks_mark (s : Sign) (m : Magnitude) :
    (mark s m).withoutBlanks = mark s m :=
  (Grammar.writable_optional Grammar.writable_sign _ (mark_mem s m)).withoutBlanks

def leadPart (s : Sign) (m : Magnitude) : Text := Binary64.mark s m ++ m.coefficientText

/-- A constant behind another term, left out where it is zero. -/
def constantPart (s : Sign) (m : Magnitude) : Option Text :=
  if m.isZero then none else some (s.between ++ m.plain)

def linearPart (s : Sign) (m : Magnitude) : Option (Text × Text) :=
  if m.isZero then none else some (s.between ++ m.coefficientText, ['x'])

def rightPart (s : Sign) (m : Magnitude) : Text := Binary64.mark s m ++ m.plain

section

variable (s : Sign) (m : Magnitude)

theorem leadPart_mem : leadPart s m ∈ Grammar.leading :=
  Language.append_mem_mul (Binary64.mark_mem s m) m.coefficientText_mem

theorem rightPart_mem : rightPart s m ∈ Grammar.signedNumeral :=
  Language.append_mem_mul (Binary64.mark_mem s m) m.plain_mem

theorem constantPart_mem : ∀ t ∈ constantPart s m, t ∈ Grammar.constant := by
  intro t ht
  unfold constantPart at ht
  split_ifs at ht
  · cases ht
  · obtain rfl := Option.some.inj ht
    exact Language.append_mem_mul s.between_mem m.plain_mem

theorem linearPart_mem :
    ∀ t ∈ linearPart s m, t.1 ∈ Grammar.furtherCoefficient ∧ t.2 ∈ Grammar.unknown := by
  intro t ht
  unfold linearPart at ht
  split_ifs at ht
  · cases ht
  · obtain rfl := Option.some.inj ht
    exact ⟨Language.append_mem_mul s.between_mem m.coefficientText_mem, .inl rfl⟩

theorem withoutBlanks_leadingTerm {k : Nat} (hk : 0 < k) :
    Text.withoutBlanks (Polynomial.leadingTerm (.finite s m, k)) =
      leadPart s m ++ (Polynomial.power k).withoutBlanks := by
  rw [Polynomial.leadingTerm_finite s m hk, Text.withoutBlanks_append, Text.withoutBlanks_append,
    Binary64.withoutBlanks_mark, m.withoutBlanks_coefficientText, leadPart]

theorem withoutBlanks_constant :
    Text.withoutBlanks
        (if (Binary64.finite s m).isZero then [] else Polynomial.furtherTerm (.finite s m, 0)) =
      constantText (constantPart s m) := by
  cases hz : m.isZero with
  | true => simp [constantPart, constantText, Binary64.isZero, hz, Text.withoutBlanks]
  | false =>
    simp only [Binary64.isZero, hz, constantPart]
    rw [if_neg (by decide), if_neg (by decide), Polynomial.withoutBlanks_furtherTerm s hz,
      Polynomial.body_constant, m.withoutBlanks_plain]
    rfl

theorem withoutBlanks_linear :
    Text.withoutBlanks
        (if (Binary64.finite s m).isZero then [] else Polynomial.furtherTerm (.finite s m, 1)) =
      QuadraticParts.linearText (linearPart s m) := by
  cases hz : m.isZero with
  | true => simp [linearPart, QuadraticParts.linearText, Binary64.isZero, hz, Text.withoutBlanks]
  | false =>
    simp only [Binary64.isZero, hz, linearPart]
    rw [if_neg (by decide), if_neg (by decide), Polynomial.withoutBlanks_furtherTerm s hz,
      Polynomial.body_power s m (by decide), Text.withoutBlanks_append,
      m.withoutBlanks_coefficientText, ← List.append_assoc]
    rfl

theorem withoutBlanks_right : (Binary64.finite s m).plain.withoutBlanks = rightPart s m := by
  rw [Binary64.plain, Text.withoutBlanks_append, Binary64.withoutBlanks_mark, m.withoutBlanks_plain,
    rightPart]

theorem agrees_leadPart : (coefficientNumber (leadPart s m)).Agrees (.finite s m) := by
  rw [leadPart, m.coefficientNumber_text (Binary64.mark_mem s m)]
  exact Binary64.agrees_mark s m

theorem agrees_rightPart : (number (rightPart s m)).Agrees (.finite s m) := by
  rw [rightPart, m.number_plain (Binary64.mark_mem s m)]
  exact Binary64.agrees_mark s m

theorem agrees_constantPart : (constantNumber (constantPart s m)).Agrees (.finite s m) := by
  cases hz : m.isZero with
  | true =>
    rw [constantPart, if_pos hz]
    exact .of_isZero (by rw [constantNumber, Option.elim_none, Binary64.zero_eq]; rfl) hz
  | false =>
    rw [constantPart, if_neg (by simp [hz]), constantNumber, Option.elim_some,
      m.number_plain (.inr s.between_mem), writtenSign_between]
    exact .refl _

theorem agrees_linearPart :
    ((linearPart s m).elim 0 fun t => coefficientNumber t.1).Agrees (.finite s m) := by
  cases hz : m.isZero with
  | true =>
    rw [linearPart, if_pos hz]
    exact .of_isZero (by rw [Option.elim_none, Binary64.zero_eq]; rfl) hz
  | false =>
    rw [linearPart, if_neg (by simp [hz]), Option.elim_some,
      m.coefficientNumber_text (.inr s.between_mem), writtenSign_between]
    exact .refl _

theorem readable_constantPart : ∀ t ∈ (constantPart s m).toList, ¬Unreadable t := by
  intro t ht
  unfold constantPart at ht
  split_ifs at ht
  · cases ht
  · rw [List.mem_singleton.1 ht]
    exact m.readable_plain (.inr s.between_mem)

theorem readable_linearPart :
    ∀ t ∈ (linearPart s m).elim [] fun u => written u.1, ¬Unreadable t := by
  intro t ht
  unfold linearPart at ht
  split_ifs at ht
  · cases ht
  · exact m.readable_coefficientText (.inr s.between_mem) t ht

end

section

variable (sa sb sc sd : Sign) (ma mb mc md : Magnitude)

def restatedLinear : TypedEquation .linear where
  left := .linear {
    lead := leadPart sa ma
    unknown := ['x']
    constant := constantPart sb mb
    lead_mem := leadPart_mem sa ma
    unknown_mem := .inl rfl
    constant_mem := constantPart_mem sb mb }
  right := rightPart sc mc
  right_mem := rightPart_mem sc mc

def restatedQuadratic : TypedEquation .quadratic where
  left := .quadratic {
    lead := leadPart sa ma
    square := ['x', '²']
    linear := linearPart sb mb
    constant := constantPart sc mc
    lead_mem := leadPart_mem sa ma
    square_mem := ⟨['x'], .inl rfl, ['²'], .inl rfl, rfl⟩
    linear_mem := linearPart_mem sb mb
    constant_mem := constantPart_mem sc mc }
  right := rightPart sd md
  right_mem := rightPart_mem sd md

theorem text_restatedLinear :
    (restatedLinear sa sb sc ma mb mc).text =
      Text.withoutBlanks (Step.equationText [.finite sa ma, .finite sb mb] (.finite sc mc)) := by
  have hx : (Polynomial.power 1).withoutBlanks = ['x'] := by decide
  have heq : Text.withoutBlanks " = ".toList = ['='] := by decide
  rw [Step.equationText, Polynomial.textAsTyped_pair]
  simp only [Text.withoutBlanks_append]
  rw [withoutBlanks_leadingTerm sa ma (by decide), withoutBlanks_constant, withoutBlanks_right, hx,
    heq]
  simp [TypedEquation.text, restatedLinear, SideParts.text, LinearParts.text]

theorem text_restatedQuadratic :
    (restatedQuadratic sa sb sc sd ma mb mc md).text =
      Text.withoutBlanks
        (Step.equationText [.finite sa ma, .finite sb mb, .finite sc mc] (.finite sd md)) := by
  have hx : (Polynomial.power 2).withoutBlanks = ['x', '²'] := by decide
  have heq : Text.withoutBlanks " = ".toList = ['='] := by decide
  rw [Step.equationText, Polynomial.textAsTyped_triple]
  simp only [Text.withoutBlanks_append]
  rw [withoutBlanks_leadingTerm sa ma (by decide), withoutBlanks_linear, withoutBlanks_constant,
    withoutBlanks_right, hx, heq]
  simp [TypedEquation.text, restatedQuadratic, SideParts.text, QuadraticParts.text]

theorem readable_restatedLinear :
    ∀ s ∈ (restatedLinear sa sb sc ma mb mc).numerals, ¬Unreadable s := by
  simp only [TypedEquation.numerals, restatedLinear, SideParts.numerals, List.forall_mem_cons,
    List.forall_mem_append]
  exact ⟨mc.readable_plain (Binary64.mark_mem sc mc),
    ma.readable_coefficientText (Binary64.mark_mem sa ma), readable_constantPart sb mb⟩

theorem readable_restatedQuadratic :
    ∀ s ∈ (restatedQuadratic sa sb sc sd ma mb mc md).numerals, ¬Unreadable s := by
  simp only [TypedEquation.numerals, restatedQuadratic, SideParts.numerals, List.forall_mem_cons,
    List.forall_mem_append]
  exact ⟨md.readable_plain (Binary64.mark_mem sd md), readable_linearPart sb mb,
    ma.readable_coefficientText (Binary64.mark_mem sa ma), readable_constantPart sc mc⟩

end

theorem exists_read_linear {a b c : Binary64} (ha : a.isFinite = true) (hb : b.isFinite = true)
    (hc : c.isFinite = true) :
    ∃ p : Linear, Coefficients.read (Step.equationText [a, b] c) .linear = .ok (.linear p) ∧
      p.Agrees ⟨a, b, c⟩ := by
  obtain ⟨sa, ma, rfl⟩ := Binary64.exists_finite ha
  obtain ⟨sb, mb, rfl⟩ := Binary64.exists_finite hb
  obtain ⟨sc, mc, rfl⟩ := Binary64.exists_finite hc
  refine ⟨_, (restatedLinear sa sb sc ma mb mc).read_eq_ok (text_restatedLinear ..)
    (readable_restatedLinear sa sb sc ma mb mc), ?_⟩
  exact ⟨agrees_leadPart sa ma, agrees_constantPart sb mb, agrees_rightPart sc mc⟩

theorem exists_read_quadratic {a b k d : Binary64} (ha : a.isFinite = true)
    (hb : b.isFinite = true) (hk : k.isFinite = true) (hd : d.isFinite = true) :
    ∃ a' b' k' d' : Binary64, Coefficients.read (Step.equationText [a, b, k] d) .quadratic =
        .ok (.quadratic (.ofSides a' b' k' d')) ∧
      a'.Agrees a ∧ b'.Agrees b ∧ k'.Agrees k ∧ d'.Agrees d := by
  obtain ⟨sa, ma, rfl⟩ := Binary64.exists_finite ha
  obtain ⟨sb, mb, rfl⟩ := Binary64.exists_finite hb
  obtain ⟨sk, mk, rfl⟩ := Binary64.exists_finite hk
  obtain ⟨sd, md, rfl⟩ := Binary64.exists_finite hd
  refine ⟨_, _, _, _, (restatedQuadratic sa sb sk sd ma mb mk md).read_eq_ok
    (text_restatedQuadratic ..) (readable_restatedQuadratic sa sb sk sd ma mb mk md), ?_⟩
  exact ⟨agrees_leadPart sa ma, agrees_linearPart sb mb, agrees_constantPart sk mk,
    agrees_rightPart sd md⟩

theorem isFinite_number {s : Text} (h : ¬Unreadable s) : (number s).isFinite = true :=
  (Binary64.isFinite_round_iff (writtenMagnitude_nonneg s) _).2 (not_le.1 (not_or.1 h).2)

theorem isFinite_coefficientNumber {l : Text} (h : ∀ s ∈ written l, ¬Unreadable s) :
    (coefficientNumber l).isFinite = true := by
  by_cases hb : Bare l
  · rw [coefficientNumber, coefficientMagnitude, if_pos hb, Binary64.round_one]
    rfl
  · rw [coefficientNumber, coefficientMagnitude, if_neg hb]
    exact isFinite_number (h l (by simp [written, hb]))

theorem isFinite_zero : (0 : Binary64).isFinite = true := by
  rw [Binary64.zero_eq]
  rfl

theorem isFinite_constantNumber {k : Option Text} (h : ∀ s ∈ k.toList, ¬Unreadable s) :
    (constantNumber k).isFinite = true := by
  cases k with
  | none => exact isFinite_zero
  | some t => exact isFinite_number (h t (by simp))

/-- Coefficients made of finite numbers, the standard form from both sides. -/
inductive Coefficients.OfFinite : Coefficients → Prop where
  | linear {a b c : Binary64} (ha : a.isFinite = true) (hb : b.isFinite = true)
      (hc : c.isFinite = true) : OfFinite (.linear ⟨a, b, c⟩)
  | quadratic {a b k d : Binary64} (ha : a.isFinite = true) (hb : b.isFinite = true)
      (hk : k.isFinite = true) (hd : d.isFinite = true) : OfFinite (.quadratic (.ofSides a b k d))

theorem TypedEquation.ofFinite_coefficients {degree : Degree} (e : TypedEquation degree)
    (h : ∀ s ∈ e.numerals, ¬Unreadable s) : e.coefficients.OfFinite := by
  obtain ⟨left, right, hr⟩ := e
  cases left with
  | linear p =>
    simp only [numerals, SideParts.numerals, List.forall_mem_cons, List.forall_mem_append] at h
    obtain ⟨hc, ha, hb⟩ := h
    exact .linear (isFinite_coefficientNumber ha) (isFinite_constantNumber hb) (isFinite_number hc)
  | quadratic p =>
    simp only [numerals, SideParts.numerals, List.forall_mem_cons, List.forall_mem_append] at h
    obtain ⟨hd, hb, ha, hk⟩ := h
    refine .quadratic (isFinite_coefficientNumber ha) ?_ (isFinite_constantNumber hk)
      (isFinite_number hd)
    cases hl : p.linear with
    | none => exact isFinite_zero
    | some t =>
      rw [hl] at hb
      exact isFinite_coefficientNumber hb

/-- The same numbers in all fields, whatever the signs of their zeros. -/
def Coefficients.sameNumbers : Coefficients → Coefficients → Bool
  | linear p, linear q => p.a.sameNumber q.a && p.b.sameNumber q.b && p.c.sameNumber q.c
  | quadratic p, quadratic q =>
    p.a.sameNumber q.a && p.b.sameNumber q.b && p.c.sameNumber q.c &&
      p.typedRight.sameNumber q.typedRight && p.typedConstant.sameNumber q.typedConstant
  | _, _ => false

def Coefficients.asTyped : Coefficients → Text
  | linear p => Step.equationText [p.a, p.b] p.c
  | quadratic p => Step.equationText [p.a, p.b, p.typedConstant] p.typedRight

theorem Coefficients.head?_procedure (p : Coefficients) (places : Nat) :
    (p.procedure places).head? = some ("Initial equation: ".toList ++ p.asTyped) := by
  cases p <;> rfl

theorem Coefficients.OfFinite.exists_read {p : Coefficients} (h : p.OfFinite) :
    ∃ q, Coefficients.read p.asTyped p.degree = .ok q ∧ q.sameNumbers p = true := by
  cases h with
  | linear ha hb hc =>
    obtain ⟨q, hq, hag⟩ := exists_read_linear ha hb hc
    refine ⟨_, hq, ?_⟩
    simp only [sameNumbers, Bool.and_eq_true]
    exact ⟨⟨hag.a.sameNumber (Binary64.ne_nan_of_isFinite ha),
      hag.b.sameNumber (Binary64.ne_nan_of_isFinite hb)⟩,
      hag.c.sameNumber (Binary64.ne_nan_of_isFinite hc)⟩
  | quadratic ha hb hk hd =>
    obtain ⟨a', b', k', d', hq, haa, hbb, hkk, hdd⟩ := exists_read_quadratic ha hb hk hd
    refine ⟨_, hq, ?_⟩
    simp only [sameNumbers, Quadratic.ofSides, Bool.and_eq_true]
    exact ⟨⟨⟨⟨haa.sameNumber (Binary64.ne_nan_of_isFinite ha),
      hbb.sameNumber (Binary64.ne_nan_of_isFinite hb)⟩,
      (hkk.sub hdd).sameNumber (Binary64.sub_ne_nan hk hd)⟩,
      hdd.sameNumber (Binary64.ne_nan_of_isFinite hd)⟩,
      hkk.sameNumber (Binary64.ne_nan_of_isFinite hk)⟩

theorem Coefficients.isAccepted_of_read {raw : Text} {degree : Degree} {p : Coefficients}
    (h : Coefficients.read raw degree = .ok p) : Sides.isAccepted raw degree = true := by
  cases hc : Sides.check raw degree with
  | error fault =>
    rw [Coefficients.read, hc] at h
    cases h
  | ok sides => simp [Sides.isAccepted, hc]

/-- Restating an equation and reading it back changes no number: for all finite coefficients of either
degree, and so for the first line of every derivation. -/
theorem restated_equation_reads_back :
    (∀ a b c : Binary64, a.isFinite = true → b.isFinite = true → c.isFinite = true →
      ∃ p, Coefficients.read (Polynomial.textAsTyped [a, b] ++ " = ".toList ++ c.plain) .linear =
          .ok p ∧
        p.sameNumbers (.linear ⟨a, b, c⟩) = true) ∧
    (∀ a b k d : Binary64, a.isFinite = true → b.isFinite = true → k.isFinite = true →
      d.isFinite = true →
      ∃ p, Coefficients.read (Polynomial.textAsTyped [a, b, k] ++ " = ".toList ++ d.plain)
          .quadratic = .ok p ∧
        p.sameNumbers (.quadratic (.ofSides a b k d)) = true) ∧
    (∀ raw degree p places, Coefficients.read raw degree = .ok p →
      ∃ text q, (p.procedure places).head? = some ("Initial equation: ".toList ++ text) ∧
        Sides.isAccepted text degree = true ∧ Coefficients.read text degree = .ok q ∧
        q.sameNumbers p = true) := by
  refine ⟨fun a b c ha hb hc => ?_, fun a b k d ha hb hk hd => ?_, fun raw degree p places h => ?_⟩
  · exact (Coefficients.OfFinite.linear ha hb hc).exists_read
  · exact (Coefficients.OfFinite.quadratic ha hb hk hd).exists_read
  · obtain ⟨e, rfl, hr⟩ := TypedEquation.exists_of_read h
    obtain ⟨q, hq, hs⟩ := (e.ofFinite_coefficients hr).exists_read
    rw [e.degree_coefficients] at hq
    exact ⟨_, q, Coefficients.head?_procedure _ places, Coefficients.isAccepted_of_read hq, hq, hs⟩

theorem two_x_plus_three_reads_back :
    (∃ p, Coefficients.read (Polynomial.textAsTyped [2, 3] ++ " = ".toList ++ (7 : Binary64).plain)
        .linear = .ok p ∧ p.sameNumbers (.linear ⟨2, 3, 7⟩) = true) ∧
    (∃ p, Coefficients.read
        (Polynomial.textAsTyped [-1, 0, 3] ++ " = ".toList ++ (-7 : Binary64).plain) .quadratic =
          .ok p ∧ p.sameNumbers (.quadratic (.ofSides (-1) 0 3 (-7))) = true) ∧
    ∃ text q, ((Coefficients.linear ⟨2, 3, 7⟩).procedure 2).head? =
        some ("Initial equation: ".toList ++ text) ∧
      Sides.isAccepted text .linear = true ∧ Coefficients.read text .linear = .ok q ∧
      q.sameNumbers (.linear ⟨2, 3, 7⟩) = true := by
  obtain ⟨hl, hq, hr⟩ := restated_equation_reads_back
  refine ⟨hl 2 3 7 ?_ ?_ ?_, hq (-1) 0 3 (-7) ?_ ?_ ?_ ?_,
    hr "2x + 3 = 7".toList .linear (.linear ⟨2, 3, 7⟩) 2 ?_⟩ <;> decide +kernel

end SchoolAlgebra
