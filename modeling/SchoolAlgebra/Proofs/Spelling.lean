import Mathlib.Logic.Relation
import SchoolAlgebra.Proofs.Outcome
set_option autoImplicit false

/-!
What the spelling of an equation does not change. Blanks, the case of the unknown and the two ways to write
its square leave the answer of every text as it is, be it a report or a fault, and so does a plus in front
of a side without a sign.
-/

namespace SchoolAlgebra

/-- A blank is put in or taken out, at any place. -/
inductive BlankChange : Text → Text → Prop where
  | insert (s t : Text) {c : Char} (hc : isBlank c = true) : BlankChange (s ++ t) (s ++ c :: t)
  | delete (s t : Text) {c : Char} (hc : isBlank c = true) : BlankChange (s ++ c :: t) (s ++ t)

def IsSquareMark (p : Text) : Prop := p = ['²'] ∨ p = ['^', '2']

/-- One change of blanks, of the case of one unknown, or of one mark of a square. The marks are those
of the text without its blanks. -/
inductive SpellingChange : Text → Text → Prop where
  | blank {raw raw' : Text} (h : BlankChange raw raw') : SpellingChange raw raw'
  | unknown (s t : Text) {c d : Char} (hc : Text.isUnknown c = true) (hd : Text.isUnknown d = true) :
      SpellingChange (s ++ c :: t) (s ++ d :: t)
  | square {raw raw' s t p q : Text} (hp : IsSquareMark p) (hq : IsSquareMark q)
      (h : raw.withoutBlanks = s ++ p ++ t) (h' : raw'.withoutBlanks = s ++ q ++ t) :
      SpellingChange raw raw'

theorem BlankChange.withoutBlanks_eq {raw raw' : Text} (h : BlankChange raw raw') :
    raw.withoutBlanks = raw'.withoutBlanks := by
  cases h with
  | insert s t hc => simp [Text.withoutBlanks, hc]
  | delete s t hc => simp [Text.withoutBlanks, hc]

/-- Two texts without blanks that are spelled alike, mark by mark. -/
inductive Respelled : Text → Text → Prop where
  | nil : Respelled [] []
  | same {s t : Text} (c : Char) (h : Respelled s t) : Respelled (c :: s) (c :: t)
  | unknown {s t : Text} {c d : Char} (hc : Text.isUnknown c = true) (hd : Text.isUnknown d = true)
      (h : Respelled s t) : Respelled (c :: s) (d :: t)
  | square {s t p q : Text} (hp : IsSquareMark p) (hq : IsSquareMark q) (h : Respelled s t) :
      Respelled (p ++ s) (q ++ t)

namespace Respelled

variable {s t u v : Text}

theorem refl (s : Text) : Respelled s s := by
  induction s with
  | nil => exact .nil
  | cons c s ih => exact .same c ih

theorem symm (h : Respelled s t) : Respelled t s := by
  induction h with
  | nil => exact .nil
  | same c h ih => exact .same c ih
  | unknown hc hd h ih => exact .unknown hd hc ih
  | square hp hq h ih => exact .square hq hp ih

theorem append (s : Text) (h : Respelled t u) : Respelled (s ++ t) (s ++ u) := by
  induction s with
  | nil => exact h
  | cons c s ih => exact .same c ih

end Respelled

theorem isBlank_of_isUnknown {c : Char} (h : Text.isUnknown c = true) : isBlank c = false := by
  rcases Grammar.isUnknown_iff.1 h with rfl | rfl <;> decide

theorem SpellingChange.respelled {raw raw' : Text} (h : SpellingChange raw raw') :
    Respelled raw.withoutBlanks raw'.withoutBlanks := by
  cases h with
  | blank h =>
    rw [h.withoutBlanks_eq]
    exact .refl _
  | unknown s t hc hd =>
    simp only [Text.withoutBlanks_append]
    refine .append _ ?_
    simp only [Text.withoutBlanks, List.filter_cons, isBlank_of_isUnknown hc,
      isBlank_of_isUnknown hd]
    exact .unknown hc hd (.refl _)
  | square hp hq h h' =>
    rw [h, h', List.append_assoc, List.append_assoc]
    exact .append _ (.square hp hq (.refl _))

namespace Respelled

variable {s t : Text}

theorem count_separator (h : Respelled s t) : s.count '=' = t.count '=' := by
  have hunknown : ∀ c, Text.isUnknown c = true → c ≠ '=' := by
    intro c hc
    rcases Grammar.isUnknown_iff.1 hc with rfl | rfl <;> decide
  have hmark : ∀ p, IsSquareMark p → p.count '=' = 0 := by
    intro p hp
    rcases hp with rfl | rfl <;> decide
  induction h with
  | nil => rfl
  | same c h ih => simp only [List.count_cons, ih]
  | unknown hc hd h ih =>
    rw [List.count_cons_of_ne (hunknown _ hc), List.count_cons_of_ne (hunknown _ hd), ih]
  | square hp hq h ih => rw [List.count_append, List.count_append, hmark _ hp, hmark _ hq, ih]

def Plain (c : Char) : Prop := Text.isUnknown c = false ∧ c ≠ '²' ∧ c ≠ '^'

theorem of_nil (h : Respelled [] t) : t = [] := by
  -- The text is generalized, for the cases of a relation need a variable there.
  generalize hx : ([] : Text) = x at h
  cases h with
  | nil => rfl
  | same c h => cases hx
  | unknown hc hd h => cases hx
  | square hp hq h => rcases hp with rfl | rfl <;> cases hx

theorem of_plain {c : Char} (hc : Plain c) (h : Respelled (c :: s) t) :
    ∃ u, t = c :: u ∧ Respelled s u := by
  obtain ⟨h1, h2, h3⟩ := hc
  generalize hx : c :: s = x at h
  cases h with
  | nil => cases hx
  | same d h =>
    cases hx
    exact ⟨_, rfl, h⟩
  | unknown hd he h =>
    cases hx
    rw [h1] at hd
    cases hd
  | square hp hq h =>
    rcases hp with rfl | rfl
    · exact absurd (List.cons.inj hx).1 h2
    · exact absurd (List.cons.inj hx).1 h3

theorem of_plain_append {l : Text} (hl : ∀ c ∈ l, Plain c) (h : Respelled (l ++ s) t) :
    ∃ u, t = l ++ u ∧ Respelled s u := by
  induction l generalizing t with
  | nil => exact ⟨t, rfl, h⟩
  | cons c l ih =>
    obtain ⟨u, rfl, hu⟩ := of_plain (hl c (by simp)) h
    obtain ⟨v, rfl, hv⟩ := ih (fun d hd => hl d (List.mem_cons_of_mem _ hd)) hu
    exact ⟨v, rfl, hv⟩

theorem of_unknown {v : Text} (hv : v ∈ Grammar.unknown) (h : Respelled (v ++ s) t) :
    ∃ w ∈ Grammar.unknown, ∃ u, t = w ++ u ∧ Respelled s u := by
  obtain ⟨c, hc, rfl⟩ := Grammar.mem_unknown.1 hv
  generalize hx : [c] ++ s = x at h
  cases h with
  | nil => cases hx
  | same d h =>
    cases hx
    exact ⟨[c], hv, _, rfl, h⟩
  | @unknown _ _ _ d hd he h =>
    cases hx
    exact ⟨[d], Grammar.mem_unknown.2 ⟨d, he, rfl⟩, _, rfl, h⟩
  | square hp hq h =>
    rcases hp with rfl | rfl
    · cases hx
      exact absurd hc (by decide)
    · cases hx
      exact absurd hc (by decide)

theorem of_squareMark {p : Text} (hp : IsSquareMark p) (h : Respelled (p ++ s) t) :
    ∃ q, IsSquareMark q ∧ ∃ u, t = q ++ u ∧ Respelled s u := by
  generalize hx : p ++ s = x at h
  cases h with
  | nil => rcases hp with rfl | rfl <;> cases hx
  | same d h =>
    rcases hp with rfl | rfl
    · cases hx
      exact ⟨['²'], .inl rfl, _, rfl, h⟩
    · cases hx
      obtain ⟨u, rfl, hu⟩ := of_plain (by simp [Plain, Text.isUnknown]) h
      exact ⟨['^', '2'], .inr rfl, u, rfl, hu⟩
  | unknown hc hd h =>
    rcases hp with rfl | rfl
    · cases hx
      exact absurd hc (by decide)
    · cases hx
      exact absurd hc (by decide)
  | @square _ _ p' q hp' hq h =>
    refine ⟨q, hq, _, rfl, ?_⟩
    rcases hp with rfl | rfl <;> rcases hp' with rfl | rfl <;> cases hx <;> exact h

theorem of_square {v : Text} (hv : v ∈ Grammar.square) (h : Respelled (v ++ s) t) :
    ∃ w ∈ Grammar.square, ∃ u, t = w ++ u ∧ Respelled s u := by
  obtain ⟨a, ha, p, hp, rfl⟩ := Language.mem_mul.1 hv
  rw [List.append_assoc] at h
  obtain ⟨b, hb, t₁, rfl, h₁⟩ := of_unknown ha h
  obtain ⟨q, hq, u, rfl, hu⟩ := of_squareMark hp h₁
  exact ⟨b ++ q, Language.append_mem_mul hb hq, u, by rw [List.append_assoc], hu⟩

end Respelled

namespace Grammar

theorem plain_of_isDigit {c : Char} (h : c.isDigit = true) : Respelled.Plain c := by
  refine ⟨Bool.eq_false_iff.2 fun hu => ?_, ?_, ?_⟩
  · rcases isUnknown_iff.1 hu with rfl | rfl <;> exact absurd h (by decide)
  · rintro rfl
    exact absurd h (by decide)
  · rintro rfl
    exact absurd h (by decide)

theorem plain_leading {l : Text} (hl : l ∈ leading) : ∀ c ∈ l, Respelled.Plain c := by
  have hplain : ∀ c ∈ ['+', '-', '.'], Respelled.Plain c := by
    simp [Respelled.Plain, Text.isUnknown]
  obtain ⟨m, hm, n, hn, rfl⟩ := Language.mem_mul.1 hl
  intro c hc
  rcases List.mem_append.1 hc with hc | hc
  · rcases hm with rfl | rfl | rfl
    · cases hc
    · exact hplain c (by simp_all)
    · exact hplain c (by simp_all)
  · obtain ⟨w, hw, rfl | ⟨f, hf, rfl⟩⟩ := mem_pointedDigits.1 hn
    · exact plain_of_isDigit (hw c hc)
    · rcases List.mem_append.1 hc with hc | hc
      · exact plain_of_isDigit (hw c hc)
      · rcases List.mem_cons.1 hc with rfl | hc
        · exact hplain _ (by simp)
        · exact plain_of_isDigit (hf c hc)

end Grammar

theorem plain_constantText {k : Option Text} (hk : ∀ t ∈ k, t ∈ Grammar.constant) :
    ∀ c ∈ constantText k, Respelled.Plain c := by
  cases k with
  | none => simp [constantText]
  | some t => exact Grammar.plain_leading (leading_of_constant (hk t rfl))

theorem LinearParts.exists_respelled (p : LinearParts) {s t : Text}
    (h : Respelled (p.text ++ s) t) :
    ∃ q : LinearParts, ∃ u, t = q.text ++ u ∧ q.lead = p.lead ∧ q.constant = p.constant ∧
      Respelled s u := by
  simp only [text, List.append_assoc] at h
  obtain ⟨t₁, rfl, h₁⟩ := h.of_plain_append (Grammar.plain_leading p.lead_mem)
  obtain ⟨v, hv, t₂, rfl, h₂⟩ := h₁.of_unknown p.unknown_mem
  obtain ⟨u, rfl, hu⟩ := h₂.of_plain_append (plain_constantText p.constant_mem)
  exact ⟨{ p with unknown := v, unknown_mem := hv }, u, by simp [text], rfl, rfl, hu⟩

theorem QuadraticParts.exists_respelled_linear {l : Option (Text × Text)}
    (hl : ∀ u ∈ l, u.1 ∈ Grammar.furtherCoefficient ∧ u.2 ∈ Grammar.unknown) {s t : Text}
    (h : Respelled (linearText l ++ s) t) :
    ∃ k : Option (Text × Text), ∃ u, t = linearText k ++ u ∧ k.map Prod.fst = l.map Prod.fst ∧
      (∀ u ∈ k, u.1 ∈ Grammar.furtherCoefficient ∧ u.2 ∈ Grammar.unknown) ∧ Respelled s u := by
  cases l with
  | none => exact ⟨none, t, rfl, rfl, by simp, h⟩
  | some a =>
    obtain ⟨hc, hu⟩ := hl a rfl
    simp only [linearText, Option.elim_some, List.append_assoc] at h
    obtain ⟨t₁, rfl, h₁⟩ :=
      h.of_plain_append (Grammar.plain_leading (leading_of_furtherCoefficient hc))
    obtain ⟨v, hv, u, rfl, hs⟩ := h₁.of_unknown hu
    exact ⟨some (a.1, v), u, by simp [linearText], rfl, by simpa using ⟨hc, hv⟩, hs⟩

theorem QuadraticParts.exists_respelled (p : QuadraticParts) {s t : Text}
    (h : Respelled (p.text ++ s) t) :
    ∃ q : QuadraticParts, ∃ u, t = q.text ++ u ∧ q.lead = p.lead ∧
      q.linear.map Prod.fst = p.linear.map Prod.fst ∧ q.constant = p.constant ∧ Respelled s u := by
  simp only [text, List.append_assoc] at h
  obtain ⟨t₁, rfl, h₁⟩ := h.of_plain_append (Grammar.plain_leading p.lead_mem)
  obtain ⟨v, hv, t₂, rfl, h₂⟩ := h₁.of_square p.square_mem
  obtain ⟨k, t₃, rfl, hk, hkm, h₃⟩ := exists_respelled_linear p.linear_mem h₂
  obtain ⟨u, rfl, hu⟩ := h₃.of_plain_append (plain_constantText p.constant_mem)
  exact ⟨{ p with square := v, square_mem := hv, linear := k, linear_mem := hkm }, u,
    by simp [text], rfl, hk, rfl, hu⟩

/-- Its numerals are the same in the same order, and so are its coefficients. -/
def TypedEquation.SameNumbers {degree : Degree} (e f : TypedEquation degree) : Prop :=
  e.numerals = f.numerals ∧ e.coefficients = f.coefficients

theorem SideParts.exists_respelled {degree : Degree} (p : SideParts degree) {s t : Text}
    (h : Respelled (p.text ++ s) t) :
    ∃ q : SideParts degree, ∃ u, t = q.text ++ u ∧ q.numerals = p.numerals ∧
      (∀ right, q.coefficients right = p.coefficients right) ∧ Respelled s u := by
  cases p with
  | linear p =>
    obtain ⟨q, u, rfl, hlead, hconstant, hu⟩ := p.exists_respelled h
    refine ⟨.linear q, u, rfl, ?_, fun right => ?_, hu⟩
    · simp only [numerals, hlead, hconstant]
    · simp only [coefficients, hlead, hconstant]
  | quadratic p =>
    obtain ⟨q, u, rfl, hlead, hlinear, hconstant, hu⟩ := p.exists_respelled h
    have helim : ∀ {α : Type} (a : α) (f : Text → α),
        (q.linear.elim a fun t => f t.1) = p.linear.elim a fun t => f t.1 := by
      intro α a f
      have h := congrArg (fun o => o.elim a f) hlinear
      simpa only [Option.elim_map, Function.comp_def] using h
    refine ⟨.quadratic q, u, rfl, ?_, fun right => ?_, hu⟩
    · simp only [numerals, hlead, hconstant, helim [] written]
    · simp only [coefficients, hlead, hconstant, helim 0 coefficientNumber]

theorem TypedEquation.exists_respelled {degree : Degree} (e : TypedEquation degree) {t : Text}
    (h : Respelled e.text t) : ∃ f : TypedEquation degree, f.text = t ∧ f.SameNumbers e := by
  obtain ⟨q, u, rfl, hn, hc, hu⟩ := e.left.exists_respelled h
  obtain ⟨u₁, rfl, h₁⟩ := hu.of_plain (by simp [Respelled.Plain, Text.isUnknown])
  rw [← List.append_nil e.right] at h₁
  obtain ⟨u₂, rfl, h₂⟩ :=
    h₁.of_plain_append (Grammar.plain_leading (leading_of_signedNumeral e.right_mem))
  obtain rfl := h₂.of_nil
  refine ⟨⟨q, e.right, e.right_mem⟩, by simp [text], ?_, ?_⟩
  · simp only [numerals, hn]
  · simp only [coefficients, hc]

/-- A report without the sides as they were typed. -/
structure Answer where
  degree : Degree
  coefficients : Coefficients
  solution : Solution
  table : List TableEntry
  procedure : List Text
  decimals : UInt64
  deriving DecidableEq, Repr

def Report.answer (r : Report) : Answer :=
  ⟨r.degree, r.coefficients, r.solution, r.table, r.procedure, r.decimals⟩

section

variable {degree : Degree} {raw raw' : Text} (o : Options)

theorem TypedEquation.SameNumbers.ofSides_eq {e f : TypedEquation degree} (h : e.SameNumbers f) :
    Coefficients.ofSides degree e.sides = Coefficients.ofSides degree f.sides := by
  have he := e.reads_ofSides
  have hf := f.reads_ofSides
  rw [Reads] at he hf
  rw [he, hf, h.1, h.2]

theorem TypedEquation.answer_eq (e : TypedEquation degree) (h : e.text = raw.withoutBlanks) :
    (solveEquation raw degree o).map Report.answer =
      Coefficients.ofSides degree e.sides >>= fun p => p.solve.map fun solution =>
        ⟨degree, p, solution, p.table o, p.procedure o.decimals.toNat, o.decimals⟩ := by
  cases hp : Coefficients.ofSides degree e.sides with
  | error fault =>
    rw [solveEquation_of_ofSides_error o (e.check_eq_ok h) hp]
    rfl
  | ok p =>
    rw [solveEquation_of_coefficients o (e.check_eq_ok h) hp]
    simp only [bind, Except.bind]
    cases p.solve <;> rfl

theorem Sides.check_of_untyped (h : ∀ e : TypedEquation degree, e.text ≠ raw.withoutBlanks) :
    check raw degree =
      .error (if raw.count '=' = 1 then .form degree else .separators (raw.count '=')) := by
  split_ifs with hc
  · cases hr : read raw with
    | error fault => exact absurd hc (read_eq_error_iff.1 hr).1
    | ok sides =>
      have hs := read_eq_ok_iff.1 hr
      refine check_eq_error_of_form hs fun hf => ?_
      obtain ⟨e, he, -⟩ := TypedEquation.exists_of_check (check_eq_ok_iff.2 ⟨hs, hf⟩)
      exact h e he
  · exact check_eq_error_of_count hc

/-- An equation is found again in each of its spellings, and where there is none there is none in
another spelling. -/
theorem answer_of_respelled (h : Respelled raw.withoutBlanks raw'.withoutBlanks) :
    (solveEquation raw degree o).map Report.answer =
      (solveEquation raw' degree o).map Report.answer := by
  by_cases ht : ∃ e : TypedEquation degree, e.text = raw.withoutBlanks
  · obtain ⟨e, he⟩ := ht
    obtain ⟨f, hf, hn⟩ := e.exists_respelled (he ▸ h)
    rw [e.answer_eq o he, f.answer_eq o hf, hn.ofSides_eq]
  · have hraw : ∀ e : TypedEquation degree, e.text ≠ raw.withoutBlanks := fun e he => ht ⟨e, he⟩
    have hraw' : ∀ e : TypedEquation degree, e.text ≠ raw'.withoutBlanks := by
      intro e he
      obtain ⟨f, hf, -⟩ := e.exists_respelled (he ▸ h.symm)
      exact hraw f hf
    have hcount : raw.count '=' = raw'.count '=' := by
      rw [← Sides.count_withoutBlanks raw, h.count_separator, Sides.count_withoutBlanks]
    rw [solveEquation_of_check_error o (Sides.check_of_untyped hraw),
      solveEquation_of_check_error o (Sides.check_of_untyped hraw'), hcount]

theorem answer_of_changes (h : Relation.ReflTransGen SpellingChange raw raw') :
    (solveEquation raw degree o).map Report.answer =
      (solveEquation raw' degree o).map Report.answer := by
  induction h with
  | refl => rfl
  | tail _ hstep ih => rw [ih, answer_of_respelled o hstep.respelled]

theorem withoutBlanks_of_changes (h : Relation.ReflTransGen BlankChange raw raw') :
    raw.withoutBlanks = raw'.withoutBlanks := by
  induction h with
  | refl => rfl
  | tail _ hstep ih => rw [ih, hstep.withoutBlanks_eq]

theorem solveEquation_of_withoutBlanks_eq (h : raw.withoutBlanks = raw'.withoutBlanks) :
    solveEquation raw degree o = solveEquation raw' degree o := by
  simp only [solveEquation, Sides.check, Sides.read, h]

end

def Signless (s : Text) : Prop := ∀ c ∈ s.head?, Text.isSign c = false

instance (s : Text) : Decidable (Signless s) :=
  decidable_of_iff ((s.head?.all fun c => !Text.isSign c) = true) (by cases s <;> simp [Signless])

namespace Signless

variable {s t : Text}

theorem of_append (h : Signless (s ++ t)) : Signless s := by
  intro c hc
  cases s with
  | nil => cases hc
  | cons d s => exact h c hc

theorem writtenSign_eq (h : Signless s) : writtenSign ('+' :: s) = writtenSign s := by
  cases s with
  | nil => rfl
  | cons c s =>
    have hc := h c rfl
    have hne : c ≠ '-' := by
      rintro rfl
      cases hc
    unfold writtenSign
    split
    · rename_i heq
      cases heq
    · split
      · rename_i heq
        exact absurd (List.cons.inj heq).1 hne
      · rfl

theorem writtenMagnitude_eq (h : Signless s) : writtenMagnitude ('+' :: s) = writtenMagnitude s := by
  have hplus : Text.sign ('+' :: s) = (['+'], s) := rfl
  simp only [writtenMagnitude, hplus, Grammar.sign_of_head h]

theorem hasDigit_iff (s : Text) : HasDigit ('+' :: s) ↔ HasDigit s := by
  simp [HasDigit]

theorem unreadable_iff (h : Signless s) : Unreadable ('+' :: s) ↔ Unreadable s := by
  rw [Unreadable, Unreadable, hasDigit_iff, h.writtenMagnitude_eq]

theorem number_eq (h : Signless s) : number ('+' :: s) = number s := by
  rw [number, number, h.writtenSign_eq, h.writtenMagnitude_eq]

theorem bare_iff (h : Signless s) : Bare ('+' :: s) ↔ Bare s := by
  have hs : Bare s ↔ s = [] := by
    refine ⟨fun hb => ?_, .inl⟩
    rcases hb with rfl | rfl | rfl
    · rfl
    · exact absurd (h '+' rfl) (by decide)
    · exact absurd (h '-' rfl) (by decide)
  have hplus : Bare ('+' :: s) ↔ s = [] := by
    refine ⟨fun hb => ?_, fun hn => .inr (.inl (by rw [hn]))⟩
    rcases hb with hb | hb | hb <;> cases hb
    rfl
  rw [hs, hplus]

theorem coefficientNumber_eq (h : Signless s) : coefficientNumber ('+' :: s) = coefficientNumber s := by
  simp only [coefficientNumber, coefficientMagnitude, h.bare_iff, h.writtenSign_eq,
    h.writtenMagnitude_eq]

theorem readable_written (h : Signless s) (hr : ∀ t ∈ written s, ¬Unreadable t) :
    ∀ t ∈ written ('+' :: s), ¬Unreadable t := by
  by_cases hb : Bare s
  · simp [written, h.bare_iff.2 hb]
  · simp only [written, if_neg hb, List.mem_singleton, forall_eq] at hr
    simp only [written, if_neg (mt h.bare_iff.1 hb), List.mem_singleton, forall_eq]
    exact mt h.unreadable_iff.1 hr

theorem plus_mem {l : Language Char} (h : Signless s) (hs : s ∈ Grammar.optional Grammar.sign * l) :
    '+' :: s ∈ Grammar.optional Grammar.sign * l := by
  obtain ⟨m, hm, n, hn, rfl⟩ := Language.mem_mul.1 hs
  have hplus : ['+'] ∈ Grammar.optional Grammar.sign := .inr (.inl rfl)
  rcases hm with rfl | rfl | rfl
  · exact Language.append_mem_mul hplus hn
  · exact absurd (h '+' rfl) (by decide)
  · exact absurd (h '-' rfl) (by decide)

end Signless

theorem SideParts.exists_plus {degree : Degree} (p : SideParts degree) (h : Signless p.text) :
    ∃ q : SideParts degree, q.text = '+' :: p.text ∧
      (∀ right, q.coefficients right = p.coefficients right) ∧
      ((∀ s ∈ p.numerals, ¬Unreadable s) → ∀ s ∈ q.numerals, ¬Unreadable s) := by
  cases p with
  | linear p =>
    have hl : Signless p.lead := by
      simp only [text, LinearParts.text] at h
      exact h.of_append.of_append
    refine ⟨.linear { p with lead := '+' :: p.lead, lead_mem := hl.plus_mem p.lead_mem }, rfl,
      fun right => ?_, fun hr => ?_⟩
    · simp only [coefficients, hl.coefficientNumber_eq]
    · simp only [numerals, List.forall_mem_append] at hr ⊢
      exact ⟨hl.readable_written hr.1, hr.2⟩
  | quadratic p =>
    have hl : Signless p.lead := by
      simp only [text, QuadraticParts.text] at h
      exact h.of_append.of_append.of_append
    refine ⟨.quadratic { p with lead := '+' :: p.lead, lead_mem := hl.plus_mem p.lead_mem }, rfl,
      fun right => ?_, fun hr => ?_⟩
    · simp only [coefficients, hl.coefficientNumber_eq]
    · simp only [numerals, List.forall_mem_append] at hr ⊢
      exact ⟨hr.1, hl.readable_written hr.2.1, hr.2.2⟩

section

variable {degree : Degree} {l r : Text}

theorem Sides.isAccepted_iff {raw : Text} :
    isAccepted raw degree = true ↔ ∃ e : TypedEquation degree, e.text = raw.withoutBlanks := by
  rw [isAccepted]
  constructor
  · intro h
    cases hc : check raw degree with
    | error fault =>
      rw [hc] at h
      cases h
    | ok sides =>
      obtain ⟨e, he, -⟩ := TypedEquation.exists_of_check hc
      exact ⟨e, he⟩
  · intro h
    obtain ⟨e, he⟩ := h
    rw [e.check_eq_ok he]

theorem withoutBlanks_sides (l r : Text) :
    (l ++ '=' :: r).withoutBlanks = l.withoutBlanks ++ '=' :: r.withoutBlanks := by
  rw [Text.withoutBlanks_append, Text.withoutBlanks, Text.withoutBlanks, List.filter_cons_of_pos]
  · rfl
  · decide

theorem TypedEquation.sides_eq (e : TypedEquation degree)
    (h : e.text = (l ++ '=' :: r).withoutBlanks) :
    e.left.text = l.withoutBlanks ∧ e.right = r.withoutBlanks := by
  have hread : Sides.read (l ++ '=' :: r) = .ok e.sides :=
    Sides.read_eq_ok_iff.2 (h ▸ e.splitsInto)
  have hcount : (l ++ '=' :: r).count '=' = 1 := by
    by_contra hc
    rw [Sides.read_eq_error_iff.2 ⟨hc, rfl⟩] at hread
    cases hread
  rw [List.count_append, List.count_cons_self] at hcount
  have hsplit : Sides.SplitsInto (l ++ '=' :: r).withoutBlanks ⟨l.withoutBlanks, r.withoutBlanks⟩ := by
    refine ⟨withoutBlanks_sides l r, ?_, ?_⟩
    · rw [← List.count_eq_zero, Sides.count_withoutBlanks]
      omega
    · rw [← List.count_eq_zero, Sides.count_withoutBlanks]
      omega
  rw [Sides.read_eq_ok_iff.2 hsplit] at hread
  have hs := Except.ok.inj hread
  exact ⟨(congrArg Sides.left hs).symm, (congrArg Sides.right hs).symm⟩

theorem keeps_coefficients {raw raw' : Text}
    (h : ∀ e : TypedEquation degree, e.text = raw.withoutBlanks →
      ∃ f : TypedEquation degree, f.text = raw'.withoutBlanks ∧ f.coefficients = e.coefficients ∧
        ((∀ s ∈ e.numerals, ¬Unreadable s) → ∀ s ∈ f.numerals, ¬Unreadable s))
    (ha : Sides.isAccepted raw degree = true) :
    Sides.isAccepted raw' degree = true ∧
      ∀ p, Coefficients.read raw degree = .ok p → Coefficients.read raw' degree = .ok p := by
  constructor
  · obtain ⟨e, he⟩ := Sides.isAccepted_iff.1 ha
    obtain ⟨f, hf, -⟩ := h e he
    exact Sides.isAccepted_iff.2 ⟨f, hf⟩
  · intro p hp
    obtain ⟨e, he, rfl, hr⟩ := TypedEquation.exists_text_of_read hp
    obtain ⟨f, hf, hc, hn⟩ := h e he
    rw [← hc]
    exact f.read_eq_ok hf (hn hr)

theorem keeps_coefficients_plus_left (hl : Signless l.withoutBlanks)
    (h : Sides.isAccepted (l ++ '=' :: r) degree = true) :
    Sides.isAccepted ('+' :: l ++ '=' :: r) degree = true ∧
      ∀ p, Coefficients.read (l ++ '=' :: r) degree = .ok p →
        Coefficients.read ('+' :: l ++ '=' :: r) degree = .ok p := by
  refine keeps_coefficients (fun e he => ?_) h
  obtain ⟨hleft, hright⟩ := e.sides_eq he
  obtain ⟨q, hq, hc, hn⟩ := e.left.exists_plus (hleft ▸ hl)
  refine ⟨⟨q, e.right, e.right_mem⟩, ?_, hc _, fun hr => ?_⟩
  · rw [withoutBlanks_sides, TypedEquation.text, hq, hleft, hright]
    rfl
  · simp only [TypedEquation.numerals, List.forall_mem_cons] at hr ⊢
    exact ⟨hr.1, hn hr.2⟩

theorem keeps_coefficients_plus_right (hr : Signless r.withoutBlanks)
    (h : Sides.isAccepted (l ++ '=' :: r) degree = true) :
    Sides.isAccepted (l ++ '=' :: '+' :: r) degree = true ∧
      ∀ p, Coefficients.read (l ++ '=' :: r) degree = .ok p →
        Coefficients.read (l ++ '=' :: '+' :: r) degree = .ok p := by
  refine keeps_coefficients (fun e he => ?_) h
  obtain ⟨hleft, hright⟩ := e.sides_eq he
  have hs : Signless e.right := hright ▸ hr
  refine ⟨⟨e.left, '+' :: e.right, hs.plus_mem e.right_mem⟩, ?_, ?_, fun hn => ?_⟩
  · change e.left.text ++ '=' :: '+' :: e.right = _
    rw [withoutBlanks_sides, hleft, hright]
    rfl
  · simp only [TypedEquation.coefficients, hs.number_eq]
  · simp only [TypedEquation.numerals, List.forall_mem_cons] at hn ⊢
    exact ⟨mt hs.unreadable_iff.1 hn.1, hn.2⟩

end

/-- The spelling of an equation does not change its answer. Any changes of blanks, of the case of the
unknown and of the marks of squares lead to the same fault or to a report with the same answer, and
changes of blanks alone to the very same report. A plus in front of a side without a sign keeps an
accepted text accepted and its coefficients as they are. -/
theorem spelling_keeps_answer (degree : Degree) (o : Options) :
    (∀ raw raw', Relation.ReflTransGen SpellingChange raw raw' →
      (solveEquation raw degree o).map Report.answer =
        (solveEquation raw' degree o).map Report.answer) ∧
    (∀ raw raw', Relation.ReflTransGen BlankChange raw raw' →
      solveEquation raw degree o = solveEquation raw' degree o) ∧
    (∀ l r : Text, Sides.isAccepted (l ++ '=' :: r) degree = true →
      (Signless l.withoutBlanks → Sides.isAccepted ('+' :: l ++ '=' :: r) degree = true ∧
        ∀ p, Coefficients.read (l ++ '=' :: r) degree = .ok p →
          Coefficients.read ('+' :: l ++ '=' :: r) degree = .ok p) ∧
      (Signless r.withoutBlanks → Sides.isAccepted (l ++ '=' :: '+' :: r) degree = true ∧
        ∀ p, Coefficients.read (l ++ '=' :: r) degree = .ok p →
          Coefficients.read (l ++ '=' :: '+' :: r) degree = .ok p)) :=
  ⟨fun _ _ h => answer_of_changes o h,
    fun _ _ h => solveEquation_of_withoutBlanks_eq o (withoutBlanks_of_changes h),
    fun _ _ h => ⟨fun hl => keeps_coefficients_plus_left hl h,
      fun hr => keeps_coefficients_plus_right hr h⟩⟩

theorem spellings_of_square_four :
    (solveEquation "x²=4".toList .quadratic {}).map Report.answer =
      (solveEquation "X^2=4".toList .quadratic {}).map Report.answer ∧
    solveEquation "x²=4".toList .quadratic {} = solveEquation "x² =4".toList .quadratic {} ∧
    Coefficients.read "+x²=4".toList .quadratic = .ok (.quadratic (.ofSides 1 0 0 4)) ∧
    Coefficients.read "x²=+4".toList .quadratic = .ok (.quadratic (.ofSides 1 0 0 4)) := by
  have h := spelling_keeps_answer .quadratic {}
  have hspelling : Relation.ReflTransGen SpellingChange "x²=4".toList "X^2=4".toList :=
    (Relation.ReflTransGen.single (.unknown [] "²=4".toList (d := 'X') rfl rfl)).tail
      (.square (s := ['X']) (t := "=4".toList) (.inl rfl) (.inr rfl) (by decide) (by decide))
  have hblank : Relation.ReflTransGen BlankChange "x²=4".toList "x² =4".toList :=
    .single (.insert "x²".toList "=4".toList (c := ' ') (by decide))
  have ha : Sides.isAccepted "x²=4".toList .quadratic = true := by decide +kernel
  have hp : Coefficients.read "x²=4".toList .quadratic = .ok (.quadratic (.ofSides 1 0 0 4)) := by
    decide +kernel
  have hl : Signless (Text.withoutBlanks "x²".toList) := by decide
  have hr : Signless (Text.withoutBlanks "4".toList) := by decide
  obtain ⟨hleft, hright⟩ := h.2.2 "x²".toList "4".toList ha
  exact ⟨h.1 _ _ hspelling, h.2.1 _ _ hblank, (hleft hl).2 _ hp, (hright hr).2 _ hp⟩

end SchoolAlgebra
