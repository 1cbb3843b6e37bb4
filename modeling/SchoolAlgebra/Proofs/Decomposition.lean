import SchoolAlgebra.Proofs.Grammar
set_option autoImplicit false

/-!
Accepted sides taken apart. The parts of a side carry the proof that each belongs to its place, so
a text is accepted exactly if it is the text of some parts, and then of no others.
-/

namespace SchoolAlgebra
open scoped Computability

theorem Prefix.ofText_injective : Function.Injective Prefix.ofText := by
  intro s t h
  rw [← Prefix.text_ofText s, h, Prefix.text_ofText]

@[ext]
structure LinearParts where
  lead : Text
  unknown : Text
  constant : Option Text
  lead_mem : lead ∈ Grammar.leading
  unknown_mem : unknown ∈ Grammar.unknown
  constant_mem : ∀ k ∈ constant, k ∈ Grammar.constant

@[ext]
structure QuadraticParts where
  lead : Text
  square : Text
  linear : Option (Text × Text)
  constant : Option Text
  lead_mem : lead ∈ Grammar.leading
  square_mem : square ∈ Grammar.square
  linear_mem : ∀ t ∈ linear, t.1 ∈ Grammar.furtherCoefficient ∧ t.2 ∈ Grammar.unknown
  constant_mem : ∀ k ∈ constant, k ∈ Grammar.constant

def constantText (k : Option Text) : Text := k.getD []

theorem constantText_mem {k : Option Text} (h : ∀ t ∈ k, t ∈ Grammar.constant) :
    constantText k ∈ Grammar.optional Grammar.constant := by
  cases k with
  | none => exact .inl rfl
  | some t => exact .inr (h t rfl)

theorem optional_constant? {k : Option Text} (h : ∀ t ∈ k, t ∈ Grammar.constant) :
    Reader.optional Text.constant? (constantText k) = (k, []) := by
  cases k with
  | none => rfl
  | some t =>
    have ht := Grammar.constant?_append (h t rfl) Grammar.endsNumber_nil
    rw [List.append_nil] at ht
    simp [Reader.optional, constantText, ht]

theorem constantText_of_optional {s : Text} {k : Option Text}
    (h : Reader.optional Text.constant? s = (k, [])) :
    constantText k = s ∧ ∀ t ∈ k, t ∈ Grammar.constant := by
  unfold Reader.optional at h
  split at h
  · rename_i t rest ht
    obtain ⟨rfl, rfl⟩ := Prod.mk.inj h
    have hs := Text.append_of_constant? ht
    rw [List.append_nil] at hs
    refine ⟨hs, ?_⟩
    intro u hu
    obtain rfl := Option.some.inj hu
    exact Grammar.constant_of_constant? ht
  · obtain ⟨rfl, rfl⟩ := Prod.mk.inj h
    exact ⟨rfl, by simp⟩

namespace LinearParts

def text (p : LinearParts) : Text := p.lead ++ p.unknown ++ constantText p.constant

def side (p : LinearParts) : LinearSide := ⟨.ofText p.lead, p.constant⟩

theorem read?_text (p : LinearParts) : LinearSide.read? p.text = some p.side := by
  obtain ⟨l, v, k, hl, hv, hk⟩ := p
  obtain ⟨c, hc, rfl⟩ := Grammar.mem_unknown.1 hv
  have h := Grammar.leading_append_unknown hl hc (constantText k)
  have hu := Grammar.unknown?_append hv (constantText k)
  simp only [List.cons_append, List.nil_append] at hu
  simp [text, side, LinearSide.read?, h, hu, optional_constant? hk]

theorem exists_of_read? {s : Text} {side : LinearSide} (h : LinearSide.read? s = some side) :
    ∃ p : LinearParts, p.text = s ∧ p.side = side := by
  obtain ⟨l, hl, hls, hlp⟩ := Grammar.exists_of_leading s
  simp only [LinearSide.read?] at h
  split at h
  · rename_i v rest hv
    have hr := Text.append_of_unknown? hv
    cases hk : Reader.optional Text.constant? rest with
    | mk k rest' =>
      rw [hk] at h
      obtain ⟨rfl, rfl⟩ : rest' = [] ∧ _ := by simpa using h
      obtain ⟨hc, hm⟩ := constantText_of_optional hk
      refine ⟨⟨l, v, k, hl, Grammar.unknown_of_unknown? hv, hm⟩, ?_, ?_⟩
      · simp [text, hc, hr, hls]
      · simp [side, hlp]
  · cases h

theorem text_injective : Function.Injective text := by
  intro p q h
  have hs : p.side = q.side := by
    have hp := p.read?_text
    rw [h, q.read?_text] at hp
    exact (Option.some.inj hp).symm
  obtain ⟨hl, hk⟩ := LinearSide.mk.inj hs
  have hl := Prefix.ofText_injective hl
  simp only [text, hl, hk, List.append_assoc, List.append_cancel_left_eq,
    List.append_cancel_right_eq] at h
  exact LinearParts.ext hl h hk

theorem mem_linearSide {s : Text} : s ∈ Grammar.linearSide ↔ ∃ p : LinearParts, p.text = s := by
  simp only [Grammar.linearSide, Language.mem_mul, Grammar.mem_optional]
  constructor
  · intro h
    obtain ⟨_, ⟨l, hl, v, hv, rfl⟩, k, hk | hk, rfl⟩ := h
    · exact ⟨⟨l, v, none, hl, hv, by simp⟩, by simp [text, constantText, hk]⟩
    · exact ⟨⟨l, v, some k, hl, hv, by simpa using hk⟩, rfl⟩
  · intro h
    obtain ⟨p, rfl⟩ := h
    exact ⟨_, ⟨p.lead, p.lead_mem, p.unknown, p.unknown_mem, rfl⟩, _,
      constantText_mem p.constant_mem, rfl⟩

end LinearParts

namespace QuadraticParts

def linearText (t : Option (Text × Text)) : Text := t.elim [] fun t => t.1 ++ t.2

def text (p : QuadraticParts) : Text :=
  p.lead ++ p.square ++ linearText p.linear ++ constantText p.constant

def side (p : QuadraticParts) : QuadraticSide :=
  ⟨.ofText p.lead, p.linear.map fun t => .ofText t.1, p.constant⟩

/-- Where no linear term stands, a constant is not mistaken for one. -/
theorem optional_linearTerm? {t : Option (Text × Text)} {k : Option Text}
    (ht : ∀ u ∈ t, u.1 ∈ Grammar.furtherCoefficient ∧ u.2 ∈ Grammar.unknown)
    (hk : ∀ u ∈ k, u ∈ Grammar.constant) :
    Reader.optional Text.linearTerm? (linearText t ++ constantText k) =
      (t.map fun u => .ofText u.1, constantText k) := by
  cases t with
  | none =>
    cases k with
    | none => rfl
    | some u => simp [Reader.optional, linearText, constantText, Grammar.linearTerm?_constant (hk u rfl)]
  | some u =>
    obtain ⟨h1, h2⟩ := ht u rfl
    simp [Reader.optional, linearText, Grammar.linearTerm?_append h1 h2, -List.append_assoc]

theorem linearText_of_optional {s r : Text} {p : Option Prefix}
    (h : Reader.optional Text.linearTerm? s = (p, r)) :
    ∃ t : Option (Text × Text), linearText t ++ r = s ∧ (t.map fun u => Prefix.ofText u.1) = p ∧
      ∀ u ∈ t, u.1 ∈ Grammar.furtherCoefficient ∧ u.2 ∈ Grammar.unknown := by
  unfold Reader.optional at h
  split at h
  · rename_i q rest hq
    obtain ⟨rfl, rfl⟩ := Prod.mk.inj h
    obtain ⟨t, ht, v, hv, hs, rfl⟩ := Grammar.exists_of_linearTerm? hq
    refine ⟨some (t, v), hs, rfl, ?_⟩
    intro u hu
    obtain rfl := Option.some.inj hu
    exact ⟨ht, hv⟩
  · obtain ⟨rfl, rfl⟩ := Prod.mk.inj h
    exact ⟨none, rfl, rfl, by simp⟩

theorem read?_text (p : QuadraticParts) : QuadraticSide.read? p.text = some p.side := by
  obtain ⟨l, v, t, k, hl, hv, ht, hk⟩ := p
  have hsq := Grammar.square?_append hv (linearText t ++ constantText k)
  obtain ⟨c, w, hc, rfl⟩ : ∃ c w, Text.isUnknown c = true ∧ v = c :: w := by
    obtain ⟨c, hc, rfl | rfl⟩ := Grammar.mem_square.1 hv
    · exact ⟨c, _, hc, rfl⟩
    · exact ⟨c, _, hc, rfl⟩
  have h := Grammar.leading_append_unknown hl hc (w ++ (linearText t ++ constantText k))
  simp only [List.cons_append] at hsq
  simp [text, side, QuadraticSide.read?, h, hsq, optional_linearTerm? ht hk, optional_constant? hk]

theorem exists_of_read? {s : Text} {side : QuadraticSide}
    (h : QuadraticSide.read? s = some side) :
    ∃ p : QuadraticParts, p.text = s ∧ p.side = side := by
  obtain ⟨l, hl, hls, hlp⟩ := Grammar.exists_of_leading s
  simp only [QuadraticSide.read?] at h
  split at h
  · rename_i v rest hv
    have hr := Text.append_of_square? hv
    cases hq : Reader.optional Text.linearTerm? rest with
    | mk q rest₁ =>
      cases hk : Reader.optional Text.constant? rest₁ with
      | mk k rest₂ =>
        rw [hq] at h
        simp only [hk] at h
        obtain ⟨rfl, rfl⟩ : rest₂ = [] ∧ _ := by simpa using h
        obtain ⟨hc, hm⟩ := constantText_of_optional hk
        obtain ⟨t, hts, rfl, htm⟩ := linearText_of_optional hq
        refine ⟨⟨l, v, t, k, hl, Grammar.square_of_square? hv, htm, hm⟩, ?_, ?_⟩
        · simp [text, hc, hts, hr, hls]
        · simp [side, hlp]
  · cases h

theorem text_injective : Function.Injective text := by
  intro p q h
  have hs : p.side = q.side := by
    have hp := p.read?_text
    rw [h, q.read?_text] at hp
    exact (Option.some.inj hp).symm
  obtain ⟨hl, ht, hk⟩ := QuadraticSide.mk.inj hs
  have hl := Prefix.ofText_injective hl
  simp only [text, hl, hk, List.append_assoc, List.append_cancel_left_eq] at h
  -- The reader forgets how the square was written and which unknown stands in it, the text does not.
  have hsq := congrArg Text.square? h
  rw [Grammar.square?_append p.square_mem, Grammar.square?_append q.square_mem] at hsq
  obtain ⟨hv, hrest⟩ := Prod.mk.inj (Option.some.inj hsq)
  have hrest := List.append_cancel_right hrest
  refine QuadraticParts.ext hl hv ?_ hk
  cases hp : p.linear with
  | none =>
    cases hq : q.linear with
    | none => rfl
    | some u => simp [hp, hq] at ht
  | some t =>
    cases hq : q.linear with
    | none => simp [hp, hq] at ht
    | some u =>
      simp only [hp, hq, Option.map_some, Option.some.injEq] at ht
      have h1 := Prefix.ofText_injective ht
      simp only [hp, hq, linearText, Option.elim_some, h1, List.append_cancel_left_eq] at hrest
      exact congrArg some (Prod.ext h1 hrest)

theorem mem_quadraticSide {s : Text} :
    s ∈ Grammar.quadraticSide ↔ ∃ p : QuadraticParts, p.text = s := by
  simp only [Grammar.quadraticSide, Language.mem_mul, Grammar.mem_optional]
  constructor
  · intro h
    obtain ⟨_, ⟨_, ⟨l, hl, v, hv, rfl⟩, t, ht, rfl⟩, k, hk, rfl⟩ := h
    obtain ⟨t', ht', rfl⟩ : ∃ t' : Option (Text × Text),
        (∀ u ∈ t', u.1 ∈ Grammar.furtherCoefficient ∧ u.2 ∈ Grammar.unknown) ∧
          linearText t' = t := by
      rcases ht with rfl | ⟨a, ha, b, hb, rfl⟩
      · exact ⟨none, by simp, rfl⟩
      · exact ⟨some (a, b), by simpa using ⟨ha, hb⟩, rfl⟩
    obtain ⟨k', hk', rfl⟩ : ∃ k' : Option Text,
        (∀ u ∈ k', u ∈ Grammar.constant) ∧ constantText k' = k := by
      rcases hk with rfl | hk
      · exact ⟨none, by simp, rfl⟩
      · exact ⟨some k, by simpa using hk, rfl⟩
    exact ⟨⟨l, v, t', k', hl, hv, ht', hk'⟩, rfl⟩
  · intro h
    obtain ⟨p, rfl⟩ := h
    refine ⟨_, ⟨_, ⟨p.lead, p.lead_mem, p.square, p.square_mem, rfl⟩, linearText p.linear, ?_, rfl⟩,
      _, constantText_mem p.constant_mem, rfl⟩
    cases ht : p.linear with
    | none => exact .inl rfl
    | some t =>
      obtain ⟨h1, h2⟩ := p.linear_mem t ht
      exact .inr ⟨t.1, h1, t.2, h2, rfl⟩

end QuadraticParts

theorem LinearSide.isSome_read?_iff {s : Text} :
    (LinearSide.read? s).isSome = true ↔ s ∈ Grammar.linearSide := by
  rw [LinearParts.mem_linearSide, Option.isSome_iff_exists]
  constructor
  · intro h
    obtain ⟨side, h⟩ := h
    obtain ⟨p, hp, -⟩ := LinearParts.exists_of_read? h
    exact ⟨p, hp⟩
  · intro h
    obtain ⟨p, rfl⟩ := h
    exact ⟨p.side, p.read?_text⟩

theorem QuadraticSide.isSome_read?_iff {s : Text} :
    (QuadraticSide.read? s).isSome = true ↔ s ∈ Grammar.quadraticSide := by
  rw [QuadraticParts.mem_quadraticSide, Option.isSome_iff_exists]
  constructor
  · intro h
    obtain ⟨side, h⟩ := h
    obtain ⟨p, hp, -⟩ := QuadraticParts.exists_of_read? h
    exact ⟨p, hp⟩
  · intro h
    obtain ⟨p, rfl⟩ := h
    exact ⟨p.side, p.read?_text⟩

theorem Degree.acceptsLeft_iff {degree : Degree} {s : Text} :
    degree.acceptsLeft s = true ↔ s ∈ Grammar.side degree := by
  cases degree with
  | linear => exact LinearSide.isSome_read?_iff
  | quadratic => exact QuadraticSide.isSome_read?_iff

namespace Sides

theorem count_withoutBlanks (raw : Text) : raw.withoutBlanks.count '=' = raw.count '=' := by
  rw [Text.withoutBlanks]
  exact List.count_filter (by decide)

/-- A text around its only `=`. -/
def SplitsInto (s : Text) (sides : Sides) : Prop :=
  s = sides.text ∧ '=' ∉ sides.left ∧ '=' ∉ sides.right

theorem read_eq_ok_iff {raw : Text} {sides : Sides} :
    read raw = .ok sides ↔ SplitsInto raw.withoutBlanks sides := by
  constructor
  · intro h
    have ht := text_of_read h
    refine ⟨ht.symm, ?_⟩
    have hc : raw.withoutBlanks.count '=' = 1 := by
      by_contra hc
      simp [read, hc] at h
    rw [← ht, text] at hc
    simp only [List.count_append, List.count_cons_self] at hc
    exact ⟨List.count_eq_zero.1 (by omega), List.count_eq_zero.1 (by omega)⟩
  · intro h
    obtain ⟨hs, hl, hr⟩ := h
    have hc : raw.withoutBlanks.count '=' = 1 := by
      rw [hs, text, List.count_append, List.count_cons_self, List.count_eq_zero.2 hl,
        List.count_eq_zero.2 hr]
    have hp : ∀ c ∈ sides.left, (c != '=') = true := fun c h => by
      simpa using fun he : c = '=' => hl (he ▸ h)
    simp only [read, hc, if_true]
    rw [hs, text, List.takeWhile_append_of_pos hp, List.dropWhile_append_of_pos hp]
    simp

theorem read_eq_error_iff {raw : Text} {fault : Fault} :
    read raw = .error fault ↔ raw.count '=' ≠ 1 ∧ fault = .separators (raw.count '=') := by
  simp only [read, count_withoutBlanks]
  split
  · rename_i h
    simp [h]
  · rename_i h
    simp [h, eq_comm]

theorem check_eq_ok_iff {raw : Text} {degree : Degree} {sides : Sides} :
    check raw degree = .ok sides ↔
      SplitsInto raw.withoutBlanks sides ∧ sides.left ∈ Grammar.side degree ∧
        sides.right ∈ Grammar.signedNumeral := by
  rw [← read_eq_ok_iff, ← Degree.acceptsLeft_iff, ← Grammar.isNumeral_iff, check]
  cases read raw with
  | error fault => simp
  | ok t =>
    by_cases h : degree.acceptsLeft t.left && Text.isNumeral t.right
    · simp only [h, if_true, Except.ok.injEq]
      constructor
      · intro heq
        subst heq
        exact ⟨rfl, Bool.and_eq_true_iff.1 h⟩
      · exact fun h => h.1
    · simp only [h, Except.ok.injEq]
      constructor
      · intro h'
        cases h'
      · intro h
        obtain ⟨rfl, h'⟩ := h
        exact absurd (Bool.and_eq_true_iff.2 h') h

end Sides

def LinearSide.spelled (side : LinearSide) (unknown : Text) : Text :=
  side.coefficient.text ++ unknown ++ constantText side.constant

def QuadraticSide.spelled (side : QuadraticSide) (square unknown : Text) : Text :=
  side.squared.text ++ square ++ (side.linear.elim [] fun q => q.text ++ unknown) ++
    constantText side.constant

theorem LinearParts.spelled_side (p : LinearParts) : p.side.spelled p.unknown = p.text := by
  simp [LinearSide.spelled, side, text]

theorem QuadraticParts.spelled_side (p : QuadraticParts) :
    p.side.spelled p.square (p.linear.elim [] Prod.snd) = p.text := by
  cases h : p.linear <;> simp [QuadraticSide.spelled, side, text, linearText, h]

theorem LinearParts.existsUnique_iff {s : Text} :
    s ∈ Grammar.linearSide ↔ ∃! p : LinearParts, p.text = s := by
  rw [LinearParts.mem_linearSide]
  constructor
  · intro h
    obtain ⟨p, rfl⟩ := h
    exact ⟨p, rfl, fun q hq => LinearParts.text_injective hq⟩
  · exact fun h => h.exists

theorem QuadraticParts.existsUnique_iff {s : Text} :
    s ∈ Grammar.quadraticSide ↔ ∃! p : QuadraticParts, p.text = s := by
  rw [QuadraticParts.mem_quadraticSide]
  constructor
  · intro h
    obtain ⟨p, rfl⟩ := h
    exact ⟨p, rfl, fun q hq => QuadraticParts.text_injective hq⟩
  · exact fun h => h.exists

theorem LinearSide.read?_eq_some_iff {s : Text} {side : LinearSide} :
    LinearSide.read? s = some side ↔
      ∃ p : LinearParts, p.text = s ∧ p.side = side ∧ side.spelled p.unknown = s := by
  constructor
  · intro h
    obtain ⟨p, rfl, rfl⟩ := LinearParts.exists_of_read? h
    exact ⟨p, rfl, rfl, p.spelled_side⟩
  · intro h
    obtain ⟨p, rfl, rfl, -⟩ := h
    exact p.read?_text

theorem QuadraticSide.read?_eq_some_iff {s : Text} {side : QuadraticSide} :
    QuadraticSide.read? s = some side ↔
      ∃ p : QuadraticParts, p.text = s ∧ p.side = side ∧
        side.spelled p.square (p.linear.elim [] Prod.snd) = s := by
  constructor
  · intro h
    obtain ⟨p, rfl, rfl⟩ := QuadraticParts.exists_of_read? h
    exact ⟨p, rfl, rfl, p.spelled_side⟩
  · intro h
    obtain ⟨p, rfl, rfl, -⟩ := h
    exact p.read?_text

/-- The readers accept the regular languages of their expressions. An accepted side has one
decomposition, and what is read from it are its parts; the gate lets through the texts that are one
accepted side, an equals sign and a numeral once their blanks are gone. -/
theorem readers_recognize_languages :
    (∀ s, (LinearSide.read? s).isSome = true ↔ s ∈ Grammar.linearSide) ∧
    (∀ s, (QuadraticSide.read? s).isSome = true ↔ s ∈ Grammar.quadraticSide) ∧
    (∀ s, Text.isNumeral s = true ↔ s ∈ Grammar.signedNumeral) ∧
    (∀ s, s ∈ Grammar.linearSide ↔ ∃! p : LinearParts, p.text = s) ∧
    (∀ s, s ∈ Grammar.quadraticSide ↔ ∃! p : QuadraticParts, p.text = s) ∧
    (∀ s side, LinearSide.read? s = some side ↔
      ∃ p : LinearParts, p.text = s ∧ p.side = side ∧ side.spelled p.unknown = s) ∧
    (∀ s side, QuadraticSide.read? s = some side ↔
      ∃ p : QuadraticParts, p.text = s ∧ p.side = side ∧
        side.spelled p.square (p.linear.elim [] Prod.snd) = s) ∧
    (∀ raw degree sides, Sides.check raw degree = .ok sides ↔
      raw.withoutBlanks = sides.left ++ '=' :: sides.right ∧
        '=' ∉ sides.left ∧ '=' ∉ sides.right ∧
        sides.left ∈ Grammar.side degree ∧ sides.right ∈ Grammar.signedNumeral) := by
  refine ⟨fun _ => LinearSide.isSome_read?_iff, fun _ => QuadraticSide.isSome_read?_iff,
    fun _ => Grammar.isNumeral_iff, fun _ => LinearParts.existsUnique_iff,
    fun _ => QuadraticParts.existsUnique_iff, fun _ _ => LinearSide.read?_eq_some_iff,
    fun _ _ => QuadraticSide.read?_eq_some_iff, fun raw degree sides => ?_⟩
  rw [Sides.check_eq_ok_iff, Sides.SplitsInto, and_assoc, and_assoc]
  rfl

end SchoolAlgebra
