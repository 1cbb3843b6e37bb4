import Mathlib.Computability.Language
import SchoolAlgebra.Equation.Check
set_option autoImplicit false

/-!
The accepted texts as regular languages, apart from any reader, and what each reader takes of a
text. A reader takes the start that its language wants wherever that start is followed by nothing
that could still belong to it.
-/

namespace SchoolAlgebra.Grammar
open scoped Computability

def digit : Language Char := {s | ∃ c, c.isDigit = true ∧ s = [c]}
def point : Language Char := {['.']}
def sign : Language Char := {['+'], ['-']}
def unknown : Language Char := {['x'], ['X']}
def square : Language Char := unknown * {['²'], ['^', '2']}

def optional (l : Language Char) : Language Char := 1 + l

/-- The expression `\d*\.?\d*`. -/
def pointedDigits : Language Char := digit∗ * optional point * digit∗

/-- The expression `\d*\.?\d+`. -/
def numeral : Language Char := digit∗ * optional point * (digit * digit∗)

def signedNumeral : Language Char := optional sign * numeral
def leading : Language Char := optional sign * pointedDigits
def furtherCoefficient : Language Char := sign * pointedDigits
def constant : Language Char := sign * numeral

/-- The expression `[+-]?\d*\.?\d*[xX]([+-]\d*\.?\d+)?`. -/
def linearSide : Language Char := leading * unknown * optional constant

/-- The expression `[+-]?\d*\.?\d*[xX](²|\^2)([+-]\d*\.?\d*[xX])?([+-]\d*\.?\d+)?`. -/
def quadraticSide : Language Char :=
  leading * square * optional (furtherCoefficient * unknown) * optional constant

def side : Degree → Language Char
  | .linear => linearSide
  | .quadratic => quadraticSide

theorem mem_optional {l : Language Char} {s : Text} : s ∈ optional l ↔ s = [] ∨ s ∈ l := Iff.rfl

theorem isSign_iff {c : Char} : Text.isSign c = true ↔ c = '+' ∨ c = '-' := by
  simp [Text.isSign]

theorem isUnknown_iff {c : Char} : Text.isUnknown c = true ↔ c = 'x' ∨ c = 'X' := by
  simp [Text.isUnknown]

theorem mem_sign {s : Text} : s ∈ sign ↔ ∃ c, Text.isSign c = true ∧ s = [c] := by
  have h : s ∈ sign ↔ s = ['+'] ∨ s = ['-'] := Iff.rfl
  rw [h]
  constructor
  · intro h
    rcases h with rfl | rfl
    · exact ⟨'+', rfl, rfl⟩
    · exact ⟨'-', rfl, rfl⟩
  · intro h
    obtain ⟨c, hc, rfl⟩ := h
    simpa [isSign_iff] using hc

theorem mem_unknown {s : Text} : s ∈ unknown ↔ ∃ c, Text.isUnknown c = true ∧ s = [c] := by
  have h : s ∈ unknown ↔ s = ['x'] ∨ s = ['X'] := Iff.rfl
  rw [h]
  constructor
  · intro h
    rcases h with rfl | rfl
    · exact ⟨'x', rfl, rfl⟩
    · exact ⟨'X', rfl, rfl⟩
  · intro h
    obtain ⟨c, hc, rfl⟩ := h
    simpa [isUnknown_iff] using hc

theorem mem_square {s : Text} :
    s ∈ square ↔ ∃ c, Text.isUnknown c = true ∧ (s = [c, '²'] ∨ s = [c, '^', '2']) := by
  rw [square, Language.mem_mul]
  constructor
  · intro h
    obtain ⟨v, hv, p, hp, rfl⟩ := h
    obtain ⟨c, hc, rfl⟩ := mem_unknown.1 hv
    rcases hp with rfl | rfl
    · exact ⟨c, hc, .inl rfl⟩
    · exact ⟨c, hc, .inr rfl⟩
  · intro h
    obtain ⟨c, hc, rfl | rfl⟩ := h
    · exact ⟨[c], mem_unknown.2 ⟨c, hc, rfl⟩, ['²'], .inl rfl, rfl⟩
    · exact ⟨[c], mem_unknown.2 ⟨c, hc, rfl⟩, ['^', '2'], .inr rfl, rfl⟩

def AllDigits (s : Text) : Prop := ∀ c ∈ s, c.isDigit = true

theorem mem_digits {s : Text} : s ∈ digit∗ ↔ AllDigits s := by
  rw [Language.mem_kstar]
  constructor
  · intro h c hc
    obtain ⟨l, rfl, hl⟩ := h
    obtain ⟨t, ht, hct⟩ := List.mem_flatten.1 hc
    obtain ⟨d, hd, rfl⟩ := hl t ht
    rwa [List.mem_singleton.1 hct]
  · intro h
    refine ⟨s.map fun c => [c], ?_, ?_⟩
    · induction s with
      | nil => rfl
      | cons c r ih => simp [← ih fun d hd => h d (List.mem_cons_of_mem _ hd)]
    · intro t ht
      obtain ⟨c, hc, rfl⟩ := List.mem_map.1 ht
      exact ⟨c, h c hc, rfl⟩

theorem AllDigits.append {s t : Text} (hs : AllDigits s) (ht : AllDigits t) :
    AllDigits (s ++ t) := by
  intro c hc
  rcases List.mem_append.1 hc with h | h
  · exact hs c h
  · exact ht c h

theorem mem_pointedDigits {s : Text} :
    s ∈ pointedDigits ↔
      ∃ w, AllDigits w ∧ (s = w ∨ ∃ f, AllDigits f ∧ s = w ++ '.' :: f) := by
  simp only [pointedDigits, Language.mem_mul, mem_digits, mem_optional]
  constructor
  · intro h
    obtain ⟨_, ⟨w, hw, p, hp, rfl⟩, f, hf, rfl⟩ := h
    rcases hp with rfl | rfl
    · exact ⟨w ++ f, hw.append hf, .inl (by simp)⟩
    · exact ⟨w, hw, .inr ⟨f, hf, by simp⟩⟩
  · intro h
    obtain ⟨w, hw, rfl | ⟨f, hf, rfl⟩⟩ := h
    · exact ⟨s, ⟨s, hw, [], .inl rfl, by simp⟩, [], by simp [AllDigits], by simp⟩
    · exact ⟨w ++ ['.'], ⟨w, hw, ['.'], .inr rfl, rfl⟩, f, hf, by simp⟩

theorem mem_digit_mul_digits {s : Text} : s ∈ digit * digit∗ ↔ AllDigits s ∧ s ≠ [] := by
  simp only [Language.mem_mul, mem_digits]
  constructor
  · intro h
    obtain ⟨_, ⟨c, hc, rfl⟩, r, hr, rfl⟩ := h
    have h1 : AllDigits [c] := fun d hd => List.mem_singleton.1 hd ▸ hc
    exact ⟨h1.append hr, by simp⟩
  · intro h
    obtain ⟨h, hs⟩ := h
    cases s with
    | nil => exact absurd rfl hs
    | cons c r =>
      exact ⟨[c], ⟨c, h c (by simp), rfl⟩, r, fun d hd => h d (List.mem_cons_of_mem _ hd), rfl⟩

theorem mem_numeral {s : Text} :
    s ∈ numeral ↔
      ∃ w, AllDigits w ∧ ((s = w ∧ w ≠ []) ∨ ∃ f, AllDigits f ∧ f ≠ [] ∧ s = w ++ '.' :: f) := by
  rw [numeral]
  simp only [Language.mem_mul (m := digit * digit∗), mem_digit_mul_digits]
  simp only [Language.mem_mul, mem_digits, mem_optional]
  constructor
  · intro h
    obtain ⟨_, ⟨w, hw, p, hp, rfl⟩, f, ⟨hf, hn⟩, rfl⟩ := h
    rcases hp with rfl | rfl
    · exact ⟨w ++ f, hw.append hf, .inl ⟨by simp, by simp [hn]⟩⟩
    · exact ⟨w, hw, .inr ⟨f, hf, hn, by simp⟩⟩
  · intro h
    obtain ⟨w, hw, ⟨rfl, hn⟩ | ⟨f, hf, hn, rfl⟩⟩ := h
    · exact ⟨[], ⟨[], by simp [AllDigits], [], .inl rfl, rfl⟩, s, ⟨hw, hn⟩, rfl⟩
    · exact ⟨w ++ ['.'], ⟨w, hw, ['.'], .inr rfl, rfl⟩, f, ⟨hf, hn⟩, by simp⟩

theorem pointedDigits_of_numeral {s : Text} (h : s ∈ numeral) : s ∈ pointedDigits := by
  obtain ⟨w, hw, ⟨rfl, -⟩ | ⟨f, hf, -, rfl⟩⟩ := mem_numeral.1 h
  · exact mem_pointedDigits.2 ⟨s, hw, .inl rfl⟩
  · exact mem_pointedDigits.2 ⟨w, hw, .inr ⟨f, hf, rfl⟩⟩

/-- Nothing that could belong to a number comes next. -/
def EndsNumber (r : Text) : Prop := ∀ c ∈ r.head?, c.isDigit = false ∧ c ≠ '.'

theorem endsNumber_nil : EndsNumber [] := by simp [EndsNumber]

theorem endsNumber_unknown {c : Char} (hc : Text.isUnknown c = true) (r : Text) :
    EndsNumber (c :: r) := by
  rcases isUnknown_iff.1 hc with rfl | rfl <;> simp [EndsNumber]

theorem isSign_of_isUnknown {c : Char} (hc : Text.isUnknown c = true) : Text.isSign c = false := by
  rcases isUnknown_iff.1 hc with rfl | rfl <;> rfl

theorem isSign_of_isDigit {c : Char} (hc : c.isDigit = true) : Text.isSign c = false := by
  by_contra h
  rcases isSign_iff.1 (Bool.eq_true_of_not_eq_false h) with rfl | rfl <;>
    exact absurd hc (by decide)

theorem digits_append_of_stop {w r : Text} (hw : AllDigits w)
    (hr : ∀ c ∈ r.head?, c.isDigit = false) : Text.digits (w ++ r) = (w, r) := by
  induction w with
  | nil =>
    cases r with
    | nil => rfl
    | cons c r => simp [Text.digits, hr c rfl]
  | cons c w ih =>
    have h := Prod.ext_iff.1 (ih fun d hd => hw d (List.mem_cons_of_mem _ hd))
    simp only [Text.digits] at h
    simp [Text.digits, hw c (by simp), h.1, h.2]

theorem allDigits_digits (s : Text) : AllDigits (Text.digits s).1 :=
  fun _ => Text.isDigit_of_mem_digits

theorem pointedDigits_append {p r : Text} (hp : p ∈ pointedDigits) (hr : EndsNumber r) :
    Text.pointedDigits (p ++ r) = (p, r) := by
  have hd : ∀ c ∈ r.head?, c.isDigit = false := fun c hc => (hr c hc).1
  obtain ⟨w, hw, rfl | ⟨f, hf, rfl⟩⟩ := mem_pointedDigits.1 hp
  · simp only [Text.pointedDigits, digits_append_of_stop hw hd]
    split
    · rename_i h
      cases h
      exact absurd rfl (hr '.' rfl).2
    · rename_i h
      cases h
      rfl
  · have h : Text.digits (w ++ '.' :: (f ++ r)) = (w, '.' :: (f ++ r)) :=
      digits_append_of_stop hw (by simp)
    simp [Text.pointedDigits, h, digits_append_of_stop hf hd]

theorem pointedDigits_mem (s : Text) : (Text.pointedDigits s).1 ∈ pointedDigits := by
  have hs := allDigits_digits s
  rw [mem_pointedDigits]
  unfold Text.pointedDigits
  split
  · rename_i whole rest h
    rw [h] at hs
    exact ⟨whole, hs, .inr ⟨_, allDigits_digits rest, rfl⟩⟩
  · rename_i whole rest _ h
    rw [h] at hs
    exact ⟨whole, hs, .inl rfl⟩

theorem numeral?_append {n r : Text} (hn : n ∈ numeral) (hr : EndsNumber r) :
    Text.numeral? (n ++ r) = some (n, r) := by
  have hd : ∀ c ∈ r.head?, c.isDigit = false := fun c hc => (hr c hc).1
  obtain ⟨w, hw, ⟨rfl, hne⟩ | ⟨f, hf, hne, rfl⟩⟩ := mem_numeral.1 hn
  · simp only [Text.numeral?, digits_append_of_stop hw hd]
    split
    · rename_i h
      cases h
      exact absurd rfl (hr '.' rfl).2
    · rename_i h
      cases h
      exact if_neg hne
  · have h : Text.digits (w ++ '.' :: (f ++ r)) = (w, '.' :: (f ++ r)) :=
      digits_append_of_stop hw (by simp)
    simp [Text.numeral?, h, digits_append_of_stop hf hd, hne]

theorem numeral_of_numeral? {s n r : Text} (h : Text.numeral? s = some (n, r)) : n ∈ numeral := by
  have hs := allDigits_digits s
  rw [mem_numeral]
  simp only [Text.numeral?] at h
  split at h
  · rename_i whole rest hd
    rw [hd] at hs
    split at h
    · cases h
    · rename_i hf
      cases h
      exact ⟨whole, hs, .inr ⟨_, allDigits_digits rest, hf, rfl⟩⟩
  · rename_i whole rest _ hd
    rw [hd] at hs
    split at h
    · cases h
    · rename_i hw
      cases h
      exact ⟨n, hs, .inl ⟨rfl, hw⟩⟩

theorem unknown?_append {v : Text} (hv : v ∈ unknown) (r : Text) :
    Text.unknown? (v ++ r) = some (v, r) := by
  obtain ⟨c, hc, rfl⟩ := mem_unknown.1 hv
  exact if_pos hc

theorem unknown_of_unknown? {s v r : Text} (h : Text.unknown? s = some (v, r)) : v ∈ unknown := by
  cases s with
  | nil => cases h
  | cons c s =>
    simp only [Text.unknown?] at h
    split at h <;> cases h
    rename_i hc
    exact mem_unknown.2 ⟨c, hc, rfl⟩

theorem square?_append {v : Text} (hv : v ∈ square) (r : Text) :
    Text.square? (v ++ r) = some (v, r) := by
  obtain ⟨c, hc, rfl | rfl⟩ := mem_square.1 hv <;> simp [Text.square?, hc]

theorem square_of_square? {s v r : Text} (h : Text.square? s = some (v, r)) : v ∈ square := by
  rw [mem_square]
  unfold Text.square? at h
  split at h
  · split at h <;> cases h
    rename_i hc
    exact ⟨_, hc, .inl rfl⟩
  · split at h <;> cases h
    rename_i hc
    exact ⟨_, hc, .inr rfl⟩
  · cases h

theorem constant?_append {k r : Text} (hk : k ∈ constant) (hr : EndsNumber r) :
    Text.constant? (k ++ r) = some (k, r) := by
  obtain ⟨m, hm, n, hn, rfl⟩ := Language.mem_mul.1 hk
  obtain ⟨c, hc, rfl⟩ := mem_sign.1 hm
  simp [Text.constant?, hc, numeral?_append hn hr]

theorem constant_of_constant? {s k r : Text} (h : Text.constant? s = some (k, r)) :
    k ∈ constant := by
  cases s with
  | nil => cases h
  | cons c s =>
    simp only [Text.constant?] at h
    split at h
    · rename_i hc
      split at h
      · rename_i n _ hn
        cases h
        exact Language.append_mem_mul (mem_sign.2 ⟨c, hc, rfl⟩) (numeral_of_numeral? hn)
      · cases h
    · cases h

theorem linearTerm?_append {t v : Text} (ht : t ∈ furtherCoefficient) (hv : v ∈ unknown) (r : Text) :
    Text.linearTerm? (t ++ v ++ r) = some (.ofText t, r) := by
  obtain ⟨m, hm, p, hp, rfl⟩ := Language.mem_mul.1 ht
  obtain ⟨c, hc, rfl⟩ := mem_sign.1 hm
  have h : Text.pointedDigits (p ++ (v ++ r)) = (p, v ++ r) := by
    obtain ⟨d, hd, rfl⟩ := mem_unknown.1 hv
    exact pointedDigits_append hp (endsNumber_unknown hd r)
  simp [Text.linearTerm?, hc, h, unknown?_append hv]

theorem exists_of_linearTerm? {s r : Text} {p : Prefix} (h : Text.linearTerm? s = some (p, r)) :
    ∃ t ∈ furtherCoefficient, ∃ v ∈ unknown, t ++ v ++ r = s ∧ p = .ofText t := by
  cases s with
  | nil => cases h
  | cons c s =>
    simp only [Text.linearTerm?] at h
    split at h
    · rename_i hc
      split at h
      · rename_i v _ hv
        cases h
        refine ⟨c :: (Text.pointedDigits s).1, ?_, v, unknown_of_unknown? hv, ?_, rfl⟩
        · exact Language.append_mem_mul (mem_sign.2 ⟨c, hc, rfl⟩) (pointedDigits_mem s)
        · have hs := Text.append_of_unknown? hv
          simp [List.append_assoc, hs, Text.pointedDigits_append]
      · cases h
    · cases h

/-- A constant is no start of a linear term: behind its number the text ends. -/
theorem linearTerm?_constant {k : Text} (hk : k ∈ constant) : Text.linearTerm? k = none := by
  obtain ⟨m, hm, n, hn, rfl⟩ := Language.mem_mul.1 hk
  obtain ⟨c, hc, rfl⟩ := mem_sign.1 hm
  have h := pointedDigits_append (pointedDigits_of_numeral hn) endsNumber_nil
  rw [List.append_nil] at h
  simp [Text.linearTerm?, hc, h, Text.unknown?]

theorem isSign_head_pointedDigits {p : Text} (hp : p ∈ pointedDigits) :
    ∀ c ∈ p.head?, Text.isSign c = false := by
  intro c hc
  obtain ⟨w, hw, h⟩ := mem_pointedDigits.1 hp
  cases w with
  | nil =>
    rcases h with rfl | ⟨f, -, rfl⟩
    · cases hc
    · cases hc
      rfl
  | cons d w =>
    have hd : c = d := by
      rcases h with rfl | ⟨f, -, rfl⟩ <;> exact (Option.some.inj hc).symm
    exact isSign_of_isDigit (hd ▸ hw d (by simp))

theorem sign_mem (s : Text) : (Text.sign s).1 ∈ optional sign := by
  cases s with
  | nil => exact .inl rfl
  | cons c s =>
    by_cases hc : Text.isSign c
    · simpa [Text.sign, hc] using .inr (mem_sign.2 ⟨c, hc, rfl⟩)
    · simpa [Text.sign, hc] using .inl rfl

theorem sign_of_head {s : Text} (h : ∀ c ∈ s.head?, Text.isSign c = false) :
    Text.sign s = ([], s) := by
  cases s with
  | nil => rfl
  | cons c s => simp [Text.sign, h c rfl]

theorem leading_append_unknown {l : Text} (hl : l ∈ leading) {c : Char}
    (hc : Text.isUnknown c = true) (r : Text) :
    Text.leading (l ++ c :: r) = (.ofText l, c :: r) := by
  obtain ⟨m, hm, p, hp, rfl⟩ := Language.mem_mul.1 hl
  have hd := pointedDigits_append hp (endsNumber_unknown hc r)
  rcases mem_optional.1 hm with rfl | hm
  · have h : Text.sign (p ++ c :: r) = ([], p ++ c :: r) := by
      apply sign_of_head
      intro d hdh
      cases p with
      | nil =>
        cases hdh
        exact isSign_of_isUnknown hc
      | cons e p => exact isSign_head_pointedDigits hp d hdh
    simp [Text.leading, h, hd]
  · obtain ⟨e, he, rfl⟩ := mem_sign.1 hm
    simp [Text.leading, Text.sign, he, hd]

theorem exists_of_leading (s : Text) :
    ∃ l ∈ leading, l ++ (Text.leading s).2 = s ∧ (Text.leading s).1 = .ofText l := by
  refine ⟨(Text.sign s).1 ++ (Text.pointedDigits (Text.sign s).2).1, ?_, ?_, rfl⟩
  · exact Language.append_mem_mul (sign_mem s) (pointedDigits_mem _)
  · have h := Text.leading_append s
    simpa only [Text.leading, Prefix.text_ofText] using h

theorem isNumeral_iff {s : Text} : Text.isNumeral s = true ↔ s ∈ signedNumeral := by
  rw [signedNumeral, Language.mem_mul]
  constructor
  · intro h
    simp only [Text.isNumeral] at h
    split at h
    · rename_i n rest hn
      obtain rfl : rest = [] := by simpa using h
      have hs := Text.append_of_numeral? hn
      rw [List.append_nil] at hs
      exact ⟨_, sign_mem s, n, numeral_of_numeral? hn, by rw [hs, Text.sign_append]⟩
    · cases h
  · intro h
    obtain ⟨m, hm, n, hn, rfl⟩ := h
    have h := numeral?_append hn endsNumber_nil
    rw [List.append_nil] at h
    rcases mem_optional.1 hm with rfl | hm
    · have hs := sign_of_head (isSign_head_pointedDigits (pointedDigits_of_numeral hn))
      simp [Text.isNumeral, hs, h]
    · obtain ⟨c, hc, rfl⟩ := mem_sign.1 hm
      simp [Text.isNumeral, Text.sign, hc, h]

def Writable (s : Text) : Prop :=
  ∀ c ∈ s, c.isDigit = true ∨ c ∈ ['.', '+', '-', 'x', 'X', '²', '^']

theorem Writable.append {s t : Text} (hs : Writable s) (ht : Writable t) : Writable (s ++ t) := by
  intro c hc
  rcases List.mem_append.1 hc with h | h
  · exact hs c h
  · exact ht c h

section

variable {l m : Language Char}

theorem writable_mul (hl : ∀ s ∈ l, Writable s) (hm : ∀ s ∈ m, Writable s) :
    ∀ s ∈ l * m, Writable s := by
  intro s hs
  obtain ⟨a, ha, b, hb, rfl⟩ := Language.mem_mul.1 hs
  exact (hl a ha).append (hm b hb)

theorem writable_optional (hl : ∀ s ∈ l, Writable s) : ∀ s ∈ optional l, Writable s := by
  intro s hs
  rcases hs with rfl | hs
  · simp [Writable]
  · exact hl s hs

end

theorem AllDigits.writable {s : Text} (h : AllDigits s) : Writable s := fun c hc => .inl (h c hc)

theorem writable_pointedDigits : ∀ s ∈ pointedDigits, Writable s := by
  intro s hs
  obtain ⟨w, hw, rfl | ⟨f, hf, rfl⟩⟩ := mem_pointedDigits.1 hs
  · exact hw.writable
  · refine hw.writable.append ?_
    intro c hc
    rcases List.mem_cons.1 hc with rfl | hc
    · exact .inr (by simp)
    · exact .inl (hf c hc)

theorem writable_sign : ∀ s ∈ sign, Writable s := by
  intro s hs
  rcases hs with rfl | rfl <;> simp [Writable]

theorem writable_unknown : ∀ s ∈ unknown, Writable s := by
  intro s hs
  rcases hs with rfl | rfl <;> simp [Writable]

theorem writable_square : ∀ s ∈ square, Writable s := by
  refine writable_mul writable_unknown fun s hs => ?_
  rcases hs with rfl | rfl <;> simp [Writable]

theorem writable_leading : ∀ s ∈ leading, Writable s :=
  writable_mul (writable_optional writable_sign) writable_pointedDigits

theorem writable_constant : ∀ s ∈ constant, Writable s :=
  writable_mul writable_sign fun _ hs => writable_pointedDigits _ (pointedDigits_of_numeral hs)

theorem writable_signedNumeral : ∀ s ∈ signedNumeral, Writable s :=
  writable_mul (writable_optional writable_sign) fun _ hs =>
    writable_pointedDigits _ (pointedDigits_of_numeral hs)

theorem writable_side : (degree : Degree) → ∀ s ∈ side degree, Writable s
  | .linear =>
    writable_mul (writable_mul writable_leading writable_unknown)
      (writable_optional writable_constant)
  | .quadratic =>
    writable_mul (writable_mul (writable_mul writable_leading writable_square)
      (writable_optional (writable_mul (writable_mul writable_sign writable_pointedDigits)
        writable_unknown))) (writable_optional writable_constant)

theorem Writable.separator_not_mem {s : Text} (h : Writable s) : '=' ∉ s := by
  intro hs
  rcases h '=' hs with h | h
  · exact absurd h (by decide)
  · exact absurd h (by decide)

theorem toNat_of_isDigit {c : Char} (h : c.isDigit = true) : 48 ≤ c.toNat ∧ c.toNat ≤ 57 := by
  simpa [Char.isDigit, UInt32.le_iff_toNat_le] using h

theorem isBlank_of_isDigit {c : Char} (h : c.isDigit = true) : isBlank c = false := by
  have h1 := toNat_of_isDigit h
  simp [isBlank, blankRanges]
  omega

theorem Writable.withoutBlanks {s : Text} (h : Writable s) : s.withoutBlanks = s := by
  rw [Text.withoutBlanks, List.filter_eq_self]
  intro c hc
  rcases h c hc with hd | hm
  · rw [isBlank_of_isDigit hd]
    rfl
  · have h : (['.', '+', '-', 'x', 'X', '²', '^'].all fun d => !isBlank d) = true := by decide
    exact List.all_eq_true.1 h c hm

end SchoolAlgebra.Grammar
