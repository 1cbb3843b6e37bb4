import SchoolAlgebra.Proofs.Grammar
import SchoolAlgebra.Proofs.Rounding
set_option autoImplicit false

namespace SchoolAlgebra

namespace Decimal

theorem magnitude_nonneg (d : Decimal) : 0 ≤ d.magnitude := by
  unfold magnitude
  positivity

theorem lt_ten_pow_length (n : Nat) : n < 10 ^ (Nat.toDigits 10 n).length :=
  (Nat.length_toDigits_le_iff (by decide) Nat.length_toDigits_pos).1 (Nat.le_refl _)

theorem ten_pow_length_le {n : Nat} (h : n ≠ 0) : 10 ^ ((Nat.toDigits 10 n).length - 1) ≤ n := by
  by_cases hl : (Nat.toDigits 10 n).length = 1
  · rw [hl]
    exact Nat.pos_of_ne_zero h
  · by_contra hn
    have hp : 0 < (Nat.toDigits 10 n).length := Nat.length_toDigits_pos
    have := (Nat.length_toDigits_le_iff (b := 10) (by decide) (by omega)).2 (not_le.1 hn)
    omega

theorem magnitude_lt (d : Decimal) : d.magnitude < (10 : Rat) ^ d.order := by
  have h : (d.significand : Rat) < (10 : Rat) ^ (Nat.toDigits 10 d.significand).length := by
    exact_mod_cast lt_ten_pow_length d.significand
  rw [magnitude, order, add_comm, zpow_add₀ (by norm_num), zpow_natCast]
  gcongr

theorem le_magnitude {d : Decimal} (h : d.significand ≠ 0) :
    (10 : Rat) ^ (d.order - 1) ≤ d.magnitude := by
  have hp : 0 < (Nat.toDigits 10 d.significand).length := Nat.length_toDigits_pos
  have hl : ((10 : Rat) ^ ((Nat.toDigits 10 d.significand).length - 1)) ≤ d.significand := by
    exact_mod_cast ten_pow_length_le h
  have he : d.order - 1 =
      (((Nat.toDigits 10 d.significand).length - 1 : Nat) : Int) + d.exponent := by
    unfold order
    omega
  rw [magnitude, he, zpow_add₀ (by norm_num), zpow_natCast]
  gcongr

theorem ten_pow_lt_least : (10 : Rat) ^ (-401 : Int) ≤ (2 : Rat) ^ (-1075 : Int) := by
  have h : (2 : Nat) ^ 1075 ≤ 10 ^ 401 := by decide +kernel
  rw [show (-401 : Int) = -((401 : Nat) : Int) from rfl,
    show (-1075 : Int) = -((1075 : Nat) : Int) from rfl, zpow_neg, zpow_neg, zpow_natCast,
    zpow_natCast]
  exact inv_anti₀ (by positivity) (by exact_mod_cast h)

theorem top_le_ten_pow : (2 : Rat) ^ 1024 - 2 ^ 970 ≤ (10 : Rat) ^ (400 : Int) := by
  have h : (2 : Nat) ^ 1024 ≤ 10 ^ 400 := by decide +kernel
  have hp : (0 : Rat) ≤ 2 ^ 970 := by positivity
  rw [show (400 : Int) = ((400 : Nat) : Int) from rfl, zpow_natCast]
  exact (sub_le_self _ hp).trans (by exact_mod_cast h)

/-- The orders that decide without the power of ten decide as rounding does. -/
theorem round_eq (d : Decimal) : d.round = Binary64.round d.sign d.magnitude := by
  have hn := d.magnitude_nonneg
  unfold round
  split_ifs with hlow hhigh
  · have hz : Magnitude.nearest? d.magnitude = some .zero := by
      rw [Magnitude.nearest?_eq_zero_iff hn]
      rcases hlow with h | h
      · have : d.magnitude = 0 := by simp [magnitude, h]
        rw [this]
        positivity
      · calc d.magnitude ≤ (10 : Rat) ^ d.order := d.magnitude_lt.le
          _ ≤ (10 : Rat) ^ (-401 : Int) := zpow_le_zpow_right₀ (by norm_num) (by omega)
          _ ≤ (2 : Rat) ^ (-1075 : Int) := ten_pow_lt_least
    simp [Binary64.round, hz]
  · have hz : Magnitude.nearest? d.magnitude = none := by
      rw [Magnitude.nearest?_eq_none_iff hn]
      calc (2 : Rat) ^ 1024 - 2 ^ 970 ≤ (10 : Rat) ^ (400 : Int) := top_le_ten_pow
        _ ≤ (10 : Rat) ^ (d.order - 1) := zpow_le_zpow_right₀ (by norm_num) (by omega)
        _ ≤ d.magnitude := le_magnitude fun h => hlow (.inl h)
    simp [Binary64.round, hz]
  · rfl

end Decimal

theorem ofDigitChars_append_zero (s t : Text) :
    Nat.ofDigitChars 10 (s ++ t) 0 =
      10 ^ t.length * Nat.ofDigitChars 10 s 0 + Nat.ofDigitChars 10 t 0 := by
  rw [Nat.ofDigitChars_append]
  exact Nat.ofDigitChars_eq_ofDigitChars_zero

def HasDigit (s : Text) : Prop := ∃ c ∈ s, c.isDigit = true

instance (s : Text) : Decidable (HasDigit s) := List.decidableBEx (fun c : Char => c.isDigit = true) s

def writtenSign : Text → Sign
  | '-' :: _ => .minus
  | _ => .plus

/-- The digits in front of the point as a whole number, and those behind it as a fraction. -/
def writtenMagnitude (s : Text) : Rat :=
  let body := (Text.sign s).2
  let whole := body.takeWhile (· != '.')
  let fraction := (body.dropWhile (· != '.')).drop 1
  (Nat.ofDigitChars 10 whole 0 : Rat) +
    (Nat.ofDigitChars 10 fraction 0 : Rat) / (10 : Rat) ^ fraction.length

/-- There is nothing to read, or a number that rounds beyond the greatest one. -/
def Unreadable (s : Text) : Prop :=
  ¬HasDigit s ∨ (2 : Rat) ^ 1024 - 2 ^ 970 ≤ writtenMagnitude s

instance (s : Text) : Decidable (Unreadable s) := inferInstanceAs (Decidable (_ ∨ _))

/-- What may stand before an unknown, as a mark, digits, and digits behind a point if there is one. -/
structure NumberParts where
  mark : Text
  whole : Text
  fraction : Option Text
  mark_mem : mark ∈ Grammar.optional Grammar.sign
  whole_digits : Grammar.AllDigits whole
  fraction_digits : ∀ f ∈ fraction, Grammar.AllDigits f

namespace NumberParts

def unsigned (p : NumberParts) : Text := p.whole ++ p.fraction.elim [] ('.' :: ·)

def text (p : NumberParts) : Text := p.mark ++ p.unsigned

def digits (p : NumberParts) : Text := p.whole ++ p.fraction.getD []

theorem exists_text {s : Text} (h : s ∈ Grammar.leading) : ∃ p : NumberParts, p.text = s := by
  obtain ⟨m, hm, b, hb, rfl⟩ := Language.mem_mul.1 h
  obtain ⟨w, hw, rfl | ⟨f, hf, rfl⟩⟩ := Grammar.mem_pointedDigits.1 hb
  · exact ⟨⟨m, b, none, hm, hw, by simp⟩, by simp [text, unsigned]⟩
  · exact ⟨⟨m, w, some f, hm, hw, by simpa using hf⟩, rfl⟩

theorem allDigits_digits (p : NumberParts) : Grammar.AllDigits p.digits := by
  refine p.whole_digits.append ?_
  cases h : p.fraction with
  | none => simp [Grammar.AllDigits]
  | some f => exact p.fraction_digits f h

theorem isSign_head_unsigned (p : NumberParts) :
    ∀ c ∈ p.unsigned.head?, Text.isSign c = false := by
  obtain ⟨m, w, f, hm, hw, hf⟩ := p
  intro c hc
  cases w with
  | nil =>
    cases f with
    | none => cases hc
    | some t =>
      cases hc
      rfl
  | cons d w =>
    cases hc
    exact Grammar.isSign_of_isDigit (hw c (by simp))

theorem sign_text (p : NumberParts) : Text.sign p.text = (p.mark, p.unsigned) := by
  rw [text]
  rcases p.mark_mem with h | h | h
  · rw [h]
    exact Grammar.sign_of_head p.isSign_head_unsigned
  · rw [h]
    rfl
  · rw [h]
    rfl

theorem unsigned_ne (p : NumberParts) (c : Char) (hc : Text.isSign c = true) (r : Text) :
    p.unsigned ≠ c :: r := by
  intro h
  have := p.isSign_head_unsigned c (by rw [h]; rfl)
  rw [hc] at this
  cases this

theorem read_text (p : NumberParts) : Sign.read p.text = (writtenSign p.mark, p.unsigned) := by
  rw [text]
  rcases p.mark_mem with h | h | h
  · rw [h, List.nil_append]
    unfold Sign.read
    split
    · rename_i hs
      exact absurd hs (p.unsigned_ne '+' rfl _)
    · rename_i hs
      exact absurd hs (p.unsigned_ne '-' rfl _)
    · rfl
  · rw [h]
    rfl
  · rw [h]
    rfl

theorem writtenSign_text (p : NumberParts) : writtenSign p.text = writtenSign p.mark := by
  rw [text]
  rcases p.mark_mem with h | h | h
  · rw [h, List.nil_append]
    unfold writtenSign
    split
    · rename_i hs
      exact absurd hs (p.unsigned_ne '-' rfl _)
    · rfl
  · rw [h]
    rfl
  · rw [h]
    rfl

theorem hasDigit_text (p : NumberParts) : HasDigit p.text ↔ p.digits ≠ [] := by
  have hmark : ∀ c ∈ p.mark, c.isDigit = false := by
    rcases p.mark_mem with h | h | h <;> rw [h] <;> simp
  constructor
  · intro h hn
    obtain ⟨c, hc, hd⟩ := h
    obtain ⟨hw, hf⟩ := List.append_eq_nil_iff.1 hn
    rcases List.mem_append.1 hc with h | h
    · rw [hmark c h] at hd
      cases hd
    -- Without digits nothing but the point is left.
    · cases hfr : p.fraction with
      | none => simp [unsigned, hw, hfr] at h
      | some f =>
        simp only [hfr, Option.getD_some] at hf
        obtain rfl : c = '.' := by simpa [unsigned, hw, hfr, hf] using h
        exact absurd hd (by decide)
  · intro h
    obtain ⟨c, hc⟩ := List.exists_mem_of_ne_nil _ h
    refine ⟨c, List.mem_append_right _ ?_, p.allDigits_digits c hc⟩
    rcases List.mem_append.1 hc with hc | hc
    · exact List.mem_append_left _ hc
    · cases hfr : p.fraction with
      | none => simp [hfr] at hc
      | some f =>
        rw [hfr] at hc
        rw [unsigned, hfr]
        exact List.mem_append_right _ (List.mem_cons_of_mem _ hc)

def decimal (p : NumberParts) : Decimal :=
  ⟨writtenSign p.mark, Nat.ofDigitChars 10 p.digits 0, -((p.fraction.getD []).length : Int)⟩

theorem writtenMagnitude_text (p : NumberParts) : writtenMagnitude p.text = p.decimal.magnitude := by
  have hp : ∀ c ∈ p.whole, (c != '.') = true := by
    intro c hc
    have hd := p.whole_digits c hc
    by_contra h
    obtain rfl : c = '.' := by simpa using h
    exact absurd hd (by decide)
  have hf : ((p.unsigned.dropWhile (· != '.')).drop 1) = p.fraction.getD [] := by
    rw [unsigned, List.dropWhile_append_of_pos hp]
    cases p.fraction <;> simp
  have hw : p.unsigned.takeWhile (· != '.') = p.whole := by
    rw [unsigned, List.takeWhile_append_of_pos hp]
    cases p.fraction <;> simp
  simp only [writtenMagnitude, sign_text, hf, hw, decimal, Decimal.magnitude, digits]
  rw [ofDigitChars_append_zero, zpow_neg, zpow_natCast]
  push_cast
  field_simp

theorem decimal_read?_text (p : NumberParts) :
    Decimal.read? p.text = if p.digits = [] then none else some p.decimal := by
  have hd : Text.digits p.unsigned = (p.whole, p.fraction.elim [] ('.' :: ·)) := by
    refine Grammar.digits_append_of_stop p.whole_digits ?_
    cases p.fraction <;> simp
  have hr : Decimal.readFraction (p.fraction.elim [] ('.' :: ·)) = (p.fraction.getD [], []) := by
    cases h : p.fraction with
    | none => rfl
    | some f =>
      have := Grammar.digits_append_of_stop (r := []) (p.fraction_digits f h) (by simp)
      simpa [Decimal.readFraction] using this
  simp only [Decimal.read?, read_text, hd, hr, Decimal.readExponent?, digits, decimal,
    List.append_eq_nil_iff, zero_sub]

end NumberParts

theorem Decimal.read?_eq_none {s : Text} (h : s ∈ Grammar.leading) (hd : ¬HasDigit s) :
    Decimal.read? s = none := by
  obtain ⟨p, rfl⟩ := NumberParts.exists_text h
  rw [p.decimal_read?_text, if_pos (not_not.1 (mt p.hasDigit_text.2 hd))]

/-- The number that is read is the rational that is written, rounded once. -/
theorem Binary64.read?_eq {s : Text} (h : s ∈ Grammar.leading) (hd : HasDigit s) :
    Binary64.read? s =
      if (round (writtenSign s) (writtenMagnitude s)).isFinite then
        some (round (writtenSign s) (writtenMagnitude s)) else none := by
  obtain ⟨p, rfl⟩ := NumberParts.exists_text h
  have hr : p.decimal.round = round (writtenSign p.text) (writtenMagnitude p.text) := by
    rw [Decimal.round_eq, p.writtenMagnitude_text, p.writtenSign_text]
    rfl
  rw [Binary64.read?, p.decimal_read?_text, if_neg (p.hasDigit_text.1 hd)]
  simp only [hr]

theorem writtenMagnitude_nonneg (s : Text) : 0 ≤ writtenMagnitude s := by
  unfold writtenMagnitude
  positivity

theorem readNumber_eq_error {s : Text} (h : s ∈ Grammar.leading) (hu : Unreadable s) :
    readNumber s = .error (.numeral s) := by
  have hn : Binary64.read? s = none := by
    by_cases hd : HasDigit s
    · rw [Binary64.read?_eq h hd, if_neg]
      rw [Binary64.isFinite_round_iff (writtenMagnitude_nonneg s), not_lt]
      exact hu.resolve_left (not_not.2 hd)
    · rw [Binary64.read?, Decimal.read?_eq_none h hd]
  rw [readNumber, hn]

theorem readNumber_eq_ok {s : Text} (h : s ∈ Grammar.leading) (hu : ¬Unreadable s) :
    readNumber s = .ok (.round (writtenSign s) (writtenMagnitude s)) := by
  obtain ⟨hd, hm⟩ := not_or.1 hu
  rw [readNumber, Binary64.read?_eq h (not_not.1 hd),
    if_pos ((Binary64.isFinite_round_iff (writtenMagnitude_nonneg s) _).2 (not_le.1 hm))]

end SchoolAlgebra
