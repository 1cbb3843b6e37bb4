import SchoolAlgebra.Binary64.Written
import SchoolAlgebra.Proofs.Typed
set_option autoImplicit false

namespace SchoolAlgebra

namespace Decimal

theorem allDigits_toDigits (n : Nat) : Grammar.AllDigits (Nat.toDigits 10 n) :=
  fun _ hc => Nat.isDigit_of_mem_toDigits (by decide) (by decide) hc

theorem allDigits_zeros (k : Nat) : Grammar.AllDigits (List.replicate k '0') := by
  intro c hc
  rw [List.eq_of_mem_replicate hc]
  rfl

theorem allDigits_padded (n k : Nat) :
    Grammar.AllDigits (Nat.toDigits 10 n ++ List.replicate k '0') :=
  (allDigits_toDigits n).append (allDigits_zeros k)

theorem allDigits_leftpad {s : Text} (h : Grammar.AllDigits s) (k : Nat) :
    Grammar.AllDigits (s.leftpad k '0') :=
  (allDigits_zeros (k - s.length)).append h

theorem ofDigitChars_leftpad (s : Text) (k : Nat) :
    Nat.ofDigitChars 10 (s.leftpad k '0') 0 = Nat.ofDigitChars 10 s 0 := by
  simp [List.leftpad, Nat.ofDigitChars_append, Nat.ofDigitChars_replicate_zero]

theorem lt_length_leftpad (s : Text) (k : Nat) : k < (s.leftpad (k + 1) '0').length := by
  simp only [List.leftpad, List.length_append, List.length_replicate]
  omega

section

variable {mark : Text} (hm : mark ∈ Grammar.optional Grammar.sign)
include hm

theorem exists_numberParts_whole {s : Text} (hs : Grammar.AllDigits s) (hn : s ≠ []) :
    ∃ p : NumberParts, p.mark = mark ∧ p.unsigned = s ∧ p.unsigned ∈ Grammar.numeral ∧
      p.decimal.magnitude = (Nat.ofDigitChars 10 s 0 : Rat) := by
  have hu : s ++ [] = s := List.append_nil s
  refine ⟨⟨mark, s, none, hm, hs, by simp⟩, rfl, hu, ?_, ?_⟩
  · exact Grammar.mem_numeral.2 ⟨s, hs, .inl ⟨hu, hn⟩⟩
  · simp [NumberParts.decimal, NumberParts.digits, magnitude]

theorem exists_numberParts_withPoint {s : Text} (hs : Grammar.AllDigits s) {places : Nat}
    (hp : places ≠ 0) :
    ∃ p : NumberParts, p.mark = mark ∧ p.unsigned = withPoint s places ∧
      p.unsigned ∈ Grammar.numeral ∧
      p.decimal.magnitude =
        (Nat.ofDigitChars 10 s 0 : Rat) * (10 : Rat) ^ (-(places : Int)) := by
  have hd := allDigits_leftpad hs (places + 1)
  have hval := ofDigitChars_leftpad s (places + 1)
  have hlen := lt_length_leftpad s places
  rw [withPoint, if_neg hp]
  generalize s.leftpad (places + 1) '0' = padded at hd hval hlen
  have hw : Grammar.AllDigits (padded.take (padded.length - places)) :=
    fun c hc => hd c (List.mem_of_mem_take hc)
  have hf : Grammar.AllDigits (padded.drop (padded.length - places)) :=
    fun c hc => hd c (List.mem_of_mem_drop hc)
  have hfl : (padded.drop (padded.length - places)).length = places := by
    rw [List.length_drop]
    omega
  have hne : padded.drop (padded.length - places) ≠ [] := by
    intro h
    rw [h] at hfl
    exact hp hfl.symm
  refine ⟨⟨mark, _, some _, hm, hw, by simpa using hf⟩, rfl, rfl, ?_, ?_⟩
  · exact Grammar.mem_numeral.2 ⟨_, hw, .inr ⟨_, hf, hne, rfl⟩⟩
  · simp only [NumberParts.decimal, NumberParts.digits, magnitude, Option.getD_some,
      List.take_append_drop, hval, hfl]

/-- The digits of a positional writing, apart from its point, are those of a whole number with
zeros before or behind it. -/
theorem exists_numberParts (n : Nat) (e : Int) :
    ∃ p : NumberParts, p.mark = mark ∧ p.unsigned = positional n e ∧
      p.unsigned ∈ Grammar.numeral ∧ p.decimal.magnitude = (n : Rat) * (10 : Rat) ^ e := by
  by_cases he : 0 ≤ e
  · obtain ⟨k, rfl⟩ := Int.eq_ofNat_of_zero_le he
    have hval : Nat.ofDigitChars 10 (Nat.toDigits 10 n ++ List.replicate k '0') 0 = 10 ^ k * n := by
      rw [Nat.ofDigitChars_append, Nat.ofDigitChars_replicate_zero, Nat.ofDigitChars_ten_toDigits]
    obtain ⟨p, hmark, hu, hmem, hv⟩ := exists_numberParts_whole hm
      (allDigits_padded n k) (by simp)
    refine ⟨p, hmark, by simp [hu, positional], hmem, ?_⟩
    rw [hv, hval, zpow_natCast]
    push_cast
    ring
  · obtain ⟨k, rfl⟩ : ∃ k : Nat, e = -(k : Int) := ⟨(-e).toNat, by omega⟩
    obtain ⟨p, hmark, hu, hmem, hv⟩ :=
      exists_numberParts_withPoint hm (allDigits_toDigits n) (show k ≠ 0 by omega)
    refine ⟨p, hmark, ?_, hmem, ?_⟩
    · rw [hu, positional, if_neg he, neg_neg, Int.toNat_natCast]
    · rw [hv, Nat.ofDigitChars_ten_toDigits]

end

end Decimal

namespace Magnitude

theorem exists_value_mul (m : Magnitude) :
    ∃ n : Nat, m.value * (10 : Rat) ^ (((-m.exponent).toNat : Nat) : Int) = n := by
  rcases Int.le_total 0 m.exponent with h | h
  · obtain ⟨k, hk⟩ := Int.eq_ofNat_of_zero_le h
    refine ⟨m.significand * 2 ^ k, ?_⟩
    rw [value, hk, show (-(k : Int)).toNat = 0 by omega]
    simp
  · obtain ⟨k, hk⟩ : ∃ k : Nat, m.exponent = -(k : Int) := ⟨(-m.exponent).toNat, by omega⟩
    refine ⟨m.significand * 5 ^ k, ?_⟩
    rw [value, hk, neg_neg, Int.toNat_natCast, zpow_neg, zpow_natCast, zpow_natCast,
      show (10 : Rat) = 2 * 5 by norm_num, mul_pow]
    push_cast
    field_simp

theorem exactDecimal_value (m : Magnitude) :
    (m.exactDecimal.1 : Rat) * (10 : Rat) ^ m.exactDecimal.2 = m.value := by
  obtain ⟨n, hn⟩ := m.exists_value_mul
  have h10 : (10 : Rat) ^ (((-m.exponent).toNat : Nat) : Int) ≠ 0 := by positivity
  have hfloor : (n : Rat).floor.toNat = n := by
    rw [← Int.cast_natCast, Rat.floor_intCast, Int.toNat_natCast]
  simp only [exactDecimal]
  rw [hn, hfloor, ← hn, zpow_neg, mul_assoc, mul_inv_cancel₀ h10, mul_one]

/-- Whatever the search finds has been tried, and the exact value needs no trial. -/
theorem nearest?_shortestDecimal (m : Magnitude) :
    nearest? ((m.shortestDecimal.1 : Rat) * (10 : Rat) ^ m.shortestDecimal.2) = some m := by
  simp only [shortestDecimal]
  cases hf : (List.range 17).findSome? _ with
  | none => rw [Option.getD_none, exactDecimal_value, nearest?_value]
  | some d =>
    obtain ⟨i, -, hi⟩ := List.exists_of_findSome?_eq_some hf
    obtain ⟨n, hn, rfl⟩ := Option.map_eq_some_iff.1 hi
    have hb := List.find?_some hn
    simpa [decimalReadsBack] using hb

/-- The writing of a magnitude is one of a decimal that rounds to it. -/
theorem exists_plain (m : Magnitude) :
    ∃ (n : Nat) (e : Int), m.plain = Decimal.positional n e ∧
      nearest? ((n : Rat) * (10 : Rat) ^ e) = some m := by
  by_cases hz : m.isZero = true
  · refine ⟨0, 0, ?_, ?_⟩
    · simp [plain, hz, Decimal.positional]
    · rw [isZero_iff.1 hz]
      simp [nearest?]
  · have hs := m.nearest?_shortestDecimal
    simp only [plain, hz]
    cases hd : m.shortestDecimal with
    | mk n e =>
      rw [hd] at hs
      by_cases hn : n = 10
      · refine ⟨1, e + 1, by simp [hn], ?_⟩
        rw [zpow_add_one₀ (by norm_num), ← hs, hn]
        congr 1
        push_cast
        ring
      · exact ⟨n, e, by simp [hn], hs⟩

theorem exists_fixed (m : Magnitude) (places : Nat) :
    ∃ n k, m.fixed places = Decimal.withPoint (Nat.toDigits 10 n ++ List.replicate k '0') places ∧
      n = halfEven (m.value * (10 : Rat) ^ min places (-m.exponent).toNat) := by
  rw [← zpow_natCast]
  exact ⟨_, _, rfl, rfl⟩

end Magnitude

theorem hasDigit_of_numeral {s : Text} (h : s ∈ Grammar.numeral) : HasDigit s := by
  obtain ⟨w, hw, ⟨rfl, hn⟩ | ⟨f, hf, hn, rfl⟩⟩ := Grammar.mem_numeral.1 h
  · obtain ⟨c, hc⟩ := List.exists_mem_of_ne_nil _ hn
    exact ⟨c, hc, hw c hc⟩
  · obtain ⟨c, hc⟩ := List.exists_mem_of_ne_nil _ hn
    exact ⟨c, List.mem_append_right _ (List.mem_cons_of_mem _ hc), hf c hc⟩

theorem HasDigit.append {s : Text} (h : HasDigit s) (mark : Text) : HasDigit (mark ++ s) := by
  obtain ⟨c, hc, hd⟩ := h
  exact ⟨c, List.mem_append_right _ hc, hd⟩

theorem not_bare_of_hasDigit {l : Text} (h : HasDigit l) : ¬Bare l := by
  intro hb
  rcases hb with rfl | rfl | rfl <;> exact absurd h (by decide)

namespace Magnitude

theorem plain_mem (m : Magnitude) : m.plain ∈ Grammar.numeral := by
  obtain ⟨n, e, ht, -⟩ := m.exists_plain
  have hm : [] ∈ Grammar.optional Grammar.sign := .inl rfl
  obtain ⟨p, -, hp, hmem, -⟩ := Decimal.exists_numberParts hm n e
  rwa [ht, ← hp]

section

variable (m : Magnitude) {mark : Text} (hm : mark ∈ Grammar.optional Grammar.sign)
include hm

theorem writtenSign_plain : writtenSign (mark ++ m.plain) = writtenSign mark := by
  obtain ⟨n, e, ht, -⟩ := m.exists_plain
  obtain ⟨p, rfl, hp, -, -⟩ := Decimal.exists_numberParts hm n e
  rw [ht, ← hp]
  exact p.writtenSign_text

theorem nearest?_plain : nearest? (writtenMagnitude (mark ++ m.plain)) = some m := by
  obtain ⟨n, e, ht, hn⟩ := m.exists_plain
  obtain ⟨p, rfl, hp, -, hv⟩ := Decimal.exists_numberParts hm n e
  rw [ht, ← hp, ← hn, ← hv]
  exact congrArg nearest? p.writtenMagnitude_text

theorem number_plain : number (mark ++ m.plain) = .finite (writtenSign mark) m := by
  rw [number, Binary64.round, m.nearest?_plain hm, m.writtenSign_plain hm]

theorem readable_plain : ¬Unreadable (mark ++ m.plain) := by
  have hn := m.nearest?_plain hm
  intro h
  rcases h with h | h
  · exact h ((hasDigit_of_numeral m.plain_mem).append mark)
  · rw [(nearest?_eq_none_iff (writtenMagnitude_nonneg _)).2 h] at hn
    cases hn

end

def coefficientText (m : Magnitude) : Text := if m = .one then [] else m.plain

theorem coefficientText_mem (m : Magnitude) : m.coefficientText ∈ Grammar.pointedDigits := by
  unfold coefficientText
  split_ifs
  · exact Grammar.mem_pointedDigits.2 ⟨[], by simp [Grammar.AllDigits], .inl rfl⟩
  · exact Grammar.pointedDigits_of_numeral m.plain_mem

section

variable (m : Magnitude) {mark : Text} (hm : mark ∈ Grammar.optional Grammar.sign)
include hm

theorem coefficientNumber_text :
    coefficientNumber (mark ++ m.coefficientText) = .finite (writtenSign mark) m := by
  by_cases h : m = .one
  · have hb : Bare mark := hm
    simp only [coefficientText, if_pos h, List.append_nil, coefficientNumber, coefficientMagnitude,
      if_pos hb]
    rw [h, Binary64.round_one]
  · have hb : ¬Bare (mark ++ m.plain) :=
      not_bare_of_hasDigit ((hasDigit_of_numeral m.plain_mem).append mark)
    simp only [coefficientText, if_neg h, coefficientNumber, coefficientMagnitude, if_neg hb]
    exact m.number_plain hm

theorem readable_coefficientText : ∀ s ∈ written (mark ++ m.coefficientText), ¬Unreadable s := by
  intro s hs
  by_cases h : m = .one
  · have hb : Bare mark := hm
    simp [coefficientText, h, written, hb] at hs
  · unfold written at hs
    split_ifs at hs
    · cases hs
    · simp only [coefficientText, if_neg h, List.mem_singleton] at hs
      rw [hs]
      exact m.readable_plain hm

end

end Magnitude

end SchoolAlgebra
