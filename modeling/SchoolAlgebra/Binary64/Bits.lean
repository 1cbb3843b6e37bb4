import SchoolAlgebra.Binary64.Basic
set_option autoImplicit false

namespace SchoolAlgebra.Binary64

def signOfWord (w : Nat) : Sign := if w < 9223372036854775808 then .plus else .minus

def exponentField (w : Nat) : Nat := w / 4503599627370496 % 2048

def fractionField (w : Nat) : Nat := w % 4503599627370496

theorem exponentField_lt (w : Nat) : exponentField w < 2048 := Nat.mod_lt _ (by decide)

theorem fractionField_lt (w : Nat) : fractionField w < 4503599627370496 := Nat.mod_lt _ (by decide)

/-- Exponent field zero holds the least exponent without the leading bit. -/
def magnitudeOfWord (w : Nat) (h : exponentField w ≠ 2047) : Magnitude :=
  if hz : exponentField w = 0 then
    { significand := fractionField w
      exponent := -1074
      significand_lt := by have := fractionField_lt w; omega
      least_le := by omega
      le_greatest := by omega
      normal := .inr rfl }
  else
    { significand := fractionField w + 4503599627370496
      exponent := (exponentField w : Int) - 1075
      significand_lt := by have := fractionField_lt w; omega
      least_le := by omega
      le_greatest := by have := exponentField_lt w; omega
      normal := .inl (by omega) }

def ofBits (bits : UInt64) : Binary64 :=
  let w := bits.toNat
  if h : exponentField w = 2047 then
    if fractionField w = 0 then .infinity (signOfWord w) else .nan
  else .finite (signOfWord w) (magnitudeOfWord w h)

def signWord : Sign → Nat
  | .plus => 0
  | .minus => 9223372036854775808

def magnitudeWord (m : Magnitude) : Nat :=
  if m.significand < 4503599627370496 then m.significand
  else (m.exponent + 1075).toNat * 4503599627370496 + (m.significand - 4503599627370496)

def toBits : Binary64 → UInt64
  | .nan => 9221120237041090560
  | .infinity s => UInt64.ofNat (signWord s + 9218868437227405312)
  | .finite s m => UInt64.ofNat (signWord s + magnitudeWord m)

theorem magnitudeWord_lt (m : Magnitude) : magnitudeWord m < 9218868437227405312 := by
  have h := m.significand_lt
  have := m.le_greatest
  unfold magnitudeWord
  split <;> omega

theorem exponentField_magnitudeWord (s : Sign) (m : Magnitude) :
    exponentField (signWord s + magnitudeWord m) =
      if m.significand < 4503599627370496 then 0 else (m.exponent + 1075).toNat := by
  have h := m.significand_lt
  have := m.le_greatest
  have := m.least_le
  unfold exponentField magnitudeWord
  cases s <;> simp only [signWord] <;> split <;> omega

theorem fractionField_magnitudeWord (s : Sign) (m : Magnitude) :
    fractionField (signWord s + magnitudeWord m) =
      if m.significand < 4503599627370496 then m.significand
      else m.significand - 4503599627370496 := by
  have h := m.significand_lt
  unfold fractionField magnitudeWord
  cases s <;> simp only [signWord] <;> split <;> omega

theorem signOfWord_magnitudeWord (s : Sign) (m : Magnitude) :
    signOfWord (signWord s + magnitudeWord m) = s := by
  have h := magnitudeWord_lt m
  cases s <;> simp only [signOfWord, signWord]
  · exact if_pos (by omega)
  · exact if_neg (by omega)

theorem magnitudeOfWord_magnitudeWord (s : Sign) (m : Magnitude)
    (h : exponentField (signWord s + magnitudeWord m) ≠ 2047) :
    magnitudeOfWord (signWord s + magnitudeWord m) h = m := by
  obtain ⟨n, e, hn, hl, hg, hc⟩ := m
  have he := exponentField_magnitudeWord s ⟨n, e, hn, hl, hg, hc⟩
  have hf := fractionField_magnitudeWord s ⟨n, e, hn, hl, hg, hc⟩
  simp only at he hf
  unfold magnitudeOfWord
  split at he
  · rw [dif_pos he]
    simp_all
    omega
  · rw [dif_neg (by omega)]
    simp_all
    omega

theorem ofBits_toBits (x : Binary64) : ofBits x.toBits = x := by
  cases x with
  | nan => decide
  | infinity s => cases s <;> decide
  | finite s m =>
    have hw := magnitudeWord_lt m
    have hs : signWord s ≤ 9223372036854775808 := by cases s <;> decide
    have hn : (UInt64.ofNat (signWord s + magnitudeWord m)).toNat = signWord s + magnitudeWord m :=
      Nat.mod_eq_of_lt (by omega)
    have he : exponentField (signWord s + magnitudeWord m) ≠ 2047 := by
      have := m.le_greatest
      rw [exponentField_magnitudeWord]
      split <;> omega
    simp only [toBits, ofBits, hn]
    rw [dif_neg he, signOfWord_magnitudeWord, magnitudeOfWord_magnitudeWord]

end SchoolAlgebra.Binary64
