import SchoolAlgebra.Text.Blank
import SchoolAlgebra.Fault
set_option autoImplicit false

namespace SchoolAlgebra

structure Sides where
  left : Text
  right : Text
  deriving DecidableEq, Repr

namespace Sides

def text (sides : Sides) : Text := sides.left ++ '=' :: sides.right

/-- Blanks are dropped, and one `=` must be left. -/
def read (raw : Text) : Except Fault Sides :=
  let s := raw.withoutBlanks
  let count := s.count '='
  if count = 1 then .ok ⟨s.takeWhile (· != '='), (s.dropWhile (· != '=')).drop 1⟩
  else .error (.separators count)

theorem text_of_read {raw : Text} {sides : Sides} (h : read raw = .ok sides) :
    sides.text = raw.withoutBlanks := by
  simp only [read] at h
  split at h
  · rename_i hc
    cases h
    have hm : '=' ∈ raw.withoutBlanks := List.one_le_count_iff.1 (by omega)
    have hs : raw.withoutBlanks.dropWhile (· != '=') =
        '=' :: (raw.withoutBlanks.dropWhile (· != '=')).drop 1 := by
      generalize raw.withoutBlanks = s at hm
      clear hc
      induction s with
      | nil => cases hm
      | cons c r ih =>
        by_cases hc : c = '='
        · simp [hc]
        · have hr : '=' ∈ r := by simpa [Ne.symm hc] using hm
          simpa [hc] using ih hr
    rw [text, ← hs, List.takeWhile_append_dropWhile]
  · cases h

end Sides

end SchoolAlgebra
