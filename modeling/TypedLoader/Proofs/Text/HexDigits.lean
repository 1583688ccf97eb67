import TypedLoader.Proofs.Text.Blank
import TypedLoader.Proofs.Text.Utf8
import TypedLoader.Text.Digits

namespace TypedLoader.Text

variable {c : Char} {n : Nat}

theorem ranges_of_hexDigit? (h : hexDigit? c = some n) :
    48 ≤ c.toNat ∧ c.toNat ≤ 57 ∨ 97 ≤ c.toNat ∧ c.toNat ≤ 102 ∨
      65 ≤ c.toNat ∧ c.toNat ≤ 70 := by
  have hval (d : Char) : d.val.toNat = d.toNat := rfl
  have hbounds : '0'.toNat = 48 ∧ '9'.toNat = 57 ∧ 'a'.toNat = 97 ∧ 'f'.toNat = 102 ∧
      'A'.toNat = 65 ∧ 'F'.toNat = 70 := by decide
  unfold hexDigit? at h
  simp only [Char.le_def, UInt32.le_iff_toNat_le, hval] at h
  split at h
  · omega
  · split at h
    · omega
    · split at h
      · omega
      · cases h

theorem utf8Size_of_hexDigit? (h : hexDigit? c = some n) : c.utf8Size = 1 := by
  have hc : c.toNat < 128 := by
    have hranges := ranges_of_hexDigit? h
    omega
  rw [← String.length_utf8EncodeChar, utf8EncodeChar_of_ascii hc]
  rfl

theorem isBlank_of_hexDigit? (h : hexDigit? c = some n) : isBlank c = false := by
  have hranges := ranges_of_hexDigit? h
  simp only [isBlank, Bool.or_eq_false_iff, Bool.and_eq_false_iff, decide_eq_false_iff_not,
    beq_eq_false_iff_ne]
  omega

theorem ne_of_hexDigit? {d : Char} (h : hexDigit? c = some n) (hd : hexDigit? d = none) :
    c ≠ d := by
  rintro rfl
  rw [h] at hd
  cases hd

end TypedLoader.Text
