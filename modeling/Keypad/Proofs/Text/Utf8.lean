/-
Module: Keypad.Proofs.Text.Utf8
Layer: proofs
Purpose: A text is known by its octets.
Trusted boundary: none
Main exports:
  Utf8.encode_append, Utf8.encode_injective, Utf8.encode_sublist, Utf8.eq_of_sublist,
  Utf8.length_le, Utf8.encodeChar_ascii, Utf8.large_of_mem_encodeChar
-/
import Keypad.Text.Utf8
import Mathlib.Data.List.Flatten

namespace Keypad.Utf8

variable {text other : Text} {c : Char}

@[simp] theorem encode_nil : encode [] = [] := rfl

@[simp] theorem encode_cons (c : Char) (text : Text) :
    encode (c :: text) = String.utf8EncodeChar c ++ encode text := by
  simp [encode]

@[simp] theorem encode_append (text other : Text) :
    encode (text ++ other) = encode text ++ encode other := by
  simp [encode]

/-- No two texts have the same octets. -/
theorem encode_injective (same : encode text = encode other) : text = other := by
  have strings : String.ofList text = String.ofList other := by
    rw [← String.toByteArray_inj, String.toByteArray_ofList, String.toByteArray_ofList]
    exact congrArg List.toByteArray same
  exact String.ofList_injective strings

theorem encode_sublist (part : text.Sublist other) : (encode text).Sublist (encode other) :=
  part.flatMap _

/-- A part that has as many octets as the whole is the whole. -/
theorem eq_of_sublist (part : text.Sublist other)
    (size : (encode other).length ≤ (encode text).length) : text = other :=
  encode_injective ((encode_sublist part).eq_of_length_le size)

/-- Every character has an octet at least. -/
theorem length_le (text : Text) : text.length ≤ (encode text).length := by
  induction text with
  | nil => exact Nat.le_refl 0
  | cons c text inductionHypothesis =>
      have first : 0 < (String.utf8EncodeChar c).length := by
        rw [String.length_utf8EncodeChar]
        exact c.utf8Size_pos
      rw [encode_cons, List.length_cons, List.length_append]
      omega

theorem encodeChar_ascii (ascii : c.toNat < 0x80) :
    String.utf8EncodeChar c = [UInt8.ofNat c.toNat] := by
  rw [String.utf8EncodeChar]
  exact if_pos (Nat.le_of_lt_succ ascii)

/-- The octets of a character beyond the ASCII range are beyond it as well. -/
theorem large_of_mem_encodeChar (beyond : 0x80 ≤ c.toNat) {octet : UInt8}
    (member : octet ∈ String.utf8EncodeChar c) : 0x80 ≤ octet.toNat := by
  have large : ¬c.val.toNat ≤ 127 := Nat.not_le.mpr beyond
  have octetOf (n : Nat) (low : 0x80 ≤ n) (high : n < 0x100) : 0x80 ≤ (UInt8.ofNat n).toNat := by
    rw [UInt8.toNat_ofNat', Nat.mod_eq_of_lt high]
    exact low
  simp only [String.utf8EncodeChar, large, if_false] at member
  split at member
  case isTrue =>
    simp only [List.mem_cons, List.not_mem_nil, or_false] at member
    rcases member with rfl | rfl
    all_goals exact octetOf _ (by omega) (by omega)
  case isFalse =>
    split at member
    all_goals
      simp only [List.mem_cons, List.not_mem_nil, or_false] at member
      rcases member with rfl | rfl | rfl | rfl
      all_goals exact octetOf _ (by omega) (by omega)

end Keypad.Utf8
