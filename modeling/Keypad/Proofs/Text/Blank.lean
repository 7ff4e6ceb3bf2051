/-
Module: Keypad.Proofs.Text.Blank
Layer: proofs
Purpose: Taking the blank characters out of a text.
Trusted boundary: none
Main exports:
  not_literal_of_blank, Text.strip_append, Text.strip_eq_self, Text.trimEnd_eq_self,
  Text.strip_strip, Text.trimEnd_blanks, Text.exists_last_significant
-/
import Keypad.Text.Blank
import Mathlib.Data.List.Basic
import Mathlib.Data.List.DropRight
import Mathlib.Data.List.Induction

namespace Keypad

/-- No literal can go on with a blank. -/
theorem not_literal_of_blank {c : Char} (blank : isBlank c = true) :
    c.isDigit = false ∧ c ≠ '.' := by
  constructor
  · by_contra digit
    have bounds := Char.isDigit_iff_toNat.mp (Bool.not_eq_false _ ▸ digit)
    simp [isBlank, blankRanges] at bounds blank
    omega
  · rintro rfl
    revert blank
    decide

namespace Text

@[simp] theorem strip_nil : strip [] = [] := rfl

theorem strip_blank {c : Char} (blank : Keypad.isBlank c = true) (text : Text) :
    strip (c :: text) = strip text := by
  simp [strip, blank]

theorem strip_significant {c : Char} (significant : Keypad.isBlank c = false) (text : Text) :
    strip (c :: text) = c :: strip text := by
  simp [strip, significant]

theorem strip_append (front back : Text) :
    strip (front ++ back) = strip front ++ strip back :=
  List.filter_append _ _

/-- A text without blanks stays as it is. -/
theorem strip_eq_self {text : Text} (significant : ∀ c ∈ text, Keypad.isBlank c = false) :
    strip text = text := by
  apply List.filter_eq_self.mpr
  intro c member
  rw [significant c member]
  rfl

/-- Nothing is trimmed from the end of a text without blanks. -/
theorem trimEnd_eq_self {text : Text} (significant : ∀ c ∈ text, Keypad.isBlank c = false) :
    trimEnd text = text := by
  unfold trimEnd
  cases shape : text.reverse with
  | nil =>
      rw [List.reverse_eq_nil_iff.mp shape]
      rfl
  | cons last before =>
      have member : last ∈ text := by
        rw [← List.mem_reverse, shape]
        exact List.mem_cons_self
      rw [List.dropWhile_cons_of_neg (by simp [significant last member]), ← shape,
        List.reverse_reverse]

/-- There is nothing left to take out of a text without its blanks. -/
theorem strip_strip (text : Text) : strip (strip text) = strip text := by
  simp [strip]

/-- Nothing is left of blanks. -/
theorem strip_blanks {blanks : Text} (blank : ∀ c ∈ blanks, Keypad.isBlank c = true) :
    strip blanks = [] := by
  apply List.filter_eq_nil_iff.mpr
  intro c member
  simp [blank c member]

/-- The blanks behind the last other character are trimmed, and nothing else is. -/
theorem trimEnd_blanks (before : Text) {last : Char} {blanks : Text}
    (significant : Keypad.isBlank last = false)
    (blank : ∀ c ∈ blanks, Keypad.isBlank c = true) :
    trimEnd (before ++ last :: blanks) = before ++ [last] := by
  show List.rdropWhile Keypad.isBlank _ = _
  induction blanks using List.reverseRecOn with
  | nil => exact List.rdropWhile_concat_neg _ _ _ (Bool.eq_false_iff.mp significant)
  | append_singleton blanks c inductionHypothesis =>
      rw [← List.cons_append, ← List.append_assoc,
        List.rdropWhile_concat_pos _ _ _ (blank c (List.mem_append_right blanks (.head _)))]
      exact inductionHypothesis fun d member => blank d (List.mem_append_left [c] member)

/-- In a text that is not blank there is a last character that is not, and only blanks are
behind it. -/
theorem exists_last_significant {text : Text} (visible : strip text ≠ []) :
    ∃ before last blanks, text = before ++ last :: blanks ∧
      Keypad.isBlank last = false ∧ ∀ c ∈ blanks, Keypad.isBlank c = true := by
  induction text using List.reverseRecOn with
  | nil => exact absurd rfl visible
  | append_singleton text c inductionHypothesis =>
      cases blank : Keypad.isBlank c with
      | false => exact ⟨text, c, [], rfl, blank, nofun⟩
      | true =>
          rw [strip_append, strip_blank blank, strip_nil, List.append_nil] at visible
          obtain ⟨before, last, blanks, rfl, significant, onlyBlanks⟩ :=
            inductionHypothesis visible
          refine ⟨before, last, blanks ++ [c], by simp, significant, fun d member => ?_⟩
          rcases List.mem_append.mp member with earlier | latest
          · exact onlyBlanks d earlier
          · rwa [List.mem_singleton.mp latest]

end Text

end Keypad
