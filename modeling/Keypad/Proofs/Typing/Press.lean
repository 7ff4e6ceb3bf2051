/-
Module: Keypad.Proofs.Typing.Press
Layer: proofs
Purpose: What a key does to any text, with blanks and foreign characters or without.
Trusted boundary: none
Main exports:
  Position.of_strip, Position.of_blanks, accept_strip, press_of_append, press_of_reject,
  press_of_replaceLast, strip_press, press_is_local
-/
import Keypad.Proofs.Text.Utf8
import Keypad.Proofs.Typing.Position

namespace Keypad

/-!
The position leaves out all blanks of a text, and an operator is replaced behind those at
its end only.  The two agree on which operator that is, since the last character that is not
blank is the same for both.
-/

/-- A position is the same without the blanks of the text. -/
theorem Position.of_strip (text : Text) : Position.of text.strip = Position.of text := by
  rw [Position.of, Text.strip_strip]
  rfl

/-- Blanks at its end do not move the position. -/
theorem Position.of_blanks (before : Text) {last : Char} {blanks : Text}
    (significant : isBlank last = false) (blank : ∀ c ∈ blanks, isBlank c = true) :
    Position.of (before ++ last :: blanks) = (Position.of before).behindKey last := by
  have same : Text.strip (before ++ last :: blanks) = Text.strip (before ++ [last]) := by
    rw [List.append_cons, Text.strip_append, Text.strip_blanks blank, List.append_nil]
  rw [Position.of, same]
  exact Position.of_concat before significant

theorem accept_strip (text : Text) (key : Char) : accept text.strip key = accept text key := by
  rw [accept, Position.of_strip]
  rfl

/-- Only an operator leads to the position behind one. -/
theorem Position.operator_of_behindKey {position : Position} {key : Char}
    (operator : position.behindKey key = .operator) : KeyClass.of? key = some .operator := by
  unfold behindKey at operator
  split at operator
  case h_5 keyClass => exact keyClass
  all_goals cases operator

/-! ### Each decision -/

section Decisions

variable {text : Text} {key : Char}

/-- A key that is appended comes behind the whole text, and is not blank. -/
theorem press_of_append (appended : accept text key = .append) :
    press text key = text ++ [key] ∧ isBlank key = false := by
  refine ⟨?_, KeyClass.significant (Position.decide_eq_append_iff.mp appended).1⟩
  rw [press, appended]
  rfl

theorem press_of_reject (rejected : accept text key = .reject) : press text key = text := by
  rw [press, rejected]
  rfl

/-- A key that replaces another one takes the place of an operator and of the blanks behind
it. -/
theorem press_of_replaceLast (replaced : accept text key = .replaceLast) :
    ∃ before operator blanks, text = before ++ operator :: blanks ∧
      KeyClass.of? operator = some .operator ∧ (∀ c ∈ blanks, isBlank c = true) ∧
      text.trimEnd = before ++ [operator] ∧ press text key = before ++ [key] := by
  obtain ⟨_, _, position⟩ := Position.decide_eq_replaceLast_iff.mp replaced
  have visible : text.strip ≠ [] := by
    intro blank
    rw [Position.of, blank] at position
    cases position
  obtain ⟨before, last, blanks, rfl, significant, blank⟩ := Text.exists_last_significant visible
  rw [Position.of_blanks before significant blank] at position
  have trimmed : Text.trimEnd (before ++ last :: blanks) = before ++ [last] :=
    Text.trimEnd_blanks before significant blank
  refine ⟨before, last, blanks, rfl, Position.operator_of_behindKey position, blank, trimmed, ?_⟩
  rw [press, replaced, Decision.applyTo, trimmed, List.dropLast_concat]

end Decisions

/-- A key does to a text without its blanks what it does to the text. -/
theorem strip_press (text : Text) (key : Char) :
    (press text key).strip = press text.strip key := by
  have same := accept_strip text key
  cases decision : accept text key with
  | append =>
      obtain ⟨appended, significant⟩ := press_of_append decision
      rw [(press_of_append (same.trans decision)).1, appended, Text.strip_append,
        Text.strip_significant significant, Text.strip_nil]
  | reject => rw [press_of_reject decision, press_of_reject (same.trans decision)]
  | replaceLast =>
      obtain ⟨known, _, _⟩ := Position.decide_eq_replaceLast_iff.mp decision
      have keySignificant : isBlank key = false :=
        KeyClass.significant (known ▸ Option.some_ne_none _)
      obtain ⟨before, operator, blanks, rfl, isOperator, blank, _, replaced⟩ :=
        press_of_replaceLast decision
      have significant : isBlank operator = false :=
        KeyClass.significant (isOperator ▸ Option.some_ne_none _)
      have stripped : Text.strip (before ++ operator :: blanks) = before.strip ++ [operator] := by
        rw [Text.strip_append, Text.strip_significant significant, Text.strip_blanks blank]
      have noBlanks : ∀ c ∈ before.strip ++ [operator], isBlank c = false := by
        rw [← stripped]
        intro c member
        simpa using (List.mem_filter.mp member).2
      rw [replaced, press, same.trans decision, stripped, Decision.applyTo,
        Text.trimEnd_eq_self noBlanks, List.dropLast_concat, Text.strip_append,
        Text.strip_significant keySignificant, Text.strip_nil]

/-- The blanks of a text are nothing to the keys, and a key changes no more of the text than
its end.  It is decided on as without the blanks, and comes to the same text without blanks.
If it is appended it stands behind the text, and if it is rejected the text stays.  If it
replaces another one, that is the last character that is not blank, an operator: it goes with
the blanks behind it, and all octets before it stay. -/
theorem press_is_local (text : Text) (key : Char) :
    accept text.strip key = accept text key ∧
    (press text key).strip = press text.strip key ∧
    match accept text key with
    | .append => press text key = text ++ [key]
    | .reject => press text key = text
    | .replaceLast =>
        ∃ before operator blanks, text = before ++ operator :: blanks ∧
          operator ∈ ['+', '-', '*', '/'] ∧ (∀ c ∈ blanks, isBlank c = true) ∧
          press text key = before ++ [key] ∧
          (Utf8.encode text).take (Utf8.encode text.trimEnd).length =
            Utf8.encode before ++ Utf8.encode [operator] := by
  refine ⟨accept_strip text key, strip_press text key, ?_⟩
  cases decision : accept text key with
  | append => exact (press_of_append decision).1
  | reject => exact press_of_reject decision
  | replaceLast =>
      obtain ⟨before, operator, blanks, cut, isOperator, blank, trimmed, replaced⟩ :=
        press_of_replaceLast decision
      refine ⟨before, operator, blanks, cut, KeyClass.of?_eq_operator_iff.mp isOperator, blank,
        replaced, ?_⟩
      have octets : Utf8.encode text =
          Utf8.encode (before ++ [operator]) ++ Utf8.encode blanks := by
        rw [← Utf8.encode_append, ← List.append_cons, ← cut]
      rw [trimmed, octets, List.take_left, Utf8.encode_append]

/-- Behind characters of more than one octet, and with wide blanks behind the operator. -/
example : press "é×2+\u2003\u00a0".toList '*' = "é×2*".toList := by decide

end Keypad
