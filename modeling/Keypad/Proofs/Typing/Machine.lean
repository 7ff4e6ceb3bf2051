/-
Module: Keypad.Proofs.Typing.Machine
Layer: proofs
Purpose: Typing as a machine whose states are the positions.
Trusted boundary: none
Main exports:
  pressAll, Position.next, Position.run, of_press, pressAll_run, typing_is_finite_machine
-/
import Keypad.Proofs.Typing.Press

namespace Keypad

/-!
The position is found anew in the whole text at each key, though it needs not be: the one
behind a key is known from the one before it and from the key.  For an appended key this is
`Position.of_concat`.  A key that replaces an operator is one itself and stands where that
one stood, so the position remains behind an operator, whatever was replaced.
-/

/-- Types keys behind a text one after the other: the decisions on them, and the text behind
the last one. -/
def pressAll (text : Text) : Text → List Decision × Text
  | [] => ([], text)
  | key :: keys =>
      let typed := pressAll (press text key) keys
      (accept text key :: typed.1, typed.2)

theorem pressAll_cons (text : Text) (key : Char) (keys : Text) :
    pressAll text (key :: keys) =
      (accept text key :: (pressAll (press text key) keys).1,
        (pressAll (press text key) keys).2) := rfl

namespace Position

/-- The position behind a key.  Only a key that is appended moves it. -/
def next (position : Position) (key : Char) : Position :=
  match position.decide key with
  | .append => position.behindKey key
  | .replaceLast => position
  | .reject => position

/-- The decisions on keys from a position on, and the position behind the last one. -/
def run (position : Position) : Text → List Decision × Position
  | [] => ([], position)
  | key :: keys =>
      let rest := (position.next key).run keys
      (position.decide key :: rest.1, rest.2)

/-- Behind an operator that is not the minus stands no sign, wherever it stands. -/
theorem behindKey_operator (position : Position) {key : Char}
    (operator : KeyClass.of? key = some .operator) (notMinus : key ≠ '-') :
    position.behindKey key = .operator := by
  simp [behindKey, operator, notMinus]

end Position

/-- The position behind a key is given by the position before it and by the key. -/
theorem of_press (text : Text) (key : Char) :
    Position.of (press text key) = (Position.of text).next key := by
  have decided : (Position.of text).decide key = accept text key := rfl
  rw [Position.next, decided]
  cases decision : accept text key with
  | append =>
      obtain ⟨appended, significant⟩ := press_of_append decision
      rw [appended]
      exact Position.of_concat text significant
  | reject => rw [press_of_reject decision]
  | replaceLast =>
      obtain ⟨operator, notMinus, position⟩ := Position.decide_eq_replaceLast_iff.mp decision
      obtain ⟨before, _, _, _, _, _, _, replaced⟩ := press_of_replaceLast decision
      have significant : isBlank key = false :=
        KeyClass.significant (operator ▸ Option.some_ne_none _)
      rw [replaced, Position.of_concat before significant,
        Position.behindKey_operator _ operator notMinus, position]

/-- Typing behind a text runs the machine from the position at its end. -/
theorem pressAll_run (keys : Text) : ∀ text : Text,
    ((pressAll text keys).1, Position.of (pressAll text keys).2) = (Position.of text).run keys := by
  induction keys with
  | nil => intro text; rfl
  | cons key keys inductionHypothesis =>
      intro text
      have rest := inductionHypothesis (press text key)
      rw [of_press] at rest
      rw [pressAll_cons, Position.run, ← rest]
      rfl

/-- Typing is a finite machine: its states are the seven positions, and nothing else of the
text so far has any influence on it.  Behind two texts that end in one position all keys meet
with the same decisions and lead to one position again. -/
theorem typing_is_finite_machine {text other : Text}
    (same : Position.of text = Position.of other) (keys : Text) :
    (pressAll text keys).1 = (pressAll other keys).1 ∧
    Position.of (pressAll text keys).2 = Position.of (pressAll other keys).2 ∧
    ((pressAll text keys).1, Position.of (pressAll text keys).2) = (Position.of text).run keys ∧
    ∀ key, Position.of (press text key) = (Position.of text).next key := by
  have run := pressAll_run keys text
  have both : ((pressAll text keys).1, Position.of (pressAll text keys).2) =
      ((pressAll other keys).1, Position.of (pressAll other keys).2) := by
    rw [run, pressAll_run keys other, same]
  obtain ⟨decisions, position⟩ := Prod.mk.inj both
  exact ⟨decisions, position, run, of_press text⟩

/-- An operator before blanks, and a minus behind a foreign character. -/
theorem typing_is_finite_machine_behind_operators :
    Position.of "3 + ".toList = Position.of "é-".toList ∧
      (pressAll "3 + ".toList "*-+5 ".toList).1 =
        [.replaceLast, .append, .reject, .append, .reject] ∧
      (pressAll "é-".toList "*-+5 ".toList).1 =
        [.replaceLast, .append, .reject, .append, .reject] ∧
      Position.of (pressAll "é-".toList "*-+5 ".toList).2 = .digit := by
  have same : Position.of "3 + ".toList = Position.of "é-".toList := by decide
  obtain ⟨decisions, position, _⟩ := typing_is_finite_machine same "*-+5 ".toList
  have first : (pressAll "3 + ".toList "*-+5 ".toList).1 =
      [.replaceLast, .append, .reject, .append, .reject] := by decide
  exact ⟨same, first, decisions ▸ first, position ▸ by decide⟩

end Keypad
