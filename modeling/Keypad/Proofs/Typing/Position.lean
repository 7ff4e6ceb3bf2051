/-
Module: Keypad.Proofs.Typing.Position
Layer: proofs
Purpose: The position at the end of a text from key to key, and the keys that are
  appended there.
Trusted boundary: none
Main exports:
  Position.endsOperand, Position.behindKey, Position.of_concat,
  Position.decide_eq_append_iff, Position.decide_eq_replaceLast_iff,
  endsOperand_of_operator
-/
import Keypad.Keystroke
import Keypad.Proofs.Text.Blank

namespace Keypad

/-!
A position is found anew from the end of the whole text at each key.  It is also
given by the position before and the character typed there, and of the position
before it only counts whether an operand may end at it.
-/

/-! ### Classes of keys -/

theorem KeyClass.of?_digit {key : Char} (digit : key.isDigit = true) :
    KeyClass.of? key = some .digit := if_pos digit

/-- The class of operators has four characters. -/
theorem KeyClass.of?_eq_operator_iff {key : Char} :
    KeyClass.of? key = some .operator ↔ key ∈ ['+', '-', '*', '/'] := by
  constructor
  · intro operator
    unfold KeyClass.of? at operator
    split at operator
    · cases operator
    · split at operator <;> first | decide | cases operator
  · intro member
    simp only [List.mem_cons, List.not_mem_nil, or_false] at member
    rcases member with rfl | rfl | rfl | rfl <;> rfl

/-- Opening parentheses have a class of their own. -/
theorem KeyClass.of?_eq_openParen_iff {key : Char} :
    KeyClass.of? key = some .openParen ↔ key = '(' := by
  constructor
  · intro openParen
    unfold KeyClass.of? at openParen
    split at openParen
    · cases openParen
    · split at openParen <;> first | rfl | cases openParen
  · rintro rfl
    rfl

/-- The keys that formulas are typed with are the digits and seven others. -/
theorem KeyClass.of?_ne_none_iff {key : Char} :
    KeyClass.of? key ≠ none ↔
      key.isDigit = true ∨ key ∈ ['.', '+', '-', '*', '/', '(', ')'] := by
  constructor
  · intro known
    by_cases digit : key.isDigit = true
    · exact .inl digit
    · right
      unfold KeyClass.of? at known
      rw [if_neg digit] at known
      split at known <;> first | exact absurd rfl known | decide
  · rintro (digit | member)
    · rw [of?_digit digit]
      exact Option.some_ne_none _
    · simp only [List.mem_cons, List.not_mem_nil, or_false] at member
      rcases member with rfl | rfl | rfl | rfl | rfl | rfl | rfl <;> decide

/-- A blank is not among the keys that formulas are typed with. -/
theorem KeyClass.of?_blank {key : Char} (blank : isBlank key = true) :
    KeyClass.of? key = none := by
  by_contra known
  rcases of?_ne_none_iff.mp known with digit | member
  · cases digit.symm.trans (not_literal_of_blank blank).1
  · simp only [List.mem_cons, List.not_mem_nil, or_false] at member
    rcases member with rfl | rfl | rfl | rfl | rfl | rfl | rfl <;>
      exact absurd blank (by decide)

/-- The keys that formulas are typed with are not blank. -/
theorem KeyClass.significant {key : Char} (known : KeyClass.of? key ≠ none) :
    isBlank key = false := by
  by_contra blank
  exact known (of?_blank (Bool.not_eq_false _ ▸ blank))

/-! ### Positions from key to key -/

namespace Position

/-- Whether an operand may be complete at a position. -/
def endsOperand : Position → Bool
  | .digit => true
  | .dot => true
  | .closeParen => true
  | _ => false

/-- The position one character further on. -/
def behindKey (position : Position) (key : Char) : Position :=
  match KeyClass.of? key with
  | some .digit => .digit
  | some .dot => .dot
  | some .openParen => .openParen
  | some .closeParen => .closeParen
  | some .operator => if key = '-' && !position.endsOperand then .sign else .operator
  | none => .digit

/-- A minus is a sign where no operand is complete. -/
theorem signFollows_head (before : Text) :
    signFollows before.head? = !(behind before).endsOperand := by
  cases before with
  | nil => rfl
  | cons last before =>
      rw [List.head?_cons, signFollows, behind]
      cases KeyClass.of? last with
      | none => rfl
      | some keyClass =>
          cases keyClass with
          | operator =>
              dsimp only
              split <;> rfl
          | digit => rfl
          | dot => rfl
          | openParen => rfl
          | closeParen => rfl

/-- The position behind one more character depends on the position before it and on
the character. -/
theorem of_concat (text : Text) {key : Char} (significant : isBlank key = false) :
    of (text ++ [key]) = (of text).behindKey key := by
  have reversed : (Text.strip (text ++ [key])).reverse = key :: text.strip.reverse := by
    rw [Text.strip_append, Text.strip_significant significant, Text.strip_nil,
      List.reverse_append]
    rfl
  rw [of, reversed, behind, signFollows_head]
  rfl

/-- A key is appended when it has a class, and where no operand is complete it is
no operator but the minus. -/
theorem decide_eq_append_iff {position : Position} {key : Char} :
    position.decide key = .append ↔
      KeyClass.of? key ≠ none ∧
        (KeyClass.of? key = some .operator → key = '-' ∨ position.endsOperand = true) := by
  unfold decide
  cases KeyClass.of? key with
  | none => simp
  | some keyClass =>
      cases keyClass with
      | operator =>
          by_cases minus : key = '-'
          · simp [minus]
          · cases position <;> simp [minus, awaitsOperand, endsOperand]
      | digit => simp
      | dot => simp
      | openParen => simp
      | closeParen => simp

/-- A key takes the place of the last one when both are operators between operands,
and it is not the minus. -/
theorem decide_eq_replaceLast_iff {position : Position} {key : Char} :
    position.decide key = .replaceLast ↔
      KeyClass.of? key = some .operator ∧ key ≠ '-' ∧ position = .operator := by
  unfold decide
  cases KeyClass.of? key with
  | none => simp
  | some keyClass =>
      cases keyClass with
      | operator =>
          by_cases minus : key = '-'
          · simp [minus]
          · cases position <;> simp [minus, awaitsOperand]
      | digit => simp
      | dot => simp
      | openParen => simp
      | closeParen => simp

/-- Behind a digit, a point and a closing parenthesis an operand may be complete,
behind an operator and an opening one it is not. -/
theorem endsOperand_behindKey {position : Position} {key : Char} :
    (position.behindKey key).endsOperand = true ↔
      KeyClass.of? key ≠ some .operator ∧ KeyClass.of? key ≠ some .openParen := by
  unfold behindKey
  cases KeyClass.of? key with
  | none => simp [endsOperand]
  | some keyClass =>
      cases keyClass with
      | operator =>
          dsimp only
          split <;> simp [endsOperand]
      | digit => simp [endsOperand]
      | dot => simp [endsOperand]
      | openParen => simp [endsOperand]
      | closeParen => simp [endsOperand]

end Position

/-- Where an operator between operands was appended, an operand was complete. -/
theorem endsOperand_of_operator {text : Text} {last : Char}
    (appended : accept text last = .append) (operator : Position.of (text ++ [last]) = .operator) :
    (Position.of text).endsOperand = true := by
  obtain ⟨known, joins⟩ := Position.decide_eq_append_iff.mp appended
  rw [Position.of_concat text (KeyClass.significant known), Position.behindKey] at operator
  cases keyClass : KeyClass.of? last with
  | none => exact absurd keyClass known
  | some _ =>
      rw [keyClass] at operator joins
      split at operator <;> try cases operator
      rename_i same
      rcases joins same with rfl | ends
      · by_contra open_
        simp [open_] at operator
      · exact ends

end Keypad
