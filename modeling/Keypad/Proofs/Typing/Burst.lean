/-
Module: Keypad.Proofs.Typing.Burst
Layer: proofs
Purpose: What several operator keys in a row leave behind a text.
Trusted boundary: human-reviewed closed form
Main exports: burst, burst_replaced, burst_signs, typed_signs, typed_operator, typed_burst
-/
import Keypad.Proofs.Typing.Machine

namespace Keypad

/-!
Of the operators typed behind an operand each takes the place of the one before it, until a
minus follows one and is a sign.  Behind a sign only minuses are accepted, and all of them are
signs.  So there are two inductions on the keys: one behind a sign, where the text only grows,
and one behind an operator, which goes on until it gets to the first sign.
-/

/-- What operator keys leave behind an operand.  If none of the keys behind the first one is a
minus, it is the last key.  Otherwise it is the key before the first such minus, and this
minus and all that come behind it. -/
def burst (first : Char) (keys : Text) : Text :=
  let replacing := keys.takeWhile (· != '-')
  let signs := keys.dropWhile (· != '-')
  replacing.getLastD first :: List.replicate (signs.count '-') '-'

/-- A key takes the place of the one before it if it is no minus. -/
theorem burst_replaced (first : Char) {key : Char} (keys : Text) (notMinus : key ≠ '-') :
    burst first (key :: keys) = burst key keys := by
  have passes : (key != '-') = true := bne_iff_ne.mpr notMinus
  simp only [burst, List.takeWhile_cons, List.dropWhile_cons, passes, if_true,
    List.getLastD_cons]

/-- The first minus behind a key is a sign, and so are all behind it. -/
theorem burst_signs (first : Char) (keys : Text) :
    burst first ('-' :: keys) = first :: List.replicate (('-' :: keys).count '-') '-' := by
  simp [burst]

/-! ### Positions under operator keys -/

namespace Position

/-- Where an operand is awaited none is complete. -/
theorem not_endsOperand_of_awaits {position : Position}
    (awaits : position.awaitsOperand = true) : position.endsOperand = false := by
  cases position with
  | empty | openParen | sign => rfl
  | digit | dot | operator | closeParen => cases awaits

/-- A minus where an operand is awaited is a sign. -/
theorem behindKey_sign {position : Position} (open_ : position.endsOperand = false) :
    position.behindKey '-' = .sign := by
  have keyClass : KeyClass.of? '-' = some .operator := rfl
  simp [behindKey, keyClass, open_]

/-- Any operator behind a complete operand is one between operands. -/
theorem behindKey_of_endsOperand {position : Position} {key : Char}
    (operator : KeyClass.of? key = some .operator) (ends : position.endsOperand = true) :
    position.behindKey key = .operator := by
  simp [behindKey, operator, ends]

end Position

section Keys

variable {text : Text} {key : Char}

/-- A minus is appended at any position. -/
theorem press_minus (text : Text) : press text '-' = text ++ ['-'] := by
  apply (press_of_append _).1
  exact Position.decide_eq_append_iff.mpr ⟨by decide, fun _ => .inl rfl⟩

/-- Another operator is rejected where an operand is awaited. -/
theorem press_awaiting (operator : KeyClass.of? key = some .operator) (notMinus : key ≠ '-')
    (awaits : (Position.of text).awaitsOperand = true) : press text key = text := by
  apply press_of_reject
  simp [accept, Position.decide, operator, notMinus, awaits]

/-- Any operator is appended behind a complete operand. -/
theorem press_complete (operator : KeyClass.of? key = some .operator)
    (ends : (Position.of text).endsOperand = true) : press text key = text ++ [key] := by
  apply (press_of_append _).1
  exact Position.decide_eq_append_iff.mpr ⟨operator ▸ Option.some_ne_none _, fun _ => .inr ends⟩

/-- Another operator than the minus takes the place of the operator that it follows. -/
theorem press_operator {before : Text} {last : Char} (significant : isBlank last = false)
    (operator : KeyClass.of? key = some .operator) (notMinus : key ≠ '-')
    (position : Position.of (before ++ [last]) = .operator) :
    press (before ++ [last]) key = before ++ [key] := by
  have replaced : accept (before ++ [last]) key = .replaceLast :=
    Position.decide_eq_replaceLast_iff.mpr ⟨operator, notMinus, position⟩
  rw [press, replaced, Decision.applyTo, Text.trimEnd_blanks before significant (List.forall_mem_nil _),
    List.dropLast_concat]

end Keys

/-! ### Runs of operator keys -/

/-- Where an operand is awaited only the minuses are left, as signs. -/
theorem typed_signs {keys : Text} :
    ∀ {text : Text}, (∀ key ∈ keys, KeyClass.of? key = some .operator) →
      (Position.of text).awaitsOperand = true →
        (pressAll text keys).2 = text ++ List.replicate (keys.count '-') '-' := by
  induction keys with
  | nil =>
      intro text _ _
      exact (List.append_nil text).symm
  | cons key keys inductionHypothesis =>
      intro text operators awaits
      have rest := fun other member => operators other (List.mem_cons_of_mem key member)
      rw [pressAll_cons]
      by_cases minus : key = '-'
      · subst minus
        have sign : Position.of (text ++ ['-']) = .sign := by
          rw [Position.of_concat text (by decide)]
          exact Position.behindKey_sign (Position.not_endsOperand_of_awaits awaits)
        have awaitsBehind : (Position.of (text ++ ['-'])).awaitsOperand = true := by
          rw [sign]
          rfl
        rw [press_minus, inductionHypothesis rest awaitsBehind, List.count_cons_self,
          List.replicate_succ, List.append_assoc, List.singleton_append]
      · rw [press_awaiting (operators key List.mem_cons_self) minus awaits,
          inductionHypothesis rest awaits, List.count_cons_of_ne minus]

/-- Behind an operator the keys leave what they leave behind it and an operand. -/
theorem typed_operator {keys : Text} :
    ∀ {before : Text} {last : Char}, (∀ key ∈ keys, KeyClass.of? key = some .operator) →
      isBlank last = false → Position.of (before ++ [last]) = .operator →
        (pressAll (before ++ [last]) keys).2 = before ++ burst last keys := by
  induction keys with
  | nil =>
      intro before last _ _ _
      rfl
  | cons key keys inductionHypothesis =>
      intro before last operators significant position
      have operator := operators key List.mem_cons_self
      have rest := fun other member => operators other (List.mem_cons_of_mem key member)
      rw [pressAll_cons]
      by_cases minus : key = '-'
      · -- from here on all minuses are signs
        subst minus
        have sign : Position.of (before ++ [last] ++ ['-']) = .sign := by
          rw [Position.of_concat _ (by decide), position]
          rfl
        have awaits : (Position.of (before ++ [last] ++ ['-'])).awaitsOperand = true := by
          rw [sign]
          rfl
        rw [press_minus, typed_signs rest awaits, burst_signs, List.count_cons_self,
          List.replicate_succ]
        simp only [List.append_assoc, List.cons_append, List.nil_append]
      · have keySignificant : isBlank key = false :=
          KeyClass.significant (operator ▸ Option.some_ne_none _)
        have behind : Position.of (before ++ [key]) = .operator := by
          rw [Position.of_concat before keySignificant]
          exact Position.behindKey_operator _ operator minus
        rw [press_operator significant operator minus position,
          inductionHypothesis rest keySignificant behind, burst_replaced last keys minus]

/-- What a burst of operator keys does to any text.  Behind a digit, a point or a closing
parenthesis the keys leave their `burst`.  At the beginning, behind an opening parenthesis
and behind a sign only the minuses are left.  Behind an operator, with no blanks behind it,
the keys leave the burst that begins with this operator. -/
theorem typed_burst (text : Text) (first : Char) (keys : Text)
    (operators : ∀ key ∈ first :: keys, key ∈ ['+', '-', '*', '/']) :
    ((Position.of text).endsOperand = true →
      (pressAll text (first :: keys)).2 = text ++ burst first keys) ∧
    ((Position.of text).awaitsOperand = true →
      (pressAll text (first :: keys)).2 =
        text ++ List.replicate ((first :: keys).count '-') '-') ∧
    ∀ before operator, text = before ++ [operator] → isBlank operator = false →
      Position.of text = .operator →
        (pressAll text (first :: keys)).2 = before ++ burst operator (first :: keys) := by
  have known : ∀ key ∈ first :: keys, KeyClass.of? key = some .operator :=
    fun key member => KeyClass.of?_eq_operator_iff.mpr (operators key member)
  refine ⟨fun ends => ?_, typed_signs known, ?_⟩
  · have operator := known first List.mem_cons_self
    have significant : isBlank first = false :=
      KeyClass.significant (operator ▸ Option.some_ne_none _)
    have position : Position.of (text ++ [first]) = .operator := by
      rw [Position.of_concat text significant]
      exact Position.behindKey_of_endsOperand operator ends
    rw [pressAll_cons, press_complete operator ends]
    exact typed_operator (fun key member => known key (List.mem_cons_of_mem first member))
      significant position
  · rintro before operator rfl significant position
    exact typed_operator known significant position

/-- One burst in each of the three places: behind a digit and a blank, in a group, and behind
a minus between operands. -/
theorem typed_burst_places :
    (pressAll "3 ".toList "*-+-".toList).2 = "3 *--".toList ∧
      (pressAll "2*(".toList "+-*-".toList).2 = "2*(--".toList ∧
      (pressAll "3-".toList "+*-/-".toList).2 = "3*--".toList := by
  have operators (keys : Text) (all : keys.all "+-*/".toList.contains = true) :
      ∀ key ∈ keys, key ∈ ['+', '-', '*', '/'] :=
    fun key member => List.contains_iff_mem.mp (List.all_eq_true.mp all key member)
  refine ⟨?_, ?_, ?_⟩
  · have behindDigit := (typed_burst "3 ".toList '*' "-+-".toList (operators _ (by decide))).1
    exact (behindDigit (by decide)).trans (by decide)
  · have inGroup := (typed_burst "2*(".toList '+' "-*-".toList (operators _ (by decide))).2.1
    exact (inGroup (by decide)).trans (by decide)
  · have behindMinus := (typed_burst "3-".toList '+' "*-/-".toList (operators _ (by decide))).2.2
    exact (behindMinus ['3'] '-' rfl (by decide) (by decide)).trans (by decide)

end Keypad
