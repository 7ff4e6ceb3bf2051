/-
Module: Keypad.Proofs.Formula.Postorder
Layer: proofs
Purpose: The value of a tree against the arithmetic of its numbers in postorder.
Trusted boundary: none
Main exports:
  Operator.compute, StackStep, Tree.postorder, Tree.run_postorder,
  fails_exactly_by_zero_divisor
-/
import Keypad.Proofs.Formula.Evaluate

namespace Keypad

/-!
Arithmetic alone never fails: a double divided by zero is an infinity or no number.  So the
numbers, signs and operators of any tree can be reckoned with on a stack, in the order in which
operands come before their operators.  For a tree that does not divide by zero this is its value.
-/

/-- The result of an operator by the arithmetic of doubles alone. -/
def Operator.compute (operator : Operator) (left right : Binary64) : Binary64 :=
  match operator with
  | .add => left.add right
  | .sub => left.sub right
  | .mul => left.mul right
  | .div => left.div right

/-- What an operator that does not fail gives is the arithmetic alone. -/
theorem Operator.compute_of_apply {operator : Operator} {left right value : Binary64}
    (applied : operator.apply left right = .ok value) : operator.compute left right = value := by
  cases operator with
  | add => exact Except.ok.inj applied
  | sub => exact Except.ok.inj applied
  | mul => exact Except.ok.inj applied
  | div =>
      rw [apply] at applied
      split at applied
      · cases applied
      · exact Except.ok.inj applied

/-- A step of reckoning on a stack of doubles. -/
inductive StackStep where
  | push (value : Binary64)
  | negate
  | combine (operator : Operator)
deriving DecidableEq, Repr

namespace StackStep

/-- Does one step on a stack, whose top is first.  There is none where the operands are not
on the stack. -/
def apply : List Binary64 → StackStep → Option (List Binary64)
  | stack, .push value => some (value :: stack)
  | value :: stack, .negate => some (value.neg :: stack)
  | right :: left :: stack, .combine operator => some (operator.compute left right :: stack)
  | _, _ => none

/-- Does steps one after another. -/
def run (steps : List StackStep) (stack : List Binary64) : Option (List Binary64) :=
  steps.foldlM apply stack

end StackStep

/-- The numbers, signs and operators of a tree in postorder: what belongs to the operands
comes before their operator, and what belongs to the left one before the right one. -/
def Tree.postorder : Tree → List StackStep
  | .literal value => [.push value]
  | .negation inner => inner.postorder ++ [.negate]
  | .binary operator left right => left.postorder ++ right.postorder ++ [.combine operator]

/-- In postorder the value of a tree is put on top of what is on the stack. -/
theorem Tree.run_postorder (tree : Tree) {value : Binary64} (found : tree.value = .ok value) :
    ∀ steps stack,
      StackStep.run (tree.postorder ++ steps) stack = StackStep.run steps (value :: stack) := by
  induction tree generalizing value with
  | literal literal =>
      intro steps stack
      cases found
      rfl
  | negation inner inductionHypothesis =>
      intro steps stack
      obtain ⟨operand, innerFound, same⟩ := bind_eq_ok_iff.mp found
      cases same
      rw [postorder, List.append_assoc, inductionHypothesis innerFound]
      rfl
  | binary operator left right leftHypothesis rightHypothesis =>
      intro steps stack
      obtain ⟨leftValue, leftFound, rest⟩ := bind_eq_ok_iff.mp found
      obtain ⟨rightValue, rightFound, applied⟩ := bind_eq_ok_iff.mp rest
      rw [postorder, List.append_assoc, List.append_assoc, leftHypothesis leftFound,
        rightHypothesis rightFound, ← Operator.compute_of_apply applied]
      rfl

/-- A tree has no value exactly if somewhere in it an operand on the right of a division has
the value zero, and then it fails by a division by zero.  Otherwise its value is what its
numbers, signs and operators come to in postorder by the arithmetic of doubles.  So the text of
a tree is evaluated to a division by zero exactly in this case, to an overflow exactly if the
value of the tree is not finite, and to this value otherwise. -/
theorem fails_exactly_by_zero_divisor (tree : Tree) :
    ((∃ failure, tree.value = .error failure) ↔ tree.DividesByZero) ∧
    (∀ failure, tree.value = .error failure → failure = .divisionByZero) ∧
    (¬tree.DividesByZero →
      ∃ value, tree.value = .ok value ∧ StackStep.run tree.postorder [] = some [value]) ∧
    ∀ text, (∃ tokens, Token.scan text = .ok tokens ∧ parse tokens = .ok tree) →
      (evaluate text = .error .divisionByZero ↔ tree.DividesByZero) ∧
      (evaluate text = .error .overflow ↔
        ∃ value, tree.value = .ok value ∧ value.isFinite = false) ∧
      (∀ value, evaluate text = .ok value ↔ tree.value = .ok value ∧ value.isFinite = true) ∧
      ((∃ value, evaluate text = .ok value) ↔
        evaluate text ≠ .error .divisionByZero ∧ evaluate text ≠ .error .overflow) := by
  have fails : (∃ failure, tree.value = .error failure) ↔ tree.DividesByZero := by
    simp [tree.value_eq_error_iff]
  refine ⟨fails, fun failure failed => (tree.value_eq_error_iff.mp failed).2, ?_, ?_⟩
  · intro whole
    cases found : tree.value with
    | error failure => exact absurd (fails.mp ⟨failure, found⟩) whole
    | ok value =>
        have run := tree.run_postorder found [] []
        rw [List.append_nil] at run
        exact ⟨value, rfl, run⟩
  · rintro text ⟨tokens, scanned, parsed⟩
    rw [evaluate_of_spells (Token.scan_eq_ok_iff.mp scanned) parsed]
    cases found : tree.value with
    | error failure =>
        obtain ⟨divides, rfl⟩ := tree.value_eq_error_iff.mp found
        simp [divides]
    | ok value =>
        have whole : ¬tree.DividesByZero := by
          intro divides
          cases found.symm.trans (tree.value_eq_error_iff.mpr ⟨divides, rfl⟩)
        cases finite : value.isFinite <;> simp [whole, finite]

/-- Eight is divided by the negative zero that `-(2-2)` comes to, and the negation of the quotient
has no value either; with another sum behind the sign it has one. -/
theorem fails_exactly_by_zero_divisor_signed :
    let eight : Tree := .literal (.ofNat 8)
    let two : Tree := .literal (.ofNat 2)
    let failing : Tree := .negation (.binary .div eight (.negation (.binary .sub two two)))
    let whole : Tree := .negation (.binary .div eight (.negation (.binary .add two two)))
    (∃ tokens, Token.scan "-(8/-(2-2))".toList = .ok tokens ∧ parse tokens = .ok failing) ∧
      failing.DividesByZero ∧ evaluate "-(8/-(2-2))".toList = .error .divisionByZero ∧
      ¬whole.DividesByZero ∧ StackStep.run whole.postorder [] = some [.ofNat 2] := by
  intro eight two failing whole
  have reads : ∃ tokens, Token.scan "-(8/-(2-2))".toList = .ok tokens ∧
      parse tokens = .ok failing :=
    ⟨[.minus, .opening, .number (.ofNat 8), .slash, .minus, .opening, .number (.ofNat 2), .minus,
      .number (.ofNat 2), .closing, .closing], by decide +kernel, by decide +kernel⟩
  have failed : failing.value = .error .divisionByZero := by decide +kernel
  have found : whole.value = .ok (.ofNat 2) := by decide +kernel
  obtain ⟨fails, _, _, texts⟩ := fails_exactly_by_zero_divisor failing
  have divides : failing.DividesByZero := fails.mp ⟨_, failed⟩
  obtain ⟨wholeFails, _, value, _⟩ := fails_exactly_by_zero_divisor whole
  have undivided : ¬whole.DividesByZero := by
    intro divides
    obtain ⟨failure, failed⟩ := wholeFails.mpr divides
    cases found.symm.trans failed
  obtain ⟨result, same, run⟩ := value undivided
  obtain rfl : Binary64.ofNat 2 = result := Except.ok.inj (found.symm.trans same)
  exact ⟨reads, divides, (texts _ reads).1.mpr divides, undivided, run⟩

end Keypad
