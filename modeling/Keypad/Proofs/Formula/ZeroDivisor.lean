/-
Module: Keypad.Proofs.Formula.ZeroDivisor
Layer: proofs
Purpose: Which trees have no value, and why.
Trusted boundary: none
Main exports:
  Tree.subtrees, Tree.DividesByZero, Operator.apply_eq_error_iff, Tree.value_eq_error_iff
-/
import Keypad.Proofs.Number.ZeroSign

namespace Keypad

/-!
A tree fails where an operand on the right of a division comes out as zero, wherever that is in
the tree.  Which of several such divisions is found first makes no difference, since all fail in
the same way.
-/

namespace Tree

/-- A tree and all trees below it. -/
def subtrees : Tree → List Tree
  | .literal value => [.literal value]
  | .negation inner => .negation inner :: inner.subtrees
  | .binary operator left right =>
      .binary operator left right :: (left.subtrees ++ right.subtrees)

/-- Somewhere in a tree is a division whose right operand has the value zero, of either
sign. -/
def DividesByZero (tree : Tree) : Prop :=
  ∃ left right negative, .binary .div left right ∈ tree.subtrees ∧
    right.value = .ok (.zero negative)

variable {operator : Operator} {inner left right : Tree}

theorem not_dividesByZero_literal (value : Binary64) : ¬(literal value).DividesByZero := by
  rintro ⟨left, right, negative, member, _⟩
  cases List.mem_singleton.mp member

theorem dividesByZero_negation : (negation inner).DividesByZero ↔ inner.DividesByZero := by
  simp [DividesByZero, subtrees]

/-- A tree with an operator at its root divides by zero below the root, or there. -/
theorem dividesByZero_binary :
    (binary operator left right).DividesByZero ↔
      left.DividesByZero ∨ right.DividesByZero ∨
        operator = .div ∧ ∃ negative, right.value = .ok (.zero negative) := by
  simp only [DividesByZero, subtrees, List.mem_cons, List.mem_append, Tree.binary.injEq]
  constructor
  · rintro ⟨other, divisor, negative, ⟨rfl, rfl, rfl⟩ | inLeft | inRight, zero⟩
    · exact .inr (.inr ⟨rfl, negative, zero⟩)
    · exact .inl ⟨other, divisor, negative, inLeft, zero⟩
    · exact .inr (.inl ⟨other, divisor, negative, inRight, zero⟩)
  · rintro (⟨other, divisor, negative, inLeft, zero⟩ | ⟨other, divisor, negative, inRight, zero⟩ |
      ⟨rfl, negative, zero⟩)
    · exact ⟨other, divisor, negative, .inr (.inl inLeft), zero⟩
    · exact ⟨other, divisor, negative, .inr (.inr inRight), zero⟩
    · exact ⟨left, right, negative, .inl ⟨rfl, rfl, rfl⟩, zero⟩

end Tree

/-- Only a division by one of the zeros fails. -/
theorem Operator.apply_eq_error_iff {operator : Operator} {left right : Binary64}
    {failure : Failure} :
    operator.apply left right = .error failure ↔
      (operator = .div ∧ ∃ negative, right = .zero negative) ∧ failure = .divisionByZero := by
  have isZero_iff : right.isZero = true ↔ ∃ negative, right = .zero negative := by
    constructor
    · exact Binary64.eq_zero_of_isZero
    · rintro ⟨negative, rfl⟩
      rfl
  cases operator with
  | add => simp [apply]
  | sub => simp [apply]
  | mul => simp [apply]
  | div =>
      rw [apply, ← isZero_iff]
      cases right.isZero <;> simp [eq_comm]

/-- A tree fails exactly if it divides by zero, and always in the same way. -/
theorem Tree.value_eq_error_iff (tree : Tree) {failure : Failure} :
    tree.value = .error failure ↔ tree.DividesByZero ∧ failure = .divisionByZero := by
  induction tree generalizing failure with
  | literal value =>
      have whole := not_dividesByZero_literal value
      simp [Tree.value, whole]
  | negation inner inductionHypothesis =>
      rw [Tree.value, bind_eq_error_iff, inductionHypothesis, dividesByZero_negation]
      simp [pure, Except.pure]
  | binary operator left right leftHypothesis rightHypothesis =>
      simp only [Tree.value, bind_eq_error_iff, leftHypothesis, rightHypothesis,
        Operator.apply_eq_error_iff, dividesByZero_binary]
      constructor
      · rintro (⟨below, same⟩ | ⟨_, _, ⟨below, same⟩ | ⟨_, found, ⟨division, negative, rfl⟩, same⟩⟩)
        · exact ⟨.inl below, same⟩
        · exact ⟨.inr (.inl below), same⟩
        · exact ⟨.inr (.inr ⟨division, negative, found⟩), same⟩
      · rintro ⟨below, rfl⟩
        -- What is below the left operand is found first, whatever is on the right.
        cases leftValue : left.value with
        | error failure => exact .inl ⟨(leftHypothesis.mp leftValue).1, rfl⟩
        | ok value =>
            refine .inr ⟨value, rfl, ?_⟩
            rcases below with inLeft | inRight | ⟨division, negative, zero⟩
            · cases leftValue.symm.trans (leftHypothesis.mpr ⟨inLeft, rfl⟩)
            · exact .inl ⟨inRight, rfl⟩
            · exact .inr ⟨_, zero, ⟨division, negative, rfl⟩, rfl⟩

end Keypad
