/-
Module: Keypad.Formula.Tree
Layer: formulas
Purpose: The tree of a formula and its value.
Trusted boundary: none
Main exports: Operator, Operator.apply, Tree, Tree.height, Tree.value
-/
import Keypad.Formula.Failure

namespace Keypad

/-- The four operators between two operands. -/
inductive Operator where
  | add
  | sub
  | mul
  | div
deriving DecidableEq, Repr

/-- A formula as a tree: a number, a sign before a formula, or an operator
between two. -/
inductive Tree where
  | literal (value : Binary64)
  | negation (inner : Tree)
  | binary (operator : Operator) (left right : Tree)
deriving DecidableEq, Repr

/-- A number has height one, and every other node is one higher than the
highest of the trees below it. -/
def Tree.height : Tree → Nat
  | .literal _ => 1
  | .negation inner => inner.height + 1
  | .binary _ left right => 1 + max left.height right.height

/-- The result of an operator on two values.  Division by either zero fails,
whatever the dividend is. -/
def Operator.apply (operator : Operator) (left right : Binary64) :
    Except Failure Binary64 :=
  match operator with
  | .add => .ok (left.add right)
  | .sub => .ok (left.sub right)
  | .mul => .ok (left.mul right)
  | .div => if right.isZero then .error .divisionByZero else .ok (left.div right)

/-- The value of a tree.  Operands come before their operator and the left one
before the right one, so the first failure in this order is the failure of the
whole. -/
def Tree.value : Tree → Except Failure Binary64
  | .literal value => .ok value
  | .negation inner => do
      let value ← inner.value
      return value.neg
  | .binary operator left right => do
      let leftValue ← left.value
      let rightValue ← right.value
      operator.apply leftValue rightValue

end Keypad
