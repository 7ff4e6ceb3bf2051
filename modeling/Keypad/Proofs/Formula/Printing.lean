/-
Module: Keypad.Proofs.Formula.Printing
Layer: proofs
Purpose: The tokens that a tree is written with, against the grammar and the reader.
Trusted boundary: none
Main exports:
  Tree.rank, Tree.nesting, Tree.derives_tokens, Tree.nesting_le_height, parse_tokens
-/
import Keypad.Formula.Print
import Keypad.Proofs.Formula.Reading

namespace Keypad

/-!
Two things have to be seen.  A tree is written as a formula of the rank of its root, since
an operand of a lower rank than its place asks for is put in parentheses.  And what is
written nests no deeper than the tree is high: parentheses stand around operations only,
and an operation nests less deeply than it is high, which leaves room for them.
-/

namespace Operator

/-- Whether an operator puts its left operand in parentheses. -/
def groupsLeft (operator : Operator) (left : Tree) : Bool :=
  !operator.joinsTerms && left.isSum

/-- Whether an operator puts its right operand in parentheses. -/
def groupsRight (operator : Operator) (right : Tree) : Bool :=
  if operator.joinsTerms then right.isSum else right.isBinary

theorem sumOperator?_token {operator : Operator} (joins : operator.joinsTerms = true) :
    sumOperator? operator.token = some operator := by
  cases operator with
  | add | sub => rfl
  | mul | div => cases joins

theorem productOperator?_token {operator : Operator} (joins : operator.joinsTerms = false) :
    productOperator? operator.token = some operator := by
  cases operator with
  | add | sub => cases joins
  | mul | div => rfl

end Operator

namespace Tree

/-- The rank of the formulas that trees with this root are written as. -/
def rank : Tree → Rank
  | .literal _ => .factor
  | .negation _ => .factor
  | .binary operator _ _ => if operator.joinsTerms then .sum else .product

/-- How deeply the factors of what is written lie inside one another.  A sign and a pair of
parentheses open one factor each. -/
def nesting : Tree → Nat
  | .literal _ => 1
  | .negation inner => inner.nesting + inner.isBinary.toNat + 1
  | .binary operator left right =>
      max (left.nesting + (operator.groupsLeft left).toNat)
        (right.nesting + (operator.groupsRight right).toNat)

theorem isBinary_of_isSum {tree : Tree} (sum : tree.isSum = true) : tree.isBinary = true := by
  cases tree with
  | binary => rfl
  | literal | negation => cases sum

theorem isBinary_of_groupsLeft {operator : Operator} {left : Tree}
    (needed : operator.groupsLeft left = true) : left.isBinary = true :=
  isBinary_of_isSum ((Bool.and_eq_true_iff.mp needed).2)

theorem isBinary_of_groupsRight {operator : Operator} {right : Tree}
    (needed : operator.groupsRight right = true) : right.isBinary = true := by
  unfold Operator.groupsRight at needed
  split at needed
  · exact isBinary_of_isSum needed
  · exact needed

theorem rank_of_not_isBinary {tree : Tree} (single : tree.isBinary = false) :
    tree.rank = .factor := by
  cases tree with
  | literal | negation => rfl
  | binary => cases single

theorem rank_of_not_isSum {tree : Tree} (noSum : tree.isSum = false) :
    tree.rank = .factor ∨ tree.rank = .product := by
  cases tree with
  | literal | negation => exact .inl rfl
  | binary operator left right => exact .inr (if_neg (Bool.eq_false_iff.mp noSum))

end Tree

/-! ### What is written is a formula -/

/-- A formula of any rank is a sum. -/
theorem Derives.toSum {rank : Rank} {tokens : List Token} {tree : Tree} {nesting : Nat}
    (derives : Derives rank tokens tree nesting) : Derives .sum tokens tree nesting := by
  cases rank with
  | sum => exact derives
  | product => exact .sum derives
  | factor => exact .sum (.product derives)

section Operands

variable {tree : Tree} {tokens : List Token} {nesting : Nat} {needed : Bool}

/-- An operand in parentheses is a factor. -/
theorem Derives.grouped (derives : Derives tree.rank tokens tree nesting) :
    Derives .factor (Tree.grouped true tokens) tree (nesting + 1) :=
  .group derives.toSum

/-- Any operand is a sum, in parentheses or not. -/
theorem Derives.sumOperand (derives : Derives tree.rank tokens tree nesting) :
    Derives .sum (Tree.grouped needed tokens) tree (nesting + needed.toNat) := by
  cases needed with
  | true => exact derives.grouped.toSum
  | false => exact derives.toSum

/-- An operand is a factor if it is in parentheses whenever it is an operation. -/
theorem Derives.factorOperand (derives : Derives tree.rank tokens tree nesting)
    (enough : needed = false → tree.isBinary = false) :
    Derives .factor (Tree.grouped needed tokens) tree (nesting + needed.toNat) := by
  cases needed with
  | true => exact derives.grouped
  | false => exact Tree.rank_of_not_isBinary (enough rfl) ▸ derives

/-- An operand is a product if it is in parentheses whenever it is a sum. -/
theorem Derives.productOperand (derives : Derives tree.rank tokens tree nesting)
    (enough : needed = false → tree.isSum = false) :
    Derives .product (Tree.grouped needed tokens) tree (nesting + needed.toNat) := by
  cases needed with
  | true => exact .product derives.grouped
  | false =>
      rcases Tree.rank_of_not_isSum (enough rfl) with factor | product
      · exact .product (factor ▸ derives)
      · exact product ▸ derives

end Operands

namespace Tree

/-- A tree is written as a formula of the rank of its root that has this tree. -/
theorem derives_tokens (tree : Tree) : Derives tree.rank tree.tokens tree tree.nesting := by
  induction tree with
  | literal value => exact .number value
  | negation inner inductionHypothesis =>
      exact .negation (inductionHypothesis.factorOperand id)
  | binary operator left right leftHypothesis rightHypothesis =>
      cases joins : operator.joinsTerms with
      | true =>
          have rank : (binary operator left right).rank = .sum := if_pos joins
          have rightGrouped : operator.groupsRight right = right.isSum := if_pos joins
          rw [rank]
          exact .plus leftHypothesis.sumOperand (Operator.sumOperator?_token joins)
            (rightHypothesis.productOperand fun free => rightGrouped.symm.trans free)
      | false =>
          have rank : (binary operator left right).rank = .product :=
            if_neg (Bool.eq_false_iff.mp joins)
          have leftGrouped : operator.groupsLeft left = left.isSum := by
            rw [Operator.groupsLeft, joins]
            rfl
          have rightGrouped : operator.groupsRight right = right.isBinary :=
            if_neg (Bool.eq_false_iff.mp joins)
          rw [rank]
          exact .times (leftHypothesis.productOperand fun free => leftGrouped.symm.trans free)
            (Operator.productOperator?_token joins)
            (rightHypothesis.factorOperand fun free => rightGrouped.symm.trans free)

/-! ### What is written nests no deeper than the tree is high -/

/-- What stands in parentheses only if it is an operation nests no deeper than it is high,
when operations nest less deeply than they are high. -/
theorem grouped_nesting_le {tree : Tree} {needed : Bool}
    (level : tree.nesting + tree.isBinary.toNat ≤ tree.height)
    (operation : needed = true → tree.isBinary = true) :
    tree.nesting + needed.toNat ≤ tree.height := by
  cases needed with
  | true =>
      rw [operation rfl] at level
      exact level
  | false => exact Nat.le_trans (Nat.le_add_right _ _) level

/-- What is written nests no deeper than the tree is high, and an operation less deeply. -/
theorem nesting_le_height (tree : Tree) :
    tree.nesting + tree.isBinary.toNat ≤ tree.height := by
  induction tree with
  | literal value => exact Nat.le_refl 1
  | negation inner inductionHypothesis => exact Nat.succ_le_succ inductionHypothesis
  | binary operator left right leftHypothesis rightHypothesis =>
      have leftLevel : left.nesting + (operator.groupsLeft left).toNat ≤ left.height :=
        grouped_nesting_le leftHypothesis isBinary_of_groupsLeft
      have rightLevel : right.nesting + (operator.groupsRight right).toNat ≤ right.height :=
        grouped_nesting_le rightHypothesis isBinary_of_groupsRight
      simp only [nesting, height, isBinary, Bool.toNat_true]
      omega

end Tree

/-- Every tree that the limit on heights allows can be written and read back, whatever its
numbers are.  Written with the fewest parentheses it is a formula that has this tree and nests
no deeper than the tree is high.  So it is parsed as this tree unless the tree itself is too
high, and the limit on nesting never refuses it. -/
theorem parse_tokens (tree : Tree) :
    (∃ nesting, Derives .sum tree.tokens tree nesting ∧ nesting ≤ tree.height) ∧
      parse tree.tokens =
        if tree.height ≤ depthLimit then .ok tree else .error (.syntaxError .tooDeep) := by
  have derives : Derives .sum tree.tokens tree tree.nesting := tree.derives_tokens.toSum
  have shallow : tree.nesting ≤ tree.height :=
    Nat.le_trans (Nat.le_add_right _ _) tree.nesting_le_height
  have sameLimit : (tree.height ≤ depthLimit ∧ tree.nesting ≤ depthLimit) =
      (tree.height ≤ depthLimit) :=
    propext ⟨And.left, fun low => ⟨low, Nat.le_trans shallow low⟩⟩
  refine ⟨⟨tree.nesting, derives, shallow⟩, ?_⟩
  rw [parse_of_derives derives]
  simp only [sameLimit]

/-- A sign before a group uses up all of the height. -/
example (value : Binary64) :
    let tree : Tree := .negation (.binary .sub (.literal value) (.negation (.literal value)))
    tree.tokens = [.minus, .opening, .number value, .minus, .minus, .number value, .closing] ∧
      tree.nesting = tree.height :=
  ⟨rfl, rfl⟩

end Keypad
