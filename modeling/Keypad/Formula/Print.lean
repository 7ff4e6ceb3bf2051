/-
Module: Keypad.Formula.Print
Layer: formulas
Purpose: Writing a tree as tokens with the fewest parentheses.
Trusted boundary: none
Main exports: Operator.token, Tree.tokens
-/
import Keypad.Formula.Tree

namespace Keypad

namespace Operator

/-- The token that an operator is written with. -/
def token : Operator → Token
  | .add => .plus
  | .sub => .minus
  | .mul => .star
  | .div => .slash

/-- Whether an operator joins the terms of a sum. -/
def joinsTerms : Operator → Bool
  | .add => true
  | .sub => true
  | .mul => false
  | .div => false

end Operator

namespace Tree

/-- Whether the root of a tree is an operator between two operands. -/
def isBinary : Tree → Bool
  | .binary _ _ _ => true
  | _ => false

/-- Whether the root of a tree joins the terms of a sum. -/
def isSum : Tree → Bool
  | .binary operator _ _ => operator.joinsTerms
  | _ => false

/-- Tokens in parentheses where these are needed. -/
def grouped (needed : Bool) (tokens : List Token) : List Token :=
  if needed then .opening :: (tokens ++ [.closing]) else tokens

/-- The tokens of a tree.  An operand is put in parentheses only where it would
be torn apart otherwise: behind a sign any operation, beside an operator of a
product any sum and on its right any operation, and on the right of an operator
of a sum any sum. -/
def tokens : Tree → List Token
  | .literal value => [.number value]
  | .negation inner => .minus :: grouped inner.isBinary inner.tokens
  | .binary operator left right =>
      let leftNeeds := !operator.joinsTerms && left.isSum
      let rightNeeds := if operator.joinsTerms then right.isSum else right.isBinary
      grouped leftNeeds left.tokens ++ operator.token :: grouped rightNeeds right.tokens

end Tree

end Keypad
