/-
Module: Keypad.Formula.Grammar
Layer: formulas
Purpose: Which lists of tokens are formulas, said without a reader.
Trusted boundary: human-reviewed grammar
Main exports: Rank, Derives
-/
import Keypad.Formula.Parse

namespace Keypad

/-- The three ranks of the grammar. -/
inductive Rank where
  | sum
  | product
  | factor
deriving DecidableEq, Repr

/-- The grammar of formulas.  `Derives rank tokens tree nesting` says that the
tokens are a formula of the rank, that it has this tree, and that at most
`nesting` of its factors lie inside one another.

A sum is a product, or a sum and a product with an operator between them; a
product is a factor, or a product and a factor with an operator between them.
A factor is a number, a sign before a factor, or a sum in parentheses. -/
inductive Derives : Rank → List Token → Tree → Nat → Prop where
  | number (value : Binary64) :
      Derives .factor [.number value] (.literal value) 1
  | negation {tokens : List Token} {tree : Tree} {nesting : Nat} :
      Derives .factor tokens tree nesting →
      Derives .factor (.minus :: tokens) (.negation tree) (nesting + 1)
  | group {tokens : List Token} {tree : Tree} {nesting : Nat} :
      Derives .sum tokens tree nesting →
      Derives .factor (.opening :: (tokens ++ [.closing])) tree (nesting + 1)
  | product {tokens : List Token} {tree : Tree} {nesting : Nat} :
      Derives .factor tokens tree nesting →
      Derives .product tokens tree nesting
  | times {before behind : List Token} {token : Token} {operator : Operator}
      {left right : Tree} {leftNesting rightNesting : Nat} :
      Derives .product before left leftNesting →
      productOperator? token = some operator →
      Derives .factor behind right rightNesting →
      Derives .product (before ++ token :: behind) (.binary operator left right)
        (max leftNesting rightNesting)
  | sum {tokens : List Token} {tree : Tree} {nesting : Nat} :
      Derives .product tokens tree nesting →
      Derives .sum tokens tree nesting
  | plus {before behind : List Token} {token : Token} {operator : Operator}
      {left right : Tree} {leftNesting rightNesting : Nat} :
      Derives .sum before left leftNesting →
      sumOperator? token = some operator →
      Derives .product behind right rightNesting →
      Derives .sum (before ++ token :: behind) (.binary operator left right)
        (max leftNesting rightNesting)

end Keypad
