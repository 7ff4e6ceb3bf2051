/-
Module: Keypad.Formula.Parse
Layer: formulas
Purpose: Reading a list of tokens as a tree, within limits on height and nesting, and from
  the text of a formula to its value.
Trusted boundary: none
Main exports: depthLimit, Sized, Reader, chain, factor, term, expression, parse, evaluate
-/
import Keypad.Formula.Scan
import Keypad.Formula.Tree

namespace Keypad

/-!
A formula is a sum of products of factors.  Operators of one rank join their
operands from left to right.  A factor is a number, a sign before a factor, or
a group in parentheses.

Two limits keep formulas shallow: no tree is higher than `depthLimit`, and no
factor lies inside more than `depthLimit - 1` others.  All readers are told the
limit on the height of trees.  A reader of factors is also told how many more
factors may be opened, and the reader for the factors inside it is the one with
one less, so reading needs no counter of its own.
-/

/-- The limit on the height of a tree and on the nesting of factors. -/
def depthLimit : Nat := 512

/-- A tree with its height. -/
structure Sized where
  tree : Tree
  height : Nat
deriving DecidableEq, Repr

/-- Reads a tree from the head of a list of tokens and leaves the other tokens. -/
abbrev Reader := List Token → Except Failure (Sized × List Token)

/-- The operator of a sum that a token stands for. -/
def sumOperator? : Token → Option Operator
  | .plus => some .add
  | .minus => some .sub
  | _ => none

/-- The operator of a product that a token stands for. -/
def productOperator? : Token → Option Operator
  | .star => some .mul
  | .slash => some .div
  | _ => none

/-- The sized tree, unless it is too high. -/
def Sized.checked (limit : Nat) (tree : Tree) (height : Nat) : Except Failure Sized :=
  if limit < height then .error (.syntaxError .tooDeep) else .ok ⟨tree, height⟩

/-- Joins two trees by an operator. -/
def Sized.join (limit : Nat) (operator : Operator) (left right : Sized) :
    Except Failure Sized :=
  Sized.checked limit (.binary operator left.tree right.tree)
    (1 + max left.height right.height)

/-- Goes on after the operand `left`: while an operator follows, the next
operand is read and joined to what stands left of it.  Every round takes at
least one token, so as many rounds as there are tokens are enough. -/
def chain (limit : Nat) (operator? : Token → Option Operator) (operand : Reader) :
    Nat → Sized → Reader
  | 0, left, tokens => .ok (left, tokens)
  | _ + 1, left, [] => .ok (left, [])
  | rounds + 1, left, token :: behind =>
      match operator? token with
      | none => .ok (left, token :: behind)
      | some operator => do
          let (right, rest) ← operand behind
          let joined ← Sized.join limit operator left right
          chain limit operator? operand rounds joined rest

/-- Reads operands with operators between them. -/
def chained (limit : Nat) (operator? : Token → Option Operator) (operand : Reader) :
    Reader :=
  fun tokens => do
    let (first, rest) ← operand tokens
    chain limit operator? operand rest.length first rest

/-- Reads a product of factors. -/
def term (limit : Nat) (factor : Reader) : Reader :=
  chained limit productOperator? factor

/-- Reads a sum of products of factors. -/
def expression (limit : Nat) (factor : Reader) : Reader :=
  chained limit sumOperator? (term limit factor)

/-- Reads a factor when `room` factors may still be opened, itself included. -/
def factor (limit room : Nat) : Reader :=
  match room with
  | 0 => fun _ => .error (.syntaxError .tooDeep)
  | room + 1 => fun
    | .number value :: rest => .ok (⟨.literal value, 1⟩, rest)
    | .minus :: behind => do
        let (inner, rest) ← factor limit room behind
        let negated ← Sized.checked limit (.negation inner.tree) (inner.height + 1)
        return (negated, rest)
    | .opening :: behind => do
        let (inner, rest) ← expression limit (factor limit room) behind
        match rest with
        | .closing :: rest => return (inner, rest)
        | found :: _ => .error (.syntaxError (.closingExpected found))
        | [] => .error (.syntaxError .closingMissing)
    | found :: _ => .error (.syntaxError (.operandBefore found))
    | [] => .error (.syntaxError .operandAtEnd)

/-- The tree of a formula that takes up all the tokens. -/
def parse (tokens : List Token) : Except Failure Tree :=
  if tokens.isEmpty then .error (.syntaxError .empty)
  else do
    let (sized, rest) ← expression depthLimit (factor depthLimit depthLimit) tokens
    match rest with
    | [] => return sized.tree
    | .closing :: _ => .error (.syntaxError .closingUnexpected)
    | found :: _ => .error (.syntaxError (.trailing found))

/-- The value of a formula given as text.  A value that is infinite or no
number is an overflow. -/
def evaluate (text : Text) : Except Failure Binary64 := do
  let tokens ← Token.scan text
  let tree ← parse tokens
  let value ← tree.value
  if value.isFinite then return value else .error .overflow

end Keypad
