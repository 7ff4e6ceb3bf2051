/-
Module: Keypad.Formula.Token
Layer: formulas
Purpose: The tokens of a formula and their texts.
Trusted boundary: none
Main exports: Token, Token.text, Token.ofSymbol?
-/
import Keypad.Number.Decimal

namespace Keypad

/-- A number or one of the six symbols. -/
inductive Token where
  | number (value : Binary64)
  | plus
  | minus
  | star
  | slash
  | opening
  | closing
deriving DecidableEq, Repr

namespace Token

/-- The symbol written as one character. -/
def ofSymbol? : Char → Option Token
  | '+' => some .plus
  | '-' => some .minus
  | '*' => some .star
  | '/' => some .slash
  | '(' => some .opening
  | ')' => some .closing
  | _ => none

/-- The text of a token: its symbol, or its number in positional notation. -/
def text : Token → Text
  | .number value => value.numeral
  | .plus => ['+']
  | .minus => ['-']
  | .star => ['*']
  | .slash => ['/']
  | .opening => ['(']
  | .closing => [')']

end Token

end Keypad
