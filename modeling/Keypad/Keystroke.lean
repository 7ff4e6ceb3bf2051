/-
Module: Keypad.Keystroke
Layer: typing
Purpose: What a key does to the text typed so far.
Trusted boundary: none
Main exports: KeyClass, Position, Position.of, Decision, Position.decide, accept, press
-/
import Keypad.Text.Blank

namespace Keypad

/-!
A key is accepted, accepted in place of the operator before it, or rejected.
The decision depends on the position at the end of the text alone, and that on
the last two characters that are not blank.  Texts never come to hold an
operator where an operand has to begin, except for the minus, which is a sign
there.  Whether parentheses match is left to the reading of the formula.
-/

/-- The classes of keys that a formula is typed with. -/
inductive KeyClass where
  | digit
  | dot
  | operator
  | openParen
  | closeParen
deriving DecidableEq, Repr

/-- The class of a key; all other characters are foreign and have none. -/
def KeyClass.of? (c : Char) : Option KeyClass :=
  if c.isDigit then some .digit
  else
    match c with
    | '.' => some .dot
    | '+' | '-' | '*' | '/' => some .operator
    | '(' => some .openParen
    | ')' => some .closeParen
    | _ => none

/-- What the end of the text typed so far is. -/
inductive Position where
  | empty
  | digit
  | dot
  /-- Behind an operator between operands, of which the right one is to come. -/
  | operator
  /-- Behind a minus that is the sign of the operand to come. -/
  | sign
  | openParen
  | closeParen
deriving DecidableEq, Repr

/-- Whether a minus behind this character, if any, is a sign and not an
operator. -/
def signFollows : Option Char → Bool
  | none => true
  | some c =>
      match KeyClass.of? c with
      | some .operator => true
      | some .openParen => true
      | _ => false

/-- The position behind the given characters, last one first.  A foreign
character counts as a digit: it is the business of the evaluation. -/
def Position.behind : Text → Position
  | [] => .empty
  | last :: before =>
      match KeyClass.of? last with
      | some .digit => .digit
      | some .dot => .dot
      | some .openParen => .openParen
      | some .closeParen => .closeParen
      | some .operator =>
          if last = '-' && signFollows before.head? then .sign else .operator
      | none => .digit

/-- The position at the end of a text; blank characters do not count. -/
def Position.of (text : Text) : Position :=
  .behind text.strip.reverse

/-- What is done with a key. -/
inductive Decision where
  | append
  | replaceLast
  | reject
deriving DecidableEq, Repr

/-- Whether an operand begins at a position and no operator may stand there. -/
def Position.awaitsOperand : Position → Bool
  | .empty => true
  | .openParen => true
  | .sign => true
  | _ => false

/-- The decision on a key at a position.  A minus is always accepted.  Any
other operator is rejected where an operand begins, and takes the place of the
operator behind which it is typed. -/
def Position.decide (position : Position) (key : Char) : Decision :=
  match KeyClass.of? key with
  | none => .reject
  | some .operator =>
      if key = '-' then .append
      else if position.awaitsOperand then .reject
      else if position = .operator then .replaceLast
      else .append
  | some _ => .append

/-- The decision on a key behind a text. -/
def accept (text : Text) (key : Char) : Decision :=
  (Position.of text).decide key

/-- The text after a decision on a key.  A replaced operator is the last
character that is not blank, and the blanks behind it go with it. -/
def Decision.applyTo (decision : Decision) (text : Text) (key : Char) : Text :=
  match decision with
  | .append => text ++ [key]
  | .replaceLast => text.trimEnd.dropLast ++ [key]
  | .reject => text

/-- Types a key behind a text: the text after it. -/
def press (text : Text) (key : Char) : Text :=
  (accept text key).applyTo text key

end Keypad
