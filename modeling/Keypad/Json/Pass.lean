/-
Module: Keypad.Json.Pass
Layer: documents
Purpose: Passing over a JSON value without keeping it.
Trusted boundary: none
Main exports: Frame, Expected, passFrom?, passValue?
-/
import Keypad.Json.Lexical

namespace Keypad.Json

/-- What encloses the place of reading. -/
inductive Frame where
  | array
  | object
deriving DecidableEq, Repr

/-- What is expected at the place of reading: a value, a member of an object,
or what may follow a value. -/
inductive Expected where
  | value
  | member
  | more
deriving DecidableEq, Repr

/-- Passes over a value that is neither an array nor an object. -/
def passScalar? (text : Text) : Option Text :=
  match text with
  | '"' :: rest => passString? rest
  | 'n' :: rest => literal? "ull".toList rest
  | 't' :: rest => literal? "rue".toList rest
  | 'f' :: rest => literal? "alse".toList rest
  | text => (passNumber? text).map Prod.snd

/-- Passes over what is left of a value, given what encloses the place of
reading, the innermost first.  However deep the value is, every round takes at
least one character. -/
def passFrom? : Nat → Expected → List Frame → Text → Option Text
  | 0, _, _, _ => none
  | rounds + 1, .value, frames, text =>
      match skipBlanks text with
      | '[' :: rest =>
          match skipBlanks rest with
          | ']' :: rest => passFrom? rounds .more frames rest
          | rest => passFrom? rounds .value (.array :: frames) rest
      | '{' :: rest =>
          match skipBlanks rest with
          | '}' :: rest => passFrom? rounds .more frames rest
          | rest => passFrom? rounds .member (.object :: frames) rest
      | text =>
          match passScalar? text with
          | some rest => passFrom? rounds .more frames rest
          | none => none
  | rounds + 1, .member, frames, text =>
      match skipBlanks text with
      | '"' :: rest =>
          match (passString? rest).map skipBlanks with
          | some (':' :: rest) => passFrom? rounds .value frames rest
          | _ => none
      | _ => none
  | _ + 1, .more, [], text => some text
  | rounds + 1, .more, .array :: frames, text =>
      match skipBlanks text with
      | ',' :: rest => passFrom? rounds .value (.array :: frames) rest
      | ']' :: rest => passFrom? rounds .more frames rest
      | _ => none
  | rounds + 1, .more, .object :: frames, text =>
      match skipBlanks text with
      | ',' :: rest => passFrom? rounds .member (.object :: frames) rest
      | '}' :: rest => passFrom? rounds .more frames rest
      | _ => none

/-- Passes over one value. -/
def passValue? (text : Text) : Option Text :=
  passFrom? (text.length + 2) .value [] text

end Keypad.Json
