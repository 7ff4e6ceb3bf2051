/-
Module: Keypad.Json.Read
Layer: documents
Purpose: Reading a JSON value whole, down to a fixed depth.
Trusted boundary: none
Main exports: deepest, Json.read?
-/
import Keypad.Json.Pass

namespace Keypad.Json

/-- How many arrays and objects may enclose one another. -/
def deepest : Nat := 127

/-- Reads one value and leaves the text after it. -/
abbrev ValueReader := Text → Option (Json × Text)

/-- The items of an array behind those found so far, last one first, and behind
a comma or the opening bracket. -/
def itemsFrom? (item : ValueReader) : Nat → List Json → Text → Option (Json × Text)
  | 0, _, _ => none
  | rounds + 1, found, text => do
      let (value, rest) ← item text
      match skipBlanks rest with
      | ',' :: rest => itemsFrom? item rounds (value :: found) rest
      | ']' :: rest => return (.array (value :: found).reverse, rest)
      | _ => none

/-- The members of an object behind those found so far, last one first, and
behind a comma or the opening brace. -/
def membersFrom? (item : ValueReader) :
    Nat → List (Text × Json) → Text → Option (Json × Text)
  | 0, _, _ => none
  | rounds + 1, found, text =>
      match skipBlanks text with
      | '"' :: rest => do
          let (name, rest) ← string? rest
          match skipBlanks rest with
          | ':' :: rest =>
              let (value, rest) ← item rest
              match skipBlanks rest with
              | ',' :: rest => membersFrom? item rounds ((name, value) :: found) rest
              | '}' :: rest => return (.object ((name, value) :: found).reverse, rest)
              | _ => none
          | _ => none
      | _ => none

/-- A value that is neither an array nor an object. -/
def scalar? (text : Text) : Option (Json × Text) :=
  match text with
  | '"' :: rest => (string? rest).map fun (value, rest) => (.string value, rest)
  | 'n' :: rest => (literal? "ull".toList rest).map fun rest => (.null, rest)
  | 't' :: rest => (literal? "rue".toList rest).map fun rest => (.bool true, rest)
  | 'f' :: rest => (literal? "alse".toList rest).map fun rest => (.bool false, rest)
  | text => number? text

/-- Reads a value in which at most `depth` arrays and objects enclose one
another. -/
def valueWithin? (depth : Nat) : ValueReader :=
  match depth with
  | 0 => fun text =>
      match skipBlanks text with
      | '[' :: _ | '{' :: _ => none
      | text => scalar? text
  | depth + 1 => fun text =>
      match skipBlanks text with
      | '[' :: rest =>
          match skipBlanks rest with
          | ']' :: rest => some (.array [], rest)
          | rest => itemsFrom? (valueWithin? depth) (rest.length + 1) [] rest
      | '{' :: rest =>
          match skipBlanks rest with
          | '}' :: rest => some (.object [], rest)
          | rest => membersFrom? (valueWithin? depth) (rest.length + 1) [] rest
      | text => scalar? text

/-- The document that a text holds, if it holds exactly one. -/
def read? (text : Text) : Option Json := do
  let (value, rest) ← valueWithin? deepest text
  if (skipBlanks rest).isEmpty then return value else none

end Keypad.Json
