/-
Module: Keypad.Json.Record
Layer: documents
Purpose: Reading a JSON text as a record with given fields.
Trusted boundary: none
Main exports: Refusal, Field, Field.text, Field.character, readRecord
-/
import Keypad.Json.Pass

namespace Keypad.Json

/-!
A record is read from an object that has each field once, in any order and with
any other members among them, or from an array of exactly the fields, in the
order in which they are declared.

The text is read once, from its head on, and the first thing that is wrong
decides how it is refused: either the text is no JSON up to there, or it is,
but does not fit the fields.  What stands behind is not looked at.
-/

/-- Why a text is refused as a record. -/
inductive Refusal where
  /-- It is not one JSON document. -/
  | malformed
  /-- It is a document without the right fields, or with a wrong value in one. -/
  | unfitting
deriving DecidableEq, Repr

/-- Reads something off the head of a text and leaves the rest. -/
abbrev Reading (α : Type) := Text → Except Refusal (α × Text)

/-- A field: its name, and how its value is read. -/
structure Field (α : Type) where
  name : Text
  read : Reading α

/-- What no word of JSON begins is malformed. -/
def orMalformed {α : Type} : Option α → Except Refusal α
  | some value => .ok value
  | none => .error .malformed

/-- The refusal of a value of the wrong type.  A string, a number or a literal
is read to its end first, an array or an object is not. -/
def wrongType (text : Text) : Refusal :=
  let unfittingIf (found : Bool) : Refusal := if found then .unfitting else .malformed
  match text with
  | '[' :: _ | '{' :: _ => .unfitting
  | '"' :: rest => unfittingIf (string? rest).isSome
  | 'n' :: rest => unfittingIf (literal? "ull".toList rest).isSome
  | 't' :: rest => unfittingIf (literal? "rue".toList rest).isSome
  | 'f' :: rest => unfittingIf (literal? "alse".toList rest).isSome
  | text => unfittingIf (number? text).isSome

/-- Reads a string. -/
def readText : Reading Text := fun text =>
  match skipBlanks text with
  | '"' :: rest => orMalformed (string? rest)
  | text => .error (wrongType text)

/-- Reads a string of exactly one character. -/
def readCharacter : Reading Text := fun text => do
  let (value, rest) ← readText text
  if value.length = 1 then return (value, rest) else .error .unfitting

/-- A field whose value is a string. -/
def Field.text (name : String) : Field Text := ⟨name.toList, readText⟩

/-- A field whose value is a string of one character. -/
def Field.character (name : String) : Field Text := ⟨name.toList, readCharacter⟩

/-- Takes a colon off the head of a text. -/
def colon (text : Text) : Except Refusal Text :=
  match skipBlanks text with
  | ':' :: rest => .ok rest
  | _ => .error .malformed

/-- Goes on with the members of an object; `found` holds the values of the
fields so far, and `first` tells that no member has been read.  A field that is
given again is refused before its second value is read. -/
def recordMembers {α : Type} (fields : List (Field α)) :
    Nat → Bool → List (Option α) → Reading (List (Option α))
  | 0, _, _, _ => .error .malformed
  | rounds + 1, first, found, text =>
      let member (text : Text) : Except Refusal (List (Option α) × Text) :=
        match text with
        | '"' :: rest => do
            let (name, rest) ← orMalformed (string? rest)
            match fields.findIdx? fun field => field.name = name with
            | none =>
                let rest ← colon rest
                let rest ← orMalformed (passValue? rest)
                recordMembers fields rounds false found rest
            | some index =>
                if (found[index]?.bind id).isSome then .error .unfitting
                else
                  match fields[index]? with
                  | none => .error .malformed
                  | some field =>
                      let rest ← colon rest
                      let (value, rest) ← field.read rest
                      recordMembers fields rounds false (found.set index (some value)) rest
        | _ => .error .malformed
      match first, skipBlanks text with
      | _, '}' :: rest => .ok (found, rest)
      | false, ',' :: rest => member (skipBlanks rest)
      | true, text => member text
      | false, _ => .error .malformed

/-- Goes on with the items of an array, one for each field that is left. -/
def recordItems {α : Type} : List (Field α) → Bool → Reading (List α)
  | [], _, text =>
      match skipBlanks text with
      | ']' :: rest => .ok ([], rest)
      | _ => .error .malformed
  | field :: fields, first, text =>
      let item (text : Text) : Except Refusal (List α × Text) := do
        let (value, rest) ← field.read text
        let (values, rest) ← recordItems fields false rest
        return (value :: values, rest)
      match first, skipBlanks text with
      | _, ']' :: _ => .error .unfitting
      | true, text => item text
      | false, ',' :: rest =>
          match skipBlanks rest with
          | ']' :: _ => .error .malformed
          | rest => item rest
      | false, _ => .error .malformed

/-- The values of the fields, in the order of the fields. -/
def recordAt {α : Type} (fields : List (Field α)) : Reading (List α) := fun text =>
  match skipBlanks text with
  | '{' :: rest => do
      let (found, rest) ← recordMembers fields (rest.length + 1) true
        (fields.map fun _ => none) rest
      match found.mapM id with
      | some values => return (values, rest)
      | none => .error .unfitting
  | '[' :: rest => recordItems fields true rest
  | text => .error (wrongType text)

/-- The values of the fields of the one record that a text holds. -/
def readRecord {α : Type} (fields : List (Field α)) (text : Text) : Except Refusal (List α) := do
  let (values, rest) ← recordAt fields text
  if (skipBlanks rest).isEmpty then return values else .error .malformed

end Keypad.Json
