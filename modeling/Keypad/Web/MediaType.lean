/-
Module: Keypad.Web.MediaType
Layer: web
Purpose: Media types, as the headers of requests name them.
Trusted boundary: none
Main exports: MediaType, MediaType.parse?, MediaType.isJson, MediaType.isForm
-/
import Keypad.Text.Blank

namespace Keypad

/-- A media type without its parameters. -/
structure MediaType where
  top : Text
  sub : Text
deriving DecidableEq, Repr

namespace MediaType

/-- The characters that the words of a media type are written with. -/
def isTokenChar (c : Char) : Bool :=
  c.isDigit || ('A' ≤ c && c ≤ 'Z') || ('^' ≤ c && c ≤ '~') || ('#' ≤ c && c ≤ '\'') ||
    c = '!' || c = '*' || c = '+' || c = '-' || c = '.'

/-- The spaces around a parameter. -/
def isSpace (c : Char) : Bool := c = ' ' || c = '\t'

/-- One or more characters of a word. -/
def token? (text : Text) : Option (Text × Text) :=
  let token := text.takeWhile isTokenChar
  if token.isEmpty then none else some (token, text.dropWhile isTokenChar)

/-- What follows a quoted value, from behind its opening quotation mark on. -/
def quoted? : Text → Option Text
  | [] => none
  | '"' :: rest => some rest
  | '\\' :: _ :: rest => quoted? rest
  | _ :: rest => quoted? rest

/-- What follows a parameter: a name, an equals sign, and a word or a quoted
text as its value. -/
def parameter? (text : Text) : Option Text :=
  match token? text with
  | some (_, '=' :: '"' :: value) => quoted? value
  | some (_, '=' :: value) => (token? value).map Prod.snd
  | _ => none

/-- Whether a text is a list of parameters, each behind a semicolon.  Spaces
may stand on either side of a parameter, but not before the first semicolon. -/
def parameters : Nat → Text → Bool
  | _, [] => true
  | rounds + 1, ';' :: text =>
      match parameter? (text.dropWhile isSpace) with
      | some rest => parameters rounds (rest.dropWhile isSpace)
      | none => false
  | _, _ => false

/-- Reads a media type: two words with a slash between them, and parameters
behind. -/
def parse? (text : Text) : Option MediaType := do
  let (top, rest) ← token? text
  match rest with
  | '/' :: rest =>
      let (sub, rest) ← token? rest
      if parameters (rest.length + 1) rest then return ⟨top, sub⟩ else none
  | _ => none

/-- Whether a media type has the given words; the case of letters does not
count. -/
def named (mediaType : MediaType) (top sub : String) : Bool :=
  mediaType.top.map Char.toLower == top.toList && mediaType.sub.map Char.toLower == sub.toList

/-- The media type of JSON documents. -/
def isJson (mediaType : MediaType) : Bool := mediaType.named "application" "json"

/-- The media type of forms. -/
def isForm (mediaType : MediaType) : Bool :=
  mediaType.named "application" "x-www-form-urlencoded"

end MediaType

end Keypad
