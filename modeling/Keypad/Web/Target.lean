/-
Module: Keypad.Web.Target
Layer: web
Purpose: The target of a request: which texts are targets, and the segments of
  their paths.
Trusted boundary: none
Main exports: percentDecode, Text.separatedBy, Target, Target.parse?
-/
import Keypad.Json.Lexical
import Keypad.Text.Utf8

namespace Keypad

/-- Replaces each percent sign with two hexadecimal digits behind it by the
octet that they denote.  Any other percent sign stays. -/
def percentDecode : List UInt8 → List UInt8
  | 0x25 :: high :: low :: rest =>
      match Json.hexValue? (Char.ofNat high.toNat), Json.hexValue? (Char.ofNat low.toNat) with
      | some h, some l => UInt8.ofNat (h * 16 + l) :: percentDecode rest
      | _, _ => 0x25 :: percentDecode (high :: low :: rest)
  | octet :: rest => octet :: percentDecode rest
  | [] => []

/-- The parts of a text between the places of a separator, in order. -/
def Text.separatedBy (separator : Char) : Text → List Text
  | [] => [[]]
  | c :: rest =>
      if c = separator then [] :: separatedBy separator rest
      else
        match separatedBy separator rest with
        | [] => [[c]]
        | part :: parts => (c :: part) :: parts

/-- The characters that a path is written with. -/
def isPathChar (c : Char) : Bool :=
  c.isAlphanum || "-._~%!$&'()*+,;=:@/[]".toList.contains c

/-- The characters that a query is written with: beyond those of a path some
that are often left unescaped there. -/
def isQueryChar (c : Char) : Bool :=
  isPathChar c || "?\x7b\x7d\\^`|".toList.contains c

/-- A target is known by the segments of its path, decoded.  Empty segments do
not count, and neither does the query.  This goes for the empty segment behind a
slash at the end as well: `DELETE /api/v1/logs/` is answered as
`DELETE /api/v1/logs` is. -/
structure Target where
  segments : List Text
deriving DecidableEq, Repr

namespace Target

/-- A segment as it is meant. -/
def decodeSegment (segment : Text) : Text :=
  Utf8.decodeLossy (percentDecode (Utf8.encode segment))

/-- The target of a path. -/
def ofPath (path : Text) : Target :=
  ⟨((Text.separatedBy '/' path).filter fun segment => !segment.isEmpty).map decodeSegment⟩

/-- Reads a target: a path that begins with a slash, and a query behind a
question mark, if there is one. -/
def parse? (text : Text) : Option Target :=
  let path := text.takeWhile isPathChar
  if path.head? = some '/' then
    match text.dropWhile isPathChar with
    | [] => some (ofPath path)
    | '?' :: query => if query.all isQueryChar then some (ofPath path) else none
    | _ => none
  else none

end Target

end Keypad
