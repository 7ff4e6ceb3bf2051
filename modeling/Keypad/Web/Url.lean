/-
Module: Keypad.Web.Url
Layer: web
Purpose: The target that a request to a URL asks for.
Trusted boundary: none; hosts are not looked at.
Main exports: Url, Url.parse?, Url.target
-/
import Keypad.Web.Target

namespace Keypad

/-!
A URL is read leniently: blanks at its ends do not count, a backslash is as
good as a slash, and any number of them may stand before the host.  Segments
that name the place itself or the place above it are followed.  Characters that
need it are percent-encoded; what is percent-encoded already stays as it is.
-/

/-- A URL of a web server: who serves it, its path, and its query. -/
structure Url where
  authority : Text
  segments : List Text
  query : Option Text
deriving DecidableEq, Repr

namespace Url

/-- The digit of a value below sixteen. -/
def hexDigit (value : Nat) : Char :=
  if value < 10 then Char.ofNat ('0'.toNat + value) else Char.ofNat ('A'.toNat + (value - 10))

/-- An octet in its percent-encoded form. -/
def percentEncodeOctet (octet : UInt8) : Text :=
  ['%', hexDigit (octet.toNat / 16), hexDigit (octet.toNat % 16)]

/-- Percent-encodes the characters that need it. -/
def percentEncode (needsIt : Char → Bool) (text : Text) : Text :=
  text.flatMap fun c =>
    if needsIt c then (String.utf8EncodeChar c).flatMap percentEncodeOctet else [c]

/-- Control characters, and all beyond the ASCII range. -/
def isUnprintable (c : Char) : Bool := c.toNat < 0x20 || 0x7E < c.toNat

/-- What needs to be encoded in a path. -/
def needsEncodingInPath (c : Char) : Bool :=
  isUnprintable c || " \"#<>?`\x7b\x7d".toList.contains c

/-- What needs to be encoded in a query. -/
def needsEncodingInQuery (c : Char) : Bool :=
  isUnprintable c || " \"#<>'".toList.contains c

/-- A segment in lower case letters, with its encoded full stops decoded. -/
def dots : Text → Text
  | '%' :: '2' :: 'e' :: rest => '.' :: dots rest
  | '%' :: '2' :: 'E' :: rest => '.' :: dots rest
  | c :: rest => c :: dots rest
  | [] => []

/-- Follows the segments of a path from those before it, last one first.  The
last segment leaves an empty one behind when it names a place. -/
def follow : List Text → List Text → List Text
  | before, [] => before.reverse
  | before, segment :: rest =>
      let place := dots segment
      let before :=
        if place = ['.', '.'] then before.drop 1
        else if place = ['.'] then before
        else percentEncode needsEncodingInPath segment :: before
      if rest.isEmpty && (place = ['.'] || place = ['.', '.']) then ([] :: before).reverse
      else follow before rest

/-- Whether a character separates segments. -/
def isSlash (c : Char) : Bool := c = '/' || c = '\\'

/-- The parts of a path behind its first slash. -/
def pathSegments (path : Text) : List Text :=
  Text.separatedBy '/' ((path.drop 1).map fun c => if isSlash c then '/' else c)

/-- A text without what does not count in a URL: control characters and spaces
at its ends, tabs and line ends anywhere. -/
def cleaned (text : Text) : Text :=
  let isOuter (c : Char) : Bool := c.toNat ≤ 0x20
  let inner := ((text.dropWhile isOuter).reverse.dropWhile isOuter).reverse
  inner.filter fun c => !(c = '\t' || c = '\n' || c = '\r')

/-- Reads a URL of a web server. -/
def parse? (text : Text) : Option Url :=
  let text := cleaned text
  let scheme := (text.takeWhile (· ≠ ':')).map Char.toLower
  if scheme = "http".toList ∨ scheme = "https".toList then
    let behind := ((text.dropWhile (· ≠ ':')).drop 1).dropWhile isSlash
    let isEnd (c : Char) : Bool := isSlash c || c = '?' || c = '#'
    let authority := behind.takeWhile fun c => !isEnd c
    let behind := (behind.dropWhile fun c => !isEnd c).takeWhile (· ≠ '#')
    let query := match behind.dropWhile (· ≠ '?') with
      | '?' :: query => some (percentEncode needsEncodingInQuery query)
      | _ => none
    if authority.isEmpty then none
    else some ⟨authority, follow [] (pathSegments (behind.takeWhile (· ≠ '?'))), query⟩
  else none

/-- The target of a URL: its segments, each behind a slash, and its query. -/
def target (url : Url) : Text :=
  let query := match url.query with
    | some query => '?' :: query
    | none => []
  (url.segments.flatMap fun segment => '/' :: segment) ++ query

end Url

end Keypad
