/-
Module: Keypad.Settings.Value
Layer: settings
Purpose: The values of settings, as texts give them.
Trusted boundary: none
Main exports: SettingValue, SettingValue.ofText
-/
import Keypad.Json.Lexical

namespace Keypad

/-- The value of a setting. -/
inductive SettingValue where
  | bool (value : Bool)
  | integer (value : Int)
  /-- A number with a decimal point; no setting takes one. -/
  | decimal
  | string (value : Text)
  | array (items : List SettingValue)
  | group (members : List (Text × SettingValue))

namespace SettingValue

instance : Inhabited SettingValue := ⟨string []⟩

/-- The blanks around the values of arrays and groups. -/
def isSpace (c : Char) : Bool :=
  c = ' ' || c = '\t' || c = '\n' || c = '\x0c' || c = '\r'

/-- The characters that no plain value holds. -/
def isSeparator (c : Char) : Bool := [',', '{', '}', '[', ']'].contains c

/-- The characters of a plain name. -/
def isNameChar (c : Char) : Bool := c.isAlphanum || c = '_' || c = '-'

/-- A text without the blanks at its ends. -/
def trimmed (text : Text) : Text := Text.trimEnd (text.dropWhile isBlank)

/-- Whether a text is all digits, and has some. -/
def isDigits (text : Text) : Bool := !text.isEmpty && text.all Char.isDigit

/-- A text without a sign at its head. -/
def unsigned : Text → Text
  | '+' :: rest => rest
  | '-' :: rest => rest
  | text => text

/-- Whether a text is a number with a decimal point: a sign or none, digits
before the point or behind it or both, and an exponent or none. -/
def isDecimal (text : Text) : Bool :=
  let text := unsigned text
  match text.dropWhile Char.isDigit with
  | '.' :: behind =>
      let some := (text.head?.map Char.isDigit).getD false ||
        (behind.head?.map Char.isDigit).getD false
      match behind.dropWhile Char.isDigit with
      | [] => some
      | 'e' :: exponent | 'E' :: exponent => some && isDigits (unsigned exponent)
      | _ => false
  | _ => false

/-- An integer that 64 bits hold, with a sign or without. -/
def integer? (text : Text) : Option Int :=
  let digits := unsigned text
  let magnitude := Nat.ofDigitChars 10 digits 0
  if !isDigits digits then none
  else if text.head? = some '-' then
    if magnitude ≤ Nat.pow 2 63 then some (-(magnitude : Int)) else none
  else if magnitude < Nat.pow 2 64 then some magnitude
  else none

/-- A value without quotation marks or brackets. -/
def plain (text : Text) : SettingValue :=
  if isDecimal text then .decimal
  else
    match integer? text with
    | some value => .integer value
    | none => .string text

/-- A character by its number in hexadecimal digits. -/
def numbered? (digits : Nat) (text : Text) : Option (Char × Text) := do
  let values ← (text.take digits).mapM Json.hexValue?
  let number := values.foldl (fun n digit => n * 16 + digit) 0
  if values.length = digits ∧ number.isValidChar then
    return (Char.ofNat number, text.drop digits)
  else none

/-- Goes on with a quoted text behind the characters found so far, last one
first. -/
def quotedFrom? : Nat → Text → Text → Option (Text × Text)
  | 0, _, _ => none
  | _ + 1, _, [] => none
  | rounds + 1, found, c :: rest =>
      if c = '"' then some (found.reverse, rest)
      else if c = '\\' then
        match rest with
        | 'u' :: rest => do
            let (c, rest) ← numbered? 4 rest
            quotedFrom? rounds (c :: found) rest
        | 'U' :: rest => do
            let (c, rest) ← numbered? 8 rest
            quotedFrom? rounds (c :: found) rest
        | '/' :: _ => none
        | c :: rest => do
            let c ← Json.simpleEscape? c
            quotedFrom? rounds (c :: found) rest
        | [] => none
      else if c ≠ '\t' && (c.toNat < 0x20 || c.toNat = 0x7F) then none
      else quotedFrom? rounds (c :: found) rest

/-- A quoted text, from behind its opening quotation mark on. -/
def quoted? (text : Text) : Option (Text × Text) :=
  quotedFrom? (text.length + 1) [] text

/-- The name of a member: quoted, or plain. -/
def name? (text : Text) : Option (Text × Text) :=
  match text with
  | '"' :: rest => quoted? rest
  | text =>
      let name := text.takeWhile isNameChar
      if name.isEmpty then none else some (name, text.dropWhile isNameChar)

/-- Reads one value and leaves the text after it. -/
abbrev ValueReader := Text → Option (SettingValue × Text)

/-- The items of an array behind those found so far, last one first.  A comma
may stand behind the last one. -/
def itemsFrom? (item : ValueReader) : Nat → List SettingValue → ValueReader
  | 0, _, _ => none
  | _ + 1, found, ']' :: rest => some (.array found.reverse, rest)
  | rounds + 1, found, text => do
      let (value, rest) ← item text
      match rest with
      | ',' :: rest => itemsFrom? item rounds (value :: found) rest
      | ']' :: rest => return (.array (value :: found).reverse, rest)
      | _ => none

/-- A member of a group: a name, an equals sign and a value. -/
def member? (item : ValueReader) (text : Text) : Option ((Text × SettingValue) × Text) := do
  let (name, rest) ← name? (text.dropWhile isSpace)
  match rest.dropWhile isSpace with
  | '=' :: rest =>
      let (value, rest) ← item (rest.dropWhile isSpace)
      return ((name, value), rest.dropWhile isSpace)
  | _ => none

/-- Puts a value under a name into a group, in place of the one it has there. -/
def place (name : Text) (value : SettingValue) (members : List (Text × SettingValue)) :
    List (Text × SettingValue) :=
  (name, value) :: members.filter fun member => member.1 ≠ name

/-- The members of a group behind those found so far.  A name given twice has
its later value. -/
def membersFrom? (item : ValueReader) : Nat → List (Text × SettingValue) → ValueReader
  | 0, _, _ => none
  | _ + 1, found, '}' :: rest => some (.group found, rest)
  | rounds + 1, found, text => do
      let ((name, value), rest) ← member? item text
      let members := place name value found
      match rest with
      | ',' :: rest => membersFrom? item rounds members rest
      | '}' :: rest => return (.group members, rest)
      | _ => none

/-- A value that is neither an array nor a group.  Quotation marks make a
text of anything, and apostrophes make one of a single character. -/
def scalar? (text : Text) : Option (SettingValue × Text) :=
  if "true".toList.isPrefixOf text then some (.bool true, text.drop 4)
  else if "false".toList.isPrefixOf text then some (.bool false, text.drop 5)
  else
    match text with
    | '"' :: rest => (quoted? rest).map fun (value, rest) => (.string value, rest)
    | '\'' :: c :: '\'' :: rest => some (.string [c], rest)
    | '\'' :: _ => none
    | text =>
        let isPlain (c : Char) : Bool := !isSeparator c
        some (plain (trimmed (text.takeWhile isPlain)), text.dropWhile isPlain)

/-- Reads a value in which at most `depth` arrays and groups enclose one
another. -/
def within? (depth : Nat) : ValueReader :=
  match depth with
  | 0 => fun _ => none
  | depth + 1 => fun text => do
      let text := text.dropWhile isSpace
      let (value, rest) ← match text with
        | '[' :: rest => itemsFrom? (within? depth) (rest.length + 1) [] rest
        | '{' :: rest => membersFrom? (within? depth) (rest.length + 1) [] rest
        | text => scalar? text
      return (value, rest.dropWhile isSpace)

/-- The value that a text gives.  A text that does not read as one value up to
its end is a value as it stands. -/
def ofText (text : Text) : SettingValue :=
  match within? (text.length + 1) text with
  | some (value, []) => value
  | _ => .string text

end SettingValue

end Keypad
