/-
Module: Keypad.Json.Lexical
Layer: documents
Purpose: The words of a JSON text: blanks, literals, strings and numbers.
Trusted boundary: none
Main exports:
  skipBlanks, literal?, string?, passString?, Number, number?, passNumber?
-/
import Keypad.Json.Value

namespace Keypad.Json

/-!
Each reader here takes a text whose head it expects to be one word of JSON, and
gives what it has read together with the text after it, or nothing if the head
is not such a word.

Strings and numbers come in two readings.  Where the value is wanted, an
escaped code unit has to be a character, and a number has to be in range.
Where the value is passed over, neither is asked for.
-/

/-- The blanks between the words of JSON. -/
def isGap (c : Char) : Bool :=
  c = ' ' || c = '\t' || c = '\n' || c = '\r'

/-- The text from its first word on. -/
def skipBlanks (text : Text) : Text := text.dropWhile isGap

/-- Takes fixed characters off the head of a text. -/
def literal? (expected : Text) (text : Text) : Option Text :=
  if expected.isPrefixOf text then some (text.drop expected.length) else none

/-- The value of a hexadecimal digit. -/
def hexValue? (c : Char) : Option Nat :=
  if c.isDigit then some (c.toNat - '0'.toNat)
  else if 'a' ≤ c && c ≤ 'f' then some (c.toNat - 'a'.toNat + 10)
  else if 'A' ≤ c && c ≤ 'F' then some (c.toNat - 'A'.toNat + 10)
  else none

/-- Four hexadecimal digits. -/
def codeUnit? : Text → Option (Nat × Text)
  | a :: b :: c :: d :: rest => do
      let digits ← [a, b, c, d].mapM hexValue?
      return (digits.foldl (fun n digit => n * 16 + digit) 0, rest)
  | _ => none

/-- A code unit that begins a pair. -/
def isLeading (unit : Nat) : Bool := 0xD800 ≤ unit && unit ≤ 0xDBFF

/-- A code unit that ends a pair. -/
def isTrailing (unit : Nat) : Bool := 0xDC00 ≤ unit && unit ≤ 0xDFFF

/-- The character of an escape that is not by its code unit. -/
def simpleEscape? : Char → Option Char
  | '"' => some '"'
  | '\\' => some '\\'
  | '/' => some '/'
  | 'b' => some '\x08'
  | 'f' => some '\x0c'
  | 'n' => some '\n'
  | 'r' => some '\r'
  | 't' => some '\t'
  | _ => none

/-- The character behind `\u`: one code unit, or a pair of them. -/
def unicodeEscape? (text : Text) : Option (Char × Text) := do
  let (unit, rest) ← codeUnit? text
  if isTrailing unit then none
  else if isLeading unit then
    let rest ← literal? ['\\', 'u'] rest
    let (second, rest) ← codeUnit? rest
    if isTrailing second then
      return (Char.ofNat (0x10000 + (unit - 0xD800) * 0x400 + (second - 0xDC00)), rest)
    else none
  else return (Char.ofNat unit, rest)

/-- Goes on with a string whose characters so far are `found`, last one first.
Every round takes at least one character. -/
def stringFrom? : Nat → Text → Text → Option (Text × Text)
  | 0, _, _ => none
  | _ + 1, _, [] => none
  | rounds + 1, found, c :: rest =>
      if c = '"' then some (found.reverse, rest)
      else if c = '\\' then
        match rest with
        | 'u' :: rest => do
            let (c, rest) ← unicodeEscape? rest
            stringFrom? rounds (c :: found) rest
        | c :: rest => do
            let c ← simpleEscape? c
            stringFrom? rounds (c :: found) rest
        | [] => none
      else if c.toNat < 0x20 then none
      else stringFrom? rounds (c :: found) rest

/-- The characters of a string, from behind its opening quotation mark on. -/
def string? (text : Text) : Option (Text × Text) :=
  stringFrom? (text.length + 1) [] text

/-- Passes over the rest of a string.  Escaped code units need not be
characters. -/
def passString? (text : Text) : Option Text :=
  go (text.length + 1) text
where
  go : Nat → Text → Option Text
    | 0, _ => none
    | _ + 1, [] => none
    | rounds + 1, c :: rest =>
        if c = '"' then some rest
        else if c = '\\' then
          match rest with
          | 'u' :: rest => do
              let (_, rest) ← codeUnit? rest
              go rounds rest
          | c :: rest => do
              let _ ← simpleEscape? c
              go rounds rest
          | [] => none
        else if c.toNat < 0x20 then none
        else go rounds rest

/-- A number as it is written: its sign, its digits before and behind the
point, and its exponent. -/
structure Number where
  negative : Bool
  whole : Text
  fraction : Text
  exponent : Option Int
deriving DecidableEq, Repr

/-- One or more digits at the head of a text. -/
def digits? (text : Text) : Option (Text × Text) :=
  let digits := text.takeWhile Char.isDigit
  if digits.isEmpty then none else some (digits, text.dropWhile Char.isDigit)

/-- The exponent at the head of a text, if there is one. -/
def exponent? (text : Text) : Option (Option Int × Text) :=
  let signed (sign : Int) (text : Text) : Option (Option Int × Text) := do
    let (digits, rest) ← digits? text
    return (some (sign * Nat.ofDigitChars 10 digits 0), rest)
  match text with
  | 'e' :: '+' :: text | 'E' :: '+' :: text => signed 1 text
  | 'e' :: '-' :: text | 'E' :: '-' :: text => signed (-1) text
  | 'e' :: text | 'E' :: text => signed 1 text
  | text => some (none, text)

/-- A number of any size.  Its first digit is a zero only when it has no other
before the point. -/
def passNumber? (text : Text) : Option (Number × Text) := do
  let (negative, text) := match text with
    | '-' :: text => (true, text)
    | text => (false, text)
  let (whole, text) ← digits? text
  if whole.head? = some '0' && whole.length ≠ 1 then none
  let (fraction, text) ← match text with
    | '.' :: text => digits? text
    | text => some ([], text)
  let (exponent, text) ← exponent? text
  return (⟨negative, whole, fraction, exponent⟩, text)

/-- The largest significand that is kept: larger ones lose their last digits. -/
def largestSignificand : Nat := Nat.pow 2 64 - 1

/-- Takes digits into a significand while it stays in range; how many were
taken comes with it. -/
def takeDigits : Nat → Nat → Text → Nat × Nat
  | significand, taken, [] => (significand, taken)
  | significand, taken, c :: rest =>
      let next := significand * 10 + (c.toNat - '0'.toNat)
      if next ≤ largestSignificand then takeDigits next (taken + 1) rest
      else (significand, taken)

namespace Number

/-- The significand of a number and the power of ten that it is to be
multiplied by. -/
def parts (number : Number) : Nat × Int :=
  let (whole, taken) := takeDigits 0 0 number.whole
  let dropped := number.whole.length - taken
  let (significand, places) := takeDigits whole 0 number.fraction
  (significand, number.exponent.getD 0 + dropped - places)

/-- The largest power of ten that is a finite double. -/
def largestPower : Nat := 308

/-- A double divided by a power of ten, by the largest finite power as often as
it goes into it. -/
def scaleDown : Nat → Binary64 → Binary64
  | power, value =>
      if power ≤ largestPower then value.div (.ofNat (Nat.pow 10 power))
      else if value.isZero then value
      else scaleDown (power - largestPower) (value.div (.ofNat (Nat.pow 10 largestPower)))
termination_by power => power
decreasing_by simp only [largestPower] at *; omega

/-- The double that a number with a point or an exponent is read as: its
significand and the power of ten are rounded, and so is their product or
quotient.  A number that would be infinite is out of range. -/
def toBinary64? (number : Number) : Option Binary64 :=
  let (significand, power) := number.parts
  let start := Binary64.ofNat significand
  let magnitude :=
    if power < 0 then scaleDown (-power).toNat start
    else if power ≤ largestPower then start.mul (.ofNat (Nat.pow 10 power.toNat))
    else if significand = 0 then start
    else .infinite false
  if magnitude.isFinite then
    some (if number.negative then magnitude.neg else magnitude)
  else none

/-- The value of a number.  Without point and exponent it is an integer while
64 bits hold it, with the sign or without; a negative zero is a double. -/
def value? (number : Number) : Option Json :=
  let magnitude := Nat.ofDigitChars 10 number.whole 0
  if number.fraction.isEmpty && number.exponent.isNone &&
      (if number.negative then 0 < magnitude && magnitude ≤ Nat.pow 2 63
       else magnitude ≤ largestSignificand) then
    some (.integer (if number.negative then -(magnitude : Int) else magnitude))
  else number.toBinary64?.map .double

end Number

/-- A number that is in range, as a value. -/
def number? (text : Text) : Option (Json × Text) := do
  let (number, rest) ← passNumber? text
  let value ← number.value?
  return (value, rest)

end Keypad.Json
