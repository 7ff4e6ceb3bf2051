/-
Module: Keypad.Text.Blank
Layer: text
Purpose: Text as the list of its characters, and which of them are blank.
Trusted boundary: none
Main exports: Text, isBlank, Text.strip, Text.trimEnd, Text.isBlank
-/

namespace Keypad

/-- Text under edit, under reading or on display is the list of its
characters, first character first. -/
abbrev Text := List Char

/-- The ranges of code points, ends included, that have the Unicode property
`White_Space`. -/
def blankRanges : List (Nat × Nat) :=
  [(0x0009, 0x000D), (0x0020, 0x0020), (0x0085, 0x0085), (0x00A0, 0x00A0),
   (0x1680, 0x1680), (0x2000, 0x200A), (0x2028, 0x2029), (0x202F, 0x202F),
   (0x205F, 0x205F), (0x3000, 0x3000)]

/-- A character is blank when it has the Unicode property `White_Space`. -/
def isBlank (c : Char) : Bool :=
  blankRanges.any fun range => range.1 ≤ c.toNat && c.toNat ≤ range.2

namespace Text

/-- The text without its blank characters, wherever they stand. -/
def strip (text : Text) : Text :=
  text.filter fun c => !isBlank c

/-- The text without the blank characters at its end. -/
def trimEnd (text : Text) : Text :=
  (text.reverse.dropWhile isBlank).reverse

/-- A text is blank when it holds no other than blank characters; the empty
text is. -/
def isBlank (text : Text) : Bool :=
  text.all Keypad.isBlank

end Text

end Keypad
