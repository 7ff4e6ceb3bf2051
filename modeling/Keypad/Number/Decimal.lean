/-
Module: Keypad.Number.Decimal
Layer: numbers
Purpose: Decimal numerals: reading digits as a double, and writing a double
  with the fewest digits that read back.
Trusted boundary: none
Main exports:
  Decimal, Decimal.ofDigits, Decimal.toBinary64, Decimal.text,
  Decimal.shortest, Binary64.numeral, Binary64.shown
-/
import Keypad.Text.Blank
import Keypad.Number.Binary64

namespace Keypad

/-- The number `coefficient * 10 ^ exponent`. -/
structure Decimal where
  coefficient : Nat
  exponent : Int
deriving DecidableEq, Repr

namespace Decimal

/-- The decimal written with the digits `whole` before a decimal point and the
digits `fraction` behind it. -/
def ofDigits (whole fraction : Text) : Decimal :=
  ⟨Nat.ofDigitChars 10 (whole ++ fraction) 0, -(fraction.length : Int)⟩

/-- The units of a decimal as a ratio: what stands above the line. -/
def numerator (d : Decimal) : Nat :=
  d.coefficient * Nat.pow 10 d.exponent.toNat * unitsInOne

/-- The units of a decimal as a ratio: what stands below the line. -/
def denominator (d : Decimal) : Nat :=
  Nat.pow 10 (-d.exponent).toNat

/-- The rank nearest to a decimal. -/
def rank (d : Decimal) : Nat :=
  nearestRank d.numerator d.denominator

/-- The double nearest to a decimal. -/
def toBinary64 (d : Decimal) : Binary64 :=
  Binary64.ofRatio false d.numerator d.denominator

/-- A number of zero digits. -/
def zeros (count : Nat) : Text := List.replicate count '0'

/-- A decimal in positional notation: all its digits, as many zeros as the
positions ask for, and a point with at least one digit before it when there are
digits behind it. -/
def text (d : Decimal) : Text :=
  let digits := Nat.toDigits 10 d.coefficient
  if 0 ≤ d.exponent then
    digits ++ zeros d.exponent.toNat
  else
    let places := (-d.exponent).toNat
    let padded := zeros (places + 1 - digits.length) ++ digits
    let point := padded.length - places
    padded.take point ++ '.' :: padded.drop point

/-- The magnitude of a rank, written out to its last digit: a unit has as many
decimal places as binary ones, with the digits of a power of five. -/
def exact (rank : Nat) : Decimal :=
  ⟨magnitude rank * Nat.pow 5 unitPlaces, -(unitPlaces : Int)⟩

/-- The multiple of `10 ^ exponent` nearest to the magnitude of a rank among
those that read back as this rank, the larger of two equally near ones. -/
def onGrid? (rank : Nat) (exponent : Int) : Option Decimal :=
  let scaled := magnitude rank * Nat.pow 10 (-exponent).toNat
  let step := unitsInOne * Nat.pow 10 exponent.toNat
  let lower : Decimal := ⟨scaled / step, exponent⟩
  let upper : Decimal := ⟨scaled / step + 1, exponent⟩
  let lowerIsNearer := 2 * (scaled % step) < step
  if lower.rank = rank ∧ (lowerIsNearer ∨ upper.rank ≠ rank) then some lower
  else if upper.rank = rank then some upper
  else none

/-- An exponent with `10 ^ exponent` above the magnitude of a rank and not far
above it; `30103 / 100000` is the decimal logarithm of two. -/
def coarsestGrid (rank : Nat) : Int :=
  ((magnitude rank).log2 - 1073 : Int) * 30103 / 100000 + 1

/-- The decimal with the fewest digits that reads back as a rank, and the
nearest of these.  The grids are tried from the coarsest on, each ten times as
fine as the one before; seventeen digits tell any two doubles apart, so one of
the first twenty grids has an answer. -/
def shortest (rank : Nat) : Decimal :=
  let answer := (List.range 20).findSome? fun (k : Nat) =>
    onGrid? rank (coarsestGrid rank - k)
  answer.getD (exact rank)

end Decimal

namespace Binary64

/-- The decimal text of a magnitude. -/
def magnitudeText (rank : Nat) : Text :=
  if rank = 0 then ['0'] else (Decimal.shortest rank).text

/-- The text of a double: its shortest decimal in positional notation, behind
a minus when the sign is negative, also for a zero. -/
def numeral : Binary64 → Text
  | .finite negative rank => signed negative (magnitudeText rank)
  | .infinite negative => signed negative "inf".toList
  | .notANumber => "NaN".toList
where
  signed (negative : Bool) (text : Text) : Text :=
    if negative then '-' :: text else text

/-- The text of a result on display: both zeros are shown without a sign. -/
def shown (value : Binary64) : Text :=
  if value.isZero then ['0'] else value.numeral

end Binary64

end Keypad
