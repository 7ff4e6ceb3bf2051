/-
Module: Keypad.Formula.Scan
Layer: formulas
Purpose: Cutting a text into tokens.
Trusted boundary: none
Main exports: Numeral, Numeral.leading?, Token.scan
-/
import Keypad.Formula.Failure

namespace Keypad

/-- A numeral at the head of a text: its digits before and behind the point,
and the text after it. -/
structure Numeral where
  whole : Text
  fraction : Text
  rest : Text
deriving DecidableEq, Repr

namespace Numeral

/-- The number that the numeral denotes. -/
def value (numeral : Numeral) : Binary64 :=
  (Decimal.ofDigits numeral.whole numeral.fraction).toBinary64

/-- The longest numeral at the head of a text: digits with or without a point
and further digits, or a point and at least one digit. -/
def leading? (text : Text) : Option Numeral :=
  let whole := text.takeWhile Char.isDigit
  match text.dropWhile Char.isDigit with
  | '.' :: behind =>
      let fraction := behind.takeWhile Char.isDigit
      if whole.isEmpty && fraction.isEmpty then none
      else some ⟨whole, fraction, behind.dropWhile Char.isDigit⟩
  | rest => if whole.isEmpty then none else some ⟨whole, [], rest⟩

/-- What follows a numeral is shorter than the text that it leads. -/
theorem length_rest_lt {text : Text} {numeral : Numeral}
    (found : leading? text = some numeral) :
    numeral.rest.length < text.length := by
  have cut : text.takeWhile Char.isDigit ++ text.dropWhile Char.isDigit = text :=
    List.takeWhile_append_dropWhile
  have total := congrArg List.length cut
  rw [List.length_append] at total
  unfold leading? at found
  split at found
  · rename_i behind shape
    have shorter : (behind.dropWhile Char.isDigit).length ≤ behind.length :=
      (List.dropWhile_sublist _).length_le
    rw [shape, List.length_cons] at total
    dsimp only at found
    split at found
    · cases found
    · cases found
      dsimp only
      omega
  · dsimp only at found
    split at found
    · cases found
    · rename_i nonempty
      cases found
      have positive : 0 < (text.takeWhile Char.isDigit).length := by
        cases shape : text.takeWhile Char.isDigit with
        | nil => rw [shape] at nonempty; exact absurd rfl nonempty
        | cons _ _ => exact Nat.succ_pos _
      dsimp only
      omega

end Numeral

namespace Token

/-- Cuts a text into tokens that follow those already found, last one first.
Blank characters are passed over, a symbol is a token of its own, and a digit
or a point begins a number. -/
def scanFrom (found : List Token) : Text → Except Failure (List Token)
  | [] => .ok found.reverse
  | c :: rest =>
      if isBlank c then scanFrom found rest
      else
        match ofSymbol? c with
        | some token => scanFrom (token :: found) rest
        | none =>
            if c.isDigit || c == '.' then
              match shape : Numeral.leading? (c :: rest) with
              | none => .error (.syntaxError (.malformedNumber (c :: rest)))
              | some numeral =>
                  if numeral.rest.head? = some '.' then
                    .error (.syntaxError (.secondPoint (c :: rest)))
                  else if numeral.value.isFinite then
                    have := Numeral.length_rest_lt shape
                    scanFrom (.number numeral.value :: found) numeral.rest
                  else .error (.syntaxError .numberOutOfRange)
            else .error (.syntaxError (.unexpectedCharacter c))
termination_by text => text.length
decreasing_by
  · exact Nat.lt_succ_self rest.length
  · exact Nat.lt_succ_self rest.length
  · exact this

/-- The tokens of a text in order, or the failure of the first character that
belongs to none. -/
def scan (text : Text) : Except Failure (List Token) :=
  scanFrom [] text

end Token

end Keypad
