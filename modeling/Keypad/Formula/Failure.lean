/-
Module: Keypad.Formula.Failure
Layer: formulas
Purpose: How the outcome of fallible steps comes about, why a formula has no value,
  and the words for it.
Trusted boundary: none
Main exports:
  bind_eq_ok_iff, bind_eq_error_iff, Fault, Fault.message, Failure, Failure.kind,
  Failure.message
-/
import Keypad.Formula.Token

namespace Keypad

section Outcomes

variable {ε α β : Type}

/-- Results are compared by what they hold. -/
instance resultDecidableEq [DecidableEq ε] [DecidableEq α] :
    DecidableEq (Except ε α)
  | .ok a, .ok b =>
      if same : a = b then isTrue (congrArg Except.ok same)
      else isFalse fun equal => same (Except.ok.inj equal)
  | .error a, .error b =>
      if same : a = b then isTrue (congrArg Except.error same)
      else isFalse fun equal => same (Except.error.inj equal)
  | .ok _, .error _ => isFalse fun equal => nomatch equal
  | .error _, .ok _ => isFalse fun equal => nomatch equal

@[simp] theorem ok_bind (a : α) (next : α → Except ε β) :
    (Except.ok a >>= next) = next a := rfl

@[simp] theorem error_bind (failure : ε) (next : α → Except ε β) :
    (Except.error failure >>= next) = Except.error failure := rfl

/-- Two steps succeed when the first does and the second does behind it. -/
theorem bind_eq_ok_iff {first : Except ε α} {next : α → Except ε β} {b : β} :
    (first >>= next) = .ok b ↔ ∃ a, first = .ok a ∧ next a = .ok b := by
  cases first with
  | error failure => simp
  | ok a => simp

/-- Two steps fail when the first does, or when it succeeds and the second
fails behind it. -/
theorem bind_eq_error_iff {first : Except ε α} {next : α → Except ε β} {failure : ε} :
    (first >>= next) = .error failure ↔
      first = .error failure ∨ ∃ a, first = .ok a ∧ next a = .error failure := by
  cases first with
  | error other => simp
  | ok a => simp

end Outcomes

/-- What is wrong with the form of a formula. -/
inductive Fault where
  /-- The character begins no token. -/
  | unexpectedCharacter (c : Char)
  /-- A run of digits and points holds no digit where its number begins. -/
  | malformedNumber (rest : Text)
  /-- A second point follows a number. -/
  | secondPoint (rest : Text)
  /-- The nearest double to a number is infinite. -/
  | numberOutOfRange
  /-- There is no token at all. -/
  | empty
  /-- The tree is too high, or signs and groups are nested too deeply. -/
  | tooDeep
  /-- A token that cannot begin an operand stands where one is expected. -/
  | operandBefore (found : Token)
  /-- The formula ends where an operand is expected. -/
  | operandAtEnd
  /-- A group is complete up to its closing parenthesis, and another token follows. -/
  | closingExpected (found : Token)
  /-- The formula ends inside a group. -/
  | closingMissing
  /-- A closing parenthesis has no opening one. -/
  | closingUnexpected
  /-- A complete formula is followed by another token. -/
  | trailing (found : Token)
deriving DecidableEq, Repr

/-- A text in quotation marks. -/
private def quoted (text : Text) : Text := '"' :: text ++ ['"']

/-- A token or a character in single quotation marks. -/
private def ticked (text : Text) : Text := '\'' :: text ++ ['\'']

/-- The words for a fault. -/
def Fault.message : Fault → Text
  | .unexpectedCharacter c => "unexpected character ".toList ++ ticked [c]
  | .malformedNumber rest => "malformed number at ".toList ++ quoted rest
  | .secondPoint rest => "multiple decimal points in number at ".toList ++ quoted rest
  | .numberOutOfRange => "number literal out of range".toList
  | .empty => "empty expression".toList
  | .tooDeep => "expression nested too deeply".toList
  | .operandBefore found => "missing operand before ".toList ++ ticked found.text
  | .operandAtEnd => "missing operand at end of expression".toList
  | .closingExpected found =>
      "unbalanced parentheses: expected ')' but found ".toList ++ ticked found.text
  | .closingMissing => "unbalanced parentheses: missing ')'".toList
  | .closingUnexpected => "unbalanced parentheses: unexpected ')'".toList
  | .trailing found =>
      "unexpected ".toList ++ ticked found.text ++ " after expression".toList

/-- Why a formula has no value. -/
inductive Failure where
  | syntaxError (fault : Fault)
  | divisionByZero
  | overflow
deriving DecidableEq, Repr

/-- The tag by which a client tells failures apart. -/
def Failure.kind : Failure → Text
  | .syntaxError _ => "syntax_error".toList
  | .divisionByZero => "division_by_zero".toList
  | .overflow => "overflow".toList

/-- The words for a failure. -/
def Failure.message : Failure → Text
  | .syntaxError fault => "Syntax Error: ".toList ++ fault.message
  | .divisionByZero => "Division By Zero".toList
  | .overflow => "Overflow".toList

end Keypad
