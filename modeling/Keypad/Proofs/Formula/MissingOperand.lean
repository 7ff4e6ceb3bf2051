/-
Module: Keypad.Proofs.Formula.MissingOperand
Layer: proofs
Purpose: Which tokens the reader of formulas finds in the place of an operand.
Trusted boundary: none
Main exports:
  OperandDue, OperandDue.of_awaits, parse_blames, Fault.missingOperand_of_message
-/
import Keypad.Proofs.Formula.FirstFault

namespace Keypad

/-!
An operand is awaited at the beginning and behind every token but numbers and closing
parentheses.  If none of the operators but the minus stands at such a place, the only token
that the reader can find there in vain is a closing parenthesis.
-/

/-- Whether the token stands between operands only. -/
def Token.onlyJoins : Token → Bool
  | .plus => true
  | .star => true
  | .slash => true
  | _ => false

/-- The second token can stand behind the first one where it takes no part in an
operand. -/
def Joinable (previous next : Token) : Prop :=
  previous.endsOperand = false → next.onlyJoins = false

/-- Tokens at a place where an operand has to begin, in which none that only joins
operands stands at such a place. -/
structure OperandDue (tokens : List Token) : Prop where
  begins : ∀ token ∈ tokens.head?, token.onlyJoins = false
  joinable : tokens.IsChain Joinable

/-- Wherever an operand is awaited, no token that only joins operands stands. -/
theorem OperandDue.of_awaits {before behind : List Token} {found : Token}
    (due : OperandDue (before ++ found :: behind)) (awaits : awaitsOperand before = true) :
    found.onlyJoins = false := by
  rcases List.eq_nil_or_concat before with rfl | ⟨start, last, rfl⟩
  · exact due.begins found rfl
  · rw [List.concat_eq_append] at due awaits
    have endsNone : last.endsOperand = false := by
      simpa [awaitsOperand] using awaits
    have neighbours := (List.isChain_append.mp due.joinable).2.2
    exact neighbours last List.getLast?_concat found rfl endsNone

/-- A formula in which only the minus stands where an operand is due fails to be parsed
for a missing operand at its end or before a closing parenthesis only. -/
theorem parse_blames {tokens : List Token} {found : Token} (due : OperandDue tokens)
    (failed : parse tokens = .error (.syntaxError (.operandBefore found))) :
    found = .closing := by
  have nonempty : tokens ≠ [] := by
    rintro rfl
    cases failed
  obtain ⟨_, ⟨⟩, before, _, _, rfl, walked, refused⟩ := stopsAt_of_parse nonempty failed nofun
  cases refused with
  | operandBefore stuck =>
      have joins := due.of_awaits (Place.eq_of_walk walked).1.symm
      cases found with
      | closing => rfl
      | number | minus | opening => cases stuck
      | plus | star | slash => cases joins

/-- Two faults are told as a missing operand. -/
theorem Fault.missingOperand_of_message {fault : Fault}
    (told : "missing operand".toList <+: fault.message) :
    fault = .operandAtEnd ∨ ∃ found, fault = .operandBefore found := by
  have start : fault.message.take 2 = ['m', 'i'] := by
    obtain ⟨rest, same⟩ := told
    rw [← same]
    rfl
  cases fault with
  | operandAtEnd => exact .inl rfl
  | operandBefore found => exact .inr ⟨found, rfl⟩
  | _ => cases start

end Keypad
