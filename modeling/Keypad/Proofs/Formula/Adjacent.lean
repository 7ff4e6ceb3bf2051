/-
Module: Keypad.Proofs.Formula.Adjacent
Layer: proofs
Purpose: Which tokens stand side by side in a formula, and that its blanks can be
  left out.
Trusted boundary: none
Main exports:
  Token.isNumber, Adjacent, Operand, Derives.operand, Spells.strip
-/
import Keypad.Formula.Grammar
import Keypad.Proofs.Formula.Spelling
import Mathlib.Data.List.Chain

namespace Keypad

/-!
Behind a number or a closing parenthesis an operand is complete, and only an
operator or a closing parenthesis can follow; behind all other tokens an operand
has to begin.  So no two numbers stand side by side, and no blank of a formula is
needed to keep two of them apart.
-/

namespace Token

/-- Whether the token is a number. -/
def isNumber : Token → Bool
  | .number _ => true
  | _ => false

/-- Whether an operand can begin with the token. -/
def beginsOperand : Token → Bool
  | .number _ => true
  | .minus => true
  | .opening => true
  | _ => false

/-- Whether an operand can end with the token. -/
def endsOperand : Token → Bool
  | .number _ => true
  | .closing => true
  | _ => false

/-- Whether the token can stand behind a complete operand. -/
def followsOperand : Token → Bool
  | .number _ => false
  | .opening => false
  | _ => true

end Token

/-- The second token can stand right behind the first one in a formula. -/
def Adjacent (previous next : Token) : Prop :=
  if previous.endsOperand then next.followsOperand = true else next.beginsOperand = true

/-- Tokens that can be adjacent, from the beginning of an operand to its end. -/
structure Operand (tokens : List Token) : Prop where
  begins : ∃ first ∈ tokens.head?, first.beginsOperand = true
  ends : ∃ last ∈ tokens.getLast?, last.endsOperand = true
  adjacent : tokens.IsChain Adjacent

namespace Operand

theorem number (value : Binary64) : Operand [.number value] :=
  ⟨⟨_, rfl, rfl⟩, ⟨_, rfl, rfl⟩, .singleton _⟩

/-- A token behind which an operand has to begin can stand before one. -/
theorem adjacent_cons {tokens : List Token} (operand : Operand tokens) {token : Token}
    (awaits : token.endsOperand = false) : (token :: tokens).IsChain Adjacent := by
  obtain ⟨first, head, begins⟩ := operand.begins
  apply operand.adjacent.cons
  intro other otherHead
  cases Option.mem_unique head otherHead
  simp [Adjacent, awaits, begins]

/-- The last token of an operand is still last with more tokens before it. -/
theorem ends_append {tokens : List Token} (operand : Operand tokens) (before : List Token) :
    ∃ last ∈ (before ++ tokens).getLast?, last.endsOperand = true := by
  obtain ⟨last, tail, ends⟩ := operand.ends
  exact ⟨last, List.mem_getLast?_append_of_mem_getLast? tail, ends⟩

/-- Tokens that begin with one that can stand behind an operand stand behind it. -/
theorem adjacent_append {before : List Token} (operand : Operand before)
    {token : Token} {behind : List Token} (follows : token.followsOperand = true)
    (adjacent : (token :: behind).IsChain Adjacent) :
    (before ++ token :: behind).IsChain Adjacent := by
  obtain ⟨last, tail, ends⟩ := operand.ends
  apply operand.adjacent.append adjacent
  intro other otherTail next head
  cases Option.mem_unique tail otherTail
  cases head
  simp [Adjacent, ends, follows]

theorem negation {tokens : List Token} (operand : Operand tokens) :
    Operand (.minus :: tokens) :=
  ⟨⟨_, rfl, rfl⟩, operand.ends_append [.minus], operand.adjacent_cons rfl⟩

theorem group {tokens : List Token} (operand : Operand tokens) :
    Operand (.opening :: (tokens ++ [.closing])) := by
  refine ⟨⟨_, rfl, rfl⟩, ⟨.closing, ?_, rfl⟩, ?_⟩
  · rw [← List.cons_append]
    exact List.getLast?_concat
  · have closed : (tokens ++ [Token.closing]).IsChain Adjacent :=
      operand.adjacent_append rfl (.singleton _)
    obtain ⟨first, head, begins⟩ := operand.begins
    apply closed.cons
    intro other otherHead
    rw [List.head?_append_of_ne_nil _ (by rintro rfl; cases head)] at otherHead
    cases Option.mem_unique head otherHead
    simp [Adjacent, Token.endsOperand, begins]

theorem join {before behind : List Token} {token : Token} (left : Operand before)
    (follows : token.followsOperand = true) (awaits : token.endsOperand = false)
    (right : Operand behind) : Operand (before ++ token :: behind) := by
  obtain ⟨first, head, begins⟩ := left.begins
  refine ⟨⟨first, ?_, begins⟩, ?_, ?_⟩
  · rwa [List.head?_append_of_ne_nil _ (by rintro rfl; cases head)]
  · rw [← List.singleton_append, ← List.append_assoc]
    exact right.ends_append (before ++ [token])
  · exact left.adjacent_append follows (right.adjacent_cons awaits)

end Operand

/-- The operators of products stand between operands. -/
theorem between_of_productOperator {token : Token} {operator : Operator}
    (joins : productOperator? token = some operator) :
    token.followsOperand = true ∧ token.endsOperand = false := by
  cases token <;> first | exact ⟨rfl, rfl⟩ | cases joins

/-- The operators of sums stand between operands. -/
theorem between_of_sumOperator {token : Token} {operator : Operator}
    (joins : sumOperator? token = some operator) :
    token.followsOperand = true ∧ token.endsOperand = false := by
  cases token <;> first | exact ⟨rfl, rfl⟩ | cases joins

/-- Every formula, of whatever rank, is an operand. -/
theorem Derives.operand {rank : Rank} {tokens : List Token} {tree : Tree} {nesting : Nat}
    (derives : Derives rank tokens tree nesting) : Operand tokens := by
  induction derives with
  | number value => exact .number value
  | negation _ inductionHypothesis => exact inductionHypothesis.negation
  | group _ inductionHypothesis => exact inductionHypothesis.group
  | product _ inductionHypothesis => exact inductionHypothesis
  | times _ joins _ leftHypothesis rightHypothesis =>
      obtain ⟨follows, awaits⟩ := between_of_productOperator joins
      exact leftHypothesis.join follows awaits rightHypothesis
  | sum _ inductionHypothesis => exact inductionHypothesis
  | plus _ joins _ leftHypothesis rightHypothesis =>
      obtain ⟨follows, awaits⟩ := between_of_sumOperator joins
      exact leftHypothesis.join follows awaits rightHypothesis

/-! ### Leaving out the blanks -/

namespace Spells

/-- Where no number is spelled first, a literal before the text has ended also when
the blanks between them are left out. -/
theorem endsRun_strip {text : Text} {tokens : List Token} (spells : Spells text tokens)
    (noNumber : ∀ value, Token.number value ∉ tokens.head?) : EndsRun text.strip := by
  induction spells with
  | nil =>
      intro c head
      cases head
  | blank blank _ inductionHypothesis =>
      rw [Text.strip_blank blank]
      exact inductionHypothesis noNumber
  | symbol symbol _ _ =>
      rw [Text.strip_significant (not_literal_of_symbol symbol).1]
      exact endsRun_of_symbol _ symbol
  | number => exact absurd rfl (noNumber _)

/-- A text spells the same without its blanks, if no two numbers that it spells
stand side by side. -/
theorem strip {text : Text} {tokens : List Token} (spells : Spells text tokens)
    (adjacent : tokens.IsChain Adjacent) : Spells text.strip tokens := by
  induction spells with
  | nil => exact .nil
  | blank blank _ inductionHypothesis =>
      rw [Text.strip_blank blank]
      exact inductionHypothesis adjacent
  | symbol symbol _ inductionHypothesis =>
      rw [Text.strip_significant (not_literal_of_symbol symbol).1]
      exact .symbol symbol (inductionHypothesis adjacent.tail)
  | @number literal whole fraction text tokens written finite _ spells inductionHypothesis =>
      have literalStays : Text.strip literal = literal :=
        Text.strip_eq_self fun c member => (literal_only (written.digit_or_point c member)).1
      have ends : EndsRun text.strip := by
        apply spells.endsRun_strip
        intro value head
        have follows := adjacent.rel_head? head
        simp [Adjacent, Token.endsOperand, Token.followsOperand] at follows
      rw [Text.strip_append, literalStays]
      exact .number written finite ends (inductionHypothesis adjacent.tail)

end Spells

end Keypad
