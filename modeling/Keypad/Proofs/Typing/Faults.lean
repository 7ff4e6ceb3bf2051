/-
Module: Keypad.Proofs.Typing.Faults
Layer: proofs
Purpose: What can still be wrong with the form of a text that was typed.
Trusted boundary: none
Main exports: Spells.typed_adjacent, Typeable.operandDue, typing_faults
-/
import Keypad.Proofs.Formula.MissingOperand
import Keypad.Proofs.Formula.Runs
import Keypad.Proofs.Typing.Candidate

namespace Keypad

/-!
The keys see to it that all characters are known and that operators stand behind
operands.  What they leave to the evaluation is the form of the numbers and the
parentheses.
-/

/-- The second token can stand behind the first one in a typed text. -/
def TypedAdjacent (previous next : Token) : Prop :=
  ¬ (previous.isNumber = true ∧ next.isNumber = true) ∧ Joinable previous next

/-! ### From characters to tokens -/

/-- A token that only joins operands is written with one of three characters. -/
theorem joins_of_symbol {c : Char} {token : Token} (symbol : Token.ofSymbol? c = some token)
    (joins : token.onlyJoins = true) : c ∈ ['+', '*', '/'] := by
  unfold Token.ofSymbol? at symbol
  split at symbol <;> cases symbol
  case h_1 | h_3 | h_4 => decide
  all_goals cases joins

/-- A symbol that ends no operand is an operator or an opening parenthesis. -/
theorem awaits_of_symbol {c : Char} {token : Token} (symbol : Token.ofSymbol? c = some token)
    (awaits : token.endsOperand = false) : c ∈ ['+', '-', '*', '/', '('] := by
  unfold Token.ofSymbol? at symbol
  split at symbol <;> cases symbol
  case h_6 => cases awaits
  all_goals decide

/-- A number does not join operands. -/
theorem Token.onlyJoins_of_isNumber {token : Token} (number : token.isNumber = true) :
    token.onlyJoins = false := by
  cases token with
  | number value => rfl
  | _ => cases number

theorem symbol_not_isNumber {c : Char} {token : Token}
    (symbol : Token.ofSymbol? c = some token) : token.isNumber = false := by
  unfold Token.ofSymbol? at symbol
  split at symbol <;> cases symbol <;> rfl

namespace Spells

/-- A text without blanks begins with the first character of its first token. -/
theorem head {text : Text} {tokens : List Token} (spells : Spells text tokens)
    (significant : ∀ c ∈ text, isBlank c = false) {token : Token}
    (head : token ∈ tokens.head?) :
    ∃ c ∈ text.head?, Token.ofSymbol? c = some token ∨
      token.isNumber = true ∧ (c.isDigit = true ∨ c = '.') := by
  cases spells with
  | nil => cases head
  | @blank c text _ blank =>
      cases blank.symm.trans (significant c List.mem_cons_self)
  | symbol symbol =>
      cases head
      exact ⟨_, rfl, .inl symbol⟩
  | @number literal whole fraction text tokens written =>
      cases head
      cases literal with
      | nil => exact absurd rfl written.ne_nil
      | cons c literal =>
          exact ⟨c, rfl, .inr ⟨rfl, written.digit_or_point c List.mem_cons_self⟩⟩

/-- Where only the minus stands behind operators and opening parentheses, only it does
so among the tokens; and where there are no blanks, no number follows another. -/
theorem typed_adjacent {text : Text} {tokens : List Token} (spells : Spells text tokens) :
    (∀ c ∈ text, isBlank c = false) →
      (text.IsChain fun previous next =>
        previous ∈ ['+', '-', '*', '/', '('] → next ∉ ['+', '*', '/']) →
      tokens.IsChain TypedAdjacent := by
  induction spells with
  | nil => intro _ _; exact .nil
  | @blank c text _ blank =>
      intro significant _
      cases blank.symm.trans (significant c List.mem_cons_self)
  | @symbol c token text tokens symbol spells inductionHypothesis =>
      intro significant adjacent
      have textSignificant := fun d member => significant d (List.mem_cons_of_mem c member)
      apply (inductionHypothesis textSignificant adjacent.tail).cons
      intro next head
      refine ⟨fun both => ?_, fun awaits => ?_⟩
      · cases (symbol_not_isNumber symbol).symm.trans both.1
      · by_contra joins
        obtain ⟨d, textHead, nextSymbol | ⟨number, _⟩⟩ := spells.head textSignificant head
        · exact adjacent.rel_head? textHead (awaits_of_symbol symbol awaits)
            (joins_of_symbol nextSymbol (Bool.not_eq_false _ ▸ joins))
        · exact joins (Token.onlyJoins_of_isNumber number)
  | @number literal whole fraction text tokens written finite ends spells inductionHypothesis =>
      intro significant adjacent
      have textSignificant := fun d member =>
        significant d (List.mem_append_right literal member)
      apply (inductionHypothesis textSignificant adjacent.right_of_append).cons
      intro next head
      refine ⟨fun both => ?_, nofun⟩
      obtain ⟨d, textHead, symbol | ⟨_, numeric⟩⟩ := spells.head textSignificant head
      · cases (symbol_not_isNumber symbol).symm.trans both.2
      · obtain ⟨noDigit, noPoint⟩ := ends d textHead
        rcases numeric with digit | point
        · cases digit.symm.trans noDigit
        · exact noPoint point

end Spells

namespace Typeable

/-- At the beginning of a typed text an operand is due. -/
theorem operandDue {text : Text} {tokens : List Token} (typeable : Typeable text)
    (spells : Spells text tokens) : OperandDue tokens where
  begins := by
    intro token head
    by_contra joins
    obtain ⟨c, textHead, symbol | ⟨number, _⟩⟩ := spells.head typeable.significant head
    · exact typeable.begins c textHead (joins_of_symbol symbol (Bool.not_eq_false _ ▸ joins))
    · exact joins (Token.onlyJoins_of_isNumber number)
  joinable := by
    apply (spells.typed_adjacent typeable.significant typeable.adjacent).imp
    intro _ _ side
    exact side.2

/-- A typed text holds no character that belongs to no token, so that cutting it fails at
a run of digits and points or not at all. -/
theorem run_of_scan_failed {text : Text} {failure : Failure} (typeable : Typeable text)
    (failed : Token.scan text = .error failure) :
    ∃ before run behind fault, text = before ++ (run ++ behind) ∧
      MaximalRun before run behind ∧ failure = .syntaxError fault ∧
      RunFault run behind fault := by
  obtain ⟨before, rest, _, fault, rfl, _, rfl, fails⟩ := Token.failsAt_of_scanFrom failed
  cases fails with
  | run maximal runFault => exact ⟨before, _, _, fault, rfl, maximal, rfl, runFault⟩
  | @character c behind _ noSymbol notNumeric =>
      rcases typeable.keys c (List.mem_append_right before List.mem_cons_self) with
        digit | other
      · exact absurd (.inl digit) notNumeric
      · simp only [List.mem_cons, List.not_mem_nil, or_false] at other
        rcases other with rfl | rfl | rfl | rfl | rfl | rfl | rfl
        · exact absurd (.inr rfl) notNumeric
        all_goals cases noSymbol

end Typeable

/-- Whatever is typed, deleted and evaluated in a session, only so much can be wrong with
the form of its text.  Cutting it fails exactly when a run of digits and points holds no
digit, holds two points or is out of range, and then for the first such run and never for
an unexpected character.  If it is cut, no two numbers stand side by side, and an operand
is missing at the end or before a closing parenthesis only. -/
theorem typing_faults {session : Session} (reachable : session.Reachable) :
    ((∃ failure, Token.scan session.candidate = .error failure) ↔
      ∃ before run behind, session.candidate = before ++ (run ++ behind) ∧
        MaximalRun before run behind ∧ BrokenRun run) ∧
    (∀ failure, Token.scan session.candidate = .error failure →
      ∃ before run behind fault, session.candidate = before ++ (run ++ behind) ∧
        MaximalRun before run behind ∧ failure = .syntaxError fault ∧
        RunFault run behind fault ∧ ¬ "unexpected character".toList <+: fault.message) ∧
    ∀ tokens, Token.scan session.candidate = .ok tokens →
      (tokens.IsChain fun previous next =>
        ¬ (previous.isNumber = true ∧ next.isNumber = true)) ∧
      ∀ fault, parse tokens = .error (.syntaxError fault) →
        "missing operand".toList <+: fault.message →
          fault = .operandAtEnd ∨ fault = .operandBefore .closing := by
  have typeable := reachable.typeable
  refine ⟨⟨?_, ?_⟩, ?_, ?_⟩
  · rintro ⟨failure, failed⟩
    obtain ⟨before, run, behind, fault, cut, maximal, _, runFault⟩ :=
      typeable.run_of_scan_failed failed
    exact ⟨before, run, behind, cut, maximal, runFault.broken⟩
  · rintro ⟨before, run, behind, cut, maximal, broken⟩
    cases scanned : Token.scan session.candidate with
    | error failure => exact ⟨failure, rfl⟩
    | ok tokens =>
        rw [cut] at scanned
        exact absurd scanned (Token.not_scanned_of_broken maximal broken tokens)
  · intro failure failed
    obtain ⟨before, run, behind, fault, cut, maximal, same, runFault⟩ :=
      typeable.run_of_scan_failed failed
    exact ⟨before, run, behind, fault, cut, maximal, same, runFault, runFault.message_ne⟩
  · intro tokens scanned
    have spells := Token.scan_eq_ok_iff.mp scanned
    refine ⟨?_, fun fault failed told => ?_⟩
    · apply (spells.typed_adjacent typeable.significant typeable.adjacent).imp
      intro _ _ side
      exact side.1
    · rcases Fault.missingOperand_of_message told with rfl | ⟨found, rfl⟩
      · exact .inl rfl
      · rw [parse_blames (typeable.operandDue spells) failed]
        exact .inr rfl

/-- The group of `(2+)` can be typed.  It is cut into four tokens, and the operand that it
lacks is missing before the closing parenthesis. -/
theorem typing_faults_group :
    Session.Reachable ⟨"(2+)".toList, none⟩ ∧
      (∃ tokens, Token.scan "(2+)".toList = .ok tokens ∧
        (tokens.IsChain fun previous next =>
          ¬ (previous.isNumber = true ∧ next.isNumber = true)) ∧
        parse tokens = .error (.syntaxError (.operandBefore .closing))) ∧
      ¬ ∃ before run behind, "(2+)".toList = before ++ (run ++ behind) ∧
        MaximalRun before run behind ∧ BrokenRun run := by
  have reachable : Session.Reachable ⟨"(2+)".toList, none⟩ :=
    ⟨"(2+)".toList.map .type, by decide +kernel⟩
  have scanned : Token.scan "(2+)".toList =
      .ok [.opening, .number (.ofNat 2), .plus, .closing] := by decide +kernel
  obtain ⟨broken, _, cut⟩ := typing_faults reachable
  refine ⟨reachable, ⟨_, scanned, (cut _ scanned).1, by decide +kernel⟩, fun found => ?_⟩
  obtain ⟨failure, failed⟩ := broken.mpr found
  cases scanned.symm.trans failed

end Keypad
