/-
Module: Keypad.Proofs.Typing.Formula
Layer: proofs
Purpose: A formula is typed as it stands: each of its keys is appended, and only
  its blanks are rejected.
Trusted boundary: none
Main exports:
  Session.typeAll, TypedThrough, typedThrough_of_spells, typing_formula
-/
import Keypad.Proofs.Formula.Adjacent
import Keypad.Proofs.Formula.Evaluate
import Keypad.Proofs.Typing.Position
import Keypad.Session

namespace Keypad

/-- Types the keys one after the other: the decisions on them, and the session
after the last one. -/
def Session.typeAll (session : Session) : Text → List Decision × Session
  | [] => ([], session)
  | key :: keys =>
      let (decision, typed) := session.type key
      let (decisions, last) := typed.typeAll keys
      (decision :: decisions, last)

/-- Behind the candidate, each key of the text is appended if it is not blank, and
rejected if it is. -/
def TypedThrough (candidate text : Text) : Prop :=
  ∀ session : Session, session.candidate = candidate →
    (session.typeAll text).1 =
        text.map (fun key => if isBlank key then .reject else .append) ∧
      (session.typeAll text).2.candidate = candidate ++ text.strip

namespace TypedThrough

theorem nil (candidate : Text) : TypedThrough candidate [] := by
  rintro session rfl
  exact ⟨rfl, (List.append_nil _).symm⟩

/-- A blank is rejected, and what comes behind it is typed as without it. -/
theorem blank {candidate text : Text} {key : Char} (blank : isBlank key = true)
    (typed : TypedThrough candidate text) : TypedThrough candidate (key :: text) := by
  rintro session rfl
  have rejected : accept session.candidate key = .reject := by
    rw [accept, Position.decide, KeyClass.of?_blank blank]
  have unchanged : press session.candidate key = session.candidate := by
    rw [press, rejected]
    rfl
  obtain ⟨decisions, last⟩ := typed (session.type key).2 unchanged
  constructor
  · rw [Session.typeAll, List.map_cons, if_pos blank, ← decisions, ← rejected]
    rfl
  · rw [Text.strip_blank blank, ← last]
    rfl

/-- Behind a key that is appended comes what is typed behind it. -/
theorem key {candidate text : Text} {key : Char} (appended : accept candidate key = .append)
    (typed : TypedThrough (candidate ++ [key]) text) :
    TypedThrough candidate (key :: text) := by
  rintro session rfl
  have significant : isBlank key = false :=
    KeyClass.significant (Position.decide_eq_append_iff.mp appended).1
  have longer : press session.candidate key = session.candidate ++ [key] := by
    rw [press, appended]
    rfl
  obtain ⟨decisions, last⟩ := typed (session.type key).2 longer
  constructor
  · rw [Session.typeAll, List.map_cons, significant, ← decisions, ← appended]
    rfl
  · rw [Text.strip_significant significant, List.append_cons, ← last]
    rfl

end TypedThrough

/-! ### The tokens of a formula under the keys -/

/-- The digits and points of a literal are neither operators nor opening parentheses. -/
theorem keyClass_literal {key : Char} (literal : key.isDigit = true ∨ key = '.') :
    KeyClass.of? key = some .digit ∨ KeyClass.of? key = some .dot := by
  rcases literal with digit | rfl
  · exact .inl (KeyClass.of?_digit digit)
  · exact .inr rfl

theorem accept_literal (candidate : Text) {key : Char}
    (literal : key.isDigit = true ∨ key = '.') : accept candidate key = .append := by
  apply Position.decide_eq_append_iff.mpr
  rcases keyClass_literal literal with keyClass | keyClass
  all_goals
    rw [keyClass]
    constructor
    · exact Option.some_ne_none _
    · intro operator
      cases operator

/-- An operand is complete at the end of a literal. -/
theorem endsOperand_literal {literal whole fraction : Text}
    (written : Literal literal whole fraction) (candidate : Text) :
    (Position.of (candidate ++ literal)).endsOperand = true := by
  rw [← List.dropLast_append_getLast written.ne_nil, ← List.append_assoc]
  have last := written.digit_or_point _ (List.getLast_mem written.ne_nil)
  rw [Position.of_concat _ (literal_only last).1]
  apply Position.endsOperand_behindKey.mpr
  rcases keyClass_literal last with keyClass | keyClass
  all_goals
    rw [keyClass]
    constructor <;> · intro same; cases same

/-- A symbol is appended where an operand is complete, and anywhere if an operand
can begin with it. -/
theorem accept_symbol {candidate : Text} {key : Char} {token : Token}
    (symbol : Token.ofSymbol? key = some token)
    (fits : token.beginsOperand = true ∨ (Position.of candidate).endsOperand = true) :
    accept candidate key = .append := by
  apply Position.decide_eq_append_iff.mpr
  constructor
  · apply KeyClass.of?_ne_none_iff.mpr
    right
    unfold Token.ofSymbol? at symbol
    split at symbol <;> first | decide | cases symbol
  · intro operator
    rcases fits with begins | ends
    · left
      -- the minus is the one operator that an operand can begin with
      unfold Token.ofSymbol? at symbol
      split at symbol <;> cases symbol <;>
        first | rfl | exact absurd begins (by decide) | exact absurd operator (by decide)
    · exact .inr ends

/-- An operand is complete behind a symbol if it can end with it. -/
theorem endsOperand_symbol {key : Char} {token : Token}
    (symbol : Token.ofSymbol? key = some token) (ends : token.endsOperand = true)
    (candidate : Text) : (Position.of (candidate ++ [key])).endsOperand = true := by
  rw [Position.of_concat _ (not_literal_of_symbol symbol).1]
  unfold Token.ofSymbol? at symbol
  split at symbol <;> cases symbol <;> first | rfl | cases ends

/-- Literals are typed through. -/
theorem typedThrough_literal {text : Text} :
    ∀ {literal candidate : Text}, (∀ c ∈ literal, c.isDigit = true ∨ c = '.') →
      TypedThrough (candidate ++ literal) text → TypedThrough candidate (literal ++ text) := by
  intro literal
  induction literal with
  | nil =>
      intro candidate _ typed
      rwa [List.append_nil] at typed
  | cons c literal inductionHypothesis =>
      intro candidate only typed
      have behind := inductionHypothesis (fun d member => only d (List.mem_cons_of_mem c member))
        (List.append_cons candidate c literal ▸ typed)
      exact behind.key (accept_literal candidate (only c List.mem_cons_self))

/-- Tokens that can be adjacent are typed through, where the first one begins an
operand or one is complete before it. -/
theorem typedThrough_of_spells {text : Text} {tokens : List Token}
    (spells : Spells text tokens) :
    ∀ {candidate : Text}, tokens.IsChain Adjacent →
      (∀ token ∈ tokens.head?,
        token.beginsOperand = true ∨ (Position.of candidate).endsOperand = true) →
      TypedThrough candidate text := by
  induction spells with
  | nil =>
      intro candidate _ _
      exact .nil candidate
  | blank blank _ inductionHypothesis =>
      intro candidate adjacent fits
      exact (inductionHypothesis adjacent fits).blank blank
  | @symbol c token text tokens symbol _ inductionHypothesis =>
      intro candidate adjacent fits
      refine .key (accept_symbol symbol (fits token rfl))
        (inductionHypothesis adjacent.tail fun next head => ?_)
      have side := adjacent.rel_head? head
      unfold Adjacent at side
      split at side
      · rename_i ends
        exact .inr (endsOperand_symbol symbol ends candidate)
      · exact .inl side
  | @number literal whole fraction text tokens written _ _ _ inductionHypothesis =>
      intro candidate adjacent _
      refine typedThrough_literal written.digit_or_point
        (inductionHypothesis adjacent.tail fun next _ => ?_)
      exact .inr (endsOperand_literal written candidate)

/-- Typing a formula into a new session appends all its keys but the blanks, which
are rejected, and never replaces one.  The session then holds the formula without
its blanks, which has the outcome of the formula, and that is no failure by its
form. -/
theorem typing_formula {text : Text} {tokens : List Token} {tree : Tree}
    (scanned : Token.scan text = .ok tokens) (parsed : parse tokens = .ok tree) :
    (Session.start.typeAll text).1 =
        text.map (fun key => if isBlank key then .reject else .append) ∧
      (Session.start.typeAll text).2.candidate = text.strip ∧
      evaluate (Session.start.typeAll text).2.candidate = evaluate text ∧
      ∀ fault, evaluate text ≠ .error (.syntaxError fault) := by
  have spells := Token.scan_eq_ok_iff.mp scanned
  obtain ⟨nesting, derives, _⟩ := derives_of_parse parsed
  have operand := derives.operand
  have typed : TypedThrough [] text := by
    apply typedThrough_of_spells spells operand.adjacent
    intro token head
    obtain ⟨first, firstHead, begins⟩ := operand.begins
    cases Option.mem_unique firstHead head
    exact .inl begins
  obtain ⟨decisions, last⟩ := typed Session.start rfl
  refine ⟨decisions, last, ?_, evaluate_formed spells parsed⟩
  rw [last, List.nil_append, evaluate_of_spells (spells.strip operand.adjacent) parsed,
    evaluate_of_spells spells parsed]

set_option maxRecDepth 4000 in
/-- A formula with blanks, a group and a sign is typed without the blanks. -/
theorem typing_formula_grouped :
    (Session.start.typeAll " (2 +3)*-4".toList).1 =
        [.reject, .append, .append, .reject, .append, .append, .append, .append, .append,
          .append] ∧
      (Session.start.typeAll " (2 +3)*-4".toList).2.candidate = "(2+3)*-4".toList ∧
      evaluate "(2+3)*-4".toList = evaluate " (2 +3)*-4".toList := by
  have scanned : Token.scan " (2 +3)*-4".toList =
      .ok [.opening, .number (.ofNat 2), .plus, .number (.ofNat 3), .closing, .star, .minus,
        .number (.ofNat 4)] := by decide +kernel
  have parsed : parse [.opening, .number (.ofNat 2), .plus, .number (.ofNat 3), .closing,
      .star, .minus, .number (.ofNat 4)] =
      .ok (.binary .mul (.binary .add (.literal (.ofNat 2)) (.literal (.ofNat 3)))
        (.negation (.literal (.ofNat 4)))) := by decide +kernel
  have stripped : Text.strip " (2 +3)*-4".toList = "(2+3)*-4".toList := by decide
  obtain ⟨decisions, last, same, _⟩ := typing_formula scanned parsed
  rw [last, stripped] at same
  exact ⟨decisions.trans (by decide), last.trans stripped, same⟩

end Keypad
