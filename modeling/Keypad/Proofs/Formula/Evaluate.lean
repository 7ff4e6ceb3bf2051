/-
Module: Keypad.Proofs.Formula.Evaluate
Layer: proofs
Purpose: What evaluating a text says about the formula that it spells.
Trusted boundary: none
Main exports:
  Tree.value_fault, evaluate_cases, evaluate_of_spells, formula_of_evaluate,
  evaluate_formed, evaluate_of_broken
-/
import Keypad.Formula.Parse
import Keypad.Proofs.Formula.Reading
import Keypad.Proofs.Formula.Runs
import Keypad.Proofs.Formula.ZeroDivisor

namespace Keypad

/-- No tree fails by its form: that is the business of the reading. -/
theorem Tree.value_fault (tree : Tree) (fault : Fault) :
    tree.value ≠ .error (.syntaxError fault) := by
  intro failed
  cases (tree.value_eq_error_iff.mp failed).2

/-- A text that does not fail by its form spells a formula. -/
theorem evaluate_cases (text : Text) :
    (∃ fault, evaluate text = .error (.syntaxError fault)) ∨
      ∃ tokens tree, Spells text tokens ∧ parse tokens = .ok tree ∧
        evaluate text = tree.value >>= fun value =>
          if value.isFinite then .ok value else .error .overflow := by
  unfold evaluate
  cases scanned : Token.scan text with
  | error failure =>
      obtain ⟨fault, rfl⟩ := Token.scanFrom_fault scanned
      exact .inl ⟨fault, rfl⟩
  | ok tokens =>
      cases parsed : parse tokens with
      | error failure =>
          obtain ⟨fault, rfl⟩ := parse_fault parsed
          refine .inl ⟨fault, ?_⟩
          rw [ok_bind, parsed]
          rfl
      | ok tree =>
          refine .inr ⟨tokens, tree, Token.scan_eq_ok_iff.mp scanned, parsed, ?_⟩
          rw [ok_bind, parsed]
          rfl

/-- What the text of a formula is evaluated to. -/
theorem evaluate_of_spells {text : Text} {tokens : List Token} {tree : Tree}
    (spells : Spells text tokens) (parsed : parse tokens = .ok tree) :
    evaluate text = tree.value >>= fun value =>
      if value.isFinite then .ok value else .error .overflow := by
  unfold evaluate
  rw [Token.scan_eq_ok_iff.mpr spells, ok_bind, parsed]
  rfl

/-- What is evaluated to a value is a formula with this value, which is finite. -/
theorem formula_of_evaluate {text : Text} {value : Binary64}
    (evaluated : evaluate text = .ok value) :
    ∃ tokens tree, Spells text tokens ∧ parse tokens = .ok tree ∧
      tree.value = .ok value ∧ value.isFinite = true := by
  rcases evaluate_cases text with ⟨fault, failed⟩ | ⟨tokens, tree, spells, parsed, outcome⟩
  · rw [evaluated] at failed
    cases failed
  · rw [evaluated, eq_comm, bind_eq_ok_iff] at outcome
    obtain ⟨result, treeValue, checked⟩ := outcome
    by_cases finite : result.isFinite = true
    · rw [if_pos finite] at checked
      cases checked
      exact ⟨tokens, tree, spells, parsed, treeValue, finite⟩
    · rw [if_neg finite] at checked
      cases checked

/-- The text of a formula does not fail by its form. -/
theorem evaluate_formed {text : Text} {tokens : List Token} {tree : Tree}
    (spells : Spells text tokens) (parsed : parse tokens = .ok tree) (fault : Fault) :
    evaluate text ≠ .error (.syntaxError fault) := by
  intro failed
  rw [evaluate_of_spells spells parsed, bind_eq_error_iff] at failed
  rcases failed with treeFailed | ⟨value, _, checked⟩
  · exact tree.value_fault fault treeFailed
  · split at checked <;> cases checked

/-- A text with a broken run fails by its form. -/
theorem evaluate_of_broken {before run behind : Text} (maximal : MaximalRun before run behind)
    (broken : BrokenRun run) :
    ∃ fault, evaluate (before ++ (run ++ behind)) = .error (.syntaxError fault) := by
  rcases evaluate_cases (before ++ (run ++ behind)) with failed | ⟨tokens, _, spells, _⟩
  · exact failed
  · have scanned := Token.scan_eq_ok_iff.mpr spells
    exact absurd scanned (Token.not_scanned_of_broken maximal broken tokens)

end Keypad
