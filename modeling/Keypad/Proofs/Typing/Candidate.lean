/-
Module: Keypad.Proofs.Typing.Candidate
Layer: proofs
Purpose: The texts that a session can come to hold, whatever is typed, deleted and
  evaluated in it.
Trusted boundary: none
Main exports:
  Typeable, Typeable.accept_of_concat, Typeable.concat, Typeable.retype, Typeable.act,
  Session.Reachable.act, candidate_reachable_iff
-/
import Keypad.Proofs.Formula.Evaluate
import Keypad.Proofs.Typing.Position
import Keypad.Session
import Mathlib.Data.List.Chain
import Mathlib.Data.List.Induction

namespace Keypad

/-- The texts that keys can bring about: digits, points, operators and parentheses,
in which no operator but the minus stands at the beginning, behind another operator
or behind an opening parenthesis. -/
structure Typeable (text : Text) : Prop where
  keys : ∀ c ∈ text, c.isDigit = true ∨ c ∈ ['.', '+', '-', '*', '/', '(', ')']
  begins : ∀ c ∈ text.head?, c ∉ ['+', '*', '/']
  adjacent : text.IsChain fun previous next =>
    previous ∈ ['+', '-', '*', '/', '('] → next ∉ ['+', '*', '/']

namespace Typeable

theorem nil : Typeable [] where
  keys := nofun
  begins := nofun
  adjacent := .nil

/-- There are no blanks in the texts that keys bring about. -/
theorem significant {text : Text} (typeable : Typeable text) :
    ∀ c ∈ text, isBlank c = false :=
  fun c member => KeyClass.significant (KeyClass.of?_ne_none_iff.mpr (typeable.keys c member))

/-- A text without its last character was typed before. -/
theorem of_concat {text : Text} {key : Char} (typeable : Typeable (text ++ [key])) :
    Typeable text where
  keys := fun c member => typeable.keys c (List.mem_append_left [key] member)
  begins := by
    intro c head
    apply typeable.begins c
    rw [List.head?_append, head]
    rfl
  adjacent := typeable.adjacent.left_of_append

theorem dropLast {text : Text} (typeable : Typeable text) : Typeable text.dropLast := by
  rcases List.eq_nil_or_concat text with rfl | ⟨before, last, rfl⟩
  · exact nil
  · rw [List.concat_eq_append] at typeable ⊢
    rw [List.dropLast_concat]
    exact typeable.of_concat

/-- Texts without other operators than the minus can be typed. -/
theorem of_signs {text : Text}
    (only : ∀ c ∈ text, c = '-' ∨ c.isDigit = true ∨ c = '.') : Typeable text := by
  have joinsNothing : ∀ c ∈ text, c ∉ ['+', '*', '/'] := by
    intro c member joins
    simp only [List.mem_cons, List.not_mem_nil, or_false] at joins
    have cases := only c member
    rcases joins with rfl | rfl | rfl <;> revert cases <;> decide
  refine ⟨fun c member => ?_, fun c head => joinsNothing c (List.mem_of_mem_head? head), ?_⟩
  · rcases only c member with rfl | digit | rfl
    · exact .inr (by decide)
    · exact .inl digit
    · exact .inr (by decide)
  · apply List.Pairwise.isChain
    exact List.pairwise_of_forall_mem_list fun _ _ next member _ => joinsNothing next member

/-- In the texts that keys bring about, an operand is complete behind all characters
but operators and opening parentheses. -/
theorem endsOperand_iff {text : Text} (typeable : Typeable text) :
    (Position.of text).endsOperand = true ↔
      ∃ last ∈ text.getLast?, last ∉ ['+', '-', '*', '/', '('] := by
  rcases List.eq_nil_or_concat text with rfl | ⟨before, last, rfl⟩
  · simp [Position.of, Text.strip, Position.behind, Position.endsOperand]
  · rw [List.concat_eq_append] at typeable ⊢
    have significant := typeable.significant last (List.mem_append_right before (.head _))
    rw [Position.of_concat before significant, Position.endsOperand_behindKey,
      List.getLast?_concat, ne_eq, ne_eq, KeyClass.of?_eq_operator_iff,
      KeyClass.of?_eq_openParen_iff]
    simp only [List.mem_cons, List.not_mem_nil, or_false, not_or, Option.mem_def,
      Option.some.injEq, exists_eq_left']
    tauto

/-- The last key of a text that keys bring about is appended to the text before it. -/
theorem accept_of_concat {text : Text} {key : Char} (typeable : Typeable (text ++ [key])) :
    accept text key = .append := by
  apply Position.decide_eq_append_iff.mpr
  constructor
  · apply KeyClass.of?_ne_none_iff.mpr
    exact typeable.keys key (List.mem_append_right text (.head _))
  · intro operator
    by_cases minus : key = '-'
    · exact .inl minus
    · right
      have joins : key ∈ ['+', '*', '/'] := by
        have := KeyClass.of?_eq_operator_iff.mp operator
        simp only [List.mem_cons, List.not_mem_nil, or_false, minus, false_or] at this ⊢
        exact this
      rcases List.eq_nil_or_concat text with rfl | ⟨start, last, rfl⟩
      · exact absurd joins (typeable.begins key rfl)
      · rw [List.concat_eq_append] at typeable ⊢
        apply typeable.of_concat.endsOperand_iff.mpr
        refine ⟨last, List.getLast?_concat, fun awaits => ?_⟩
        have side := (List.isChain_append.mp typeable.adjacent).2.2 last
          List.getLast?_concat key rfl
        exact side awaits joins

/-- A key that is appended to a text that keys bring about gives such a text. -/
theorem concat {text : Text} {key : Char} (typeable : Typeable text)
    (appended : accept text key = .append) : Typeable (text ++ [key]) := by
  obtain ⟨known, joins⟩ := Position.decide_eq_append_iff.mp appended
  have complete : key ∈ ['+', '*', '/'] → (Position.of text).endsOperand = true := by
    intro member
    simp only [List.mem_cons, List.not_mem_nil, or_false] at member
    rcases member with rfl | rfl | rfl <;>
      exact (joins rfl).resolve_left (by decide)
  refine ⟨fun c member => ?_, fun c head joinsHead => ?_, ?_⟩
  · rcases List.mem_append.mp member with before | last
    · exact typeable.keys c before
    · rw [List.mem_singleton.mp last]
      exact KeyClass.of?_ne_none_iff.mp known
  · cases text with
    | nil =>
        cases head
        cases complete joinsHead
    | cons first text => exact typeable.begins c head joinsHead
  · apply typeable.adjacent.append (.singleton key)
    intro last tail next head awaits member
    cases head
    obtain ⟨other, otherTail, ends⟩ := typeable.endsOperand_iff.mp (complete member)
    cases Option.mem_unique tail otherTail
    exact ends awaits

/-- A key that takes the place of the last one would be appended if that one were deleted. -/
theorem retype {text : Text} {key : Char} (typeable : Typeable text)
    (replaced : accept text key = .replaceLast) :
    accept text.dropLast key = .append ∧ Keypad.press text key = text.dropLast ++ [key] := by
  obtain ⟨operator, _, position⟩ := Position.decide_eq_replaceLast_iff.mp replaced
  constructor
  · rcases List.eq_nil_or_concat text with rfl | ⟨before, last, rfl⟩
    · cases position
    · rw [List.concat_eq_append] at typeable position ⊢
      have ends := endsOperand_of_operator typeable.accept_of_concat position
      have known : KeyClass.of? key ≠ none := by
        rw [operator]
        exact Option.some_ne_none _
      rw [List.dropLast_concat]
      exact Position.decide_eq_append_iff.mpr ⟨known, fun _ => .inr ends⟩
  · rw [Keypad.press, replaced, Decision.applyTo, Text.trimEnd_eq_self typeable.significant]

/-- Whatever key is typed, the text remains one that keys bring about. -/
theorem press {text : Text} (typeable : Typeable text) (key : Char) :
    Typeable (press text key) := by
  cases decision : accept text key with
  | append =>
      rw [Keypad.press, decision]
      exact typeable.concat decision
  | reject =>
      rw [Keypad.press, decision]
      exact typeable
  | replaceLast =>
      obtain ⟨appended, replaced⟩ := typeable.retype decision
      rw [replaced]
      exact typeable.dropLast.concat appended

/-- The text of a finite result could have been typed. -/
theorem shown {value : Binary64} (finite : value.isFinite = true) : Typeable value.shown := by
  apply of_signs
  intro c member
  rcases Binary64.shown_cases finite with ⟨rank, _, plain⟩ | ⟨rank, _, _, signed⟩
  all_goals obtain ⟨whole, fraction, literal, _⟩ := Binary64.magnitudeText_literal rank
  · rw [plain] at member
    exact .inr (literal.digit_or_point c member)
  · rw [signed] at member
    rcases List.mem_cons.mp member with sign | behind
    · exact .inl sign
    · exact .inr (literal.digit_or_point c behind)

/-- One action leaves a text that keys could have brought about. -/
theorem act {session : Session} (typeable : Typeable session.candidate) (action : Action) :
    Typeable (session.act action).candidate := by
  cases action with
  | type key => exact typeable.press key
  | deleteLast => exact typeable.dropLast
  | clear => exact nil
  | equals =>
      show Typeable session.equals.2.candidate
      unfold Session.equals
      split
      · exact typeable
      · cases evaluated : evaluate session.candidate with
        | error failure => exact typeable
        | ok value =>
            obtain ⟨_, _, _, _, _, finite⟩ := formula_of_evaluate evaluated
            exact shown finite

/-- A run of actions leaves a text that keys could have brought about. -/
theorem after (actions : List Action) :
    ∀ {session : Session}, Typeable session.candidate →
      Typeable (session.after actions).candidate := by
  induction actions with
  | nil => exact id
  | cons action actions inductionHypothesis =>
      intro session typeable
      exact inductionHypothesis (typeable.act action)

end Typeable

/-- What one action makes of a session that can be brought about can be brought
about. -/
theorem Session.Reachable.act {session : Session} (reachable : session.Reachable)
    (action : Action) : (session.act action).Reachable := by
  obtain ⟨actions, rfl⟩ := reachable
  refine ⟨actions ++ [action], ?_⟩
  rw [Session.after, Session.after, List.foldl_append]
  rfl

/-- The text of a session that can be brought about is one that keys can bring about. -/
theorem Session.Reachable.typeable {session : Session} (reachable : session.Reachable) :
    Typeable session.candidate := by
  obtain ⟨actions, rfl⟩ := reachable
  exact Typeable.after actions .nil

/-- A text that keys can bring about is typed into a new session key by key. -/
theorem Typeable.reachable {text : Text} (typeable : Typeable text) :
    ∃ session : Session, session.Reachable ∧ session.candidate = text := by
  induction text using List.reverseRecOn with
  | nil => exact ⟨Session.start, ⟨[], rfl⟩, rfl⟩
  | append_singleton before key inductionHypothesis =>
      have appended := typeable.accept_of_concat
      obtain ⟨session, reachable, rfl⟩ := inductionHypothesis typeable.of_concat
      refine ⟨session.act (.type key), reachable.act _, ?_⟩
      show Keypad.press session.candidate key = session.candidate ++ [key]
      rw [Keypad.press, appended]
      rfl

/-- By typing any characters, deleting, clearing and evaluating in any order, a
session comes to hold exactly the typeable texts. -/
theorem candidate_reachable_iff (text : Text) :
    (∃ session : Session, session.Reachable ∧ session.candidate = text) ↔ Typeable text := by
  constructor
  · rintro ⟨session, ⟨actions, rfl⟩, rfl⟩
    exact Typeable.after actions .nil
  · exact Typeable.reachable

end Keypad
