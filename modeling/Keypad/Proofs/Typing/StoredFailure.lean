/-
Module: Keypad.Proofs.Typing.StoredFailure
Layer: proofs
Purpose: When a failure stands beside the text of a session, and which one.
Trusted boundary: none
Main exports:
  Session.Reachable.evaluate_eq_error, Session.isIdle, Session.performed,
  Session.after_failure_iff
-/
import Keypad.Proofs.Typing.Equals

namespace Keypad

namespace Session

variable {session : Session} {action : Action} {actions : List Action} {failure : Failure}

/-! ### What a failure says about the text -/

/-- A failure stands beside a text that is not blank and fails to evaluate with it. -/
def Explained (session : Session) : Prop :=
  ∀ failure, session.failure = some failure →
    session.candidate.isBlank = false ∧ evaluate session.candidate = .error failure

theorem Explained.of_failure_eq_none (none : session.failure = none) : session.Explained := by
  intro failure stored
  cases none.symm.trans stored

/-- An evaluation leaves the failure of the text that it leaves. -/
theorem Explained.equals (explained : session.Explained) : session.equals.2.Explained := by
  cases blank : session.candidate.isBlank with
  | true =>
      rw [equals_of_isBlank blank]
      exact explained
  | false =>
      rcases equals_cases blank with ⟨value, _, done⟩ | ⟨failure, failed, done⟩
      · rw [done]
        exact of_failure_eq_none rfl
      · rw [done]
        rintro other stored
        cases stored
        exact ⟨blank, failed⟩

theorem Explained.act (explained : session.Explained) (action : Action) :
    (session.act action).Explained := by
  cases action with
  | type key => exact of_failure_eq_none rfl
  | deleteLast => exact of_failure_eq_none rfl
  | clear => exact of_failure_eq_none rfl
  | equals => exact explained.equals

theorem Explained.after (actions : List Action) :
    ∀ {session : Session}, session.Explained → (session.after actions).Explained := by
  induction actions with
  | nil => exact id
  | cons action actions inductionHypothesis =>
      intro session explained
      exact inductionHypothesis (explained.act action)

theorem Reachable.explained (reachable : session.Reachable) : session.Explained := by
  obtain ⟨actions, rfl⟩ := reachable
  exact Explained.after actions (.of_failure_eq_none rfl)

/-- A stored failure is the one that the text on display evaluates to. -/
theorem Reachable.evaluate_eq_error (reachable : session.Reachable)
    (stored : session.failure = some failure) :
    session.candidate ≠ [] ∧ evaluate session.candidate = .error failure := by
  obtain ⟨significant, failed⟩ := reachable.explained failure stored
  refine ⟨?_, failed⟩
  intro empty
  rw [empty] at significant
  cases significant

/-! ### The last action -/

/-- An action that comes to nothing: an evaluation while there is nothing to evaluate. -/
def isIdle (session : Session) (action : Action) : Bool :=
  action = .equals && session.equals.1.isNone

/-- The actions of a run that come to something, each behind the session it is done in. -/
def performed (session : Session) : List Action → List (Session × Action)
  | [] => []
  | action :: actions =>
      if session.isIdle action then (session.act action).performed actions
      else (session, action) :: (session.act action).performed actions

/-- The last thing done in a run is an evaluation that fails. -/
def EndsFailing (session : Session) (actions : List Action) (failure : Failure) : Prop :=
  ∃ before, (session.performed actions).getLast? = some (before, .equals) ∧
    before.equals.1 = some (.error failure)

theorem after_concat (session : Session) (actions : List Action) (action : Action) :
    session.after (actions ++ [action]) = (session.after actions).act action := by
  rw [after, List.foldl_append]
  rfl

theorem performed_concat (actions : List Action) (action : Action) :
    ∀ session : Session, session.performed (actions ++ [action]) =
      session.performed actions ++
        if (session.after actions).isIdle action then [] else [(session.after actions, action)] := by
  induction actions with
  | nil =>
      intro session
      rfl
  | cons first actions inductionHypothesis =>
      intro session
      rw [List.cons_append, performed, performed, inductionHypothesis]
      split <;> rfl

/-- What comes to nothing leaves the session as it is. -/
theorem act_of_isIdle (idle : session.isIdle action = true) : session.act action = session := by
  simp only [isIdle, Bool.and_eq_true, decide_eq_true_eq, Option.isNone_iff_eq_none] at idle
  obtain ⟨rfl, nothing⟩ := idle
  cases blank : session.candidate.isBlank with
  | true => exact congrArg Prod.snd (equals_of_isBlank blank)
  | false =>
      rcases equals_cases blank with ⟨_, _, done⟩ | ⟨_, _, done⟩
      · rw [done] at nothing
        cases nothing
      · rw [done] at nothing
        cases nothing

/-- What comes to something leaves a failure if it is an evaluation that fails with it. -/
theorem act_failure_iff (notIdle : session.isIdle action = false) :
    (session.act action).failure = some failure ↔
      action = .equals ∧ session.equals.1 = some (.error failure) := by
  cases action with
  | type key => exact iff_of_false nofun nofun
  | deleteLast => exact iff_of_false nofun nofun
  | clear => exact iff_of_false nofun nofun
  | equals =>
      have blank : session.candidate.isBlank = false := by
        by_contra blank
        have nothing := equals_of_isBlank (Bool.eq_true_of_not_eq_false blank)
        rw [isIdle, nothing] at notIdle
        cases notIdle
      rcases equals_cases blank with ⟨_, _, done⟩ | ⟨_, _, done⟩
      · simp [act, done]
      · simp [act, done]

/-- A failure is stored at the end of a run exactly when the last thing done in it is an
evaluation that fails with it. -/
theorem after_failure_iff (actions : List Action) (failure : Failure) :
    (start.after actions).failure = some failure ↔ start.EndsFailing actions failure := by
  induction actions using List.reverseRecOn with
  | nil => exact iff_of_false nofun fun ⟨_, nothing, _⟩ => by cases nothing
  | append_singleton actions action inductionHypothesis =>
      rw [after_concat, EndsFailing, performed_concat]
      cases idle : (start.after actions).isIdle action with
      | true =>
          rw [act_of_isIdle idle, if_pos rfl, List.append_nil]
          exact inductionHypothesis
      | false =>
          rw [act_failure_iff idle, if_neg Bool.false_ne_true, List.getLast?_concat]
          constructor
          · rintro ⟨rfl, failed⟩
            exact ⟨_, rfl, failed⟩
          · rintro ⟨before, last, failed⟩
            cases last
            exact ⟨rfl, failed⟩

end Session

end Keypad
