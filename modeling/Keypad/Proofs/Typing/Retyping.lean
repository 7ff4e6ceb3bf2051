/-
Module: Keypad.Proofs.Typing.Retyping
Layer: proofs
Purpose: A key that replaces the last one against deleting that one and typing anew.
Trusted boundary: none
Main exports: deleteLast_of_append, replacing_is_retyping
-/
import Keypad.Proofs.Typing.Candidate
import Keypad.Proofs.Typing.Press

namespace Keypad

/-- What has just been appended is what is deleted next, whatever the session holds. -/
theorem Session.deleteLast_of_append {session : Session} {key : Char}
    (appended : (session.type key).1 = .append) :
    (session.type key).2.deleteLast.candidate = session.candidate := by
  have typed : press session.candidate key = session.candidate ++ [key] :=
    (press_of_append appended).1
  show (press session.candidate key).dropLast = session.candidate
  rw [typed, List.dropLast_concat]

/-- To replace the last key is to delete it and to type the other one.  In a session that can
be brought about, a key that takes the place of an operator leaves what it leaves when the
operator is deleted first, and then it is appended.  A key that is appended is taken away by
deleting. -/
theorem replacing_is_retyping {session : Session} (reachable : session.Reachable) (key : Char) :
    ((session.type key).1 = .replaceLast →
      session.deleteLast.type key = (.append, (session.type key).2)) ∧
    ((session.type key).1 = .append →
      (session.type key).2.deleteLast.candidate = session.candidate) := by
  refine ⟨fun replaced => ?_, Session.deleteLast_of_append⟩
  obtain ⟨appended, pressed⟩ := reachable.typeable.retype replaced
  have retyped : press session.candidate.dropLast key = session.candidate.dropLast ++ [key] :=
    (press_of_append appended).1
  show (accept session.candidate.dropLast key,
      Session.mk (press session.candidate.dropLast key) none) =
    (Decision.append, Session.mk (press session.candidate key) none)
  rw [appended, retyped, pressed]

/-- Behind a result below zero a minus is an operator, and behind another key it has been typed
again: `-3-` comes of `5-8`, and a sign is deleted from it. -/
theorem replacing_is_retyping_behind_result :
    let actions : List Action := "5-8".toList.map .type ++ .equals :: "--".toList.map .type ++
      [.deleteLast]
    let session := Session.start.after actions
    session.candidate = "-3-".toList ∧ session.type '+' = (.replaceLast, ⟨"-3+".toList, none⟩) ∧
      session.deleteLast.type '+' = (.append, ⟨"-3+".toList, none⟩) ∧
      (session.type '-').2.deleteLast.candidate = "-3-".toList := by
  intro actions session
  have held : session.candidate = "-3-".toList := by decide +kernel
  have typed : session.type '+' = (.replaceLast, ⟨"-3+".toList, none⟩) := by decide +kernel
  have appended : (session.type '-').1 = .append := by decide +kernel
  have reachable : session.Reachable := ⟨actions, rfl⟩
  refine ⟨held, typed, ?_, ?_⟩
  · rw [(replacing_is_retyping reachable '+').1 (congrArg Prod.fst typed), typed]
  · rw [(replacing_is_retyping reachable '-').2 appended, held]

/-- Of a text that no session comes to hold this is not true: the operator at its beginning can
be replaced, and could not have been typed. -/
example : accept "+".toList '*' = .replaceLast ∧ accept "".toList '*' = .reject := by decide

end Keypad
