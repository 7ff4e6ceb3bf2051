/-
Module: Keypad.Session
Layer: sessions
Purpose: What one user has typed so far, and what its keys do to it.
Trusted boundary: none
Main exports:
  Calculation, Session, Session.type, Session.deleteLast, Session.clear,
  Session.equals, Action, Session.after, Session.Reachable
-/
import Keypad.Formula.Parse
import Keypad.Keystroke

namespace Keypad

/-- A calculation that succeeded: the text that was evaluated, its value, and
the value as it is shown. -/
structure Calculation where
  operation : Text
  result : Text
  value : Binary64
deriving DecidableEq, Repr

/-- The text typed so far, and the failure of its evaluation while that is the
last thing that happened. -/
structure Session where
  candidate : Text
  failure : Option Failure
deriving DecidableEq, Repr, Inhabited

namespace Session

/-- A session in which nothing has been typed. -/
def start : Session := ⟨[], none⟩

/-- Types a key.  The failure is forgotten also when the key is rejected. -/
def type (session : Session) (key : Char) : Decision × Session :=
  (accept session.candidate key, ⟨press session.candidate key, none⟩)

/-- Takes away the last character. -/
def deleteLast (session : Session) : Session :=
  ⟨session.candidate.dropLast, none⟩

/-- Takes away the whole text. -/
def clear (_ : Session) : Session := start

/-- Evaluates the text.  There is nothing to evaluate in a blank text, and the
session stays as it is.  The result of a calculation takes the place of the
text, so that typing goes on from it; after a failure the text stays. -/
def equals (session : Session) : Option (Except Failure Calculation) × Session :=
  if session.candidate.isBlank then (none, session)
  else
    match evaluate session.candidate with
    | .ok value =>
        let result := value.shown
        (some (.ok ⟨session.candidate, result, value⟩), ⟨result, none⟩)
    | .error failure => (some (.error failure), ⟨session.candidate, some failure⟩)

end Session

/-- What a user can do in a session. -/
inductive Action where
  | type (key : Char)
  | deleteLast
  | clear
  | equals
deriving DecidableEq, Repr

namespace Session

/-- The session after one action. -/
def act (session : Session) : Action → Session
  | .type key => (session.type key).2
  | .deleteLast => session.deleteLast
  | .clear => session.clear
  | .equals => session.equals.2

/-- The session after a run of actions. -/
def after (session : Session) (actions : List Action) : Session :=
  actions.foldl act session

/-- The sessions that a user can bring about. -/
def Reachable (session : Session) : Prop :=
  ∃ actions, session = start.after actions

end Session

end Keypad
