/-
Module: Keypad.Web.Route
Layer: web
Purpose: Which request asks for what.
Trusted boundary: none
Main exports: Route, Route.find?, Route.serving?
-/
import Keypad.Web.Request

namespace Keypad

/-- What a request can ask for. -/
inductive Route where
  | status
  | metrics
  | evaluate
  | judgeKey
  | viewSession
  | typeKey
  | deleteLast
  | clear
  | equals
  | listLog
  | deleteEntry (id : Text)
  | clearLog
deriving DecidableEq, Repr

namespace Route

/-- The route of a method and a path.  The routes that read a document ask
for a body that is declared to be one. -/
def find? (method : Method) (path : List Text) (declaresJson : Bool) : Option Route :=
  match method, path.map String.ofList with
  | .get, ["status"] => some .status
  | .get, ["metrics"] => some .metrics
  | .post, ["api", "v1", "evaluate"] => if declaresJson then some .evaluate else none
  | .post, ["api", "v1", "guard"] => if declaresJson then some .judgeKey else none
  | .get, ["api", "v1", "session"] => some .viewSession
  | .post, ["api", "v1", "session", "input"] => if declaresJson then some .typeKey else none
  | .post, ["api", "v1", "session", "delete"] => some .deleteLast
  | .post, ["api", "v1", "session", "clear"] => some .clear
  | .post, ["api", "v1", "session", "equals"] => some .equals
  | .get, ["api", "v1", "logs"] => some .listLog
  | .delete, ["api", "v1", "logs", id] => some (.deleteEntry id.toList)
  | .delete, ["api", "v1", "logs"] => some .clearLog
  | _, _ => none

/-- The route by which a request to a target is served.  A request for the head
of an answer is served by the route for the whole of it. -/
def serving? (request : Request) (target : Target) : Option Route :=
  let method := match request.effectiveMethod with
    | .head => .get
    | method => method
  find? method target.segments request.declaresJson

end Route

end Keypad
