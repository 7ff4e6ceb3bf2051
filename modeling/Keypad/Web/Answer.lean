/-
Module: Keypad.Web.Answer
Layer: web
Purpose: The documents that the service answers with.
Trusted boundary: none
Main exports: ServiceFailure, ServiceFailure.response, sessionDocument, entryDocument
-/
import Keypad.Log.Entry
import Keypad.Session
import Keypad.Web.Request

namespace Keypad

/-- Why the service does not do what it is asked. -/
inductive ServiceFailure where
  | invalidFormula (failure : Failure)
  | notFound
  | internal
deriving DecidableEq, Repr

/-- A formula without a value and an unknown id are mistakes of the caller. -/
instance : Severity ServiceFailure where
  isFailure
    | .invalidFormula _ => false
    | .notFound => false
    | .internal => true

/-- What a failure of the log is for the caller of the service. -/
def ServiceFailure.ofLog : LogFailure → ServiceFailure
  | .notFound => .notFound
  | .unavailable => .internal

/-- A response with a document. -/
def Response.document (status : Nat) (members : List (Text × Json)) : Response :=
  ⟨status, .json (.object members)⟩

/-- The response to a request that failed. -/
def ServiceFailure.response : ServiceFailure → Response
  | .invalidFormula failure =>
      .document 400 [Json.member "message" (.string failure.message),
        Json.member "kind" (.string failure.kind)]
  | .notFound => .document 404 [Json.member "message" (.string "Not Found".toList)]
  | .internal => .document 500 [Json.member "message" (.string "Internal Server Error".toList)]

/-- The response to a result. -/
def Response.ofResult : Except ServiceFailure Response → Response
  | .ok response => response
  | .error failure => failure.response

/-- The word for a decision on a key. -/
def Decision.name : Decision → Text
  | .append => "append".toList
  | .replaceLast => "replace_last".toList
  | .reject => "reject".toList

/-- The members of a session: its text, and its failure while it has one. -/
def sessionDocument (session : Session) : List (Text × Json) :=
  Json.member "expression" (.string session.candidate) ::
    (Json.member? "error" (session.failure.map fun failure => .string failure.message) ++
     Json.member? "kind" (session.failure.map fun failure => .string failure.kind))

/-- An entry of the log as a document. -/
def entryDocument (entry : LogEntry) : Json :=
  .object
    [Json.member "id" (.string entry.id),
     Json.member "operation" (.string entry.operation),
     Json.member "result" (.string entry.result),
     Json.member "timestamp" (.integer entry.timestamp)]

end Keypad
