/-
Module: Keypad.Log.Exchange
Layer: log
Purpose: Requests to a server as a program that waits for each answer.
Trusted boundary: none; what the server does is an argument.
Main exports: Outgoing, Reply, Exchange, Exchange.run
-/
import Keypad.Json.Value
import Keypad.Web.Request

namespace Keypad

/-- A request to the server of a remote log. -/
structure Outgoing where
  method : Method
  target : Text
  project : Text
  key : Option Text
  document : Option Json

/-- An answer of the server: its status and its body. -/
structure Reply where
  status : Nat
  body : Text
deriving DecidableEq, Repr

/-- A course of requests.  It is done with a value, or it makes a request and
goes on with the answer to it; there is none when the server cannot be reached
or hangs up. -/
inductive Exchange (α : Type) where
  | done (value : α)
  | ask (request : Outgoing) (next : Option Reply → Exchange α)

namespace Exchange

variable {α β σ : Type}

/-- Goes on with what an exchange is done with. -/
def bind (exchange : Exchange α) (next : α → Exchange β) : Exchange β :=
  match exchange with
  | .done value => next value
  | .ask request resume => .ask request fun reply => (resume reply).bind next

instance : Monad Exchange where
  pure := .done
  bind := bind

/-- Runs an exchange with a server.  The server answers each request, or does
not, and may change with it. -/
def run (server : Outgoing → σ → Option Reply × σ) : Exchange α → σ → α × σ
  | .done value, state => (value, state)
  | .ask request next, state =>
      let (reply, state) := server request state
      (next reply).run server state

end Exchange

end Keypad
