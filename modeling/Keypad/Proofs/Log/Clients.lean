/-
Module: Keypad.Proofs.Log.Clients
Layer: proofs
Purpose: Clients of one server whose requests come in any order.
Trusted boundary: none; the server is an argument.
Main exports:
  Client, Client.start, Client.answer?, Client.seen, Clients.advance, Clients.run,
  Clients.advance_eq_some, Clients.run_calls
-/
import Keypad.Proofs.Log.Call

namespace Keypad

/-!
Every client makes one call, and a client that makes several one after another is as good as
several clients.  The server takes one request at a time.  A schedule says whose turn it is: the
client whose turn it is makes its next request and hears the answer.  What a client has heard is
kept beside it, so that it can be said what it has seen.
-/

/-- A client in the course of a call: what it has asked for and been answered, and how it goes
on. -/
structure Client where
  log : RemoteLog
  call : LogCall
  heard : List (Outgoing × Reply)
  rest : Exchange LogAnswer

namespace Client

/-- A client that has not asked for anything. -/
def start (log : RemoteLog) (call : LogCall) : Client := ⟨log, call, [], log.exchange call⟩

/-- The answer to the call of a client that has returned. -/
def answer? (client : Client) : Option LogAnswer :=
  match client.rest with
  | .done answer => some answer
  | .ask _ _ => none

/-- The entries that a client reads in what it hears. -/
def seenIn : Outgoing × Reply → List LogEntry
  | (request, reply) =>
      if request.method = .get then (RemoteLog.readEntries? reply.body).getD [] else []

/-- The entries that a client has seen in a listing. -/
def seen (client : Client) : List LogEntry := client.heard.flatMap seenIn

end Client

namespace Clients

variable {σ : Type} {server : Outgoing → σ → Option Reply × σ} {state after : σ}
  {clients clients' : List Client}

/-- The client whose turn it is makes its next request and hears the answer.  There is none when
the client has returned or is not answered. -/
def advance (server : Outgoing → σ → Option Reply × σ) :
    σ × List Client → Nat → Option (σ × List Client)
  | (state, clients), turn =>
      match clients[turn]? with
      | some ⟨log, call, heard, .ask request next⟩ =>
          match server request state with
          | (some reply, after) =>
              some (after, clients.set turn
                ⟨log, call, heard ++ [(request, reply)], next (some reply)⟩)
          | (none, _) => none
      | _ => none

/-- The clients take turns as a schedule says. -/
def run (server : Outgoing → σ → Option Reply × σ) (schedule : List Nat)
    (start : σ × List Client) : Option (σ × List Client) :=
  schedule.foldlM (advance server) start

/-- What one turn changes: the state of the server, and one client, which has heard an answer to
its request. -/
theorem advance_eq_some {turn : Nat}
    (advanced : advance server (state, clients) turn = some (after, clients')) :
    ∃ front back log call heard request next reply,
      clients = front ++ ⟨log, call, heard, .ask request next⟩ :: back ∧
      server request state = (some reply, after) ∧
      clients' = front ++ ⟨log, call, heard ++ [(request, reply)], next (some reply)⟩ :: back := by
  simp only [advance] at advanced
  split at advanced
  case h_1 log call heard request next found =>
    split at advanced
    case h_1 reply after' answered =>
      cases advanced
      obtain ⟨within, same⟩ := List.getElem?_eq_some_iff.mp found
      refine ⟨clients.take turn, clients.drop (turn + 1), log, call, heard, request, next, reply,
        ?_, answered, List.set_eq_take_append_cons_drop.trans (if_pos within)⟩
      rw [← same, ← List.drop_eq_getElem_cons within, List.take_append_drop]
    case h_2 => cases advanced
  case h_2 => cases advanced

/-- The clients stay who they are, with the calls that they make. -/
theorem run_calls (schedule : List Nat) :
    ∀ {state clients}, run server schedule (state, clients) = some (after, clients') →
      (clients'.map fun client => (client.log, client.call)) =
        clients.map fun client => (client.log, client.call) := by
  induction schedule with
  | nil =>
      intro state clients ran
      cases ran
      rfl
  | cons turn schedule inductionHypothesis =>
      intro state clients ran
      obtain ⟨⟨middle, advancedTo⟩, advanced, ran⟩ := Option.bind_eq_some_iff.mp ran
      obtain ⟨_, _, _, _, _, _, _, _, rfl, _, rfl⟩ := advance_eq_some advanced
      rw [inductionHypothesis ran]
      simp

end Clients

end Keypad
