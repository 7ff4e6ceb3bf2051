/-
Module: Keypad.Proofs.Log.Call
Layer: proofs
Purpose: Calls to a store of log entries as data, and what a remote log makes of them.
Trusted boundary: none; the server is an argument of the exchanges.
Main exports:
  LogCall, LogAnswer, LogAnswer.removals, LogStore.call, LogStore.run, Journal.call_delete,
  RemoteLog.exchange, RemoteLog.deleteEach_cons, RemoteLog.deleteAll_eq, RemoteLog.clearing,
  RemoteLog.call_eq_run,
  RemoteLog.Reaches.exchange_create, RemoteLog.Reaches.exchange_list,
  RemoteLog.Reaches.exchange_delete, RemoteLog.Reaches.exchange_deleteAll,
  RemoteLog.Reaches.clearing_cons
-/
import Keypad.Log.Journal
import Keypad.Proofs.Log.Documents

namespace Keypad

/-- A call to a store of log entries. -/
inductive LogCall where
  | create (entry : LogEntry)
  | list
  | delete (id : Text)
  | deleteAll
deriving DecidableEq, Repr

/-- The answer to a call. -/
inductive LogAnswer where
  | created (entry : LogEntry)
  | listed (entries : List LogEntry)
  | deleted
  | cleared (count : Nat)
  | failed (failure : LogFailure)
deriving DecidableEq, Repr

/-- The answer to a call that is done with an outcome. -/
def LogAnswer.of {α : Type} (answer : α → LogAnswer) : Except LogFailure α → LogAnswer
  | .ok value => answer value
  | .error failure => .failed failure

/-- How many entries a call has removed, by its answer. -/
def LogAnswer.removals : LogAnswer → Nat
  | .cleared count => count
  | .deleted => 1
  | .created _ | .listed _ | .failed _ => 0

namespace LogCall

/-- The entry that a call creates. -/
def created? : LogCall → Option LogEntry
  | .create entry => some entry
  | _ => none

/-- The id that a call names: of the entry to be created, or of the one to be deleted. -/
def id? : LogCall → Option Text
  | .create entry => some entry.id
  | .delete id => some id
  | .list | .deleteAll => none

end LogCall

namespace LogStore

variable {σ : Type}

/-- Makes a call. -/
def call (store : LogStore σ) : LogCall → σ → LogAnswer × σ
  | .create entry, state => (store.create entry state).map (.of .created) id
  | .list, state => (store.list state).map (.of .listed) id
  | .delete id', state => (store.delete id' state).map (.of fun _ => .deleted) id
  | .deleteAll, state => (store.deleteAll state).map (.of .cleared) id

/-- Makes calls one after another. -/
def run (store : LogStore σ) : List LogCall → σ → List LogAnswer × σ
  | [], state => ([], state)
  | call :: calls, state =>
      let (answer, state) := store.call call state
      let (answers, state) := store.run calls state
      (answer :: answers, state)

end LogStore

/-- There is nothing to take out for an id of no entry. -/
theorem Journal.erase_of_not_mem {journal : Journal} {id : Text}
    (absent : id ∉ journal.entries.map LogEntry.id) : journal.erase id = journal := by
  obtain ⟨entries⟩ := journal
  refine congrArg Journal.mk (List.eraseP_of_forall_not fun entry member => ?_)
  simp only [decide_eq_true_eq]
  rintro rfl
  exact absent (List.mem_map_of_mem member)

/-- Deleting an id from the journal answers whether there is an entry of it, and takes it out. -/
theorem Journal.call_delete (journal : Journal) (id : Text) :
    Journal.store.call (.delete id) journal =
      (if id ∈ journal.entries.map LogEntry.id then .deleted else .failed .notFound,
        journal.erase id) := by
  have holds : journal.holds id = true ↔ id ∈ journal.entries.map LogEntry.id := by
    simp [Journal.holds]
  by_cases present : id ∈ journal.entries.map LogEntry.id
  case pos =>
    have found := holds.mpr present
    simp only [LogStore.call, Journal.store, found, if_true, if_pos present]
    rfl
  case neg =>
    have missing : journal.holds id = false := Bool.eq_false_iff.mpr (mt holds.mp present)
    simp only [LogStore.call, Journal.store, missing, Bool.false_eq_true, if_false,
      if_neg present, erase_of_not_mem present]
    rfl

/-! ### Calls as exchanges -/

variable {σ α β : Type} {server : Outgoing → σ → Option Reply × σ}

/-- An exchange that goes on behind another is run with what the other leaves. -/
theorem Exchange.run_bind (exchange : Exchange α) (next : α → Exchange β) :
    ∀ state, (exchange.bind next).run server state =
      (next (exchange.run server state).1).run server (exchange.run server state).2 := by
  induction exchange with
  | done value => exact fun _ => rfl
  | ask request resume inductionHypothesis =>
      exact fun state => inductionHypothesis (server request state).1 (server request state).2

theorem Exchange.run_ask {request : Outgoing} {reply : Reply} {state after : σ}
    (answered : server request state = (some reply, after)) (next : Option Reply → Exchange α) :
    (Exchange.ask request next).run server state = (next (some reply)).run server after := by
  rw [Exchange.run, answered]

namespace RemoteLog

/-- What a remote log makes of a call. -/
def exchange (log : RemoteLog) : LogCall → Exchange LogAnswer
  | .create entry => (log.create entry).bind fun outcome => .done (.of .created outcome)
  | .list => log.list.bind fun outcome => .done (.of .listed outcome)
  | .delete id => (log.delete id).bind fun outcome => .done (.of (fun _ => .deleted) outcome)
  | .deleteAll => log.deleteAll.bind fun outcome => .done (.of .cleared outcome)

theorem call_eq_run (log : RemoteLog) (call : LogCall) (state : σ) :
    (log.store server).call call state = (log.exchange call).run server state := by
  cases call
  all_goals
    rw [exchange, Exchange.run_bind]
    rfl

section Deleting

variable {log : RemoteLog} {request : Outgoing}

/-- How the deletion of listed entries goes on with the outcome for the first of them. -/
def deleteAfter (log : RemoteLog) (rest : List LogEntry) (count : Nat) :
    Outcome Unit → Exchange (Outcome Nat)
  | .ok () => log.deleteEach rest (count + 1)
  | .error .notFound => log.deleteEach rest count
  | .error .unavailable => .done (.error .unavailable)

/-- The first of the listed entries is asked to be deleted, and the others follow. -/
theorem deleteEach_cons {entry : LogEntry} {outcome : Option Reply → Outcome Unit}
    (asks : log.delete entry.id = .ask request fun answer => .done (outcome answer))
    (rest : List LogEntry) (count : Nat) :
    log.deleteEach (entry :: rest) count =
      .ask request fun answer => log.deleteAfter rest count (outcome answer) := by
  rw [deleteEach, asks]
  rfl

/-- How deleting all entries goes on with what has been listed. -/
def deleteListed (log : RemoteLog) : Outcome (List LogEntry) → Exchange (Outcome Nat)
  | .ok entries => log.deleteEach entries 0
  | .error failure => .done (.error failure)

/-- Deleting all entries begins with their listing. -/
theorem deleteAll_eq {outcome : Option Reply → Outcome (List LogEntry)}
    (asks : log.list = .ask request fun answer => .done (outcome answer)) :
    log.deleteAll = .ask request fun answer => log.deleteListed (outcome answer) := by
  rw [deleteAll, asks]
  rfl

end Deleting

/-- The deletion of listed entries one after another, as a call is answered with it. -/
def clearing (log : RemoteLog) (entries : List LogEntry) (count : Nat) : Exchange LogAnswer :=
  (log.deleteEach entries count).bind fun outcome => .done (.of .cleared outcome)

/-- How the deletion of listed entries goes on with the outcome for the first of them. -/
def clearingAfter (log : RemoteLog) (rest : List LogEntry) (count : Nat) :
    Outcome Unit → Exchange LogAnswer
  | .ok () => log.clearing rest (count + 1)
  | .error .notFound => log.clearing rest count
  | .error .unavailable => .done (.failed .unavailable)

theorem deleteAfter_cleared (log : RemoteLog) (rest : List LogEntry) (count : Nat)
    (outcome : Outcome Unit) :
    ((log.deleteAfter rest count outcome).bind fun outcome => .done (.of .cleared outcome)) =
      log.clearingAfter rest count outcome := by
  rcases outcome with (_ | _) | _
  all_goals rfl

/-- How deleting all entries goes on with what has been listed. -/
def clearingListed (log : RemoteLog) : Outcome (List LogEntry) → Exchange LogAnswer
  | .ok entries => log.clearing entries 0
  | .error failure => .done (.failed failure)

theorem deleteListed_cleared (log : RemoteLog) (outcome : Outcome (List LogEntry)) :
    ((log.deleteListed outcome).bind fun outcome => .done (.of .cleared outcome)) =
      log.clearingListed outcome := by
  cases outcome with
  | ok entries => rfl
  | error failure => rfl

namespace Reaches

variable {log : RemoteLog} {collection : List Text}

theorem exchange_create (reaches : log.Reaches collection) (entry : LogEntry) :
    log.exchange (.create entry) =
      .ask ⟨.post, Url.path collection, log.project, log.key, some (creation entry)⟩ fun reply =>
        .done (.of .created (reply.elim (.error .unavailable) (decoded readEntry?))) := by
  rw [exchange, reaches.create_asks]
  rfl

theorem exchange_list (reaches : log.Reaches collection) :
    log.exchange .list =
      .ask ⟨.get, Url.path collection, log.project, log.key, none⟩ fun answer =>
        .done (.of .listed (listingOutcome answer)) := by
  rw [exchange, reaches.list_asks]
  rfl

theorem exchange_delete (reaches : log.Reaches collection) {id : Text} (own : Url.IsSegment id) :
    ∃ target, Url.Names collection id target ∧
      log.exchange (.delete id) =
        .ask ⟨.delete, target, log.project, log.key, none⟩ fun answer =>
          .done (.of (fun _ => .deleted) (deletionOutcome answer)) := by
  obtain ⟨target, names, asks⟩ := reaches.delete_asks own
  refine ⟨target, names, ?_⟩
  rw [exchange, asks]
  rfl

/-- Deleting all entries begins with their listing. -/
theorem exchange_deleteAll (reaches : log.Reaches collection) :
    log.exchange .deleteAll =
      .ask ⟨.get, Url.path collection, log.project, log.key, none⟩ fun answer =>
        log.clearingListed (listingOutcome answer) := by
  rw [exchange, deleteAll_eq reaches.list_asks]
  exact congrArg (Exchange.ask _) (funext fun _ => deleteListed_cleared log _)

/-- The first of the listed entries is asked to be deleted, and the others follow. -/
theorem clearing_cons (reaches : log.Reaches collection) {entry : LogEntry}
    (own : Url.IsSegment entry.id) (rest : List LogEntry) (count : Nat) :
    ∃ target, Url.Names collection entry.id target ∧
      log.clearing (entry :: rest) count =
        .ask ⟨.delete, target, log.project, log.key, none⟩ fun answer =>
          log.clearingAfter rest count (deletionOutcome answer) := by
  obtain ⟨target, names, asks⟩ := reaches.delete_asks own
  refine ⟨target, names, ?_⟩
  rw [clearing, deleteEach_cons asks]
  exact congrArg (Exchange.ask _) (funext fun _ => deleteAfter_cleared log rest count _)

end Reaches

end RemoteLog

end Keypad
