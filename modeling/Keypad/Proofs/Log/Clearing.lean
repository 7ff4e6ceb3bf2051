/-
Module: Keypad.Proofs.Log.Clearing
Layer: proofs
Purpose: Clients that clear, delete and create at the same time count every document once.
Trusted boundary: none; the server is an argument, and what is relied on of it is a hypothesis.
Main exports:
  Account, Stands, Turn, Stands.hear, Settled, Settled.advance, Settled.run,
  concurrent_clearing_counts_once
-/
import Keypad.Proofs.Log.Clients
import Keypad.Proofs.Log.Keeper
import Mathlib.Data.List.Nodup

namespace Keypad

open RemoteLog

/-!
The documents are followed through all turns: each is still to be created, stored, or removed, and
the three together stay what they were.  What a client has removed so far is on its account.  A
client that clears has a snapshot, and every document of it that is not in the rest of its course
has been removed, by this client or by another one.
-/

/-- What a client has still to create, and how many documents it has removed. -/
structure Account where
  pending : List LogEntry
  count : Nat

/-- How a client stands when these documents have been removed and these are stored. -/
inductive Stands (removed stored : List LogEntry) : Client → Account → Prop where
  | creating {log heard} (entry : LogEntry) :
      Stands removed stored ⟨log, .create entry, heard, log.exchange (.create entry)⟩ ⟨[entry], 0⟩
  | created {log heard} (entry : LogEntry) :
      Stands removed stored ⟨log, .create entry, heard, .done (.created entry)⟩ ⟨[], 0⟩
  | listing {log heard} : Stands removed stored ⟨log, .list, heard, log.exchange .list⟩ ⟨[], 0⟩
  | listed {log heard} (entries : List LogEntry) :
      Stands removed stored ⟨log, .list, heard, .done (.listed entries)⟩ ⟨[], 0⟩
  | deleting {log heard} (id : Text) :
      Stands removed stored ⟨log, .delete id, heard, log.exchange (.delete id)⟩ ⟨[], 0⟩
  | deleted {log heard} (id : Text) :
      Stands removed stored ⟨log, .delete id, heard, .done .deleted⟩ ⟨[], 1⟩
  | missed {log heard} (id : Text) :
      Stands removed stored ⟨log, .delete id, heard, .done (.failed .notFound)⟩ ⟨[], 0⟩
  | waiting {log} :
      Stands removed stored ⟨log, .deleteAll, [], log.exchange .deleteAll⟩ ⟨[], 0⟩
  | clearing {log heard} {todo : List LogEntry} {count : Nat}
      (known : ∀ entry ∈ todo, entry ∈ removed ∨ entry ∈ stored)
      (seen : ∀ entry ∈ heard.flatMap Client.seenIn, entry ∈ todo ∨ entry ∈ removed) :
      Stands removed stored ⟨log, .deleteAll, heard, log.clearing todo count⟩ ⟨[], count⟩

/-- What a turn of one client does to the documents and to its account: none is lost, and it
counts what it removes. -/
structure Turn (removed stored removed' stored' : List LogEntry) (account account' : Account) :
    Prop where
  balance : (removed' ++ (stored' ++ account'.pending)).Perm
    (removed ++ (stored ++ account.pending))
  counted : removed'.length + account.count = removed.length + account'.count
  removed : ∀ entry ∈ removed, entry ∈ removed'
  stored : ∀ entry ∈ stored, entry ∈ removed' ∨ entry ∈ stored'

section

variable {removed stored removed' stored' : List LogEntry} {account account' : Account}
  {entry : LogEntry} {client : Client}

/-- The turns of others leave a client where it stands. -/
theorem Stands.of_turn (turn : Turn removed stored removed' stored' account account')
    {own : Account} (stands : Stands removed stored client own) :
    Stands removed' stored' client own := by
  cases stands with
  | creating => exact .creating _
  | created => exact .created _
  | listing => exact .listing
  | listed => exact .listed _
  | deleting => exact .deleting _
  | deleted => exact .deleted _
  | missed => exact .missed _
  | waiting => exact .waiting
  | clearing known seen =>
      refine .clearing (fun entry member => ?_) fun entry member => ?_
      · rcases known entry member with gone | there
        · exact .inl (turn.removed entry gone)
        · exact turn.stored entry there
      · exact (seen entry member).imp_right (turn.removed entry)

/-- A client that clears goes on to the rest of its snapshot when the first of it is gone. -/
theorem Stands.clearing_rest (turn : Turn removed stored removed' stored' account account')
    {log : RemoteLog} {heard : List (Outgoing × Reply)} {message : Outgoing × Reply}
    {rest : List LogEntry} {count : Nat}
    (known : ∀ other ∈ entry :: rest, other ∈ removed ∨ other ∈ stored)
    (seen : ∀ other ∈ heard.flatMap Client.seenIn, other ∈ entry :: rest ∨ other ∈ removed)
    (gone : entry ∈ removed') (quiet : Client.seenIn message = []) :
    Stands removed' stored' ⟨log, .deleteAll, heard ++ [message], log.clearing rest count⟩
      ⟨[], count⟩ := by
  refine .clearing (fun other member => ?_) fun other member => ?_
  · rcases known other (List.mem_cons_of_mem _ member) with before | there
    · exact .inl (turn.removed other before)
    · exact turn.stored other there
  · have earlier : other ∈ heard.flatMap Client.seenIn := by
      simpa [quiet] using member
    rcases seen other earlier with todo | before
    · rcases List.mem_cons.mp todo with rfl | later
      · exact .inr gone
      · exact .inl later
    · exact .inr (turn.removed other before)

theorem Turn.unchanged (same : stored'.Perm stored) (removed : List LogEntry)
    (account : Account) : Turn removed stored removed stored' account account where
  balance := (same.append_right _).append_left _
  counted := rfl
  removed _ member := member
  stored _ member := .inr (same.symm.subset member)

theorem Turn.creation (grown : stored'.Perm (entry :: stored)) (removed : List LogEntry) :
    Turn removed stored removed stored' ⟨[entry], 0⟩ ⟨[], 0⟩ where
  balance := by
    refine List.Perm.append_left _ ?_
    rw [List.append_nil]
    exact grown.trans (List.perm_append_singleton _ _).symm
  counted := rfl
  removed _ member := member
  stored _ member := .inr (grown.symm.subset (List.mem_cons_of_mem _ member))

theorem Turn.removal (taken : stored.Perm (entry :: stored')) (removed : List LogEntry)
    (count : Nat) :
    Turn removed stored (entry :: removed) stored' ⟨[], count⟩ ⟨[], count + 1⟩ where
  balance := by
    simp only [List.append_nil]
    exact (List.perm_middle.symm.trans (taken.symm.append_left removed))
  counted := by
    simp only [List.length_cons]
    omega
  removed _ member := List.mem_cons_of_mem _ member
  stored other member := by
    rcases List.mem_cons.mp (taken.subset member) with rfl | there
    · exact .inl List.mem_cons_self
    · exact .inr there

end

/-! ### The turn of one client -/

/-- An entry that a document can stand for: its id means itself as a segment, and its timestamp is
an integer of 64 bits. -/
structure LogEntry.IsProper (entry : LogEntry) : Prop where
  own : Url.IsSegment entry.id
  nonempty : entry.id ≠ []
  range : entry.InRange

section

variable {σ : Type} {collection : List Text} {server : Outgoing → σ → Option Reply × σ}
  {documents : σ → List LogEntry} {state after : σ} {reply : Reply}

/-- Of documents with different ids a deletion takes out the one of its id, or finds none. -/
theorem Faithful.deletion_takes {project : Text} {key : Option Text}
    (faithful : Faithful collection project key server documents)
    {id target : Text} (nonempty : id ≠ []) (names : Url.Names collection id target)
    (distinct : ((documents state).map LogEntry.id).Nodup)
    (answered : server ⟨.delete, target, project, key, none⟩ state = (some reply, after)) :
    (∃ entry, entry.id = id ∧ (documents state).Perm (entry :: documents after) ∧
        deletion reply = .ok ()) ∨
      (id ∉ (documents state).map LogEntry.id ∧ (documents after).Perm (documents state) ∧
        deletion reply = .error .notFound) := by
  rcases faithful.deletion_deleted nonempty names answered with
    ⟨present, outcome, kept⟩ | ⟨absent, outcome, kept⟩
  case inr => exact .inr ⟨absent, kept, outcome⟩
  case inl =>
    obtain ⟨entry, member, rfl⟩ := List.mem_map.mp present
    refine .inl ⟨entry, rfl, ?_, outcome⟩
    have others := List.perm_cons_erase member
    have left : (documents after).Perm ((documents state).erase entry) :=
      kept.trans ((others.filter _).trans
        (.of_eq (filter_other_ids ((others.map LogEntry.id).nodup_iff.mp distinct))))
    exact others.trans (left.symm.cons entry)

/-- A turn that asks for a deletion either removes the document and can count it, or leaves all as
it was. -/
theorem Faithful.deletion_turn {project : Text} {key : Option Text}
    (faithful : Faithful collection project key server documents)
    {id target : Text} (nonempty : id ≠ []) (names : Url.Names collection id target)
    (distinct : ((documents state).map LogEntry.id).Nodup)
    (answered : server ⟨.delete, target, project, key, none⟩ state = (some reply, after))
    (removed : List LogEntry) (count : Nat) :
    (∃ entry ∈ documents state, entry.id = id ∧ deletion reply = .ok () ∧
        Turn removed (documents state) (entry :: removed) (documents after)
          ⟨[], count⟩ ⟨[], count + 1⟩) ∨
      (id ∉ (documents state).map LogEntry.id ∧ deletion reply = .error .notFound ∧
        Turn removed (documents state) removed (documents after) ⟨[], count⟩ ⟨[], count⟩) := by
  rcases faithful.deletion_takes nonempty names distinct answered with
    ⟨entry, same, taken, outcome⟩ | ⟨absent, kept, outcome⟩
  · exact .inl ⟨entry, taken.symm.subset List.mem_cons_self, same, outcome,
      .removal taken removed count⟩
  · exact .inr ⟨absent, outcome, .unchanged kept removed _⟩

/-- A client that clears hears what has become of the first document of its snapshot. -/
theorem Stands.hear_clearing {project : Text} {key : Option Text}
    (faithful : Faithful collection project key server documents) {log : RemoteLog}
    {removed : List LogEntry} {entry : LogEntry} {rest : List LogEntry} {count : Nat}
    {heard : List (Outgoing × Reply)} {target : Text} (nonempty : entry.id ≠ [])
    (names : Url.Names collection entry.id target)
    (distinct : ((removed ++ documents state).map LogEntry.id).Nodup)
    (known : ∀ other ∈ entry :: rest, other ∈ removed ∨ other ∈ documents state)
    (seen : ∀ other ∈ heard.flatMap Client.seenIn, other ∈ entry :: rest ∨ other ∈ removed)
    (answered : server ⟨.delete, target, project, key, none⟩ state = (some reply, after)) :
    ∃ removed' account',
      Turn removed (documents state) removed' (documents after) ⟨[], count⟩ account' ∧
      Stands removed' (documents after)
        ⟨log, .deleteAll, heard ++ [(⟨.delete, target, project, key, none⟩, reply)],
          log.clearingAfter rest count (deletion reply)⟩ account' := by
  have storedDistinct : ((documents state).map LogEntry.id).Nodup :=
    distinct.sublist ((List.sublist_append_right _ _).map _)
  have first := known entry List.mem_cons_self
  rcases faithful.deletion_turn nonempty names storedDistinct answered removed count with
    ⟨found, there, sameId, outcome, turn⟩ | ⟨absent, outcome, turn⟩
  case inl =>
    obtain rfl := List.inj_on_of_nodup_map distinct (List.mem_append_right _ there)
      (List.mem_append.mpr first) sameId
    refine ⟨found :: removed, _, turn, ?_⟩
    rw [outcome]
    exact .clearing_rest turn known seen List.mem_cons_self rfl
  case inr =>
    -- Not found means removed before, by whomever: what is in a snapshot has been stored.
    have gone : entry ∈ removed :=
      first.resolve_right fun there => absent (List.mem_map_of_mem there)
    refine ⟨removed, _, turn, ?_⟩
    rw [outcome]
    exact .clearing_rest turn known seen gone rfl

variable {removed : List LogEntry} {account : Account} {log : RemoteLog} {call : LogCall}
  {heard : List (Outgoing × Reply)} {request : Outgoing}
  {next : Option Reply → Exchange LogAnswer}

/-- A client that hears an answer makes a turn and stands as it should. -/
theorem Stands.hear (reaches : log.Reaches collection)
    (faithful : Faithful collection log.project log.key server documents)
    (own : ∀ id, call = .delete id → Url.IsSegment id ∧ id ≠ [])
    (proper : ∀ entry ∈ removed ++ (documents state ++ account.pending), entry.IsProper)
    (distinct : ((removed ++ (documents state ++ account.pending)).map LogEntry.id).Nodup)
    (stands : Stands removed (documents state) ⟨log, call, heard, .ask request next⟩ account)
    (answered : server request state = (some reply, after)) :
    ∃ removed' account',
      Turn removed (documents state) removed' (documents after) account account' ∧
      Stands removed' (documents after)
        ⟨log, call, heard ++ [(request, reply)], next (some reply)⟩ account' := by
  have range : ∀ entry ∈ documents state, entry.InRange := fun entry member =>
    (proper entry (List.mem_append_right _ (List.mem_append_left _ member))).range
  have storedDistinct : ((documents state ++ account.pending).map LogEntry.id).Nodup :=
    distinct.sublist ((List.sublist_append_right _ _).map _)
  rw [List.map_append] at storedDistinct
  generalize asked : Exchange.ask request next = rest at stands
  cases stands with
  | creating entry =>
      rw [reaches.exchange_create] at asked
      obtain ⟨rfl, rfl⟩ := Exchange.ask.inj asked
      have fresh : entry.id ∉ (documents state).map LogEntry.id := fun member =>
        (List.nodup_append.mp storedDistinct).2.2 _ member _ List.mem_cons_self rfl
      obtain ⟨read, grown⟩ := faithful.decoded_created (proper entry (by simp)).range fresh answered
      refine ⟨removed, _, .creation grown removed, ?_⟩
      simp only [Option.elim, read]
      exact .created entry
  | created => cases asked
  | listing =>
      rw [reaches.exchange_list] at asked
      obtain ⟨rfl, rfl⟩ := Exchange.ask.inj asked
      obtain ⟨entries, _, _, read, kept⟩ := faithful.decoded_listed range answered
      refine ⟨removed, _, .unchanged kept removed _, ?_⟩
      simp only [listingOutcome, Option.elim, read]
      exact .listed _
  | listed => cases asked
  | deleting id =>
      obtain ⟨segment, nonempty⟩ := own id rfl
      obtain ⟨target, names, asks⟩ := reaches.exchange_delete segment
      rw [asks] at asked
      obtain ⟨rfl, rfl⟩ := Exchange.ask.inj asked
      rcases faithful.deletion_turn nonempty names (List.nodup_append.mp storedDistinct).1
        answered removed 0 with ⟨entry, _, _, outcome, turn⟩ | ⟨_, outcome, turn⟩
      · refine ⟨entry :: removed, _, turn, ?_⟩
        simp only [deletionOutcome, Option.elim, outcome]
        exact .deleted id
      · refine ⟨removed, _, turn, ?_⟩
        simp only [deletionOutcome, Option.elim, outcome]
        exact .missed id
  | deleted => cases asked
  | missed => cases asked
  | waiting =>
      rw [reaches.exchange_deleteAll] at asked
      obtain ⟨rfl, rfl⟩ := Exchange.ask.inj asked
      obtain ⟨entries, same, read, decoded, kept⟩ := faithful.decoded_listed range answered
      refine ⟨removed, _, .unchanged kept removed _, ?_⟩
      simp only [listingOutcome, Option.elim, decoded]
      refine .clearing (fun entry member => .inr ?_) fun entry member => .inl ?_
      · exact kept.symm.subset (same.subset ((latestFirst_perm entries).subset member))
      · apply (latestFirst_perm entries).symm.subset
        simpa [Client.seenIn, read] using member
  | @clearing _ _ todo count known seen =>
      cases todo with
      | nil => cases asked
      | cons entry rest =>
          rw [List.append_nil] at proper distinct
          have among := List.mem_append.mpr (known entry List.mem_cons_self)
          obtain ⟨segment, nonempty, _⟩ := proper entry among
          obtain ⟨target, names, asks⟩ := reaches.clearing_cons segment rest count
          rw [asks] at asked
          obtain ⟨rfl, rfl⟩ := Exchange.ask.inj asked
          exact Stands.hear_clearing faithful nonempty names distinct known seen answered

end

/-! ### The turns of all clients -/

/-- A client that can be served: its log is kept by the server, and the id that it deletes means
itself as a segment. -/
structure Client.IsServed {σ : Type} (server : Outgoing → σ → Option Reply × σ)
    (documents : σ → List LogEntry) (client : Client) : Prop where
  log : client.log.ServedBy server documents
  own : ∀ id, client.call = .delete id → Url.IsSegment id ∧ id ≠ []

/-- How matters stand between turns, by a ledger of the clients and their accounts: each of the
entries that the documents are about is removed, stored or still to be created, and what has been
removed is on the accounts. -/
structure Settled {σ : Type} (server : Outgoing → σ → Option Reply × σ)
    (documents : σ → List LogEntry) (entries : List LogEntry) (state : σ) (removed : List LogEntry)
    (ledger : List (Client × Account)) : Prop where
  balance : (removed ++ (documents state ++ ledger.flatMap fun line => line.2.pending)).Perm entries
  counted : (ledger.map fun line => line.2.count).sum = removed.length
  stands : ∀ line ∈ ledger, Stands removed (documents state) line.1 line.2
  served : ∀ line ∈ ledger, line.1.IsServed server documents

section

variable {σ : Type} {server : Outgoing → σ → Option Reply × σ} {documents : σ → List LogEntry}
  {entries removed : List LogEntry} {state after : σ} {clients clients' : List Client}
  {ledger : List (Client × Account)}

/-- What one client has still to create can be put aside with what is removed and stored. -/
theorem perm_own_pending (removed stored front own back : List LogEntry) :
    (removed ++ (stored ++ (front ++ (own ++ back)))).Perm
      (removed ++ (stored ++ own) ++ (front ++ back)) := by
  rw [List.perm_iff_count]
  intro entry
  simp only [List.count_append]
  omega

/-- A turn keeps matters settled. -/
theorem Settled.advance (proper : ∀ entry ∈ entries, entry.IsProper)
    (distinct : (entries.map LogEntry.id).Nodup)
    (settled : Settled server documents entries state removed ledger) {turn : Nat}
    (advanced : Clients.advance server (state, ledger.map Prod.fst) turn = some (after, clients')) :
    ∃ removed' ledger', ledger'.map Prod.fst = clients' ∧
      Settled server documents entries after removed' ledger' := by
  obtain ⟨_, _, log, call, heard, request, next, reply, shape, answered, rfl⟩ :=
    Clients.advance_eq_some advanced
  obtain ⟨front, rest, rfl, rfl, restShape⟩ := List.map_eq_append_iff.mp shape
  obtain ⟨⟨_, account⟩, back, rfl, rfl, rfl⟩ := List.map_eq_cons_iff.mp restShape
  obtain ⟨balance, counted, stands, served⟩ := settled
  obtain ⟨frontStands, restStands⟩ := List.forall_mem_append.mp stands
  obtain ⟨ownStands, backStands⟩ := List.forall_mem_cons.mp restStands
  obtain ⟨frontServed, restServed⟩ := List.forall_mem_append.mp served
  obtain ⟨ownServed, backServed⟩ := List.forall_mem_cons.mp restServed
  rw [List.flatMap_append, List.flatMap_cons] at balance
  have aside := (perm_own_pending removed (documents state) _ account.pending _).symm.trans balance
  obtain ⟨collection, reaches, faithful⟩ := ownServed.log.reaches
  have ownProper : ∀ entry ∈ removed ++ (documents state ++ account.pending), entry.IsProper :=
    fun entry member => proper entry (aside.subset (List.mem_append_left _ member))
  have ownDistinct : ((removed ++ (documents state ++ account.pending)).map LogEntry.id).Nodup :=
    ((aside.map LogEntry.id).nodup_iff.mpr distinct).sublist ((List.sublist_append_left _ _).map _)
  obtain ⟨removed', account', turn', standsNow⟩ :=
    ownStands.hear reaches faithful ownServed.own ownProper ownDistinct answered
  refine ⟨removed', front ++
    (⟨log, call, heard ++ [(request, reply)], next (some reply)⟩, account') :: back, by simp, ?_⟩
  exact {
    balance := by
      rw [List.flatMap_append, List.flatMap_cons]
      exact (perm_own_pending removed' (documents after) _ account'.pending _).trans
        ((turn'.balance.append_right _).trans aside)
    counted := by
      have counted' := turn'.counted
      simp only [List.map_append, List.map_cons, List.sum_append, List.sum_cons] at counted ⊢
      omega
    stands := List.forall_mem_append.mpr
      ⟨fun line member => (frontStands line member).of_turn turn', List.forall_mem_cons.mpr
        ⟨standsNow, fun line member => (backStands line member).of_turn turn'⟩⟩
    served := List.forall_mem_append.mpr
      ⟨frontServed, List.forall_mem_cons.mpr ⟨⟨ownServed.log, ownServed.own⟩, backServed⟩⟩ }

/-- Whatever the schedule is, matters stay settled. -/
theorem Settled.run (proper : ∀ entry ∈ entries, entry.IsProper)
    (distinct : (entries.map LogEntry.id).Nodup) (schedule : List Nat) :
    ∀ {state removed ledger},
      Settled server documents entries state removed ledger →
        Clients.run server schedule (state, ledger.map Prod.fst) = some (after, clients') →
          ∃ removed' ledger', ledger'.map Prod.fst = clients' ∧
            Settled server documents entries after removed' ledger' := by
  induction schedule with
  | nil =>
      intro state removed ledger settled ran
      cases ran
      exact ⟨removed, ledger, rfl, settled⟩
  | cons turn schedule inductionHypothesis =>
      intro state removed ledger settled ran
      obtain ⟨⟨middle, clients⟩, advanced, ran⟩ := Option.bind_eq_some_iff.mp ran
      obtain ⟨removed', ledger', rfl, settled'⟩ := settled.advance proper distinct advanced
      exact inductionHypothesis settled' ran

end

/-! ### From the first turn to the last answer -/

section

variable {σ : Type} {server : Outgoing → σ → Option Reply × σ} {documents : σ → List LogEntry}

/-- A client that has not asked for anything stands with what it is to create. -/
theorem Stands.start (stored : List LogEntry) (log : RemoteLog) (call : LogCall) :
    Stands [] stored (Client.start log call) ⟨call.created?.toList, 0⟩ := by
  cases call with
  | create entry => exact .creating entry
  | list => exact .listing
  | delete id => exact .deleting id
  | deleteAll => exact .waiting

/-- What a client that has returned has done.  If it has cleared, it has not failed, and all that it
has seen is removed. -/
structure Returned (removed : List LogEntry) (client : Client) (account : Account) : Prop where
  pending : account.pending = []
  count : ∃ answer, client.answer? = some answer ∧ answer.removals = account.count
  cleared : client.call = .deleteAll → (∃ count, client.answer? = some (.cleared count)) ∧
    ∀ entry ∈ client.seen, entry ∈ removed

theorem Stands.returned {removed stored : List LogEntry} {client : Client} {account : Account}
    (stands : Stands removed stored client account) (served : client.IsServed server documents)
    (proper : ∀ entry, entry ∈ removed ∨ entry ∈ stored → entry.IsProper)
    (answered : client.answer?.isSome = true) : Returned removed client account := by
  obtain ⟨collection, reaches, _⟩ := served.log.reaches
  cases stands with
  | creating entry => simp [Client.answer?, reaches.exchange_create] at answered
  | listing => simp [Client.answer?, reaches.exchange_list] at answered
  | waiting => simp [Client.answer?, reaches.exchange_deleteAll] at answered
  | deleting id =>
      obtain ⟨segment, _⟩ := served.own id rfl
      obtain ⟨_, _, asks⟩ := reaches.exchange_delete segment
      simp [Client.answer?, asks] at answered
  | created entry => exact ⟨rfl, ⟨_, rfl, rfl⟩, nofun⟩
  | listed entries => exact ⟨rfl, ⟨_, rfl, rfl⟩, nofun⟩
  | deleted id => exact ⟨rfl, ⟨_, rfl, rfl⟩, nofun⟩
  | missed id => exact ⟨rfl, ⟨_, rfl, rfl⟩, nofun⟩
  | @clearing _ _ todo count known seen =>
      cases todo with
      | nil =>
          refine ⟨rfl, ⟨_, rfl, rfl⟩, fun _ => ⟨⟨count, rfl⟩, fun entry member => ?_⟩⟩
          exact (seen entry member).resolve_left List.not_mem_nil
      | cons entry rest =>
          have segment := (proper entry (known entry List.mem_cons_self)).own
          obtain ⟨_, _, asks⟩ := reaches.clearing_cons segment rest count
          simp [Client.answer?, asks] at answered

/-- The ledger before the first turn. -/
def openingLedger (calls : List (RemoteLog × LogCall)) : List (Client × Account) :=
  calls.map fun call => (Client.start call.1 call.2, ⟨call.2.created?.toList, 0⟩)

theorem openingLedger_clients (calls : List (RemoteLog × LogCall)) :
    (openingLedger calls).map Prod.fst = calls.map fun call => Client.start call.1 call.2 := by
  rw [openingLedger, List.map_map]
  rfl

/-- Before the first turn nothing is removed. -/
theorem Settled.opening {calls : List (RemoteLog × LogCall)} (start : σ)
    (served : ∀ call ∈ calls, (Client.start call.1 call.2).IsServed server documents) :
    Settled server documents (documents start ++ calls.filterMap (LogCall.created? ·.2)) start []
      (openingLedger calls) where
  balance := by
    rw [openingLedger, List.flatMap_map, List.filterMap_eq_flatMap_toList]
    exact List.Perm.refl _
  counted := by
    rw [openingLedger, List.map_map]
    simp [Function.comp_def]
  stands line member := by
    obtain ⟨call, _, rfl⟩ := List.mem_map.mp member
    exact .start _ _ _
  served line member := by
    obtain ⟨call, found, rfl⟩ := List.mem_map.mp member
    exact served call found

/-- Where all have returned, their answers tell what is on their accounts. -/
theorem removals_eq_counts {removed : List LogEntry} {ledger : List (Client × Account)}
    (returned : ∀ line ∈ ledger, Returned removed line.1 line.2) :
    ((ledger.map Prod.fst).filterMap Client.answer?).map LogAnswer.removals =
      ledger.map fun line => line.2.count := by
  induction ledger with
  | nil => rfl
  | cons line ledger inductionHypothesis =>
      obtain ⟨first, others⟩ := List.forall_mem_cons.mp returned
      obtain ⟨answer, answered, count⟩ := first.count
      rw [List.map_cons, List.filterMap_cons_some answered, List.map_cons, List.map_cons, count,
        inductionHypothesis others]

end

/-- Clients that clear, delete and create at one server, in any order of their requests, count every
document once: when all of them have returned, their counts together are the number of documents
that have been removed, none that clears has failed, and nothing that one of these has seen in its
listing is left. -/
theorem concurrent_clearing_counts_once {σ : Type} {server : Outgoing → σ → Option Reply × σ}
    {documents : σ → List LogEntry} {calls : List (RemoteLog × LogCall)} {start final : σ}
    (served : ∀ call ∈ calls, (Client.start call.1 call.2).IsServed server documents)
    (proper : ∀ entry ∈ documents start ++ calls.filterMap (LogCall.created? ·.2), entry.IsProper)
    (distinct : ((documents start ++ calls.filterMap (LogCall.created? ·.2)).map
      LogEntry.id).Nodup)
    {schedule : List Nat} {clients : List Client}
    (ran : Clients.run server schedule
      (start, calls.map fun call => Client.start call.1 call.2) = some (final, clients))
    (returned : ∀ client ∈ clients, client.answer?.isSome = true) :
    (clients.map fun client => (client.log, client.call)) = calls ∧
      ∃ removed, (removed ++ documents final).Perm
          (documents start ++ calls.filterMap (LogCall.created? ·.2)) ∧
        ((clients.filterMap Client.answer?).map LogAnswer.removals).sum = removed.length ∧
        ∀ client ∈ clients, client.call = .deleteAll →
          (∃ count, client.answer? = some (.cleared count)) ∧
            ∀ entry ∈ client.seen, entry.id ∉ (documents final).map LogEntry.id := by
  refine ⟨?_, ?_⟩
  · rw [Clients.run_calls schedule ran, List.map_map]
    exact List.map_id _
  rw [← openingLedger_clients] at ran
  obtain ⟨removed, ledger, rfl, settled⟩ :=
    (Settled.opening start served).run proper distinct schedule ran
  obtain ⟨balance, counted, stands, servedStill⟩ := settled
  have among : ∀ entry, entry ∈ removed ∨ entry ∈ documents final → entry.IsProper := by
    intro entry member
    refine proper entry (balance.subset ?_)
    rw [List.mem_append, List.mem_append]
    exact member.imp_right .inl
  have returned : ∀ line ∈ ledger, Returned removed line.1 line.2 := fun line member =>
    (stands line member).returned (servedStill line member) among
      (returned line.1 (List.mem_map_of_mem member))
  have pending : (ledger.flatMap fun line => line.2.pending) = [] :=
    List.flatMap_eq_nil_iff.mpr fun line member => (returned line member).pending
  rw [pending, List.append_nil] at balance
  refine ⟨removed, balance, ?_, ?_⟩
  · rw [removals_eq_counts returned, counted]
  · intro client member clears
    obtain ⟨line, found, rfl⟩ := List.mem_map.mp member
    obtain ⟨answered, seen⟩ := (returned line found).cleared clears
    refine ⟨answered, fun entry member stillThere => ?_⟩
    have apart := (balance.map LogEntry.id).nodup_iff.mpr distinct
    rw [List.map_append] at apart
    exact (List.nodup_append.mp apart).2.2 _ (List.mem_map_of_mem (seen entry member)) _ stillThere
      rfl

/-- Two clients list the same document and both ask for its deletion, and only the one that comes
first counts it.  What is created after the listings stays. -/
theorem keeper_counts_shared_listing_once :
    ∃ final clients,
      Clients.run (Keeper.serve RemoteLog.standardDocuments.segments) [2, 0, 1, 3, 1, 0]
          (⟨[⟨['a'], [], [], 5⟩, ⟨['c'], [], [], 6⟩]⟩,
            [.deleteAll, .deleteAll, .delete ['c'], .create ⟨['b'], [], [], 7⟩].map
              (Client.start RemoteLog.standard)) =
        some (final, clients) ∧
      final.documents = [⟨['b'], [], [], 7⟩] ∧
      clients.map Client.answer? = [some (.cleared 0), some (.cleared 1), some .deleted,
        some (.created ⟨['b'], [], [], 7⟩)] ∧
      ∃ removed, (removed ++ final.documents).Perm
          [⟨['a'], [], [], 5⟩, ⟨['c'], [], [], 6⟩, ⟨['b'], [], [], 7⟩] ∧
        ((clients.filterMap Client.answer?).map LogAnswer.removals).sum = removed.length ∧
        ∀ client ∈ clients, client.call = .deleteAll →
          (∃ count, client.answer? = some (.cleared count)) ∧
            ∀ entry ∈ client.seen, entry.id ∉ final.documents.map LogEntry.id := by
  have served : ∀ call ∈ [.deleteAll, .deleteAll, .delete ['c'], .create ⟨['b'], [], [], 7⟩].map
      fun call => (RemoteLog.standard, call),
      (Client.start call.1 call.2).IsServed (Keeper.serve RemoteLog.standardDocuments.segments)
        Keeper.documents := by
    intro _ member
    obtain ⟨call, listed, rfl⟩ := List.mem_map.mp member
    refine ⟨RemoteLog.standard_servedBy, ?_⟩
    rintro id rfl
    obtain rfl : id = ['c'] := by simpa using listed
    exact ⟨.of_word (by decide), by decide⟩
  have proper : ∀ entry ∈ Keeper.documents ⟨[⟨['a'], [], [], 5⟩, ⟨['c'], [], [], 6⟩]⟩ ++
      [⟨['b'], [], [], 7⟩], entry.IsProper := by
    intro entry member
    have own : entry.id.all Url.isWordChar = true ∧ entry.id ≠ [] ∧ entry.InRange := by
      revert entry
      decide
    exact ⟨.of_word own.1, own.2.1, own.2.2⟩
  have ended : (Clients.run (Keeper.serve RemoteLog.standardDocuments.segments) [2, 0, 1, 3, 1, 0]
      (⟨[⟨['a'], [], [], 5⟩, ⟨['c'], [], [], 6⟩]⟩,
        [.deleteAll, .deleteAll, .delete ['c'], .create ⟨['b'], [], [], 7⟩].map
          (Client.start RemoteLog.standard))).map
        (fun last => (last.1.documents, last.2.map Client.answer?)) =
      some ([⟨['b'], [], [], 7⟩], [some (.cleared 0), some (.cleared 1), some .deleted,
        some (.created ⟨['b'], [], [], 7⟩)]) := by
    decide +kernel
  obtain ⟨⟨final, clients⟩, ran, shown⟩ := Option.map_eq_some_iff.mp ended
  obtain ⟨left, answers⟩ := Prod.mk.inj shown
  have returned : ∀ answer ∈ clients.map Client.answer?, answer.isSome = true := by
    rw [answers]
    decide
  obtain ⟨_, once⟩ := concurrent_clearing_counts_once served proper (by decide) ran
    (List.forall_mem_map.mp returned)
  exact ⟨final, clients, ran, left, answers, once⟩

end Keypad
