/-
Module: Keypad.Proofs.Log.Remote
Layer: proofs
Purpose: What becomes of the calls to a remote log when its server is faithful and answers.
Trusted boundary: none; the server is an argument, and what is relied on of it is a hypothesis.
Main exports:
  LatestFirst, RemoteLog.latestFirst_perm, RemoteLog.latestFirst_stable, RemoteLog.Answers,
  RemoteLog.run_create, RemoteLog.run_list, RemoteLog.run_delete, RemoteLog.run_deleteAll
-/
import Keypad.Proofs.Log.Call
import Keypad.Proofs.Log.Collection

namespace Keypad

/-- Entries in non-increasing order of their times. -/
def LatestFirst (entries : List LogEntry) : Prop :=
  entries.Pairwise fun a b => b.timestamp ≤ a.timestamp

/-- Of entries with different ids the first alone has its id. -/
theorem filter_other_ids {entry : LogEntry} {rest : List LogEntry}
    (distinct : ((entry :: rest).map LogEntry.id).Nodup) :
    (entry :: rest).filter (fun other => other.id ≠ entry.id) = rest := by
  have new := (List.nodup_cons.mp distinct).1
  rw [List.filter_cons_of_neg (by simp)]
  exact List.filter_eq_self.mpr fun other member => decide_eq_true fun same =>
    new (same ▸ List.mem_map_of_mem member)

namespace RemoteLog

/-- A server that answers every request. -/
def Answers {σ : Type} (server : Outgoing → σ → Option Reply × σ) : Prop :=
  ∀ request state, ∃ reply after, server request state = (some reply, after)

/-- Putting the latest first changes the order only. -/
theorem latestFirst_perm (entries : List LogEntry) : (latestFirst entries).Perm entries :=
  List.mergeSort_perm _ _

theorem later_trans (a b c : LogEntry) (ab : decide (b.timestamp ≤ a.timestamp) = true)
    (bc : decide (c.timestamp ≤ b.timestamp) = true) : decide (c.timestamp ≤ a.timestamp) = true :=
  decide_eq_true (Int.le_trans (of_decide_eq_true bc) (of_decide_eq_true ab))

theorem later_total (a b : LogEntry) :
    (decide (b.timestamp ≤ a.timestamp) || decide (a.timestamp ≤ b.timestamp)) = true := by
  simpa only [Bool.or_eq_true, decide_eq_true_eq] using Int.le_total b.timestamp a.timestamp

theorem latestFirst_ordered (entries : List LogEntry) : LatestFirst (latestFirst entries) :=
  (List.pairwise_mergeSort later_trans later_total entries).imp fun later =>
    of_decide_eq_true later

/-- The entries of one time stay in the order in which they are given. -/
theorem latestFirst_stable (entries : List LogEntry) (time : Int) :
    (latestFirst entries).filter (fun entry => entry.timestamp = time) =
      entries.filter fun entry => entry.timestamp = time := by
  have ordered : (entries.filter fun entry => entry.timestamp = time).Pairwise
      fun a b => decide (b.timestamp ≤ a.timestamp) = true := by
    refine List.pairwise_of_forall_mem_list fun a memberA b memberB => decide_eq_true ?_
    have timeA := of_decide_eq_true (List.mem_filter.mp memberA).2
    have timeB := of_decide_eq_true (List.mem_filter.mp memberB).2
    exact Int.le_of_eq (timeB.trans timeA.symm)
  have kept : (entries.filter fun entry => entry.timestamp = time).Sublist (latestFirst entries) :=
    List.sublist_mergeSort later_trans later_total ordered List.filter_sublist
  have within := kept.filter fun entry => decide (entry.timestamp = time)
  rw [List.filter_filter] at within
  simp only [Bool.and_self] at within
  exact (within.eq_of_length ((latestFirst_perm entries).filter _).length_eq.symm).symm

variable {σ : Type} {log : RemoteLog} {collection : List Text}
  {server : Outgoing → σ → Option Reply × σ} {documents : σ → List LogEntry}
  (reaches : log.Reaches collection)
  (faithful : Faithful collection log.project log.key server documents)
  (answers : Answers server)

include reaches faithful answers

/-- An entry with a new id is created as it is. -/
theorem run_create {entry : LogEntry} {state : σ} (range : entry.InRange)
    (fresh : entry.id ∉ (documents state).map LogEntry.id) :
    ∃ after, (log.exchange (.create entry)).run server state = (.created entry, after) ∧
      (documents after).Perm (entry :: documents state) := by
  obtain ⟨reply, after, answered⟩ := answers _ state
  obtain ⟨read, kept⟩ := faithful.decoded_created range fresh answered
  refine ⟨after, ?_, kept⟩
  rw [reaches.exchange_create, Exchange.run_ask answered]
  simp only [Option.elim, read]
  rfl

/-- The documents are listed, the latest first. -/
theorem run_list {state : σ} (range : ∀ entry ∈ documents state, entry.InRange) :
    ∃ entries after, (log.exchange .list).run server state = (.listed entries, after) ∧
      entries.Perm (documents state) ∧ LatestFirst entries ∧
      (documents after).Perm (documents state) := by
  obtain ⟨reply, after, answered⟩ := answers _ state
  obtain ⟨entries, same, _, read, kept⟩ := faithful.decoded_listed range answered
  refine ⟨latestFirst entries, after, ?_, (latestFirst_perm entries).trans same,
    latestFirst_ordered entries, kept⟩
  rw [reaches.exchange_list, Exchange.run_ask answered]
  simp only [listingOutcome, Option.elim, read]
  rfl

/-- Deleting an id answers whether there is a document of it, and takes it out. -/
theorem run_delete {id : Text} (own : Url.IsSegment id) (nonempty : id ≠ []) (state : σ) :
    ∃ after, (log.exchange (.delete id)).run server state =
        (if id ∈ (documents state).map LogEntry.id then .deleted else .failed .notFound, after) ∧
      (documents after).Perm ((documents state).filter fun entry => entry.id ≠ id) := by
  obtain ⟨target, names, asks⟩ := reaches.exchange_delete own
  obtain ⟨reply, after, answered⟩ := answers _ state
  refine ⟨after, ?_⟩
  rw [asks, Exchange.run_ask answered]
  rcases faithful.deletion_deleted nonempty names answered with
    ⟨present, outcome, kept⟩ | ⟨absent, outcome, kept⟩
  · rw [if_pos present]
    simp only [deletionOutcome, Option.elim, outcome]
    exact ⟨rfl, kept⟩
  · rw [if_neg absent]
    simp only [deletionOutcome, Option.elim, outcome]
    refine ⟨rfl, kept.trans (.of_eq ?_)⟩
    refine (List.filter_eq_self.mpr fun entry member => decide_eq_true ?_).symm
    rintro rfl
    exact absent (List.mem_map_of_mem member)

/-- When what is to be deleted is what is there, all of it is deleted and counted. -/
theorem run_clearing {todo : List LogEntry}
    (own : ∀ entry ∈ todo, Url.IsSegment entry.id ∧ entry.id ≠ [])
    (distinct : (todo.map LogEntry.id).Nodup) :
    ∀ (count : Nat) {state : σ}, (documents state).Perm todo →
      ∃ after, (log.clearing todo count).run server state =
          (.cleared (count + todo.length), after) ∧
        documents after = [] := by
  induction todo with
  | nil => exact fun count state same => ⟨state, rfl, same.eq_nil⟩
  | cons entry rest inductionHypothesis =>
      intro count state same
      obtain ⟨⟨own, nonempty⟩, ownRest⟩ := List.forall_mem_cons.mp own
      obtain ⟨target, names, asks⟩ := reaches.clearing_cons own rest count
      obtain ⟨reply, after, answered⟩ := answers _ state
      have present : entry.id ∈ (documents state).map LogEntry.id :=
        List.mem_map_of_mem (same.symm.subset List.mem_cons_self)
      obtain ⟨_, outcome, kept⟩ | ⟨absent, _⟩ := faithful.deletion_deleted nonempty names answered
      case inr => exact absurd present absent
      have left : (documents after).Perm rest :=
        kept.trans ((same.filter _).trans (.of_eq (filter_other_ids distinct)))
      obtain ⟨last, cleared, empty⟩ :=
        inductionHypothesis ownRest (List.nodup_cons.mp distinct).2 (count + 1) left
      refine ⟨last, ?_, empty⟩
      rw [asks, Exchange.run_ask answered]
      simp only [deletionOutcome, Option.elim, outcome]
      rw [clearingAfter, cleared, List.length_cons, Nat.add_assoc, Nat.add_comm 1]

/-- Deleting all entries counts those that are there. -/
theorem run_deleteAll {state : σ} (range : ∀ entry ∈ documents state, entry.InRange)
    (own : ∀ entry ∈ documents state, Url.IsSegment entry.id ∧ entry.id ≠ [])
    (distinct : ((documents state).map LogEntry.id).Nodup) :
    ∃ after, (log.exchange .deleteAll).run server state =
        (.cleared (documents state).length, after) ∧
      documents after = [] := by
  obtain ⟨reply, after, answered⟩ := answers _ state
  obtain ⟨entries, same, _, read, kept⟩ := faithful.decoded_listed range answered
  have listed := (latestFirst_perm entries).trans same
  have ownListed : ∀ entry ∈ latestFirst entries, Url.IsSegment entry.id ∧ entry.id ≠ [] :=
    fun entry member => own entry (listed.subset member)
  obtain ⟨last, cleared, empty⟩ := run_clearing reaches faithful answers ownListed
    ((listed.map LogEntry.id).nodup_iff.mpr distinct) 0 (kept.trans listed.symm)
  refine ⟨last, ?_, empty⟩
  rw [reaches.exchange_deleteAll, Exchange.run_ask answered]
  simp only [listingOutcome, Option.elim, read]
  show (log.clearing (latestFirst entries) 0).run server after = _
  rw [cleared, listed.length_eq, Nat.zero_add]

end RemoteLog

end Keypad
