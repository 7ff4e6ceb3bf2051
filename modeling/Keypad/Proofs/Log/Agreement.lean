/-
Module: Keypad.Proofs.Log.Agreement
Layer: proofs
Purpose: The log kept on a server answers as the log kept in memory does.
Trusted boundary: none; the server is an argument, and what is relied on of it is a hypothesis.
Main exports:
  LogCall.renamed, LogAnswer.Agree, CanFollow, RemoteLog.agree_call, remote_agrees_with_journal
-/
import Keypad.Proofs.Log.History
import Keypad.Proofs.Log.Keeper

namespace Keypad

/-!
The ids of the two logs are their own, so calls and answers are compared under a renaming that
takes the id of each entry in memory to the id of the document that was created by the same call.
The journal in memory is mirrored by the documents on the server: up to their order, they are its
entries under their new names.
-/

/-! ### Calls and answers under other ids -/

section Renaming

variable (rename : Text → Text)

/-- An entry under another id. -/
def LogEntry.renamed (entry : LogEntry) : LogEntry := { entry with id := rename entry.id }

/-- A call with other ids. -/
def LogCall.renamed : LogCall → LogCall
  | .create entry => .create (entry.renamed rename)
  | .list => .list
  | .delete id => .delete (rename id)
  | .deleteAll => .deleteAll

/-- Answers that agree.  Two lists have the same entries, and at each place entries of the same
time, so only the order of entries of the same second may differ. -/
inductive LogAnswer.Agree : LogAnswer → LogAnswer → Prop where
  | created (entry : LogEntry) : Agree (.created entry) (.created (entry.renamed rename))
  | listed {entries others : List LogEntry} (same : others.Perm (entries.map (.renamed rename)))
      (latestFirst : LatestFirst entries) (latestFirst' : LatestFirst others)
      (times : others.map LogEntry.timestamp = entries.map LogEntry.timestamp) :
      Agree (.listed entries) (.listed others)
  | deleted : Agree .deleted .deleted
  | notFound : Agree (.failed .notFound) (.failed .notFound)
  | cleared (count : Nat) : Agree (.cleared count) (.cleared count)

/-- The ids of entries and of the calls behind them. -/
def idsOf (entries : List LogEntry) (calls : List LogCall) : List Text :=
  entries.map LogEntry.id ++ calls.filterMap LogCall.id?

/-- Calls that can follow when these entries are there.  No two entries have or get the same id,
times do not go back and are integers of 64 bits, and the ids stand for words, different ones for
different words. -/
structure CanFollow (entries : List LogEntry) (calls : List LogCall) : Prop where
  distinct : ((entries ++ calls.filterMap LogCall.created?).map LogEntry.id).Nodup
  clock : (entries ++ calls.filterMap LogCall.created?).Pairwise
    fun a b => a.timestamp ≤ b.timestamp
  range : ∀ entry ∈ entries ++ calls.filterMap LogCall.created?, entry.InRange
  words : ∀ id ∈ idsOf entries calls, rename id ≠ [] ∧ (rename id).all Url.isWordChar = true
  apart : ∀ id ∈ idsOf entries calls, ∀ other ∈ idsOf entries calls,
    rename id = rename other → id = other

end Renaming

variable {rename : Text → Text} {entries : List LogEntry} {call : LogCall} {calls : List LogCall}

namespace CanFollow

theorem filterMap_created?_cons (call : LogCall) (calls : List LogCall) :
    (call :: calls).filterMap LogCall.created? =
      call.created?.toList ++ calls.filterMap LogCall.created? := by
  cases call <;> rfl

/-- After a call the others can follow, when nothing is there but what was there before and what
the call has created. -/
theorem step (ready : CanFollow rename entries (call :: calls)) {entries' : List LogEntry}
    (left : entries'.Sublist (entries ++ call.created?.toList)) :
    CanFollow rename entries' calls := by
  have whole : (entries' ++ calls.filterMap LogCall.created?).Sublist
      (entries ++ (call :: calls).filterMap LogCall.created?) := by
    rw [filterMap_created?_cons, ← List.append_assoc]
    exact left.append_right _
  have ids : idsOf entries' calls ⊆ idsOf entries (call :: calls) := by
    intro id member
    rw [idsOf, List.mem_append]
    rcases List.mem_append.mp member with member | member
    · obtain ⟨entry, found, rfl⟩ := List.mem_map.mp member
      rcases List.mem_append.mp (left.subset found) with before | created
      · exact .inl (List.mem_map_of_mem before)
      · refine .inr (List.mem_filterMap.mpr ⟨call, List.mem_cons_self, ?_⟩)
        cases call with
        | create other =>
            obtain rfl := List.mem_singleton.mp created
            rfl
        | list | delete id | deleteAll => cases created
    · obtain ⟨other, member, same⟩ := List.mem_filterMap.mp member
      exact .inr (List.mem_filterMap.mpr ⟨other, List.mem_cons_of_mem _ member, same⟩)
  exact {
    distinct := ready.distinct.sublist (whole.map _)
    clock := ready.clock.sublist whole
    range := fun entry member => ready.range entry (whole.subset member)
    words := fun id member => ready.words id (ids member)
    apart := fun id member other memberOther =>
      ready.apart id (ids member) other (ids memberOther) }

theorem present (ready : CanFollow rename entries calls) : (entries.map LogEntry.id).Nodup := by
  have distinct := ready.distinct
  rw [List.map_append] at distinct
  exact (List.nodup_append.mp distinct).1

/-- The entry that is created first has an id that is not there. -/
theorem new {entry : LogEntry} (ready : CanFollow rename entries (.create entry :: calls)) :
    entry.id ∉ entries.map LogEntry.id := by
  have distinct := ready.distinct
  rw [filterMap_created?_cons, List.map_append] at distinct
  intro member
  exact (List.nodup_append.mp distinct).2.2 _ member _ List.mem_cons_self rfl

theorem range_renamed (ready : CanFollow rename entries calls) {documents : List LogEntry}
    (mirrored : documents.Perm (entries.map (.renamed rename))) :
    ∀ entry ∈ documents, entry.InRange := by
  intro entry member
  obtain ⟨origin, found, rfl⟩ := List.mem_map.mp (mirrored.subset member)
  exact ready.range origin (List.mem_append_left _ found)

/-- An id is there under its new name exactly when it is there. -/
theorem mem_ids_iff (ready : CanFollow rename entries calls) {documents : List LogEntry}
    (mirrored : documents.Perm (entries.map (.renamed rename))) {id : Text}
    (known : id ∈ idsOf entries calls) :
    rename id ∈ documents.map LogEntry.id ↔ id ∈ entries.map LogEntry.id := by
  rw [(mirrored.map LogEntry.id).mem_iff, List.map_map]
  constructor
  · intro member
    obtain ⟨entry, member, same⟩ := List.mem_map.mp member
    have found := List.mem_map_of_mem (f := LogEntry.id) member
    rwa [ready.apart id known entry.id (List.mem_append_left _ found) same.symm]
  · intro member
    obtain ⟨entry, found, rfl⟩ := List.mem_map.mp member
    exact List.mem_map.mpr ⟨entry, found, rfl⟩

/-- The ids of the documents mean themselves as segments. -/
theorem own_renamed (ready : CanFollow rename entries calls) {documents : List LogEntry}
    (mirrored : documents.Perm (entries.map (.renamed rename))) :
    ∀ entry ∈ documents, Url.IsSegment entry.id ∧ entry.id ≠ [] := by
  intro entry member
  obtain ⟨origin, found, rfl⟩ := List.mem_map.mp (mirrored.subset member)
  obtain ⟨nonempty, word⟩ :=
    ready.words origin.id (List.mem_append_left _ (List.mem_map_of_mem found))
  exact ⟨.of_word word, nonempty⟩

theorem distinct_renamed (ready : CanFollow rename entries calls) {documents : List LogEntry}
    (mirrored : documents.Perm (entries.map (.renamed rename))) :
    (documents.map LogEntry.id).Nodup := by
  have renamed : (entries.map (.renamed rename)).map LogEntry.id =
      (entries.map LogEntry.id).map rename := by
    rw [List.map_map, List.map_map]
    rfl
  rw [(mirrored.map LogEntry.id).nodup_iff, renamed]
  exact ready.present.map_on fun id member other memberOther =>
    ready.apart id (List.mem_append_left _ member) other (List.mem_append_left _ memberOther)

/-- The entry of an id is mirrored by the document of the id under its new name, and no other
one is. -/
theorem mirrored_without (ready : CanFollow rename entries calls) {documents : List LogEntry}
    (mirrored : documents.Perm (entries.map (.renamed rename))) {id : Text}
    (known : id ∈ idsOf entries calls) :
    (documents.filter fun entry => entry.id ≠ rename id).Perm
      ((entries.filter fun entry => entry.id ≠ id).map (.renamed rename)) := by
  refine (mirrored.filter _).trans (.of_eq ?_)
  rw [List.filter_map]
  congr 1
  apply List.filter_congr
  intro entry member
  have among : entry.id ∈ idsOf entries calls :=
    List.mem_append_left _ (List.mem_map_of_mem member)
  exact decide_eq_decide.mpr (not_congr ⟨ready.apart _ among _ known, congrArg rename⟩)

end CanFollow

/-! ### One call -/

theorem LatestFirst.renamed (latestFirst : LatestFirst entries) :
    LatestFirst (entries.map (.renamed rename)) :=
  List.pairwise_map.mpr latestFirst

/-- Of the same entries in order of their times, the times are the same. -/
theorem LatestFirst.times_eq {others : List LogEntry} (latestFirst : LatestFirst entries)
    (latestFirst' : LatestFirst others) (same : others.Perm entries) :
    others.map LogEntry.timestamp = entries.map LogEntry.timestamp := by
  have antisymmetric (a b : Int) (_ : a ∈ others.map LogEntry.timestamp)
      (_ : b ∈ entries.map LogEntry.timestamp) (ba : b ≤ a) (ab : a ≤ b) : a = b :=
    Int.le_antisymm ab ba
  apply (same.map LogEntry.timestamp).eq_of_pairwise antisymmetric
  · exact List.pairwise_map.mpr latestFirst'
  · exact List.pairwise_map.mpr latestFirst

namespace RemoteLog

variable {σ : Type} {log : RemoteLog} {collection : List Text}
  {server : Outgoing → σ → Option Reply × σ} {documents : σ → List LogEntry}

/-- The log on the server answers a call as the journal does, and goes on mirroring it. -/
theorem agree_call (reaches : log.Reaches collection)
    (faithful : Faithful collection log.project log.key server documents)
    (answers : Answers server) {journal : Journal} {state : σ}
    (ready : CanFollow rename journal.entries (call :: calls))
    (mirrored : (documents state).Perm (journal.entries.map (.renamed rename))) :
    ∃ answer after, (log.exchange (call.renamed rename)).run server state = (answer, after) ∧
      (Journal.store.call call journal).1.Agree rename answer ∧
      (documents after).Perm
        ((Journal.store.call call journal).2.entries.map (.renamed rename)) ∧
      CanFollow rename (Journal.store.call call journal).2.entries calls := by
  cases call with
  | create entry =>
      have known : entry.id ∈ idsOf journal.entries (.create entry :: calls) :=
        List.mem_append_right _ List.mem_cons_self
      have fresh : rename entry.id ∉ (documents state).map LogEntry.id := by
        rw [ready.mem_ids_iff mirrored known]
        exact ready.new
      have range : (entry.renamed rename).InRange :=
        ready.range entry (by simp [LogCall.created?])
      obtain ⟨after, ran, kept⟩ := run_create reaches faithful answers range fresh
      refine ⟨_, after, ran, .created entry, ?_, ready.step (List.Sublist.refl _)⟩
      calc documents after
          |>.Perm (entry.renamed rename :: documents state) := kept
        List.Perm _ (entry.renamed rename :: journal.entries.map (.renamed rename)) :=
          mirrored.cons _
        List.Perm _ (journal.entries.map (.renamed rename) ++ [entry.renamed rename]) :=
          (List.perm_append_singleton _ _).symm
        _ = (journal.entries ++ [entry]).map (.renamed rename) := by
          simp
  | list =>
      obtain ⟨others, after, ran, same, latestFirst, kept⟩ :=
        run_list reaches faithful answers (ready.range_renamed mirrored)
      have newestFirst : LatestFirst journal.newestFirst :=
        List.pairwise_reverse.mpr (ready.clock.sublist (List.sublist_append_left _ _))
      have shown : others.Perm (journal.newestFirst.map (.renamed rename)) :=
        (same.trans mirrored).trans ((List.reverse_perm _).symm.map _)
      refine ⟨_, after, ran, .listed shown newestFirst latestFirst ?_, kept.trans mirrored,
        ready.step (List.sublist_append_left _ _)⟩
      rw [newestFirst.renamed.times_eq latestFirst shown, List.map_map]
      rfl
  | delete id =>
      have known : id ∈ idsOf journal.entries (.delete id :: calls) :=
        List.mem_append_right _ List.mem_cons_self
      obtain ⟨nonempty, word⟩ := ready.words id known
      obtain ⟨after, ran, kept⟩ := run_delete reaches faithful answers
        (Url.IsSegment.of_word word) nonempty state
      refine ⟨_, after, ran, ?_⟩
      rw [Journal.call_delete]
      refine ⟨?_, ?_, ready.step ?_⟩
      · by_cases present : id ∈ journal.entries.map LogEntry.id
        case pos =>
          rw [if_pos present, if_pos ((ready.mem_ids_iff mirrored known).mpr present)]
          exact .deleted
        case neg =>
          rw [if_neg present, if_neg (mt (ready.mem_ids_iff mirrored known).mp present)]
          exact .notFound
      · rw [Journal.entries_erase ready.present]
        exact kept.trans (ready.mirrored_without mirrored known)
      · exact List.eraseP_sublist.trans (List.sublist_append_left _ _)
  | deleteAll =>
      obtain ⟨after, ran, empty⟩ := run_deleteAll reaches faithful answers
        (ready.range_renamed mirrored) (ready.own_renamed mirrored)
        (ready.distinct_renamed mirrored)
      refine ⟨_, after, ran, ?_, .of_eq empty, ready.step (List.nil_sublist _)⟩
      rw [mirrored.length_eq, List.length_map]
      exact .cleared _

/-- Over a run of calls the two logs go on agreeing. -/
theorem agree_run (reaches : log.Reaches collection)
    (faithful : Faithful collection log.project log.key server documents)
    (answers : Answers server) (calls : List LogCall) :
    ∀ {journal : Journal} {state : σ}, CanFollow rename journal.entries calls →
      (documents state).Perm (journal.entries.map (.renamed rename)) →
        List.Forall₂ (LogAnswer.Agree rename) (Journal.store.run calls journal).1
          ((log.store server).run (calls.map (.renamed rename)) state).1 := by
  induction calls with
  | nil => exact fun _ _ => .nil
  | cons call calls inductionHypothesis =>
      intro journal state ready mirrored
      obtain ⟨answer, after, ran, agrees, kept, left⟩ :=
        agree_call reaches faithful answers ready mirrored
      have remote : (log.store server).call (call.renamed rename) state = (answer, after) :=
        (log.call_eq_run _ _).trans ran
      simp only [List.map_cons, LogStore.run, remote]
      exact .cons agrees (inductionHypothesis left kept)

end RemoteLog

/-- A log on a server that keeps its documents and answers every request gives the same answers to
every run of calls as the log in memory does, when both begin without entries.  The ids of the one
are taken to those of the other by `rename`. -/
theorem remote_agrees_with_journal {σ : Type} {log : RemoteLog}
    {server : Outgoing → σ → Option Reply × σ} {documents : σ → List LogEntry}
    (served : log.ServedBy server documents) (answers : RemoteLog.Answers server)
    {start : σ} (empty : documents start = [])
    {rename : Text → Text} {calls : List LogCall} (ready : CanFollow rename [] calls) :
    List.Forall₂ (LogAnswer.Agree rename) (Journal.store.run calls .empty).1
      ((log.store server).run (calls.map (.renamed rename)) start).1 := by
  obtain ⟨collection, reaches, faithful⟩ := served.reaches
  exact RemoteLog.agree_run reaches faithful answers calls ready (.of_eq empty)

/-- Two sums are logged, one of them is deleted twice, and what is left is cleared. -/
theorem keeper_agrees_with_journal :
    CanFollow (· ++ "-2".toList) []
        [.create ⟨"a".toList, "1+1".toList, "2".toList, 5⟩,
          .create ⟨"b".toList, "2+2".toList, "4".toList, 5⟩,
          .list, .delete "a".toList, .delete "a".toList, .deleteAll] ∧
      List.Forall₂ (LogAnswer.Agree (· ++ "-2".toList))
        [.created ⟨"a".toList, "1+1".toList, "2".toList, 5⟩,
          .created ⟨"b".toList, "2+2".toList, "4".toList, 5⟩,
          .listed [⟨"b".toList, "2+2".toList, "4".toList, 5⟩,
            ⟨"a".toList, "1+1".toList, "2".toList, 5⟩],
          .deleted, .failed .notFound, .cleared 1]
        ((RemoteLog.standard.store (Keeper.serve RemoteLog.standardDocuments.segments)).run
          [.create ⟨"a-2".toList, "1+1".toList, "2".toList, 5⟩,
            .create ⟨"b-2".toList, "2+2".toList, "4".toList, 5⟩,
            .list, .delete "a-2".toList, .delete "a-2".toList, .deleteAll] ⟨[]⟩).1 := by
  have ready : CanFollow (· ++ "-2".toList) []
      [.create ⟨"a".toList, "1+1".toList, "2".toList, 5⟩,
        .create ⟨"b".toList, "2+2".toList, "4".toList, 5⟩,
        .list, .delete "a".toList, .delete "a".toList, .deleteAll] :=
    { distinct := by decide +kernel
      clock := by decide +kernel
      range := by decide +kernel
      words := by decide +kernel
      apart := by decide +kernel }
  have empty : Keeper.documents ⟨[]⟩ = [] := rfl
  exact ⟨ready, remote_agrees_with_journal RemoteLog.standard_servedBy (Keeper.answers _) empty
    ready⟩

end Keypad
