/-
Module: Keypad.Proofs.Log.Memory
Layer: proofs
Purpose: What the log in memory answers after any use that has been made of it.
Trusted boundary: none
Main exports:
  LogUse, LogUse.history, LogStore.use, LogStore.useAll, Journal.useAll_journal,
  Journal.entries_useAll, Journal.useAll_deleteAll, journal_keeps_history
-/
import Keypad.Proofs.Log.Call
import Keypad.Proofs.Log.History

namespace Keypad

/-- A use of a log: a call, or the recording of an entry that has been handed over.  Nothing is
heard of a recording, and it may have been put off; here it stands where it is done. -/
inductive LogUse where
  | call (call : LogCall)
  | record (entry : LogEntry)
deriving DecidableEq, Repr

namespace LogUse

/-- What becomes of the entries by a use of the log. -/
def event? : LogUse → Option LogEvent
  | .call (.create entry) => some (.created entry)
  | .call .list => none
  | .call (.delete id) => some (.deleted id)
  | .call .deleteAll => some .cleared
  | .record entry => some (.created entry)

/-- What has become of the entries by the uses of the log. -/
def history (uses : List LogUse) : List LogEvent := uses.filterMap event?

end LogUse

namespace LogStore

variable {σ : Type}

/-- Uses a store: the answer to a call, the store afterwards, and what has been counted. -/
def use (store : LogStore σ) : LogUse → σ × Metrics → Option LogAnswer × σ × Metrics
  | .call call, (state, metrics) => (store.call call state).map some fun state => (state, metrics)
  | .record entry, (state, metrics) => (none, store.record entry state metrics)

/-- Uses a store several times, one after another. -/
def useAll (store : LogStore σ) : List LogUse → σ × Metrics →
    List (Option LogAnswer) × σ × Metrics
  | [], state => ([], state)
  | use :: uses, state =>
      let (answer, state) := store.use use state
      let (answers, state) := store.useAll uses state
      (answer :: answers, state)

variable (store : LogStore σ)

theorem useAll_append (uses later : List LogUse) :
    ∀ state, store.useAll (uses ++ later) state =
      ((store.useAll uses state).1 ++ (store.useAll later (store.useAll uses state).2).1,
        (store.useAll later (store.useAll uses state).2).2) := by
  induction uses with
  | nil => exact fun _ => rfl
  | cons use uses inductionHypothesis =>
      intro state
      simp only [List.cons_append, useAll, inductionHypothesis]

/-- What has been counted has no influence on the store. -/
theorem useAll_metrics (uses : List LogUse) :
    ∀ state metrics other,
      (store.useAll uses (state, metrics)).1 = (store.useAll uses (state, other)).1 ∧
      (store.useAll uses (state, metrics)).2.1 = (store.useAll uses (state, other)).2.1 := by
  induction uses with
  | nil => exact fun _ _ _ => ⟨rfl, rfl⟩
  | cons use uses inductionHypothesis =>
      intro state metrics other
      cases use with
      | call call =>
          obtain ⟨answers, states⟩ :=
            inductionHypothesis (store.call call state).2 metrics other
          exact ⟨congrArg (List.cons _) answers, states⟩
      | record entry =>
          obtain ⟨answers, states⟩ := inductionHypothesis (store.create entry state).2
            (store.record entry state metrics).2 (store.record entry state other).2
          exact ⟨congrArg (List.cons _) answers, states⟩

end LogStore

namespace Journal

/-- A use of the journal puts on record what becomes of the entries by it. -/
theorem use_journal (use : LogUse) (journal : Journal) (metrics : Metrics) :
    (store.use use (journal, metrics)).2.1 = journal.recordAll use.event?.toList := by
  cases use with
  | record entry => rfl
  | call call =>
      cases call with
      | create entry => rfl
      | list => rfl
      | delete id => exact congrArg Prod.snd (journal.call_delete id)
      | deleteAll => rfl

/-- The journal after any uses has the whole history on record. -/
theorem useAll_journal (uses : List LogUse) :
    ∀ journal metrics,
      (store.useAll uses (journal, metrics)).2.1 = journal.recordAll (LogUse.history uses) := by
  induction uses with
  | nil => exact fun _ _ => rfl
  | cons use uses inductionHypothesis =>
      intro journal metrics
      have first := use_journal use journal metrics
      have parts : LogUse.history (use :: uses) = use.event?.toList ++ LogUse.history uses := by
        rw [LogUse.history, List.filterMap_cons]
        cases use.event? <;> rfl
      rw [parts, recordAll_append, ← first]
      exact inductionHypothesis _ _

/-- Of uses with ids that are all different there remain the entries that stand. -/
theorem entries_useAll {uses : List LogUse}
    (distinct : ((LogUse.history uses).filterMap LogEvent.createdId?).Nodup) (metrics : Metrics) :
    (store.useAll uses (.empty, metrics)).2.1.entries =
      LogEvent.standing (LogUse.history uses) := by
  have stood : (empty.recordAll (LogUse.history uses)).entries =
      [] ++ LogEvent.standing (LogUse.history uses) := entries_recordAll _ distinct
  rw [useAll_journal, stood, List.nil_append]

/-- A journal is listed from the end, and stays as it is. -/
theorem call_list (journal : Journal) :
    store.call .list journal = (.listed journal.entries.reverse, journal) := rfl

/-- All entries are counted when they are deleted. -/
theorem call_deleteAll (journal : Journal) :
    store.call .deleteAll journal = (.cleared journal.entries.length, .empty) := rfl

/-- What is answered after all entries have been deleted is what a new journal answers. -/
theorem useAll_deleteAll (uses later : List LogUse) (journal : Journal) (metrics : Metrics) :
    (store.useAll (uses ++ .call .deleteAll :: later) (journal, metrics)).1 =
      (store.useAll uses (journal, metrics)).1 ++
        some (.cleared (store.useAll uses (journal, metrics)).2.1.entries.length) ::
          (store.useAll later (.empty, .empty)).1 := by
  obtain ⟨anew, _⟩ :=
    store.useAll_metrics later .empty .empty (store.useAll uses (journal, metrics)).2.2
  rw [LogStore.useAll_append, anew]
  rfl

end Journal

/-- The log in memory keeps the exact history of its entries.  Whatever use has been made of it,
with ids that are all different: it lists the entries that have been created and not been
taken away since, the latest first, and their ids are different.  An id that is listed is
deleted, and then all other entries are listed; another id is not found, and nothing changes.
When all entries are deleted, their number is answered and none is left, and what is done later
comes to the same as with a new log. -/
theorem journal_keeps_history (uses : List LogUse) (metrics : Metrics)
    (distinct : ((LogUse.history uses).filterMap LogEvent.createdId?).Nodup) :
    let journal := (Journal.store.useAll uses (.empty, metrics)).2.1
    let standing := LogEvent.standing (LogUse.history uses)
    Journal.store.call .list journal = (.listed standing.reverse, journal) ∧
    (∀ entry, entry ∈ standing ↔
      ∃ before later, LogUse.history uses = before ++ .created entry :: later ∧
        ∀ event ∈ later, event.removes entry.id = false) ∧
    (standing.map LogEntry.id).Nodup ∧
    (∀ id ∈ standing.map LogEntry.id, ∃ after,
      Journal.store.call (.delete id) journal = (.deleted, after) ∧
      Journal.store.call .list after =
        (.listed (standing.reverse.filter fun entry => entry.id ≠ id), after)) ∧
    (∀ id ∉ standing.map LogEntry.id,
      Journal.store.call (.delete id) journal = (.failed .notFound, journal)) ∧
    Journal.store.call .deleteAll journal = (.cleared standing.length, .empty) ∧
    ∀ later,
      (Journal.store.useAll (uses ++ .call .deleteAll :: later) (.empty, metrics)).1 =
        (Journal.store.useAll uses (.empty, metrics)).1 ++
          some (.cleared standing.length) :: (Journal.store.useAll later (.empty, .empty)).1 := by
  intro journal standing
  have entries : journal.entries = standing := Journal.entries_useAll distinct metrics
  have ids : (standing.map LogEntry.id).Nodup :=
    distinct.sublist (LogEvent.standing_ids_sublist _)
  refine ⟨?_, fun entry => ?_, ids, fun id present => ?_, fun id absent => ?_, ?_, fun later => ?_⟩
  · rw [Journal.call_list, entries]
  · rw [LogEvent.mem_standing_iff]
    simp only [List.any_eq_false, Bool.not_eq_true]
  · refine ⟨journal.erase id, ?_, ?_⟩
    · rw [Journal.call_delete, entries, if_pos present]
    · rw [Journal.call_list, Journal.entries_erase (entries ▸ ids), entries, List.filter_reverse]
  · rw [Journal.call_delete, entries, if_neg absent,
      Journal.erase_of_not_mem (entries ▸ absent)]
  · rw [Journal.call_deleteAll, entries]
  · rw [Journal.useAll_deleteAll, ← entries]

/-- Three entries are created, two of them by recording, and the one in the middle is deleted
twice. -/
theorem journal_keeps_history_without_middle :
    let entry (id : String) : LogEntry := ⟨id.toList, "1/4".toList, "0.25".toList, 7⟩
    let uses : List LogUse := [.record (entry "a"), .call (.create (entry "b")),
      .record (entry "c"), .call (.delete "b".toList), .call (.delete "b".toList), .call .list]
    let journal := (Journal.store.useAll uses (.empty, .empty)).2.1
    ((LogUse.history uses).filterMap LogEvent.createdId?).Nodup ∧
      Journal.store.call .list journal = (.listed [entry "c", entry "a"], journal) ∧
      Journal.store.call (.delete "b".toList) journal = (.failed .notFound, journal) ∧
      Journal.store.call .deleteAll journal = (.cleared 2, .empty) := by
  intro entry uses journal
  have distinct : ((LogUse.history uses).filterMap LogEvent.createdId?).Nodup := by decide
  have standing : LogEvent.standing (LogUse.history uses) = [entry "a", entry "c"] := by decide
  obtain ⟨listed, _, _, _, missed, cleared, _⟩ := journal_keeps_history uses .empty distinct
  rw [standing] at listed missed cleared
  exact ⟨distinct, listed, missed "b".toList (by decide), cleared⟩

end Keypad
