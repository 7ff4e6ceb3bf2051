/-
Module: Keypad.Proofs.Log.History
Layer: proofs
Purpose: What a journal holds after entries have been created and deleted.
Trusted boundary: none
Main exports:
  LogEvent, LogEvent.standing, LogEvent.mem_standing_iff, Journal.record,
  Journal.entries_recordAll
-/
import Keypad.Log.Journal
import Mathlib.Data.List.Nodup

namespace Keypad

/-!
The history of a log is the list of what has become of its entries.  From the history
alone, and without a journal, it is told which entries stand.
-/

/-- What can become of the entries of a log. -/
inductive LogEvent where
  | created (entry : LogEntry)
  | deleted (id : Text)
  | cleared
deriving DecidableEq, Repr

namespace LogEvent

/-- Whether the entry of an id is taken away, if there is one. -/
def removes (id : Text) : LogEvent → Bool
  | .created _ => false
  | .deleted other => other = id
  | .cleared => true

/-- The id of the entry that is created, if one is. -/
def createdId? : LogEvent → Option Text
  | .created entry => some entry.id
  | _ => none

/-- The entries that have been created and not been taken away since, in the order in which
they were created. -/
def standing : List LogEvent → List LogEntry
  | [] => []
  | .created entry :: later =>
      if later.any (removes entry.id) then standing later else entry :: standing later
  | .deleted _ :: later => standing later
  | .cleared :: later => standing later

/-- An entry stands if it was created and nothing has taken it away since. -/
theorem mem_standing_iff {entry : LogEntry} {history : List LogEvent} :
    entry ∈ standing history ↔ ∃ before later, history = before ++ .created entry :: later ∧
      later.any (removes entry.id) = false := by
  induction history with
  | nil => simp [standing]
  | cons event history inductionHypothesis =>
      -- Either the event at the head has created the entry, or a later one has.
      have cases_head : (∃ before later, event :: history = before ++ .created entry :: later ∧
            later.any (removes entry.id) = false) ↔
          (event = .created entry ∧ history.any (removes entry.id) = false) ∨
            entry ∈ standing history := by
        rw [inductionHypothesis]
        constructor
        · rintro ⟨before, later, parts, stays⟩
          rcases List.cons_eq_append_iff.mp parts with ⟨rfl, same⟩ | ⟨before, rfl, rfl⟩
          · cases same
            exact .inl ⟨rfl, stays⟩
          · exact .inr ⟨before, later, rfl, stays⟩
        · rintro (⟨rfl, stays⟩ | ⟨before, later, rfl, stays⟩)
          · exact ⟨[], history, rfl, stays⟩
          · exact ⟨event :: before, later, rfl, stays⟩
      rw [cases_head]
      cases event with
      | created other =>
          rw [standing]
          split
          · rename_i removed
            refine ⟨.inr, fun side => side.resolve_left ?_⟩
            rintro ⟨same, stays⟩
            cases same
            cases removed.symm.trans stays
          · rename_i stays
            have stays : history.any (removes other.id) = false := by simpa using stays
            rw [List.mem_cons]
            refine or_congr ⟨?_, ?_⟩ Iff.rfl
            · rintro rfl
              exact ⟨rfl, stays⟩
            · rintro ⟨same, _⟩
              cases same
              rfl
      | deleted id => exact ⟨.inr, fun side => side.resolve_left nofun⟩
      | cleared => exact ⟨.inr, fun side => side.resolve_left nofun⟩

/-- Where the entries that are created have different ids, so have those that stand. -/
theorem standing_ids_sublist (history : List LogEvent) :
    ((standing history).map LogEntry.id).Sublist (history.filterMap createdId?) := by
  induction history with
  | nil => exact .slnil
  | cons event history inductionHypothesis =>
      cases event with
      | created entry =>
          rw [standing]
          split
          · exact inductionHypothesis.cons _
          · exact inductionHypothesis.cons_cons _
      | deleted id => exact inductionHypothesis
      | cleared => exact inductionHypothesis

end LogEvent

namespace Journal

/-- Puts on record what becomes of the entries. -/
def record (journal : Journal) : LogEvent → Journal
  | .created entry => journal.append entry
  | .deleted id => journal.erase id
  | .cleared => empty

/-- Puts a history on record. -/
def recordAll (journal : Journal) (history : List LogEvent) : Journal :=
  history.foldl record journal

theorem recordAll_append (journal : Journal) (earlier later : List LogEvent) :
    journal.recordAll (earlier ++ later) = (journal.recordAll earlier).recordAll later :=
  List.foldl_append

/-- Of entries with different ids at most one has the id that is erased. -/
theorem entries_erase {journal : Journal} (distinct : (journal.entries.map LogEntry.id).Nodup)
    (id : Text) :
    (journal.erase id).entries = journal.entries.filter fun entry => entry.id ≠ id := by
  obtain ⟨entries⟩ := journal
  show entries.eraseP (fun entry => entry.id = id) = entries.filter fun entry => entry.id ≠ id
  induction entries with
  | nil => rfl
  | cons entry entries inductionHypothesis =>
      obtain ⟨new, distinct⟩ := List.nodup_cons.mp distinct
      by_cases same : entry.id = id
      · have others : entries.filter (fun other => other.id ≠ id) = entries := by
          apply List.filter_eq_self.mpr
          intro other member
          apply decide_eq_true
          rintro otherSame
          exact new (same ▸ otherSame ▸ List.mem_map_of_mem member)
        rw [List.eraseP_cons_of_pos (by simpa using same), List.filter_cons_of_neg (by simp [same]),
          others]
      · simp [same, inductionHypothesis distinct]

/-- What an event leaves of the entries, before anything is created. -/
theorem entries_record {journal : Journal} (distinct : (journal.entries.map LogEntry.id).Nodup)
    (event : LogEvent) :
    (journal.record event).entries =
      (journal.entries.filter fun entry => !event.removes entry.id) ++
        LogEvent.standing [event] := by
  cases event with
  | created entry => simp [record, append, LogEvent.removes, LogEvent.standing]
  | deleted id =>
      rw [record, entries_erase distinct, LogEvent.standing, LogEvent.standing, List.append_nil]
      apply List.filter_congr
      intro entry _
      simp [LogEvent.removes, eq_comm]
  | cleared => simp [record, empty, LogEvent.removes, LogEvent.standing]

/-- After a history a journal holds, of what it has held before, what has not been taken
away, and behind it what stands of what has been created. -/
theorem entries_recordAll (history : List LogEvent) :
    ∀ {journal : Journal},
      (journal.entries.map LogEntry.id ++ history.filterMap LogEvent.createdId?).Nodup →
        (journal.recordAll history).entries =
          (journal.entries.filter fun entry => !history.any (LogEvent.removes entry.id)) ++
            LogEvent.standing history := by
  induction history with
  | nil =>
      intro journal _
      simp [recordAll, LogEvent.standing]
  | cons event history inductionHypothesis =>
      intro journal distinct
      have recorded := entries_record (List.nodup_append.mp distinct).1 event
      have kept : ((journal.record event).entries.map LogEntry.id ++
          history.filterMap LogEvent.createdId?).Nodup := by
        have among : ((journal.record event).entries.map LogEntry.id).Sublist
            (journal.entries.map LogEntry.id ++ [event].filterMap LogEvent.createdId?) := by
          rw [recorded, List.map_append]
          exact (List.filter_sublist.map LogEntry.id).append (LogEvent.standing_ids_sublist [event])
        have parts : (event :: history).filterMap LogEvent.createdId? =
            [event].filterMap LogEvent.createdId? ++ history.filterMap LogEvent.createdId? :=
          List.filterMap_append (l := [event])
        rw [parts, ← List.append_assoc] at distinct
        exact distinct.sublist (among.append_right _)
      have after : journal.recordAll (event :: history) =
          (journal.record event).recordAll history := rfl
      rw [after, inductionHypothesis kept, recorded, List.filter_append, List.append_assoc,
        List.filter_filter]
      congr 1
      · apply List.filter_congr
        intro entry _
        simp [Bool.and_comm]
      · cases event with
        | created entry =>
            cases removed : history.any (LogEvent.removes entry.id) <;>
              simp [LogEvent.standing, removed]
        | deleted id => rfl
        | cleared => rfl

end Journal

end Keypad
