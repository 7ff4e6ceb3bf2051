/-
Module: Keypad.Log.Journal
Layer: log
Purpose: The log kept in memory, and recording calculations in a log.
Trusted boundary: none
Main exports: Journal, Journal.store, LogStore.record
-/
import Keypad.Log.Entry

namespace Keypad

/-- The entries in the order in which they were created. -/
structure Journal where
  entries : List LogEntry
deriving DecidableEq, Repr

namespace Journal

/-- The journal without entries. -/
def empty : Journal := ⟨[]⟩

instance : Inhabited Journal := ⟨empty⟩

/-- Puts an entry behind all others. -/
def append (journal : Journal) (entry : LogEntry) : Journal :=
  ⟨journal.entries ++ [entry]⟩

/-- The entries, newest first. -/
def newestFirst (journal : Journal) : List LogEntry := journal.entries.reverse

/-- Whether there is an entry with an id. -/
def holds (journal : Journal) (id : Text) : Bool :=
  journal.entries.any fun entry => entry.id = id

/-- Takes out the first entry with an id. -/
def erase (journal : Journal) (id : Text) : Journal :=
  ⟨journal.entries.eraseP fun entry => entry.id = id⟩

/-- The journal as a store of log entries. -/
def store : LogStore Journal where
  create entry journal := (.ok entry, journal.append entry)
  list journal := (.ok journal.newestFirst, journal)
  delete id journal :=
    if journal.holds id then (.ok (), journal.erase id) else (.error .notFound, journal)
  deleteAll journal := (.ok journal.entries.length, empty)

end Journal

/-- The label under which recorded calculations are counted. -/
def recordLabel : Label := .of "sink" "record"

/-- Records a calculation.  Whoever has it recorded does not learn whether the
store failed. -/
def LogStore.record {σ : Type} (store : LogStore σ) (entry : LogEntry) (state : σ)
    (metrics : Metrics) : σ × Metrics :=
  let (result, state) := store.create entry state
  let (_, metrics) := measured recordLabel result metrics
  (state, metrics)

end Keypad
