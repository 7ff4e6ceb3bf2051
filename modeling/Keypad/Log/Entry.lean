/-
Module: Keypad.Log.Entry
Layer: log
Purpose: The entries of the log of calculations, and what a store of them does.
Trusted boundary: none
Main exports: LogEntry, LogFailure, LogStore, LogStore.unavailable
-/
import Keypad.Metrics

namespace Keypad

/-- A calculation on record.  The timestamp counts seconds. -/
structure LogEntry where
  id : Text
  operation : Text
  result : Text
  timestamp : Int
deriving DecidableEq, Repr

/-- Why the store of the log does not do what it is asked. -/
inductive LogFailure where
  /-- There is no entry with the id. -/
  | notFound
  /-- The store itself has failed. -/
  | unavailable
deriving DecidableEq, Repr

/-- Asking for an entry that is not there is a mistake of the caller. -/
instance : Severity LogFailure where
  isFailure
    | .notFound => false
    | .unavailable => true

/-- What a store of log entries does, given its state.  An entry is created
with the id and the time that it is handed.  The list is newest first, and
deleting all entries tells how many they were. -/
structure LogStore (σ : Type) where
  create : LogEntry → σ → Except LogFailure LogEntry × σ
  list : σ → Except LogFailure (List LogEntry) × σ
  delete : Text → σ → Except LogFailure Unit × σ
  deleteAll : σ → Except LogFailure Nat × σ

/-- The store that fails whatever it is asked. -/
def LogStore.unavailable (σ : Type) : LogStore σ where
  create _ state := (.error .unavailable, state)
  list state := (.error .unavailable, state)
  delete _ state := (.error .unavailable, state)
  deleteAll state := (.error .unavailable, state)

end Keypad
