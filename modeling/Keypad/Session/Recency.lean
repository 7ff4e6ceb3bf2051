/-
Module: Keypad.Session.Recency
Layer: sessions
Purpose: The sessions of many users as a plain list in the order of their last
  uses, from which whatever has expired is dropped at once.
Trusted boundary: human-reviewed reference
Main exports: Recency, Recency.expire, Recency.use, Recency.view, Recency.remove
-/
import Keypad.Session.Table

namespace Keypad

/-- The live sessions, the last one used first. -/
structure Recency (κ : Type) where
  slots : List (Slot κ)
deriving DecidableEq

namespace Recency

variable {κ : Type} [DecidableEq κ]

/-- No sessions. -/
def empty : Recency κ := ⟨[]⟩

/-- Drops all sessions that have gone unused for the idle time or longer. -/
def expire (limits : Limits) (now : Instant) (recency : Recency κ) : Recency κ :=
  ⟨recency.slots.filter (Slot.live limits now)⟩

/-- The session listed under a key, or an empty one. -/
def listed (recency : Recency κ) (key : κ) : Session :=
  match recency.slots.find? fun slot => slot.key = key with
  | some slot => slot.session
  | none => .start

/-- Takes the session of a key off the list. -/
def without (recency : Recency κ) (key : κ) : List (Slot κ) :=
  recency.slots.filter fun slot => slot.key ≠ key

/-- Uses the session of a key, which goes to the front.  When the key is new and
the list is full, the session at its end gives way. -/
def use {α : Type} (limits : Limits) (recency : Recency κ) (key : κ) (now : Instant)
    (act : Session → α × Session) : α × Recency κ :=
  let live := recency.expire limits now
  let (answer, session) := act (live.listed key)
  let others :=
    if live.slots.any fun slot => slot.key = key then live.without key
    else if live.slots.length < limits.room then live.slots
    else live.slots.dropLast
  (answer, ⟨⟨key, session, now⟩ :: others⟩)

/-- The session that a key names; the list stays as it is. -/
def view (limits : Limits) (recency : Recency κ) (key : κ) (now : Instant) : Session :=
  (recency.expire limits now).listed key

/-- Deletes the session of a key. -/
def remove (recency : Recency κ) (key : κ) : Recency κ :=
  ⟨recency.without key⟩

end Recency

end Keypad
