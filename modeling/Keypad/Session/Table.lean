/-
Module: Keypad.Session.Table
Layer: sessions
Purpose: The sessions of many users: the ids by which they are named, which are
  kept, for how long, and which gives way when there are too many.
Trusted boundary: none; instants are arguments.
Main exports:
  SessionKey, SessionKey.ofText?, Instant, Limits, Slot, SessionTable, SessionTable.use,
  SessionTable.view, SessionTable.remove, SessionTable.makeRoom, SessionTable.Rearranged
-/
import Keypad.Session

namespace Keypad

/-- The longest id that is accepted. -/
def longestKey : Nat := 64

/-- An id is one to `longestKey` letters, digits, hyphens and underscores of
the ASCII range. -/
def SessionKey.isValid (id : Text) : Bool :=
  !id.isEmpty && id.length ≤ longestKey &&
    id.all fun c => c.isAlphanum || c = '-' || c = '_'

/-- The id of a session. -/
structure SessionKey where
  id : Text
  valid : SessionKey.isValid id = true
deriving DecidableEq

/-- The key with a given id, if the id is valid. -/
def SessionKey.ofText? (id : Text) : Option SessionKey :=
  if valid : SessionKey.isValid id = true then some ⟨id, valid⟩ else none

/-- A point in time, in milliseconds. -/
abbrev Instant := Nat

/-- How long an unused session lives, in milliseconds, and how many sessions
there may be. -/
structure Limits where
  idle : Nat
  capacity : Nat
deriving DecidableEq, Repr

/-- There is always room for one session. -/
def Limits.room (limits : Limits) : Nat := max limits.capacity 1

/-- A session in the table, with its key and the instant of its last use. -/
structure Slot (κ : Type) where
  key : κ
  session : Session
  lastUsed : Instant
deriving DecidableEq

/-- A slot is live while less than the idle time has passed since its last use.
An instant before the last use counts as no time passed. -/
def Slot.live {κ : Type} (limits : Limits) (now : Instant) (slot : Slot κ) : Bool :=
  now - slot.lastUsed < limits.idle

/-- The table of sessions, at most one for each key, in the order in which they are gone
through.  Here a session that is used goes to the end of it; a table may come to be gone
through in any other order just as well (`SessionTable.Rearranged`). -/
structure SessionTable (κ : Type) where
  slots : List (Slot κ)
deriving DecidableEq

namespace SessionTable

/-- Two tables hold the same slots, in whatever order they are gone through.  Which one of
several slots of the same last use gives way is told by this order alone, so it can be any
of them. -/
def Rearranged {κ : Type} (table other : SessionTable κ) : Prop :=
  table.slots.Perm other.slots

variable {κ : Type} [DecidableEq κ]

/-- The table without sessions. -/
def empty : SessionTable κ := ⟨[]⟩

instance : Inhabited (SessionTable κ) := ⟨empty⟩

/-- The slot of a key. -/
def find? (table : SessionTable κ) (key : κ) : Option (Slot κ) :=
  table.slots.find? fun slot => slot.key = key

/-- The session that a key names at an instant: the one in the table while it
is live, and a new one otherwise.  Nothing is changed. -/
def view (limits : Limits) (table : SessionTable κ) (key : κ) (now : Instant) : Session :=
  match table.find? key with
  | some slot => if slot.live limits now then slot.session else .start
  | none => .start

/-- The slots without the one that has gone unused for longest, the first one in their
order if there are several. -/
def dropOldest (slots : List (Slot κ)) : List (Slot κ) :=
  match (slots.map Slot.lastUsed).min? with
  | none => slots
  | some oldest => slots.eraseP fun slot => slot.lastUsed = oldest

/-- Makes room for one more slot: all that are no longer live go, and then as
many of the longest unused as are still too many. -/
def makeRoom (limits : Limits) (now : Instant) (slots : List (Slot κ)) : List (Slot κ) :=
  let live := slots.filter (Slot.live limits now)
  Nat.repeat dropOldest (live.length + 1 - limits.room) live

/-- Uses the session of a key at an instant.  A new key makes room for itself
first.  What is done is told by the session that `view` shows: it gives an
answer and the session after it, which is then the one used last. -/
def use {α : Type} (limits : Limits) (table : SessionTable κ) (key : κ) (now : Instant)
    (act : Session → α × Session) : α × SessionTable κ :=
  let (answer, session) := act (table.view limits key now)
  let others :=
    if (table.find? key).isSome then table.slots.filter fun slot => slot.key ≠ key
    else makeRoom limits now table.slots
  (answer, ⟨others ++ [⟨key, session, now⟩]⟩)

/-- Takes the session of a key out of the table. -/
def remove (table : SessionTable κ) (key : κ) : SessionTable κ :=
  ⟨table.slots.filter fun slot => slot.key ≠ key⟩

end SessionTable

end Keypad
