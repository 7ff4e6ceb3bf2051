/-
Module: Keypad.Proofs.Session.Contents
Layer: proofs
Purpose: What holds of every session in a table.
Trusted boundary: none
Main exports:
  SessionTable.Contains, SessionTable.Contains.view, SessionTable.Contains.use,
  SessionTable.Contains.remove
-/
import Keypad.Proofs.Session.Table
import Keypad.Proofs.Typing.Candidate

namespace Keypad.SessionTable

variable {κ : Type} {limits : Limits} {table : SessionTable κ}

/-- All sessions of a table are of one kind. -/
def Contains (kind : Session → Prop) (table : SessionTable κ) : Prop :=
  ∀ slot ∈ table.slots, kind slot.session

namespace Contains

variable {kind : Session → Prop}

theorem empty : (SessionTable.empty : SessionTable κ).Contains kind := nofun

variable [DecidableEq κ]

/-- The session on view is in the table, or it is a new one. -/
theorem view (contains : table.Contains kind) (new : kind .start) (key : κ) (now : Instant) :
    kind (table.view limits key now) := by
  unfold SessionTable.view
  cases found : table.find? key with
  | none => exact new
  | some slot =>
      dsimp only
      split
      · exact contains slot (mem_of_find? found).1
      · exact new

/-- A table into which a session of the kind goes back has none of another kind. -/
theorem use {α : Type} (contains : table.Contains kind) {key : κ} {now : Instant}
    {act : Session → α × Session} (kept : kind (act (table.view limits key now)).2) :
    (table.use limits key now act).2.Contains kind := by
  intro slot member
  rw [use_slots] at member
  rcases List.mem_append.mp member with inOthers | last
  · exact contains slot ((others_sublist key now).subset inOthers)
  · rw [List.mem_singleton.mp last]
    exact kept

theorem remove (contains : table.Contains kind) (key : κ) : (table.remove key).Contains kind :=
  fun slot member => contains slot (List.mem_filter.mp member).1

end Contains

end Keypad.SessionTable
