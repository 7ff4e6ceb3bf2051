/-
Module: Keypad.Proofs.Session.Table
Layer: proofs
Purpose: What a table of sessions keeps, whatever is used, shown and removed in it.
Trusted boundary: none
Main exports:
  Slot.live_of_le, SessionTable.Sound, SessionTable.Sound.rearranged,
  SessionTable.Chronological, SessionTable.makeRoom_of_sorted, SessionTable.others,
  SessionTable.use_slots, SessionTable.view_rearranged, TableCall, SessionTable.call
-/
import Keypad.Session.Table
import Mathlib.Data.List.Nodup

namespace Keypad

/-!
Two things are kept apart.  A table is sound at any time: it has one slot for each key,
and no more slots than there is room for.  It is chronological as long as the clock does
not go back: its slots stand in the order of their last uses, so the oldest ones are
those at its head.
-/

theorem Limits.room_pos (limits : Limits) : 0 < limits.room := Nat.le_max_right _ _

section Slots

variable {κ : Type} {limits : Limits}

/-- A slot that is live was so at every instant before. -/
theorem Slot.live_of_le {earlier later : Instant} {slot : Slot κ} (le : earlier ≤ later)
    (live : slot.live limits later = true) : slot.live limits earlier = true := by
  simp only [Slot.live, decide_eq_true_eq] at live ⊢
  exact Nat.lt_of_le_of_lt (Nat.sub_le_sub_right le _) live

/-- Slots that are live later are found among those that are live before. -/
theorem filter_live_of_le {earlier later : Instant} (le : earlier ≤ later)
    (slots : List (Slot κ)) :
    (slots.filter (Slot.live limits earlier)).filter (Slot.live limits later) =
      slots.filter (Slot.live limits later) := by
  rw [List.filter_filter]
  apply List.filter_congr
  intro slot _
  cases live : slot.live limits later with
  | false => rfl
  | true => rw [Slot.live_of_le le live]; rfl

end Slots

namespace SessionTable

section Making

variable {κ : Type} {limits : Limits}

/-! ### Making room -/

theorem dropOldest_sublist (slots : List (Slot κ)) : (dropOldest slots).Sublist slots := by
  unfold dropOldest
  split
  · exact .refl slots
  · exact List.eraseP_sublist

/-- One slot goes, if there is any. -/
theorem length_dropOldest (slots : List (Slot κ)) :
    (dropOldest slots).length = slots.length - 1 := by
  unfold dropOldest
  split
  · rename_i none
    have empty : slots = [] := List.map_eq_nil_iff.mp (List.min?_eq_none_iff.mp none)
    rw [empty]
    rfl
  · rename_i oldest least
    obtain ⟨slot, member, same⟩ := List.mem_map.mp (List.min?_mem least)
    exact List.length_eraseP_of_mem member (by simpa using same)

theorem repeat_dropOldest_sublist (count : Nat) (slots : List (Slot κ)) :
    (Nat.repeat dropOldest count slots).Sublist slots := by
  induction count with
  | zero => exact .refl slots
  | succ count inductionHypothesis =>
      exact (dropOldest_sublist _).trans inductionHypothesis

theorem length_repeat_dropOldest (count : Nat) (slots : List (Slot κ)) :
    (Nat.repeat dropOldest count slots).length = slots.length - count := by
  induction count with
  | zero => rfl
  | succ count inductionHypothesis =>
      rw [Nat.repeat, length_dropOldest, inductionHypothesis, Nat.sub_sub]

/-- Only live slots stay where room is made. -/
theorem makeRoom_sublist_live (now : Instant) (slots : List (Slot κ)) :
    (makeRoom limits now slots).Sublist (slots.filter (Slot.live limits now)) :=
  repeat_dropOldest_sublist _ _

theorem makeRoom_sublist (now : Instant) (slots : List (Slot κ)) :
    (makeRoom limits now slots).Sublist slots :=
  (makeRoom_sublist_live now slots).trans List.filter_sublist

/-- There is room for one more slot. -/
theorem length_makeRoom_lt (now : Instant) (slots : List (Slot κ)) :
    (makeRoom limits now slots).length < limits.room := by
  have room := limits.room_pos
  unfold makeRoom
  dsimp only
  rw [length_repeat_dropOldest]
  omega

/-- Slots in the order of their last uses. -/
def Sorted (slots : List (Slot κ)) : Prop :=
  slots.Pairwise fun earlier later => earlier.lastUsed ≤ later.lastUsed

/-- A slot that stands first is dropped when no other has gone unused for longer. -/
theorem dropOldest_cons {slot : Slot κ} {slots : List (Slot κ)}
    (least : ∀ other ∈ slots, slot.lastUsed ≤ other.lastUsed) :
    dropOldest (slot :: slots) = slots := by
  have first : ((slot :: slots).map Slot.lastUsed).min? = some slot.lastUsed := by
    apply List.min?_eq_some_iff.mpr
    refine ⟨List.mem_cons_self, fun instant member => ?_⟩
    obtain ⟨other, inSlots, rfl⟩ := List.mem_map.mp member
    rcases List.mem_cons.mp inSlots with rfl | behind
    · exact Nat.le_refl _
    · exact least other behind
  rw [dropOldest, first]
  exact List.eraseP_cons_of_pos (decide_eq_true rfl)

/-- Of sorted slots the oldest one is the first. -/
theorem dropOldest_of_sorted {slots : List (Slot κ)} (sorted : Sorted slots) :
    dropOldest slots = slots.tail := by
  cases slots with
  | nil => rfl
  | cons first slots => exact dropOldest_cons (List.pairwise_cons.mp sorted).1

theorem repeat_dropOldest_of_sorted {slots : List (Slot κ)} (sorted : Sorted slots)
    (count : Nat) : Nat.repeat dropOldest count slots = slots.drop count := by
  induction count with
  | zero => rfl
  | succ count inductionHypothesis =>
      rw [Nat.repeat, inductionHypothesis,
        dropOldest_of_sorted (sorted.sublist (List.drop_sublist count slots)), List.tail_drop]

/-- Of sorted slots the live ones stay, without as many at their head as are too many. -/
theorem makeRoom_of_sorted {slots : List (Slot κ)} (sorted : Sorted slots) (now : Instant) :
    makeRoom limits now slots =
      (slots.filter (Slot.live limits now)).drop
        ((slots.filter (Slot.live limits now)).length + 1 - limits.room) :=
  repeat_dropOldest_of_sorted (sorted.sublist List.filter_sublist) _

/-! ### What a table keeps -/

/-- The table has one slot for each key at most, and no more than there is room for. -/
structure Sound (limits : Limits) (table : SessionTable κ) : Prop where
  keys : (table.slots.map Slot.key).Nodup
  bounded : table.slots.length ≤ limits.room

theorem Sound.empty (limits : Limits) :
    (SessionTable.empty : SessionTable κ).Sound limits where
  keys := .nil
  bounded := Nat.zero_le _

/-- A table is sound in any arrangement. -/
theorem Sound.rearranged {table other : SessionTable κ} (sound : table.Sound limits)
    (same : table.Rearranged other) : other.Sound limits where
  keys := (same.map Slot.key).nodup_iff.mp sound.keys
  bounded := same.length_eq ▸ sound.bounded

/-- The slots stand in the order of their last uses, which are all past. -/
structure Chronological (now : Instant) (table : SessionTable κ) : Prop where
  sorted : Sorted table.slots
  past : ∀ slot ∈ table.slots, slot.lastUsed ≤ now

namespace Chronological

theorem empty (now : Instant) : (SessionTable.empty : SessionTable κ).Chronological now where
  sorted := .nil
  past := nofun

theorem later {table : SessionTable κ} {now later : Instant}
    (chronological : table.Chronological now) (le : now ≤ later) :
    table.Chronological later where
  sorted := chronological.sorted
  past := fun slot member => Nat.le_trans (chronological.past slot member) le

end Chronological

end Making

variable {κ : Type} [DecidableEq κ] {limits : Limits} {table : SessionTable κ}

/-! ### Using a session -/

/-- The slots that stay beside the one that is used. -/
def others (limits : Limits) (table : SessionTable κ) (key : κ) (now : Instant) :
    List (Slot κ) :=
  if (table.find? key).isSome then table.slots.filter fun slot => slot.key ≠ key
  else makeRoom limits now table.slots

theorem use_fst {α : Type} (table : SessionTable κ) (key : κ) (now : Instant)
    (act : Session → α × Session) :
    (table.use limits key now act).1 = (act (table.view limits key now)).1 := rfl

theorem use_slots {α : Type} (table : SessionTable κ) (key : κ) (now : Instant)
    (act : Session → α × Session) :
    (table.use limits key now act).2.slots =
      table.others limits key now ++ [⟨key, (act (table.view limits key now)).2, now⟩] := rfl

/-- A slot is found under its key. -/
theorem find?_of_mem {slots : List (Slot κ)} (keys : (slots.map Slot.key).Nodup)
    {slot : Slot κ} (member : slot ∈ slots) :
    slots.find? (fun other => other.key = slot.key) = some slot := by
  cases found : slots.find? fun other => other.key = slot.key with
  | none => exact absurd (List.find?_eq_none.mp found slot member) (by simp)
  | some other =>
      have same : other.key = slot.key := by simpa using List.find?_some found
      have otherMember := List.mem_of_find?_eq_some found
      rw [List.inj_on_of_nodup_map keys otherMember member same]

/-- What is found under a key is in the table and has this key. -/
theorem mem_of_find? {key : κ} {slot : Slot κ} (found : table.find? key = some slot) :
    slot ∈ table.slots ∧ slot.key = key :=
  ⟨List.mem_of_find?_eq_some found, by simpa using List.find?_some found⟩

theorem find?_eq_none_iff {key : κ} :
    table.find? key = none ↔ ∀ slot ∈ table.slots, slot.key ≠ key := by
  simp [find?]

/-- A table with one slot for each key at most is looked up in any arrangement alike. -/
theorem find?_rearranged {other : SessionTable κ} (keys : (table.slots.map Slot.key).Nodup)
    (same : table.Rearranged other) (key : κ) : other.find? key = table.find? key := by
  have otherKeys : (other.slots.map Slot.key).Nodup := (same.map Slot.key).nodup_iff.mp keys
  cases found : table.find? key with
  | none =>
      have absent := find?_eq_none_iff.mp found
      exact find?_eq_none_iff.mpr fun slot member => absent slot (same.mem_iff.mpr member)
  | some slot =>
      obtain ⟨member, rfl⟩ := mem_of_find? found
      exact find?_of_mem otherKeys (same.mem_iff.mp member)

theorem others_sublist (key : κ) (now : Instant) :
    (table.others limits key now).Sublist table.slots := by
  unfold others
  split
  · exact List.filter_sublist
  · exact makeRoom_sublist now table.slots

/-- The slot that is used is none of the others. -/
theorem key_ne_of_mem_others {key : κ} {now : Instant} {slot : Slot κ}
    (member : slot ∈ table.others limits key now) : slot.key ≠ key := by
  unfold others at member
  split at member
  · simpa using (List.mem_filter.mp member).2
  · rename_i absent
    have none : table.find? key = none := by simpa using absent
    exact find?_eq_none_iff.mp none slot ((makeRoom_sublist now _).subset member)

/-- Beside the others there is room for the slot that is used. -/
theorem length_others_lt (bounded : table.slots.length ≤ limits.room) (key : κ)
    (now : Instant) : (table.others limits key now).length < limits.room := by
  unfold others
  split
  · rename_i present
    obtain ⟨slot, found⟩ := Option.isSome_iff_exists.mp present
    obtain ⟨member, same⟩ := mem_of_find? found
    apply Nat.lt_of_lt_of_le _ bounded
    exact List.length_filter_lt_length_iff_exists.mpr ⟨slot, member, by simp [same]⟩
  · exact length_makeRoom_lt now table.slots

namespace Sound

theorem use {α : Type} (sound : table.Sound limits) (key : κ) (now : Instant)
    (act : Session → α × Session) : (table.use limits key now act).2.Sound limits where
  keys := by
    have kept : ((table.others limits key now).map Slot.key).Nodup :=
      ((others_sublist key now).map Slot.key).nodup sound.keys
    rw [use_slots, List.map_append]
    apply kept.append (List.nodup_singleton _)
    intro other inOthers last
    obtain ⟨slot, member, rfl⟩ := List.mem_map.mp inOthers
    exact key_ne_of_mem_others member (List.mem_singleton.mp last)
  bounded := by
    rw [use_slots, List.length_append]
    exact length_others_lt sound.bounded key now

theorem remove (sound : table.Sound limits) (key : κ) : (table.remove key).Sound limits where
  keys := (List.filter_sublist.map Slot.key).nodup sound.keys
  bounded := Nat.le_trans (List.length_filter_le _ _) sound.bounded

end Sound

namespace Chronological

theorem use {α : Type} {now : Instant} (chronological : table.Chronological now) (key : κ)
    (act : Session → α × Session) : (table.use limits key now act).2.Chronological now where
  sorted := by
    rw [use_slots]
    apply List.pairwise_append.mpr
    refine ⟨chronological.sorted.sublist (others_sublist key now), List.pairwise_singleton _ _,
      fun slot member last inLast => ?_⟩
    rw [List.mem_singleton.mp inLast]
    exact chronological.past slot ((others_sublist key now).subset member)
  past := by
    intro slot member
    rw [use_slots] at member
    rcases List.mem_append.mp member with inOthers | last
    · exact chronological.past slot ((others_sublist key now).subset inOthers)
    · obtain rfl := List.mem_singleton.mp last
      exact Nat.le_refl now

theorem remove {now : Instant} (chronological : table.Chronological now) (key : κ) :
    (table.remove key).Chronological now where
  sorted := chronological.sorted.sublist List.filter_sublist
  past := fun slot member => chronological.past slot (List.mem_filter.mp member).1

end Chronological

/-! ### What is on view -/

theorem view_rearranged {other : SessionTable κ} (sound : table.Sound limits)
    (same : table.Rearranged other) (key : κ) (now : Instant) :
    other.view limits key now = table.view limits key now := by
  rw [view, view, find?_rearranged sound.keys same]

theorem view_of_live (keys : (table.slots.map Slot.key).Nodup) {slot : Slot κ}
    {now : Instant} (member : slot ∈ table.slots) (live : slot.live limits now = true) :
    table.view limits slot.key now = slot.session := by
  unfold view find?
  rw [find?_of_mem keys member]
  exact if_pos live

/-- Under a key of which no slot is live a new session is shown. -/
theorem view_of_expired {key : κ} {now : Instant}
    (expired : ∀ slot ∈ table.slots, slot.key = key → slot.live limits now = false) :
    table.view limits key now = .start := by
  unfold view
  cases found : table.find? key with
  | none => rfl
  | some slot =>
      obtain ⟨member, same⟩ := mem_of_find? found
      simp [expired slot member same]

theorem find?_use_self {α : Type} (table : SessionTable κ) (key : κ) (now : Instant)
    (act : Session → α × Session) :
    (table.use limits key now act).2.find? key =
      some ⟨key, (act (table.view limits key now)).2, now⟩ := by
  have none : (table.others limits key now).find? (fun slot => slot.key = key) = none :=
    List.find?_eq_none.mpr fun slot member same =>
      key_ne_of_mem_others member (by simpa using same)
  rw [find?, use_slots, List.find?_append, none, Option.none_or]
  exact List.find?_cons_of_pos (decide_eq_true rfl)

/-- The session that a use leaves is on view as long as it is live. -/
theorem view_use_self {α : Type} (table : SessionTable κ) (key : κ) {now later : Instant}
    (soon : later - now < limits.idle) (act : Session → α × Session) :
    (table.use limits key now act).2.view limits key later =
      (act (table.view limits key now)).2 := by
  rw [view, find?_use_self]
  exact if_pos (decide_eq_true soon)

/-- After a use the same is shown in two tables in which it was the same before. -/
theorem view_use_congr {α : Type} {other : SessionTable κ} {key : κ} {now : Instant}
    (same : table.view limits key now = other.view limits key now)
    (act : Session → α × Session) (later : Instant) :
    (table.use limits key now act).2.view limits key later =
      (other.use limits key now act).2.view limits key later := by
  rw [view, view, find?_use_self, find?_use_self, same]

theorem view_remove_self (table : SessionTable κ) (key : κ) (now : Instant) :
    (table.remove key).view limits key now = .start :=
  view_of_expired fun _ member same =>
    absurd same (of_decide_eq_true (List.mem_filter.mp member).2)

theorem view_remove_of_ne (table : SessionTable κ) {key other : κ} (ne : other ≠ key)
    (now : Instant) : (table.remove other).view limits key now = table.view limits key now := by
  have same : (table.remove other).find? key = table.find? key := by
    unfold find? remove
    rw [List.find?_filter]
    congr 1
    funext slot
    by_cases key_eq : slot.key = key <;> simp [key_eq, ne.symm]
  rw [view, view, same]

end SessionTable

/-! ### Calls -/

/-- What is asked of a table of sessions: to use the session of a key, to show it, or to
take it out. -/
inductive TableCall (κ : Type) where
  | use (key : κ) (change : Session → Session)
  | view (key : κ)
  | remove (key : κ)

namespace TableCall

variable {κ : Type}

/-- The key whose session is asked for. -/
def key : TableCall κ → κ
  | .use key _ => key
  | .view key => key
  | .remove key => key

/-- Whether the call uses a session. -/
def isUse : TableCall κ → Bool
  | .use _ _ => true
  | _ => false

/-- The key of the session that the call uses, if it uses one. -/
def used : TableCall κ → List κ
  | .use key _ => [key]
  | .view _ => []
  | .remove _ => []

end TableCall

/-- One call at an instant: the session that is handed out, and the table after it. -/
def SessionTable.call {κ : Type} [DecidableEq κ] (limits : Limits) (table : SessionTable κ)
    (now : Instant) : TableCall κ → Option Session × SessionTable κ
  | .use key change =>
      let (handed, after) := table.use limits key now fun session => (session, change session)
      (some handed, after)
  | .view key => (some (table.view limits key now), table)
  | .remove key => (none, table.remove key)

end Keypad
