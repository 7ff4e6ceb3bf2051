/-
Module: Keypad.Proofs.Session.Recency
Layer: proofs
Purpose: A table of sessions, which drops what has expired only to make room, against
  the list in the order of last uses, which drops it at once.
Trusted boundary: none
Main exports:
  Simulates, Simulates.others_eq, Simulates.call, Recency.call, runCalls, InOrder,
  handed_eq_recency
-/
import Keypad.Proofs.Session.Table
import Keypad.Session.Recency

namespace Keypad

/-!
The live slots of the table are those of the list, from the other end.  A slot that has
expired is still in the table's way in two places: its key may be used again, and it
takes up room.  The first is why the session shown for it is a new one, and the second is
why such a slot is never the reason for another one to go: where the key of an expired
slot is used, there are fewer live slots than there is room for.
-/

section Views

variable {κ : Type} {limits : Limits} {now : Instant} {table : SessionTable κ}
  {recency : Recency κ}

/-! ### The table against the list -/

/-- The table shows what the list shows at an instant: its live slots are those of the
list, from the other end. -/
structure Simulates (limits : Limits) (now : Instant) (table : SessionTable κ)
    (recency : Recency κ) : Prop where
  sound : table.Sound limits
  chronological : table.Chronological now
  live : (recency.expire limits now).slots =
    (table.slots.filter (Slot.live limits now)).reverse

namespace Simulates

/-- What is listed is what is live in the table. -/
theorem mem_iff (simulates : Simulates limits now table recency) {slot : Slot κ} :
    slot ∈ (recency.expire limits now).slots ↔
      slot ∈ table.slots ∧ slot.live limits now = true := by
  rw [simulates.live, List.mem_reverse, List.mem_filter]

/-- The slots of a key in the table are one. -/
theorem unique (simulates : Simulates limits now table recency) {slot other : Slot κ}
    (member : slot ∈ table.slots) (otherMember : other ∈ table.slots)
    (same : other.key = slot.key) : other = slot :=
  List.inj_on_of_nodup_map simulates.sound.keys otherMember member same

theorem listed_keys (simulates : Simulates limits now table recency) :
    ((recency.expire limits now).slots.map Slot.key).Nodup := by
  rw [simulates.live, List.map_reverse, List.nodup_reverse]
  exact (List.filter_sublist.map Slot.key).nodup simulates.sound.keys

/-- Nothing is listed under the key of a slot that has expired. -/
theorem absent_of_expired (simulates : Simulates limits now table recency) {slot : Slot κ}
    (member : slot ∈ table.slots) (expired : slot.live limits now = false) :
    ∀ other ∈ (recency.expire limits now).slots, other.key ≠ slot.key := by
  intro other otherListed same
  obtain ⟨otherMember, live⟩ := simulates.mem_iff.mp otherListed
  rw [simulates.unique member otherMember same] at live
  cases expired.symm.trans live

theorem empty (limits : Limits) (now : Instant) :
    Simulates limits now (SessionTable.empty : SessionTable κ) .empty where
  sound := .empty limits
  chronological := .empty now
  live := rfl

/-- What is shown in the same way is so at every later instant. -/
theorem later {later : Instant} (simulates : Simulates limits now table recency)
    (le : now ≤ later) : Simulates limits later table recency where
  sound := simulates.sound
  chronological := simulates.chronological.later le
  live := by
    have dropped : (recency.expire limits later).slots =
        (recency.expire limits now).slots.filter (Slot.live limits later) :=
      (filter_live_of_le le recency.slots).symm
    rw [dropped, simulates.live, List.filter_reverse, filter_live_of_le le]

/-- What has expired can be dropped from the list. -/
theorem expire (simulates : Simulates limits now table recency) :
    Simulates limits now table (recency.expire limits now) where
  sound := simulates.sound
  chronological := simulates.chronological
  live := by
    rw [← simulates.live]
    exact filter_live_of_le (Nat.le_refl now) recency.slots

end Simulates

end Views

variable {κ : Type} [DecidableEq κ]

/-! ### The list -/

namespace Recency

variable {limits : Limits}

/-- What stays behind the slot that is used. -/
def others (limits : Limits) (live : Recency κ) (key : κ) : List (Slot κ) :=
  if live.slots.any fun slot => slot.key = key then live.without key
  else if live.slots.length < limits.room then live.slots
  else live.slots.dropLast

theorem use_slots {α : Type} (recency : Recency κ) (key : κ) (now : Instant)
    (act : Session → α × Session) :
    (recency.use limits key now act).2.slots =
      ⟨key, (act ((recency.expire limits now).listed key)).2, now⟩ ::
        (recency.expire limits now).others limits key := rfl

/-- Nothing is listed under a key that no slot has. -/
theorem listed_of_absent {recency : Recency κ} {key : κ}
    (absent : ∀ slot ∈ recency.slots, slot.key ≠ key) : recency.listed key = .start := by
  have none : (recency.slots.find? fun slot => slot.key = key) = none := by
    apply List.find?_eq_none.mpr
    intro slot member same
    exact absent slot member (by simpa using same)
  rw [listed, none]

/-- A slot is listed under its key. -/
theorem listed_of_mem {recency : Recency κ} (keys : (recency.slots.map Slot.key).Nodup)
    {slot : Slot κ} (member : slot ∈ recency.slots) :
    recency.listed slot.key = slot.session := by
  rw [listed, SessionTable.find?_of_mem keys member]

end Recency

/-! ### Sessions on view -/

namespace Simulates

variable {limits : Limits} {now : Instant} {table : SessionTable κ} {recency : Recency κ}

/-- Nothing is listed under a key that is not in the table. -/
theorem absent_of_find?_none (simulates : Simulates limits now table recency) {key : κ}
    (found : table.find? key = none) :
    ∀ slot ∈ (recency.expire limits now).slots, slot.key ≠ key := by
  intro slot listed
  exact SessionTable.find?_eq_none_iff.mp found slot (simulates.mem_iff.mp listed).1

/-- The session shown for a key is the one that is listed for it. -/
theorem view_eq (simulates : Simulates limits now table recency) (key : κ) :
    table.view limits key now = (recency.expire limits now).listed key := by
  by_cases listed : ∃ slot ∈ (recency.expire limits now).slots, slot.key = key
  · obtain ⟨slot, member, rfl⟩ := listed
    obtain ⟨inTable, live⟩ := simulates.mem_iff.mp member
    rw [SessionTable.view_of_live simulates.sound.keys inTable live,
      Recency.listed_of_mem simulates.listed_keys member]
  · have absent : ∀ slot ∈ (recency.expire limits now).slots, slot.key ≠ key :=
      fun slot member same => listed ⟨slot, member, same⟩
    rw [Recency.listed_of_absent absent]
    apply SessionTable.view_of_expired
    intro slot member same
    by_contra live
    exact absent slot (simulates.mem_iff.mpr ⟨member, by simpa using live⟩) same

/-! ### Making room in both -/

theorem others_of_absent {live : Recency κ} {key : κ}
    (absent : ∀ slot ∈ live.slots, slot.key ≠ key) :
    live.others limits key =
      if live.slots.length < limits.room then live.slots else live.slots.dropLast := by
  apply if_neg
  rw [List.any_eq_true]
  rintro ⟨slot, member, same⟩
  exact absent slot member (by simpa using same)

/-- The key of a live slot is used: it leaves its place in both. -/
theorem others_of_live (simulates : Simulates limits now table recency) {slot : Slot κ}
    (member : slot ∈ table.slots) (live : slot.live limits now = true) :
    (recency.expire limits now).others limits slot.key =
      ((table.slots.filter fun other => other.key ≠ slot.key).filter
        (Slot.live limits now)).reverse := by
  have listed : ((recency.expire limits now).slots.any fun other => other.key = slot.key) =
      true := by
    rw [List.any_eq_true]
    exact ⟨slot, simulates.mem_iff.mpr ⟨member, live⟩, decide_eq_true rfl⟩
  rw [Recency.others, if_pos listed, Recency.without, simulates.live, List.filter_reverse,
    List.filter_comm]

/-- The key of a slot that has expired is used: it takes the place of this slot, so there is
room for it and no live slot goes. -/
theorem others_of_expired (simulates : Simulates limits now table recency) {slot : Slot κ}
    (member : slot ∈ table.slots) (expired : slot.live limits now = false) :
    (recency.expire limits now).others limits slot.key =
      ((table.slots.filter fun other => other.key ≠ slot.key).filter
        (Slot.live limits now)).reverse := by
  have absent := simulates.absent_of_expired member expired
  have room : (recency.expire limits now).slots.length < limits.room := by
    rw [simulates.live, List.length_reverse]
    apply Nat.lt_of_lt_of_le _ simulates.sound.bounded
    exact List.length_filter_lt_length_iff_exists.mpr ⟨slot, member, by simp [expired]⟩
  have all : (table.slots.filter (Slot.live limits now)).filter
      (fun other => other.key ≠ slot.key) = table.slots.filter (Slot.live limits now) := by
    apply List.filter_eq_self.mpr
    intro other otherMember
    apply decide_eq_true
    exact absent other (simulates.mem_iff.mpr (List.mem_filter.mp otherMember))
  rw [others_of_absent absent, if_pos room, List.filter_comm, all, simulates.live]

/-- A new key is used: the slot unused for longest goes where there is no room. -/
theorem others_of_find?_none (simulates : Simulates limits now table recency) {key : κ}
    (found : table.find? key = none) :
    (recency.expire limits now).others limits key =
      ((SessionTable.makeRoom limits now table.slots).filter (Slot.live limits now)).reverse := by
  have stays : (SessionTable.makeRoom limits now table.slots).filter (Slot.live limits now) =
      SessionTable.makeRoom limits now table.slots := by
    apply List.filter_eq_self.mpr
    intro slot member
    exact (List.mem_filter.mp
      ((SessionTable.makeRoom_sublist_live now table.slots).subset member)).2
  have bounded : (table.slots.filter (Slot.live limits now)).length ≤ limits.room :=
    Nat.le_trans (List.length_filter_le _ _) simulates.sound.bounded
  rw [others_of_absent (simulates.absent_of_find?_none found), stays,
    SessionTable.makeRoom_of_sorted simulates.chronological.sorted, simulates.live,
    List.length_reverse]
  by_cases room : (table.slots.filter (Slot.live limits now)).length < limits.room
  · rw [if_pos room, Nat.sub_eq_zero_of_le room, List.drop_zero]
  · have full : (table.slots.filter (Slot.live limits now)).length = limits.room :=
      Nat.le_antisymm bounded (Nat.not_lt.mp room)
    rw [if_neg room, full, Nat.add_sub_cancel_left, List.drop_one, List.dropLast_reverse]

/-- Beside the session that is used, the same live slots stay in both. -/
theorem others_eq (simulates : Simulates limits now table recency) (key : κ) :
    (recency.expire limits now).others limits key =
      ((table.others limits key now).filter (Slot.live limits now)).reverse := by
  unfold SessionTable.others
  cases found : table.find? key with
  | none => exact simulates.others_of_find?_none found
  | some slot =>
      obtain ⟨member, rfl⟩ := SessionTable.mem_of_find? found
      cases live : slot.live limits now with
      | true => exact simulates.others_of_live member live
      | false => exact simulates.others_of_expired member live

/-! ### From call to call -/

/-- The session that is used comes last in the table and first in the list. -/
theorem use {α : Type} (simulates : Simulates limits now table recency) (key : κ)
    (act : Session → α × Session) :
    Simulates limits now (table.use limits key now act).2
      (recency.use limits key now act).2 where
  sound := simulates.sound.use key now act
  chronological := simulates.chronological.use key act
  live := by
    generalize used : Slot.mk key (act (table.view limits key now)).2 now = slot
    have tableSlots : (table.use limits key now act).2.slots =
        table.others limits key now ++ [slot] := by
      rw [SessionTable.use_slots, used]
    have listSlots : (recency.use limits key now act).2.slots =
        [slot] ++ ((table.others limits key now).filter (Slot.live limits now)).reverse := by
      rw [Recency.use_slots, ← simulates.view_eq, used, simulates.others_eq]
      rfl
    have single : ([slot].filter (Slot.live limits now)).reverse =
        [slot].filter (Slot.live limits now) := by
      cases live : slot.live limits now <;> simp [live]
    show (recency.use limits key now act).2.slots.filter (Slot.live limits now) = _
    rw [listSlots, tableSlots, List.filter_append, List.filter_append, List.reverse_append,
      List.filter_reverse, filter_live_of_le (Nat.le_refl now), single]

theorem remove (simulates : Simulates limits now table recency) (key : κ) :
    Simulates limits now (table.remove key) ((recency.expire limits now).remove key) where
  sound := simulates.sound.remove key
  chronological := simulates.chronological.remove key
  live := by
    show ((recency.expire limits now).without key).filter (Slot.live limits now) =
      ((table.slots.filter fun slot => slot.key ≠ key).filter (Slot.live limits now)).reverse
    have live : (recency.expire limits now).slots.filter (Slot.live limits now) =
        (table.slots.filter (Slot.live limits now)).reverse := simulates.expire.live
    rw [Recency.without, List.filter_comm, live, List.filter_reverse, List.filter_comm]

end Simulates

/-! ### Runs of calls -/

/-- One call at an instant, before which all that has expired is dropped: the session that
is handed out, and the list after it. -/
def Recency.call (limits : Limits) (recency : Recency κ) (now : Instant)
    (asked : TableCall κ) : Option Session × Recency κ :=
  let live := recency.expire limits now
  match asked with
  | .use key change =>
      let (handed, after) := live.use limits key now fun session => (session, change session)
      (some handed, after)
  | .view key => (some (live.view limits key now), live)
  | .remove key => (none, live.remove key)

/-- A run of calls: the sessions that are handed out, and what there is after it. -/
def runCalls {σ : Type} (call : σ → Instant → TableCall κ → Option Session × σ) (state : σ) :
    List (Instant × TableCall κ) → List (Option Session) × σ
  | [] => ([], state)
  | (now, asked) :: calls =>
      let (handed, after) := call state now asked
      let (others, last) := runCalls call after calls
      (handed :: others, last)

/-- The instants of the calls do not decrease, and no two uses share one, so that of two
slots it is never open which has gone unused for longer. -/
def InOrder (calls : List (Instant × TableCall κ)) : Prop :=
  calls.Pairwise fun earlier later =>
    earlier.1 ≤ later.1 ∧
      (earlier.2.isUse = true → later.2.isUse = true → earlier.1 ≠ later.1)

/-- A call hands out the same session from both, and afterwards they show the same. -/
theorem Simulates.call {limits : Limits} {now : Instant} {table : SessionTable κ}
    {recency : Recency κ} (simulates : Simulates limits now table recency)
    (asked : TableCall κ) :
    (table.call limits now asked).1 = (recency.call limits now asked).1 ∧
      Simulates limits now (table.call limits now asked).2 (recency.call limits now asked).2 := by
  have dropped := simulates.expire
  cases asked with
  | use key change =>
      refine ⟨?_, dropped.use key fun session => (session, change session)⟩
      show some (table.view limits key now) = some (((recency.expire limits now).expire
        limits now).listed key)
      rw [dropped.view_eq]
  | view key => exact ⟨congrArg some (dropped.view_eq key), dropped⟩
  | remove key => exact ⟨rfl, simulates.remove key⟩

/-- A run of calls whose instants do not decrease hands out the same sessions from both,
and afterwards they show the same. -/
theorem Simulates.run {limits : Limits} {calls : List (Instant × TableCall κ)} :
    ∀ {start : Instant} {table : SessionTable κ} {recency : Recency κ},
      Simulates limits start table recency → (∀ call ∈ calls, start ≤ call.1) →
      (calls.Pairwise fun earlier later => earlier.1 ≤ later.1) →
        (runCalls (SessionTable.call limits) table calls).1 =
            (runCalls (Recency.call limits) recency calls).1 ∧
          ∀ last, start ≤ last → (∀ call ∈ calls, call.1 ≤ last) →
            Simulates limits last (runCalls (SessionTable.call limits) table calls).2
              (runCalls (Recency.call limits) recency calls).2 := by
  induction calls with
  | nil =>
      intro start table recency simulates _ _
      exact ⟨rfl, fun last le _ => simulates.later le⟩
  | cons call calls inductionHypothesis =>
      intro start table recency simulates after ordered
      obtain ⟨now, asked⟩ := call
      obtain ⟨first, others⟩ := List.pairwise_cons.mp ordered
      obtain ⟨handed, next⟩ := (simulates.later (after _ List.mem_cons_self)).call asked
      obtain ⟨handedOn, ends⟩ := inductionHypothesis next first others
      refine ⟨?_, fun last _ bound => ?_⟩
      · exact congrArg₂ List.cons handed handedOn
      · exact ends last (bound _ List.mem_cons_self)
          fun call member => bound call (List.mem_cons_of_mem _ member)

/-- A table of sessions hands out exactly the sessions that the list hands out, which
keeps the order of last uses, drops what has expired before every call and gives up the
session unused for longest when all the room is taken by others.  At the end of the run,
and whenever later, the live slots of the table are the list, so no slot that has expired
was ever shown or the reason for a live one to go. -/
theorem handed_eq_recency (limits : Limits) {calls : List (Instant × TableCall κ)}
    (ordered : InOrder calls) :
    (runCalls (SessionTable.call limits) .empty calls).1 =
        (runCalls (Recency.call limits) .empty calls).1 ∧
      ∀ now, (∀ call ∈ calls, call.1 ≤ now) →
        ((runCalls (Recency.call limits) .empty calls).2.expire limits now).slots =
          ((runCalls (SessionTable.call limits) .empty calls).2.slots.filter
            (Slot.live limits now)).reverse := by
  obtain ⟨handed, ends⟩ := Simulates.run (Simulates.empty limits 0)
    (fun call _ => Nat.zero_le call.1) (ordered.imp fun side => side.1)
  exact ⟨handed, fun now bound => (ends now (Nat.zero_le now) bound).live⟩

/-- Typing digits into three sessions of which there is room for two.  The third one makes
the first one go, and the second one has expired when it is used again. -/
def crowdedCalls : List (Instant × TableCall Char) :=
  let typing (key : Char) : Session → Session := fun session => (session.type key).2
  [(0, .use 'a' (typing '1')), (1, .use 'b' (typing '2')), (2, .view 'a'),
    (3, .use 'c' (typing '3')), (4, .view 'a'), (11, .use 'b' (typing '4')), (12, .view 'c'),
    (12, .remove 'b'), (12, .view 'b')]

theorem handed_eq_recency_crowded :
    InOrder crowdedCalls ∧
      (runCalls (SessionTable.call ⟨10, 2⟩) .empty crowdedCalls).1.map
          (Option.map Session.candidate) =
        [some [], some [], some ['1'], some [], some [], some [], some ['3'], none, some []] ∧
      (runCalls (SessionTable.call ⟨10, 2⟩) .empty crowdedCalls).1 =
        (runCalls (Recency.call ⟨10, 2⟩) .empty crowdedCalls).1 ∧
      ((runCalls (Recency.call ⟨10, 2⟩) .empty crowdedCalls).2.expire ⟨10, 2⟩ 12).slots =
        ((runCalls (SessionTable.call ⟨10, 2⟩) .empty crowdedCalls).2.slots.filter
          (Slot.live ⟨10, 2⟩ 12)).reverse := by
  have ordered : InOrder crowdedCalls := by
    unfold InOrder
    decide
  obtain ⟨handed, ends⟩ := handed_eq_recency ⟨10, 2⟩ ordered
  exact ⟨ordered, by decide +kernel, handed, ends 12 (by decide)⟩

end Keypad
