/-
Module: Keypad.Proofs.Session.Interleaving
Layer: proofs
Purpose: Which uses of a session are still known when calls that have read the clock run one
  after another in any order.
Trusted boundary: none
Main exports:
  WaitingCall, SharedTable, SharedEvent, SharedTable.next, SharedTable.after,
  SharedTable.orderly, SharedTable.Follows, SharedTable.Remembers, last_call_is_stored
-/
import Keypad.Proofs.Session.Eviction

namespace Keypad

/-!
A call reads the clock first and then waits for the table, which serves one call at a time.
Nothing makes it serve them in the order of their instants.  The uses of each key are kept
on record beside the table, so that what its slots know of them can be compared with them.
-/

/-- A call that waits for the table, with the instant that it has read. -/
structure WaitingCall (κ : Type) where
  read : Instant
  asked : TableCall κ

/-- Whether a call has read an earlier instant than another one, for a use of the same key. -/
def WaitingCall.precedes {κ : Type} [DecidableEq κ] (call other : WaitingCall κ) : Bool :=
  call.read < other.read && call.asked.used.any fun key => key ∈ other.asked.used

/-- A table of sessions with the clock, the calls that wait, and the instants of all uses of
a key since its slot has been there, the one that came last first. -/
structure SharedTable (κ : Type) where
  clock : Instant
  waiting : List (WaitingCall κ)
  table : SessionTable κ
  uses : κ → List Instant

/-- What happens: time passes, a call reads the clock, or one of those that wait is served. -/
inductive SharedEvent (κ : Type) where
  | passes (span : Nat)
  | arrives (asked : TableCall κ)
  | serves (place : Nat)

namespace SharedTable

section Knowing

variable {κ : Type}

/-- Nothing has happened yet. -/
def start : SharedTable κ := ⟨0, [], .empty, fun _ => []⟩

/-- A slot has gone unused for longest, by all uses there have been: none of them is later
than some use of every other slot. -/
def LongestUnused (shared : SharedTable κ) (slots : List (Slot κ)) (slot : Slot κ) : Prop :=
  slot ∈ slots ∧ ∀ other ∈ slots, ∀ use ∈ shared.uses slot.key,
    ∃ later ∈ shared.uses other.key, use ≤ later

instance longestUnusedDecidable [DecidableEq κ] (shared : SharedTable κ)
    (slots : List (Slot κ)) (slot : Slot κ) : Decidable (shared.LongestUnused slots slot) :=
  inferInstanceAs (Decidable (_ ∧ _))

variable {limits : Limits} {shared : SharedTable κ}

/-! ### What the slots know -/

/-- What has been read and used lies in the past, and every slot knows the use that has been
served last. -/
structure Follows (limits : Limits) (shared : SharedTable κ) : Prop where
  sound : shared.table.Sound limits
  stored : ∀ slot ∈ shared.table.slots, (shared.uses slot.key).head? = some slot.lastUsed
  read : ∀ call ∈ shared.waiting, call.read ≤ shared.clock
  used : ∀ key, ∀ use ∈ shared.uses key, use ≤ shared.clock

theorem Follows.start (limits : Limits) : (start : SharedTable κ).Follows limits where
  sound := .empty limits
  stored := nofun
  read := nofun
  used := nofun

/-- The uses of a key have come in their order, and none that waits is earlier. -/
structure Remembers (shared : SharedTable κ) : Prop where
  descending : ∀ key, (shared.uses key).Pairwise fun later earlier => earlier ≤ later
  ahead : ∀ call ∈ shared.waiting, ∀ key ∈ call.asked.used, ∀ use ∈ shared.uses key,
    use ≤ call.read

theorem Remembers.start : (start : SharedTable κ).Remembers where
  descending _ := .nil
  ahead := nofun

/-- No use that a slot has seen is later than the one that it knows. -/
theorem Remembers.le_lastUsed (remembers : shared.Remembers) (follows : shared.Follows limits)
    {slot : Slot κ} (member : slot ∈ shared.table.slots) :
    ∀ use ∈ shared.uses slot.key, use ≤ slot.lastUsed := by
  obtain ⟨earlier, uses⟩ := List.head?_eq_some_iff.mp (follows.stored slot member)
  have descending := remembers.descending slot.key
  rw [uses] at descending ⊢
  intro use inUses
  rcases List.mem_cons.mp inUses with rfl | before
  · exact Nat.le_refl _
  · exact (List.pairwise_cons.mp descending).1 use before

/-- By what they know the same slots have gone unused for longest as by all their uses. -/
theorem Remembers.oldest_iff (remembers : shared.Remembers) (follows : shared.Follows limits)
    {slots : List (Slot κ)} (subset : slots ⊆ shared.table.slots) (slot : Slot κ) :
    SessionTable.Oldest slots slot ↔ shared.LongestUnused slots slot := by
  have lastUse (slot : Slot κ) (member : slot ∈ slots) :
      slot.lastUsed ∈ shared.uses slot.key :=
    List.mem_of_head? (follows.stored slot (subset member))
  constructor
  · rintro ⟨member, least⟩
    refine ⟨member, fun other inSlots use inUses => ⟨other.lastUsed, lastUse other inSlots, ?_⟩⟩
    exact Nat.le_trans (remembers.le_lastUsed follows (subset member) use inUses)
      (least other inSlots)
  · rintro ⟨member, least⟩
    refine ⟨member, fun other inSlots => ?_⟩
    obtain ⟨later, inUses, le⟩ := least other inSlots slot.lastUsed (lastUse slot member)
    exact Nat.le_trans le (remembers.le_lastUsed follows (subset inSlots) later inUses)

end Knowing

variable {κ : Type} [DecidableEq κ]

/-- The uses of a key when a call has been served.  With its slot they are forgotten. -/
def usesAfter (shared : SharedTable κ) (call : WaitingCall κ) (after : SessionTable κ)
    (key : κ) : List Instant :=
  if (after.find? key).isSome then
    if key ∈ call.asked.used then call.read :: shared.uses key else shared.uses key
  else []

/-- Serves a call, at the instant that it has read. -/
def serve (limits : Limits) (shared : SharedTable κ) (call : WaitingCall κ) : SharedTable κ :=
  let after := (shared.table.call limits call.read call.asked).2
  { shared with table := after, uses := shared.usesAfter call after }

/-- What is there after an event. -/
def next (limits : Limits) (shared : SharedTable κ) : SharedEvent κ → SharedTable κ
  | .passes span => { shared with clock := shared.clock + span }
  | .arrives asked => { shared with waiting := shared.waiting ++ [⟨shared.clock, asked⟩] }
  | .serves place =>
      match shared.waiting[place]? with
      | some call => { shared with waiting := shared.waiting.eraseIdx place }.serve limits call
      | none => shared

/-- What is there after events. -/
def after (limits : Limits) (events : List (SharedEvent κ)) : SharedTable κ :=
  events.foldl (next limits) start

/-- Whether a call is served while one that precedes it waits. -/
def overtakes (shared : SharedTable κ) : SharedEvent κ → Bool
  | .serves place => shared.waiting[place]?.any fun call =>
      shared.waiting.any fun other => other.precedes call
  | _ => false

/-- Whether the uses of each key are served in the order of their instants. -/
def orderly (limits : Limits) (shared : SharedTable κ) : List (SharedEvent κ) → Bool
  | [] => true
  | event :: events => !shared.overtakes event && (shared.next limits event).orderly limits events

variable {limits : Limits} {shared : SharedTable κ} {call : WaitingCall κ}

/-! ### Serving a call -/

/-- What is in the table after a call has been used by it or was there before. -/
theorem mem_call {table : SessionTable κ} {now : Instant} {asked : TableCall κ} {slot : Slot κ}
    (member : slot ∈ (table.call limits now asked).2.slots) :
    (slot.key ∈ asked.used ∧ slot.lastUsed = now) ∨
      (slot.key ∉ asked.used ∧ slot ∈ table.slots) := by
  cases asked with
  | use key change =>
      rcases List.mem_append.mp member with inOthers | last
      · have ne := SessionTable.key_ne_of_mem_others inOthers
        exact .inr ⟨fun same => ne (List.mem_singleton.mp same),
          (SessionTable.others_sublist key now).subset inOthers⟩
      · obtain rfl := List.mem_singleton.mp last
        exact .inl ⟨List.mem_singleton_self key, rfl⟩
  | view key => exact .inr ⟨List.not_mem_nil, member⟩
  | remove key => exact .inr ⟨List.not_mem_nil, (List.mem_filter.mp member).1⟩

theorem usesAfter_of_mem {after : SessionTable κ} {slot : Slot κ} (member : slot ∈ after.slots) :
    shared.usesAfter call after slot.key =
      if slot.key ∈ call.asked.used then call.read :: shared.uses slot.key
      else shared.uses slot.key :=
  if_pos (List.find?_isSome.mpr ⟨slot, member, decide_eq_true rfl⟩)

/-- The uses on record are those of before and the one that has been served. -/
theorem mem_usesAfter {after : SessionTable κ} {key : κ} {use : Instant}
    (member : use ∈ shared.usesAfter call after key) :
    use ∈ shared.uses key ∨ (key ∈ call.asked.used ∧ use = call.read) := by
  unfold usesAfter at member
  split at member
  · split at member
    · rename_i used
      rcases List.mem_cons.mp member with rfl | before
      · exact .inr ⟨used, rfl⟩
      · exact .inl before
    · exact .inl member
  · cases member

/-! ### What holds in any order -/

theorem Follows.serve (follows : shared.Follows limits) (past : call.read ≤ shared.clock) :
    (shared.serve limits call).Follows limits where
  sound :=
    have left := SessionTable.leaves_call follows.sound call.read call.asked
    ⟨left.keys, left.bounded⟩
  stored := by
    intro slot member
    have recorded : (shared.serve limits call).uses slot.key = _ := usesAfter_of_mem member
    rw [recorded]
    rcases mem_call member with ⟨used, now⟩ | ⟨unused, before⟩
    · rw [if_pos used, now]
      rfl
    · rw [if_neg unused]
      exact follows.stored slot before
  read := follows.read
  used := by
    intro key use member
    rcases mem_usesAfter member with before | ⟨_, rfl⟩
    · exact follows.used key use before
    · exact past

theorem Follows.next (follows : shared.Follows limits) (event : SharedEvent κ) :
    (shared.next limits event).Follows limits := by
  cases event with
  | passes span =>
      have later : shared.clock ≤ shared.clock + span := Nat.le_add_right _ _
      exact ⟨follows.sound, follows.stored,
        fun call member => Nat.le_trans (follows.read call member) later,
        fun key use member => Nat.le_trans (follows.used key use member) later⟩
  | arrives asked =>
      refine ⟨follows.sound, follows.stored, fun call member => ?_, follows.used⟩
      rcases List.mem_append.mp member with before | last
      · exact follows.read call before
      · obtain rfl := List.mem_singleton.mp last
        exact Nat.le_refl _
  | serves place =>
      unfold SharedTable.next
      dsimp only
      split
      · rename_i call found
        have past := follows.read call (List.mem_of_getElem? found)
        have left : ({ shared with waiting := shared.waiting.eraseIdx place }).Follows limits :=
          ⟨follows.sound, follows.stored,
            fun other member => follows.read other (List.mem_of_mem_eraseIdx member),
            follows.used⟩
        exact left.serve past
      · exact follows

/-! ### What holds as long as no use is overtaken -/

/-- A call is served when none that waits precedes it. -/
theorem Remembers.serve (remembers : shared.Remembers)
    (due : ∀ key ∈ call.asked.used, ∀ use ∈ shared.uses key, use ≤ call.read)
    (first : ∀ other ∈ shared.waiting, other.precedes call = false) :
    (shared.serve limits call).Remembers where
  descending := by
    intro key
    show (shared.usesAfter call _ key).Pairwise _
    unfold usesAfter
    split
    · split
      · rename_i used
        exact List.pairwise_cons.mpr ⟨due key used, remembers.descending key⟩
      · exact remembers.descending key
    · exact .nil
  ahead := by
    intro other waits key used use member
    rcases mem_usesAfter member with before | ⟨served, rfl⟩
    · exact remembers.ahead other waits key used use before
    · have notPrecedes := first other waits
      have shares : (other.asked.used.any fun key => key ∈ call.asked.used) = true :=
        List.any_eq_true.mpr ⟨key, used, decide_eq_true served⟩
      rw [WaitingCall.precedes, shares, Bool.and_true, decide_eq_false_iff_not] at notPrecedes
      exact Nat.le_of_not_lt notPrecedes

theorem Remembers.next (remembers : shared.Remembers) (follows : shared.Follows limits)
    {event : SharedEvent κ} (inTurn : shared.overtakes event = false) :
    (shared.next limits event).Remembers := by
  cases event with
  | passes span => exact ⟨remembers.descending, remembers.ahead⟩
  | arrives asked =>
      refine ⟨remembers.descending, fun call member key used use inUses => ?_⟩
      rcases List.mem_append.mp member with before | last
      · exact remembers.ahead call before key used use inUses
      · obtain rfl := List.mem_singleton.mp last
        exact follows.used key use inUses
  | serves place =>
      unfold SharedTable.next
      dsimp only
      split
      · rename_i call found
        rw [overtakes, found, Option.any_some] at inTurn
        have none : ∀ other ∈ shared.waiting, other.precedes call = false :=
          fun other waits => Bool.eq_false_of_not_eq_true (List.any_eq_false.mp inTurn other waits)
        have waits := List.mem_of_getElem? found
        have left : ({ shared with waiting := shared.waiting.eraseIdx place }).Remembers :=
          ⟨remembers.descending,
            fun other member => remembers.ahead other (List.mem_of_mem_eraseIdx member)⟩
        exact left.serve (remembers.ahead call waits)
          fun other member => none other (List.mem_of_mem_eraseIdx member)
      · exact remembers

/-! ### All events -/

theorem Follows.after (follows : shared.Follows limits) (events : List (SharedEvent κ)) :
    (events.foldl (SharedTable.next limits) shared).Follows limits := by
  induction events generalizing shared with
  | nil => exact follows
  | cons event events inductionHypothesis => exact inductionHypothesis (follows.next event)

theorem Remembers.after (remembers : shared.Remembers) (follows : shared.Follows limits)
    {events : List (SharedEvent κ)} (inTurn : shared.orderly limits events = true) :
    (events.foldl (SharedTable.next limits) shared).Remembers := by
  induction events generalizing shared with
  | nil => exact remembers
  | cons event events inductionHypothesis =>
      obtain ⟨first, others⟩ := Bool.and_eq_true_iff.mp inTurn
      rw [Bool.not_eq_true'] at first
      exact inductionHypothesis (remembers.next follows first) (follows.next event) others

end SharedTable

/-- What a table knows of the uses of its sessions is, for each, the instant that was read by
the call that was served last, whatever instants calls have read before it and in whatever
order they were served.  By these instants one that has gone unused for longest goes for a new
key, when the live ones alone would leave no room.  They are the latest of all uses, and it
has gone unused for longest by all uses that there have been, as long as no use of a key is
served before an earlier one of the same key. -/
theorem last_call_is_stored {κ : Type} [DecidableEq κ] (limits : Limits)
    (events : List (SharedEvent κ)) :
    let shared := SharedTable.after limits events
    let slots := shared.table.slots
    (∀ slot ∈ slots, (shared.uses slot.key).head? = some slot.lastUsed) ∧
    (∀ now key change, (∀ slot ∈ slots, slot.key ≠ key) →
      SessionTable.KeepsLive limits now slots
        ((shared.table.call limits now (.use key change)).2.slots.filter
          fun slot => slot.key ≠ key)) ∧
    (SharedTable.start.orderly limits events = true →
      (∀ slot ∈ slots, ∀ use ∈ shared.uses slot.key, use ≤ slot.lastUsed) ∧
      ∀ now slot, SessionTable.Oldest (slots.filter (Slot.live limits now)) slot ↔
        shared.LongestUnused (slots.filter (Slot.live limits now)) slot) := by
  intro shared slots
  have follows : shared.Follows limits := (SharedTable.Follows.start limits).after events
  refine ⟨follows.stored, fun now key change new => ?_, fun inTurn => ?_⟩
  · have left := SessionTable.leaves_call follows.sound now (.use key change)
    exact left.call.new new
  · have remembers : shared.Remembers :=
      SharedTable.Remembers.start.after (.start limits) inTurn
    exact ⟨fun slot member => remembers.le_lastUsed follows member,
      fun now => remembers.oldest_iff follows fun _ => List.mem_of_mem_filter⟩

/-- Two keys are used for which there is just room.  The calls are served in the other order than
that of their instants, and the first key is the one to go for a third one even so. -/
theorem last_call_is_stored_swapped :
    let limits : Limits := ⟨10, 2⟩
    let events : List (SharedEvent Char) :=
      [.arrives (.use 'a' id), .passes 1, .arrives (.use 'b' id), .passes 1, .serves 1, .serves 0]
    let shared := SharedTable.after limits events
    let live := shared.table.slots.filter (Slot.live limits shared.clock)
    let after := (shared.table.call limits shared.clock (.use 'c' id)).2
    SharedTable.start.orderly limits events = true ∧
      (∀ slot ∈ shared.table.slots, slot.key ≠ 'c') ∧
      SessionTable.KeepsLive limits shared.clock shared.table.slots
        (after.slots.filter fun slot => slot.key ≠ 'c') ∧
      after.slots.map Slot.key = ['b', 'c'] ∧
      shared.LongestUnused live ⟨'a', .start, 0⟩ := by
  intro limits events shared live after
  have inTurn : SharedTable.start.orderly limits events = true := by decide
  have new : ∀ slot ∈ shared.table.slots, slot.key ≠ 'c' := by decide
  have oldest : SessionTable.Oldest live ⟨'a', .start, 0⟩ := by decide
  obtain ⟨_, goes, remembered⟩ := last_call_is_stored limits events
  obtain ⟨_, oldest_iff⟩ := remembered inTurn
  exact ⟨inTurn, new, goes shared.clock 'c' id new, by decide, (oldest_iff _ _).mp oldest⟩

/-- The first of two keys is used at the instants zero and two, and the second one between
them.  The calls are served in a given order. -/
def overtaking (order : List Nat) : List (SharedEvent Char) :=
  [.arrives (.use 'a' id), .passes 1, .arrives (.use 'b' id), .passes 1, .arrives (.use 'a' id),
    .passes 1] ++ order.map .serves

/-- When the use at the instant two is served before that at the instant zero, it is forgotten,
and it is the first key that goes for a third one, although the second one has gone unused
for longer.  It does so too when it is the first key that has been served last. -/
theorem overtaken_use_is_forgotten :
    let limits : Limits := ⟨10, 2⟩
    ∀ order ∈ [[2, 0, 0], [2, 1, 0]],
      let shared := SharedTable.after limits (overtaking order)
      let live := shared.table.slots.filter (Slot.live limits shared.clock)
      shared.uses 'a' = [0, 2] ∧ shared.uses 'b' = [1] ∧
      (¬∀ slot ∈ shared.table.slots, ∀ use ∈ shared.uses slot.key, use ≤ slot.lastUsed) ∧
      (shared.table.call limits shared.clock (.use 'c' id)).2.slots.map Slot.key = ['b', 'c'] ∧
      shared.LongestUnused live ⟨'b', .start, 1⟩ ∧
      ¬shared.LongestUnused live ⟨'a', .start, 0⟩ := by
  decide

end Keypad
