/-
Module: Keypad.Proofs.Session.Eviction
Layer: proofs
Purpose: How large a table of sessions gets, and which slots go when a session is used,
  in whatever order the instants of the calls come.
Trusted boundary: none
Main exports:
  SessionTable.GivesWay, SessionTable.givesWay_ends, SessionTable.makeRoom_givesWay,
  SessionTable.KeepsLive, SessionTable.Leaves, SessionTable.leaves_call,
  SessionTable.Sound.runCalls, table_stays_bounded
-/
import Keypad.Proofs.Session.Recency
import Mathlib.Logic.Relation
import Mathlib.Order.WellFounded

namespace Keypad

/-!
Nothing here asks for the instants to come in order.  An instant before the last use of a
slot finds it live, and the slot of least last use need not be the first one.  What is left
of the invariants is that a table is sound: that is enough for at most one live slot to go.
-/

namespace SessionTable

section Making

variable {κ : Type} {limits : Limits} {now : Instant} {slots : List (Slot κ)}

/-! ### Giving way, round by round -/

/-- A slot that has gone unused for longest, one of them if there are several. -/
def Oldest (slots : List (Slot κ)) (slot : Slot κ) : Prop :=
  slot ∈ slots ∧ ∀ other ∈ slots, slot.lastUsed ≤ other.lastUsed

instance oldestDecidable [DecidableEq κ] (slots : List (Slot κ)) (slot : Slot κ) :
    Decidable (Oldest slots slot) :=
  inferInstanceAs (Decidable (_ ∧ _))

/-- One round of giving way: there is no room for one more slot, and one that has gone unused
for longest goes, whichever it is. -/
def GivesWay (limits : Limits) (before after : List (Slot κ)) : Prop :=
  limits.room ≤ before.length ∧
    ∃ front slot back, before = front ++ slot :: back ∧ after = front ++ back ∧
      Oldest before slot

/-- There are not rounds without end, whichever slots go in them. -/
theorem givesWay_ends (limits : Limits) :
    WellFounded fun after before : List (Slot κ) => GivesWay limits before after := by
  apply Subrelation.wf _ (measure (List.length (α := Slot κ))).wf
  rintro after before ⟨_, front, slot, back, rfl, rfl, _⟩
  show (front ++ back).length < (front ++ slot :: back).length
  rw [List.length_append, List.length_append, List.length_cons]
  exact Nat.lt_succ_self _

/-- What is dropped is a slot that has gone unused for longest. -/
theorem dropOldest_eq (nonempty : slots ≠ []) :
    ∃ front slot back, slots = front ++ slot :: back ∧ dropOldest slots = front ++ back ∧
      Oldest slots slot := by
  cases least : (slots.map Slot.lastUsed).min? with
  | none => exact absurd (List.map_eq_nil_iff.mp (List.min?_eq_none_iff.mp least)) nonempty
  | some oldest =>
      obtain ⟨found, atMost⟩ := List.min?_eq_some_iff.mp least
      obtain ⟨slot, member, same⟩ := List.mem_map.mp found
      obtain ⟨first, front, back, _, firstOldest, parts, dropped⟩ :=
        List.exists_of_eraseP (p := fun slot => decide (slot.lastUsed = oldest)) member
          (decide_eq_true same)
      refine ⟨front, first, back, parts, ?_, ?_, ?_⟩
      · rw [dropOldest, least]
        exact dropped
      · rw [parts]
        exact List.mem_append_right front List.mem_cons_self
      · intro other otherMember
        rw [of_decide_eq_true firstOldest]
        exact atMost _ (List.mem_map_of_mem otherMember)

/-- As long as there is no room, there is a round, and to drop the oldest slot is one. -/
theorem dropOldest_givesWay (full : limits.room ≤ slots.length) :
    GivesWay limits slots (dropOldest slots) := by
  have nonempty : slots ≠ [] := List.length_pos_iff.mp (Nat.lt_of_lt_of_le limits.room_pos full)
  exact ⟨full, dropOldest_eq nonempty⟩

/-- Every round is that of some arrangement: whichever of the slots of least last use it is that
goes, it is dropped where it stands first. -/
theorem GivesWay.exists_rearranged {before after : List (Slot κ)}
    (round : GivesWay limits before after) :
    ∃ arranged, before.Perm arranged ∧ dropOldest arranged = after := by
  obtain ⟨_, front, slot, back, rfl, rfl, _, least⟩ := round
  refine ⟨slot :: (front ++ back), List.perm_middle, dropOldest_cons fun other member => ?_⟩
  exact least other (List.perm_middle.mem_iff.mpr (List.mem_cons_of_mem _ member))

/-- Dropping the oldest slot as often as there is no room is a run of rounds. -/
theorem repeat_dropOldest_givesWay {count : Nat}
    (enough : count ≤ slots.length + 1 - limits.room) :
    Relation.ReflTransGen (GivesWay limits) slots (Nat.repeat dropOldest count slots) := by
  induction count with
  | zero => exact .refl
  | succ count inductionHypothesis =>
      have full : limits.room ≤ (Nat.repeat dropOldest count slots).length := by
        rw [length_repeat_dropOldest]
        have := limits.room_pos
        omega
      exact (inductionHypothesis (Nat.le_of_succ_le enough)).tail (dropOldest_givesWay full)

/-- Room is made by rounds of giving way among the live slots, until there is room. -/
theorem makeRoom_givesWay (now : Instant) (slots : List (Slot κ)) :
    Relation.ReflTransGen (GivesWay limits) (slots.filter (Slot.live limits now))
        (makeRoom limits now slots) ∧
      ∀ after, ¬GivesWay limits (makeRoom limits now slots) after :=
  ⟨repeat_dropOldest_givesWay (Nat.le_refl _),
    fun _ round => Nat.not_le.mpr (length_makeRoom_lt now slots) round.1⟩

/-! ### Which slots go -/

/-- The slots that are kept are those that are live, without one more that has gone unused for
longest of them if they alone would leave no room. -/
def KeepsLive (limits : Limits) (now : Instant) (slots kept : List (Slot κ)) : Prop :=
  let live := slots.filter (Slot.live limits now)
  if live.length < limits.room then ∀ slot, slot ∈ kept ↔ slot ∈ live
  else ∃ victim, Oldest live victim ∧ ∀ slot, slot ∈ kept ↔ slot ∈ live ∧ slot ≠ victim

/-- Where no more slots are live than there is room for, at most one of them goes. -/
theorem makeRoom_keepsLive (bounded : slots.length ≤ limits.room) (nodup : slots.Nodup) :
    KeepsLive limits now slots (makeRoom limits now slots) := by
  have liveBounded : (slots.filter (Slot.live limits now)).length ≤ limits.room :=
    Nat.le_trans (List.length_filter_le _ _) bounded
  have liveNodup : (slots.filter (Slot.live limits now)).Nodup := nodup.filter _
  unfold KeepsLive makeRoom
  generalize slots.filter (Slot.live limits now) = live at liveBounded liveNodup
  dsimp only
  split
  · rename_i room
    have none : live.length + 1 - limits.room = 0 := Nat.sub_eq_zero_of_le room
    rw [none]
    exact fun slot => Iff.rfl
  · rename_i full
    have same : live.length = limits.room := Nat.le_antisymm liveBounded (Nat.not_lt.mp full)
    have one : live.length + 1 - limits.room = 1 := by
      rw [same]
      exact Nat.add_sub_cancel_left _ _
    have nonempty : live ≠ [] := by
      apply List.length_pos_iff.mp
      rw [same]
      exact limits.room_pos
    obtain ⟨front, victim, back, parts, dropped, oldest⟩ := dropOldest_eq nonempty
    refine ⟨victim, oldest, fun slot => ?_⟩
    have kept : Nat.repeat dropOldest 1 live = front ++ back := dropped
    -- the victim is in neither part, since no slot is there twice
    have others : (victim :: (front ++ back)).Nodup := by
      rw [parts] at liveNodup
      exact List.perm_middle.nodup_iff.mp liveNodup
    rw [one, kept, parts, List.perm_middle.mem_iff, List.mem_cons]
    constructor
    · intro member
      refine ⟨.inr member, ?_⟩
      rintro rfl
      exact (List.nodup_cons.mp others).1 member
    · rintro ⟨rfl | member, ne⟩
      · exact absurd rfl ne
      · exact member

theorem Sound.nodup {table : SessionTable κ} (sound : table.Sound limits) :
    table.slots.Nodup :=
  sound.keys.of_map _

end Making

variable {κ : Type} [DecidableEq κ] {limits : Limits} {now : Instant} {table : SessionTable κ}

/-! ### What a call leaves -/

/-- What the use of a key leaves. -/
structure UseLeaves (limits : Limits) (now : Instant) (key : κ)
    (before after : SessionTable κ) : Prop where
  used : ∃ slot ∈ after.slots, slot.key = key ∧ slot.lastUsed = now
  /-- Nothing goes where the key is in the table already. -/
  stored : (∃ slot ∈ before.slots, slot.key = key) →
    ∀ slot ∈ before.slots, slot.key ≠ key → slot ∈ after.slots
  /-- Where the key is new, all goes that is no longer live, and one more slot at most. -/
  new : (∀ slot ∈ before.slots, slot.key ≠ key) →
    KeepsLive limits now before.slots (after.slots.filter fun slot => slot.key ≠ key)

/-- What a call leaves: only a use makes slots give way, and a removal is that of one key. -/
def CallLeaves (limits : Limits) (now : Instant) (before after : SessionTable κ) :
    TableCall κ → Prop
  | .use key _ => UseLeaves limits now key before after
  | .view _ => after = before
  | .remove key => ∀ slot, slot ∈ after.slots ↔ slot ∈ before.slots ∧ slot.key ≠ key

/-- A table that is left by a call has no more slots than there is room for, each of another
key.  Slots of other keys than that of the call keep their sessions and their last uses. -/
structure Leaves (limits : Limits) (now : Instant) (asked : TableCall κ)
    (before after : SessionTable κ) : Prop where
  bounded : after.slots.length ≤ limits.room
  keys : (after.slots.map Slot.key).Nodup
  others : ∀ slot ∈ after.slots, slot.key ≠ asked.key → slot ∈ before.slots
  call : CallLeaves limits now before after asked

/-- The slots of other keys are those that stay beside the one that is used. -/
theorem mem_use_of_ne {α : Type} {key : κ} {act : Session → α × Session} {slot : Slot κ}
    (ne : slot.key ≠ key) :
    slot ∈ (table.use limits key now act).2.slots ↔ slot ∈ table.others limits key now := by
  rw [use_slots, List.mem_append, List.mem_singleton, or_iff_left]
  rintro rfl
  exact ne rfl

theorem others_of_stored {key : κ} {held : Slot κ} (member : held ∈ table.slots)
    (same : held.key = key) :
    table.others limits key now = table.slots.filter fun slot => slot.key ≠ key :=
  if_pos (List.find?_isSome.mpr ⟨held, member, decide_eq_true same⟩)

theorem others_of_new {key : κ} (new : ∀ slot ∈ table.slots, slot.key ≠ key) :
    table.others limits key now = makeRoom limits now table.slots := by
  apply if_neg
  rw [find?_eq_none_iff.mpr new]
  exact Bool.false_ne_true

/-- Beside the slot that is used there are the others, in their order. -/
theorem filter_use {α : Type} (key : κ) (act : Session → α × Session) :
    (table.use limits key now act).2.slots.filter (fun slot => slot.key ≠ key) =
      table.others limits key now := by
  have stay : (table.others limits key now).filter (fun slot => slot.key ≠ key) =
      table.others limits key now :=
    List.filter_eq_self.mpr fun slot member => decide_eq_true (key_ne_of_mem_others member)
  rw [use_slots, List.filter_append, stay, List.filter_cons_of_neg (by simp), List.filter_nil,
    List.append_nil]

theorem useLeaves_use {α : Type} (sound : table.Sound limits) (now : Instant) (key : κ)
    (act : Session → α × Session) :
    UseLeaves limits now key table (table.use limits key now act).2 where
  used := by
    refine ⟨⟨key, (act (table.view limits key now)).2, now⟩, ?_, rfl, rfl⟩
    rw [use_slots]
    exact List.mem_append_right _ List.mem_cons_self
  stored := by
    rintro ⟨held, inTable, same⟩ slot member ne
    apply (mem_use_of_ne ne).mpr
    rw [others_of_stored inTable same]
    exact List.mem_filter.mpr ⟨member, decide_eq_true ne⟩
  new := by
    intro new
    rw [filter_use, others_of_new new]
    exact makeRoom_keepsLive sound.bounded sound.nodup

/-- Every call to a sound table leaves what it must. -/
theorem leaves_call (sound : table.Sound limits) (now : Instant) (asked : TableCall κ) :
    Leaves limits now asked table (table.call limits now asked).2 := by
  cases asked with
  | use key change =>
      let act (session : Session) : Session × Session := (session, change session)
      have after := sound.use key now act
      exact ⟨after.bounded, after.keys,
        fun slot (member : slot ∈ (table.use limits key now act).2.slots) ne =>
          (others_sublist key now).subset ((mem_use_of_ne ne).mp member),
        useLeaves_use sound now key act⟩
  | view key => exact ⟨sound.bounded, sound.keys, fun _ member _ => member, rfl⟩
  | remove key =>
      have after := sound.remove key
      have kept (slot : Slot κ) :
          slot ∈ (table.remove key).slots ↔ slot ∈ table.slots ∧ slot.key ≠ key := by
        rw [remove, List.mem_filter, decide_eq_true_eq]
      exact ⟨after.bounded, after.keys, fun slot member _ => ((kept slot).mp member).1, kept⟩

/-- A table stays sound in any run of calls. -/
theorem Sound.runCalls (calls : List (Instant × TableCall κ)) :
    ∀ {table : SessionTable κ}, table.Sound limits →
      (Keypad.runCalls (SessionTable.call limits) table calls).2.Sound limits := by
  induction calls with
  | nil => exact fun sound => sound
  | cons call calls inductionHypothesis =>
      intro table sound
      have left := leaves_call sound call.1 call.2
      exact inductionHypothesis ⟨left.keys, left.bounded⟩

end SessionTable

variable {κ : Type} [DecidableEq κ]

/-- A table of sessions stays bounded and gives up only what it must, whatever is called and
at whatever instants, which need not come in order.  After every call there are no more slots
than there is room for, each of another key.  Where a key is used it is there, and beside it
are all slots of before if the key was there already, and otherwise the live ones, of which
one of least last use goes if they alone would leave no room.  A round of giving way can be
gone through whenever there is no room, it does not matter which of several oldest slots
goes, and there are not rounds without end; they end with the slots that are kept. -/
theorem table_stays_bounded (limits : Limits) (calls : List (Instant × TableCall κ)) :
    (∀ now asked,
      let table := (runCalls (SessionTable.call limits) .empty calls).2
      SessionTable.Leaves limits now asked table (table.call limits now asked).2) ∧
    (WellFounded fun after before : List (Slot κ) =>
      SessionTable.GivesWay limits before after) ∧
    (∀ slots : List (Slot κ), limits.room ≤ slots.length →
      SessionTable.GivesWay limits slots (SessionTable.dropOldest slots)) ∧
    ∀ now, ∀ slots : List (Slot κ),
      Relation.ReflTransGen (SessionTable.GivesWay limits)
          (slots.filter (Slot.live limits now)) (SessionTable.makeRoom limits now slots) ∧
        ∀ after, ¬SessionTable.GivesWay limits (SessionTable.makeRoom limits now slots) after :=
  ⟨fun now asked => SessionTable.leaves_call
      ((SessionTable.Sound.empty limits).runCalls calls) now asked,
    SessionTable.givesWay_ends limits,
    fun _ full => SessionTable.dropOldest_givesWay full,
    fun now slots => SessionTable.makeRoom_givesWay now slots⟩

/-- There is room for two sessions, and the instants run backwards: the second key is used at an
instant before that of the first, and it is the one to go when a third key is used between
the two.  A table that has been left full has a round of giving way before it. -/
theorem table_stays_bounded_backwards :
    let limits : Limits := ⟨10, 2⟩
    let used : List (Instant × TableCall Char) := [(5, .use 'a' id), (3, .use 'b' id)]
    let table := (runCalls (SessionTable.call limits) .empty used).2
    let after := (table.call limits 4 (.use 'c' id)).2
    SessionTable.Leaves limits 4 (.use 'c' id) table after ∧
      after.slots.map Slot.key = ['a', 'c'] ∧
      limits.room ≤ table.slots.length ∧
      SessionTable.GivesWay limits table.slots (SessionTable.dropOldest table.slots) := by
  intro limits used table after
  obtain ⟨leaves, _, round, _⟩ := table_stays_bounded limits used
  have full : limits.room ≤ table.slots.length := by decide
  exact ⟨leaves 4 (.use 'c' id), by decide, full, round table.slots full⟩

end Keypad
