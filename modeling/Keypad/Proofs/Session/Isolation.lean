/-
Module: Keypad.Proofs.Session.Isolation
Layer: proofs
Purpose: What the session of one key has to do with the sessions of other keys, in whatever
  order a table is gone through.
Trusted boundary: none
Main exports:
  lastUse?, rivals, Uncrowded, followers, Uncrowded.of_apart, SessionTable.Follows,
  SessionTable.Follows.mem_others, SessionTable.Follows.view_use_of_ne, Sharing,
  Sharing.rearranged, Sharing.own, Sharing.other
-/
import Keypad.Proofs.Session.Eviction
import Mathlib.Data.List.Dedup
import Mathlib.Data.List.Infix
import Mathlib.Data.List.Perm.Subperm

namespace Keypad

/-!
One key is followed through a table that is shared with other keys, next to a table of
its own.  The slot of the key can only go when it is one of those that have gone unused for
longest, and then all the others have been used after it or at the same instant.  So it
goes only when these keys alone are as many as there is room for.  It also goes when it has
expired and another key makes room; but then a new session was on view already.
-/

section Rivals

variable {κ : Type} [DecidableEq κ]

/-! ### The keys that are used beside one -/

/-- The instant of the last use of a key. -/
def lastUse? (key : κ) (past : List (Instant × κ)) : Option Instant :=
  (past.reverse.find? fun use => use.2 = key).map Prod.fst

/-- The other keys that have been used since the last use of a key, those that have been
used before it at the same instant included. -/
def rivals (key : κ) (past : List (Instant × κ)) : List κ :=
  match lastUse? key past with
  | none => []
  | some last => (past.filter fun use => use.2 ≠ key && last ≤ use.1).map Prod.snd

/-- There are never as many rivals of a key as there is room for. -/
def Uncrowded (limits : Limits) (key : κ) (used : List (Instant × κ)) : Prop :=
  ∀ past, past <+: used → (rivals key past).dedup.length < limits.room

instance (limits : Limits) (key : κ) (used : List (Instant × κ)) :
    Decidable (Uncrowded limits key used) :=
  decidable_of_iff (∀ past ∈ used.inits, (rivals key past).dedup.length < limits.room)
    (by simp only [Uncrowded, List.mem_inits])

variable {key other : κ} {now last : Instant} {past : List (Instant × κ)}

theorem lastUse?_concat_self (key : κ) (now : Instant) (past : List (Instant × κ)) :
    lastUse? key (past ++ [(now, key)]) = some now := by
  simp [lastUse?]

theorem lastUse?_concat_of_ne (ne : other ≠ key) (now : Instant) (past : List (Instant × κ)) :
    lastUse? key (past ++ [(now, other)]) = lastUse? key past := by
  simp [lastUse?, ne]

theorem mem_of_lastUse? (found : lastUse? key past = some last) : (last, key) ∈ past := by
  obtain ⟨⟨instant, used⟩, isLast, rfl⟩ := Option.map_eq_some_iff.mp found
  obtain rfl : used = key := by simpa using List.find?_some isLast
  exact List.mem_reverse.mp (List.mem_of_find?_eq_some isLast)

theorem mem_rivals (found : lastUse? key past = some last) :
    other ∈ rivals key past ↔
      other ≠ key ∧ ∃ instant, (instant, other) ∈ past ∧ last ≤ instant := by
  simp only [rivals, found, List.mem_map, List.mem_filter, Bool.and_eq_true, decide_eq_true_eq]
  constructor
  · rintro ⟨⟨instant, _⟩, ⟨member, ne, le⟩, rfl⟩
    exact ⟨ne, instant, member, le⟩
  · rintro ⟨ne, instant, member, le⟩
    exact ⟨(instant, other), ⟨member, ne, le⟩, rfl⟩

/-- Different keys among others are no more than the different ones of the others. -/
theorem length_le_dedup {keys others : List κ} (nodup : keys.Nodup) (among : keys ⊆ others) :
    keys.length ≤ others.dedup.length :=
  (nodup.subperm fun _ member => List.mem_dedup.mpr (among member)).length_le

/-! ### Uses that come apart -/

/-- The keys that have been used behind the last use of a key, the last one first. -/
def followers (key : κ) (past : List (Instant × κ)) : List κ :=
  (past.reverse.takeWhile fun use => use.2 ≠ key).map Prod.snd

/-- From the first use of a key on, those behind its last use are never as many as there is
room for. -/
def Unfollowed (limits : Limits) (key : κ) (used : List (Instant × κ)) : Prop :=
  ∀ past, past <+: used → key ∈ past.map Prod.snd →
    (followers key past).dedup.length < limits.room

instance (limits : Limits) (key : κ) (used : List (Instant × κ)) :
    Decidable (Unfollowed limits key used) :=
  decidable_of_iff
    (∀ past ∈ used.inits, key ∈ past.map Prod.snd →
      (followers key past).dedup.length < limits.room)
    (by simp only [Unfollowed, List.mem_inits])

/-- Uses in the order of their instants, of which those of different keys share none. -/
def Apart (used : List (Instant × κ)) : Prop :=
  used.Pairwise fun earlier later =>
    earlier.1 ≤ later.1 ∧ (earlier.2 ≠ later.2 → earlier.1 ≠ later.1)

/-- Where the uses of different keys share no instant, the rivals of a key are those that come
behind its last use. -/
theorem rivals_subset_followers (apart : Apart past) : rivals key past ⊆ followers key past := by
  intro other member
  cases found : lastUse? key past with
  | none => simp [rivals, found] at member
  | some last =>
      obtain ⟨ne, instant, used, le⟩ := (mem_rivals found).mp member
      obtain ⟨use, isLast, rfl⟩ := Option.map_eq_some_iff.mp found
      obtain ⟨isKey, behind, before, parts, notKey⟩ := List.find?_eq_some_iff_append.mp isLast
      obtain rfl : use.2 = key := by simpa using isKey
      have taken : (behind.map Prod.snd) = followers use.2 past := by
        rw [followers, parts, List.takeWhile_append_of_pos fun use member => by
          simpa using notKey use member]
        simp
      have order : (behind ++ use :: before).Pairwise fun later earlier =>
          earlier.1 ≤ later.1 ∧ (earlier.2 ≠ later.2 → earlier.1 ≠ later.1) :=
        parts ▸ List.pairwise_reverse.mpr apart
      have place : (instant, other) ∈ behind ++ use :: before :=
        parts ▸ List.mem_reverse.mpr used
      rw [← taken]
      rcases List.mem_append.mp place with inBehind | inRest
      · exact List.mem_map_of_mem inBehind
      · rcases List.mem_cons.mp inRest with rfl | inBefore
        · exact absurd rfl ne
        · -- a use before the last one of the key is at an earlier instant
          obtain ⟨early, differ⟩ :=
            (List.pairwise_cons.mp (List.pairwise_append.mp order).2.1).1 _ inBefore
          exact absurd (Nat.le_antisymm early le) (differ ne)

theorem Uncrowded.of_apart {limits : Limits} {used : List (Instant × κ)} (apart : Apart used)
    (unfollowed : Unfollowed limits key used) : Uncrowded limits key used := by
  intro past initial
  cases found : lastUse? key past with
  | none =>
      simp only [rivals, found, List.dedup_nil, List.length_nil]
      exact limits.room_pos
  | some last =>
      have used : key ∈ past.map Prod.snd := List.mem_map_of_mem (mem_of_lastUse? found)
      apply Nat.lt_of_le_of_lt _ (unfollowed past initial used)
      apply length_le_dedup (List.nodup_dedup _)
      intro rival member
      exact rivals_subset_followers (apart.sublist initial.sublist) (List.mem_dedup.mp member)

end Rivals

section Followed

variable {κ : Type} [DecidableEq κ] {limits : Limits} {now : Instant} {key : κ}
  {past : List (Instant × κ)} {table : SessionTable κ}

/-! ### The slot of a key in a shared table -/

/-- A table after uses of some keys, in which the slot of each key knows its last use. -/
structure SessionTable.Follows (limits : Limits) (now : Instant) (past : List (Instant × κ))
    (table : SessionTable κ) : Prop where
  sound : table.Sound limits
  stamped : ∀ slot ∈ table.slots, lastUse? slot.key past = some slot.lastUsed
  before : ∀ use ∈ past, use.1 ≤ now

namespace SessionTable.Follows

theorem empty (limits : Limits) (now : Instant) :
    (SessionTable.empty : SessionTable κ).Follows limits now [] where
  sound := .empty limits
  stamped := nofun
  before := nofun

theorem later {later : Instant} (follows : table.Follows limits now past) (le : now ≤ later) :
    table.Follows limits later past where
  sound := follows.sound
  stamped := follows.stamped
  before := fun use member => Nat.le_trans (follows.before use member) le

theorem rearranged {other : SessionTable κ} (follows : table.Follows limits now past)
    (same : table.Rearranged other) : other.Follows limits now past where
  sound := follows.sound.rearranged same
  stamped := fun slot member => follows.stamped slot (same.mem_iff.mpr member)
  before := follows.before

theorem use {α : Type} (follows : table.Follows limits now past) (key : κ)
    (act : Session → α × Session) :
    (table.use limits key now act).2.Follows limits now (past ++ [(now, key)]) where
  sound := follows.sound.use key now act
  stamped := by
    intro slot member
    rw [use_slots] at member
    rcases List.mem_append.mp member with inOthers | last
    · rw [lastUse?_concat_of_ne (key_ne_of_mem_others inOthers).symm]
      exact follows.stamped slot ((others_sublist key now).subset inOthers)
    · rw [List.mem_singleton.mp last]
      exact lastUse?_concat_self key now past
  before := by
    intro use member
    rcases List.mem_append.mp member with early | last
    · exact follows.before use early
    · rw [List.mem_singleton.mp last]

theorem remove (follows : table.Follows limits now past) (key : κ) :
    (table.remove key).Follows limits now past where
  sound := follows.sound.remove key
  stamped := fun slot member => follows.stamped slot (List.mem_filter.mp member).1
  before := follows.before

/-- When a slot has gone unused for longest of all that live, these are no more than its
rivals with a new key among them. -/
theorem length_live_le {slot : Slot κ} (follows : table.Follows limits now past)
    (oldest : Oldest (table.slots.filter (Slot.live limits now)) slot) {other : κ}
    (new : ∀ slot ∈ table.slots, slot.key ≠ other) :
    (table.slots.filter (Slot.live limits now)).length ≤
      (rivals slot.key (past ++ [(now, other)])).dedup.length := by
  obtain ⟨inLive, least⟩ := oldest
  have member : slot ∈ table.slots := List.mem_of_mem_filter inLive
  have last : lastUse? slot.key (past ++ [(now, other)]) = some slot.lastUsed := by
    rw [lastUse?_concat_of_ne (new slot member).symm]
    exact follows.stamped slot member
  have keys : ((table.slots.filter (Slot.live limits now)).map Slot.key).Nodup :=
    (List.filter_sublist.map Slot.key).nodup follows.sound.keys
  -- the new key takes the place of that of the slot
  have count : (table.slots.filter (Slot.live limits now)).length =
      (other ::
        ((table.slots.filter (Slot.live limits now)).map Slot.key).erase slot.key).length := by
    have some := List.length_pos_of_mem inLive
    rw [List.length_cons, List.length_erase_of_mem (List.mem_map_of_mem inLive), List.length_map]
    omega
  rw [count]
  apply length_le_dedup
  · refine List.nodup_cons.mpr ⟨fun taken => ?_, keys.erase slot.key⟩
    obtain ⟨late, live, same⟩ := List.mem_map.mp (List.mem_of_mem_erase taken)
    exact new late (List.mem_of_mem_filter live) same
  · intro rival taken
    apply (mem_rivals last).mpr
    rcases List.mem_cons.mp taken with rfl | stored
    · refine ⟨(new slot member).symm, now, List.mem_append_right _ List.mem_cons_self, ?_⟩
      exact follows.before _ (mem_of_lastUse? (follows.stamped slot member))
    · obtain ⟨ne, stored⟩ := keys.mem_erase_iff.mp stored
      obtain ⟨late, live, rfl⟩ := List.mem_map.mp stored
      refine ⟨ne, late.lastUsed, List.mem_append_left _ ?_, least late live⟩
      exact mem_of_lastUse? (follows.stamped late (List.mem_of_mem_filter live))

/-- A live slot stays when another key is used, as long as there is room for its rivals,
this one included, and for itself. -/
theorem mem_others {slot : Slot κ} (follows : table.Follows limits now past)
    (member : slot ∈ table.slots) (live : slot.live limits now = true) {other : κ}
    (ne : other ≠ slot.key)
    (room : (rivals slot.key (past ++ [(now, other)])).dedup.length < limits.room) :
    slot ∈ table.others limits other now := by
  by_cases new : ∀ slot ∈ table.slots, slot.key ≠ other
  · rw [others_of_new new]
    have inLive : slot ∈ table.slots.filter (Slot.live limits now) :=
      List.mem_filter.mpr ⟨member, live⟩
    have keeps : KeepsLive limits now table.slots (makeRoom limits now table.slots) :=
      makeRoom_keepsLive follows.sound.bounded follows.sound.nodup
    unfold KeepsLive at keeps
    dsimp only at keeps
    split at keeps
    · exact (keeps slot).mpr inLive
    · rename_i full
      obtain ⟨victim, oldest, kept⟩ := keeps
      refine (kept slot).mpr ⟨inLive, ?_⟩
      rintro rfl
      exact full (Nat.lt_of_le_of_lt (follows.length_live_le oldest new) room)
  · obtain ⟨held, inTable, same⟩ : ∃ held ∈ table.slots, held.key = other := by
      simpa using new
    rw [others_of_stored inTable same]
    exact List.mem_filter.mpr ⟨member, decide_eq_true ne.symm⟩

/-- What is on view under a key stays so when another key is used, as long as there is
room for its rivals, this one included, and for itself. -/
theorem view_use_of_ne {α : Type} (follows : table.Follows limits now past) {other : κ}
    (ne : other ≠ key)
    (room : (rivals key (past ++ [(now, other)])).dedup.length < limits.room)
    (act : Session → α × Session) {later : Instant} (le : now ≤ later) :
    (table.use limits other now act).2.view limits key later =
      table.view limits key later := by
  by_cases lives : ∃ slot ∈ table.slots, slot.key = key ∧ slot.live limits later = true
  · obtain ⟨slot, member, rfl, live⟩ := lives
    have stays := follows.mem_others member (Slot.live_of_le le live) ne room
    have memberAfter : slot ∈ (table.use limits other now act).2.slots := by
      rw [use_slots]
      exact List.mem_append_left _ stays
    rw [view_of_live follows.sound.keys member live,
      view_of_live (follows.sound.use other now act).keys memberAfter live]
  · have expired : ∀ slot ∈ table.slots, slot.key = key → slot.live limits later = false := by
      intro slot member same
      by_contra live
      exact lives ⟨slot, member, same, by simpa using live⟩
    rw [view_of_expired expired]
    apply view_of_expired
    intro slot member same
    rw [use_slots] at member
    rcases List.mem_append.mp member with inOthers | last
    · exact expired slot ((others_sublist other now).subset inOthers) same
    · rw [List.mem_singleton.mp last] at same
      exact absurd same ne

end SessionTable.Follows

/-! ### A shared table beside one of its own -/

/-- The uses that a call at an instant makes. -/
def TableCall.usesAt (now : Instant) (asked : TableCall κ) : List (Instant × κ) :=
  asked.used.map fun key => (now, key)

/-- The shared table shows under a key what the table shows that the key has to itself. -/
structure Sharing (limits : Limits) (now : Instant) (key : κ) (past : List (Instant × κ))
    (shared alone : SessionTable κ) : Prop where
  follows : shared.Follows limits now past
  sound : alone.Sound limits
  view_eq : ∀ later, now ≤ later → shared.view limits key later = alone.view limits key later

namespace Sharing

variable {shared alone : SessionTable κ}

theorem empty (limits : Limits) (now : Instant) (key : κ) :
    Sharing limits now key [] .empty .empty where
  follows := .empty limits now
  sound := .empty limits
  view_eq := fun _ _ => rfl

theorem later {later : Instant} (sharing : Sharing limits now key past shared alone)
    (le : now ≤ later) : Sharing limits later key past shared alone where
  follows := sharing.follows.later le
  sound := sharing.sound
  view_eq := fun last after => sharing.view_eq last (Nat.le_trans le after)

/-- Both tables may be gone through in any other order. -/
theorem rearranged {shared' alone' : SessionTable κ}
    (sharing : Sharing limits now key past shared alone) (same : shared.Rearranged shared')
    (sameAlone : alone.Rearranged alone') : Sharing limits now key past shared' alone' where
  follows := sharing.follows.rearranged same
  sound := sharing.sound.rearranged sameAlone
  view_eq := by
    intro later le
    rw [SessionTable.view_rearranged sharing.follows.sound same,
      SessionTable.view_rearranged sharing.sound sameAlone]
    exact sharing.view_eq later le

/-- What is asked for the key itself is asked of both tables. -/
theorem own (sharing : Sharing limits now key past shared alone) {asked : TableCall κ}
    (same : asked.key = key) :
    Sharing limits now key (past ++ asked.usesAt now) (shared.call limits now asked).2
      (alone.call limits now asked).2 := by
  subst same
  cases asked with
  | use key change =>
      have now_eq := sharing.view_eq now (Nat.le_refl now)
      exact ⟨sharing.follows.use key fun session => (session, change session),
        sharing.sound.use key now fun session => (session, change session),
        fun later _ => SessionTable.view_use_congr now_eq
          (fun session => (session, change session)) later⟩
  | view key =>
      show Sharing limits now key (past ++ []) shared alone
      rw [List.append_nil]
      exact sharing
  | remove key =>
      show Sharing limits now key (past ++ []) (shared.remove key) (alone.remove key)
      rw [List.append_nil]
      refine ⟨sharing.follows.remove key, sharing.sound.remove key, fun later _ => ?_⟩
      exact (SessionTable.view_remove_self shared key later).trans
        (SessionTable.view_remove_self alone key later).symm

/-- What is asked for another key is asked of the shared table only. -/
theorem other (sharing : Sharing limits now key past shared alone) {asked : TableCall κ}
    (ne : asked.key ≠ key)
    (room : (rivals key (past ++ asked.usesAt now)).dedup.length < limits.room) :
    Sharing limits now key (past ++ asked.usesAt now) (shared.call limits now asked).2 alone := by
  cases asked with
  | use other change =>
      refine ⟨sharing.follows.use other fun session => (session, change session),
        sharing.sound, fun later le => ?_⟩
      rw [← sharing.view_eq later le]
      exact sharing.follows.view_use_of_ne ne room (fun session => (session, change session)) le
  | view other =>
      show Sharing limits now key (past ++ []) shared alone
      rw [List.append_nil]
      exact sharing
  | remove other =>
      show Sharing limits now key (past ++ []) (shared.remove other) alone
      rw [List.append_nil]
      refine ⟨sharing.follows.remove other, sharing.sound, fun later le => ?_⟩
      exact (SessionTable.view_remove_of_ne shared ne later).trans (sharing.view_eq later le)

end Sharing

end Followed

end Keypad
