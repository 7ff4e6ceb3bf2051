/-
Module: Keypad.Proofs.Json.Member
Layer: proofs
Purpose: The members of an object, and the record of one of them that has any value.
Trusted boundary: none
Main exports:
  Json.named, Json.single?_eq_some_iff, Json.readRecord_of_read?
-/
import Keypad.Log.Remote
import Keypad.Proofs.Json.Passing
import Mathlib.Data.List.DropRight

namespace Keypad.Json

variable {text rest : Text}

/-- The values that an object has under a name, in order. -/
def named (members : List (Text × Json)) (name : Text) : List Json :=
  (members.filter fun member => member.1 = name).map Prod.snd

theorem named_cons_self (name : Text) (value : Json) (members : List (Text × Json)) :
    named ((name, value) :: members) name = value :: named members name := by
  simp [named]

theorem named_cons_of_ne {name other : Text} (different : other ≠ name) (value : Json)
    (members : List (Text × Json)) :
    named ((other, value) :: members) name = named members name := by
  simp [named, different]

theorem single?_eq_some_iff {members : List (Text × Json)} {name : String} {value : Json} :
    RemoteLog.single? members name = some value ↔ named members name.toList = [value] := by
  unfold RemoteLog.single? named
  split
  case h_1 member only => simp [only]
  case h_2 several =>
    refine iff_of_false (by simp) fun only => ?_
    obtain ⟨member, shape, _⟩ := List.map_eq_singleton_iff.mp only
    exact several member shape

/-! ### The record of one member -/

section Record

variable {depth : Nat} {name : Text}

/-- The field whose value is any value that the depth allows. -/
def valueField (depth : Nat) (name : Text) : Field Json :=
  ⟨name, fun text => orMalformed (valueWithin? depth text)⟩

/-- Where the next member of an object is read: behind the opening brace, or behind a comma. -/
def Leads (first : Bool) (lead text : Text) : Prop :=
  (first = true ∧ skipBlanks lead = skipBlanks text) ∨
    (first = false ∧ skipBlanks lead = ',' :: text)

variable {first : Bool} {lead start behindName behindColon behind key : Text} {value : Json}
  {slot : Option Json}

/-- A member of another name is passed over. -/
theorem recordMembers_other (leads : Leads first lead text)
    (begins : skipBlanks text = '"' :: start) (key? : string? start = some (key, behindName))
    (other : key ≠ name) (colon? : skipBlanks behindName = ':' :: behindColon)
    (read : valueWithin? depth behindColon = some (value, behind)) (rounds : Nat) :
    recordMembers [valueField depth name] (rounds + 1) first [slot] lead =
      recordMembers [valueField depth name] rounds false [slot] behind := by
  have passed := passValue?_of_read read
  rw [recordMembers.eq_def]
  rcases leads with ⟨rfl, same⟩ | ⟨rfl, same⟩
  all_goals simp [same, begins, key?, orMalformed, valueField, Ne.symm other, colon, colon?, passed]

/-- The member of the field is read, if it has not been read before. -/
theorem recordMembers_own (leads : Leads first lead text)
    (begins : skipBlanks text = '"' :: start) (key? : string? start = some (name, behindName))
    (colon? : skipBlanks behindName = ':' :: behindColon)
    (read : valueWithin? depth behindColon = some (value, behind)) (rounds : Nat) :
    recordMembers [valueField depth name] (rounds + 1) first [none] lead =
      recordMembers [valueField depth name] rounds false [some value] behind := by
  rw [recordMembers.eq_def]
  rcases leads with ⟨rfl, same⟩ | ⟨rfl, same⟩
  all_goals simp [same, begins, key?, orMalformed, valueField, colon, colon?, read]

/-- One member is read; what has been found of the field, and what is still to come of it, stay
together what they were. -/
theorem recordMembers_member (leads : Leads first lead text)
    (begins : skipBlanks text = '"' :: start) (key? : string? start = some (key, behindName))
    (colon? : skipBlanks behindName = ':' :: behindColon)
    (read : valueWithin? depth behindColon = some (value, behind))
    {more : List (Text × Json)} {only : Json}
    (single : slot.toList ++ named ((key, value) :: more) name = [only]) (rounds : Nat) :
    ∃ found : Option Json, found.toList ++ named more name = [only] ∧
      recordMembers [valueField depth name] (rounds + 1) first [slot] lead =
        recordMembers [valueField depth name] rounds false [found] behind := by
  by_cases own : key = name
  case pos =>
    subst own
    rw [named_cons_self] at single
    cases slot with
    | none => exact ⟨some value, single, recordMembers_own leads begins key? colon? read rounds⟩
    | some before => simp at single
  case neg =>
    rw [named_cons_of_ne own] at single
    exact ⟨slot, single, recordMembers_other leads begins key? own colon? read rounds⟩

/-- Behind the last member nothing is left to be read. -/
theorem recordMembers_end {fields : List (Field Json)} {found : List (Option Json)}
    (ends : skipBlanks lead = '}' :: rest) (rounds : Nat) :
    recordMembers fields (rounds + 1) first found lead = .ok (found, rest) := by
  rw [recordMembers.eq_def]
  simp [ends]

/-- The members of an object are read as a record of the one member that has the name. -/
theorem recordMembers_of_membersFrom? {rounds : Nat} :
    ∀ {found : List (Text × Json)} {text : Text} {all : List (Text × Json)},
      membersFrom? (valueWithin? depth) rounds found text = some (.object all, rest) →
        ∃ more, all = found.reverse ++ more ∧
          ∀ {slot : Option Json} {rounds' : Nat} {first : Bool} {lead : Text},
            slot.toList ++ named more name = [value] → Leads first lead text →
              text.length < rounds' →
                recordMembers [valueField depth name] rounds' first [slot] lead =
                  .ok ([some value], rest) := by
  induction rounds with
  | zero => rintro found text all ⟨⟩
  | succ rounds inductionHypothesis =>
      intro found text all read
      rw [membersFrom?] at read
      split at read
      case h_2 => cases read
      case h_1 start begins =>
      obtain ⟨⟨key, behindName⟩, key?, read⟩ := Option.bind_eq_some_iff.mp read
      dsimp only at read
      split at read
      case h_2 => cases read
      case h_1 behindColon colon? =>
      obtain ⟨⟨value', behind⟩, taken, read⟩ := Option.bind_eq_some_iff.mp read
      have shorter : behind.length + 2 ≤ text.length := by
        have textLength := skipBlanks_length text
        have nameLength := skipBlanks_length behindName
        have nameShorter := (string?_passes key?).1
        have valueShorter := (valueWithin?_passes taken).1
        rw [begins, List.length_cons] at textLength
        rw [colon?, List.length_cons] at nameLength
        omega
      have behindLength := skipBlanks_length behind
      dsimp only at read
      split at read
      case h_1 next following =>
        rw [following, List.length_cons] at behindLength
        obtain ⟨more, rfl, goesOn⟩ := inductionHypothesis read
        refine ⟨(key, value') :: more, by simp, ?_⟩
        intro slot rounds' first lead single leads enough
        obtain ⟨rounds', rfl⟩ := Nat.exists_eq_succ_of_ne_zero (Nat.ne_zero_of_lt enough)
        obtain ⟨slot', single', step⟩ :=
          recordMembers_member leads begins key? colon? taken single rounds'
        rw [Nat.succ_eq_add_one, step]
        exact goesOn single' (.inr ⟨rfl, following⟩) (by omega)
      case h_2 next following =>
        cases read
        refine ⟨[(key, value')], by simp, ?_⟩
        intro slot rounds' first lead single leads enough
        obtain ⟨rounds', rfl⟩ := Nat.exists_eq_add_of_le' (show 2 ≤ rounds' by omega)
        obtain ⟨slot', single', step⟩ :=
          recordMembers_member leads begins key? colon? taken single (rounds' + 1)
        obtain rfl : slot' = some value := by simpa [named] using single'
        rw [step, recordMembers_end following]
      case h_3 => cases read

end Record

/-! ### The document of an object -/

theorem itemsFrom?_array {item : ValueReader} {rounds : Nat} {value : Json} :
    ∀ {found : List Json} {text : Text}, itemsFrom? item rounds found text = some (value, rest) →
      ∃ items, value = .array items := by
  induction rounds with
  | zero => rintro found text ⟨⟩
  | succ rounds inductionHypothesis =>
      intro found text read
      obtain ⟨⟨value', behind⟩, _, read⟩ := Option.bind_eq_some_iff.mp read
      dsimp only at read
      split at read
      · exact inductionHypothesis read
      · cases read
        exact ⟨_, rfl⟩
      · cases read

theorem scalar?_ne_object {members : List (Text × Json)} :
    scalar? text ≠ some (.object members, rest) := by
  intro read
  unfold scalar? at read
  split at read
  case h_5 =>
    obtain ⟨⟨number, rest'⟩, _, read⟩ := Option.bind_eq_some_iff.mp read
    obtain ⟨value, inRange, same⟩ := Option.bind_eq_some_iff.mp read
    cases same
    unfold Number.value? at inRange
    rcases ite_eq_iff.mp inRange with ⟨_, same⟩ | ⟨_, same⟩
    · exact absurd same (by simp)
    · exact absurd same (by simp)
  all_goals simp at read

/-- An object is read from its opening brace on. -/
theorem valueWithin?_object {depth : Nat} {members : List (Text × Json)}
    (read : valueWithin? (depth + 1) text = some (.object members, rest)) :
    ∃ inside, skipBlanks text = '{' :: inside ∧
      ((skipBlanks inside = '}' :: rest ∧ members = []) ∨
        membersFrom? (valueWithin? depth) ((skipBlanks inside).length + 1) [] (skipBlanks inside) =
          some (.object members, rest)) := by
  rw [valueWithin?] at read
  dsimp only at read
  split at read
  case h_1 =>
    split at read
    · cases read
    · obtain ⟨items, same⟩ := itemsFrom?_array read
      cases same
  case h_2 inside begins =>
    refine ⟨inside, begins, ?_⟩
    split at read
    case h_1 behind empty =>
      cases read
      exact .inl ⟨empty, rfl⟩
    case h_2 => exact .inr read
  case h_3 => exact absurd read scalar?_ne_object

/-- The object that a text holds is read as a record of the one value that it has under a
name. -/
theorem readRecord_of_read? {members : List (Text × Json)} {name : Text} {value : Json}
    (read : read? text = some (.object members)) (single : named members name = [value]) :
    readRecord [valueField (deepest - 1) name] text = .ok [value] := by
  obtain ⟨⟨whole, behind⟩, taken, read⟩ := Option.bind_eq_some_iff.mp read
  dsimp only at read
  split at read
  case isFalse => cases read
  case isTrue ends =>
  obtain rfl := Option.some.inj read
  have taken : valueWithin? (deepest - 1 + 1) text = some (.object members, behind) := taken
  obtain ⟨inside, begins, empty | within⟩ := valueWithin?_object taken
  case inl =>
    obtain ⟨_, rfl⟩ := empty
    cases single
  case inr =>
    obtain ⟨more, rfl, goesOn⟩ := recordMembers_of_membersFrom? within
    have found : recordMembers [valueField (deepest - 1) name] (inside.length + 1) true [none]
        inside = .ok ([some value], behind) := by
      have onlyOne : Option.toList none ++ named members name = [value] := single
      apply goesOn onlyOne
      · exact .inl ⟨rfl, (List.dropWhile_idempotent _ _).symm⟩
      · exact Nat.lt_succ_of_le (skipBlanks_length inside)
    have record : recordAt [valueField (deepest - 1) name] text = .ok ([value], behind) := by
      simp only [recordAt, begins, List.map_cons, List.map_nil, found]
      rfl
    rw [readRecord, record]
    exact if_pos ends

end Keypad.Json
