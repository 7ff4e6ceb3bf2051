/-
Module: Keypad.Proofs.Json.PlainText
Layer: proofs
Purpose: Texts that stand in a JSON document as they are, and the record of one of them.
Trusted boundary: none
Main exports: Json.isPlain, Json.string?_plain, Json.textRecord, Json.readRecord_textRecord
-/
import Keypad.Json.Record

namespace Keypad.Json

/-- The characters that stand in a string as they are. -/
def isPlain (c : Char) : Bool := c ≠ '"' && c ≠ '\\' && 0x20 ≤ c.toNat

/-- The document of a record whose only field has a text for its value. -/
def textRecord (name value : Text) : Text :=
  '{' :: '"' :: (name ++ '"' :: ':' :: '"' :: (value ++ ['"', '}']))

variable {text : Text}

/-- A string of plain characters is read to its closing quotation mark. -/
theorem stringFrom?_plain (plain : ∀ c ∈ text, isPlain c = true) (rest : Text) :
    ∀ {rounds : Nat} (found : Text), text.length ≤ rounds →
      stringFrom? (rounds + 1) found (text ++ '"' :: rest) =
        some (found.reverse ++ text, rest) := by
  induction text with
  | nil =>
      intro rounds found _
      simp [stringFrom?]
  | cons c text inductionHypothesis =>
      intro rounds found enough
      obtain ⟨first, others⟩ := List.forall_mem_cons.mp plain
      simp only [isPlain, Bool.and_eq_true, decide_eq_true_eq] at first
      obtain ⟨⟨notQuote, notEscape⟩, printable⟩ := first
      cases rounds with
      | zero => cases enough
      | succ rounds =>
          rw [List.cons_append, stringFrom?.eq_def]
          simp only [notQuote, notEscape, Nat.not_lt.mpr printable, if_false]
          rw [inductionHypothesis others (c :: found) (Nat.le_of_succ_le_succ enough),
            List.reverse_cons, List.append_assoc, List.singleton_append]

theorem string?_plain (plain : ∀ c ∈ text, isPlain c = true) (rest : Text) :
    string? (text ++ '"' :: rest) = some (text, rest) := by
  apply stringFrom?_plain plain rest []
  rw [List.length_append]
  exact Nat.le_add_right _ _

/-- What begins a word is not skipped. -/
theorem skipBlanks_word {c : Char} (word : isGap c = false) (rest : Text) :
    skipBlanks (c :: rest) = c :: rest :=
  List.dropWhile_cons_of_neg (by simp [word])

/-- A string of plain characters is read as these characters. -/
theorem readText_plain (plain : ∀ c ∈ text, isPlain c = true) (rest : Text) :
    readText ('"' :: (text ++ '"' :: rest)) = .ok (text, rest) := by
  have start := skipBlanks_word (show isGap '"' = false from rfl) (text ++ '"' :: rest)
  simp only [readText, start, string?_plain plain, orMalformed]

section Record

variable {name value : Text}

/-- Nothing is left to be read behind the only member. -/
theorem recordMembers_close (rounds : Nat) :
    recordMembers [⟨name, readText⟩] (rounds + 1) false [some value] ['}'] =
      .ok ([some value], []) :=
  recordMembers.eq_2 _ _ _ _ _ _ rfl

/-- The only member is read as the value of the field. -/
theorem recordMembers_textRecord (plainName : ∀ c ∈ name, isPlain c = true)
    (plainValue : ∀ c ∈ value, isPlain c = true) (rounds : Nat) :
    recordMembers [⟨name, readText⟩] (rounds + 2) true [none]
      ('"' :: (name ++ '"' :: ':' :: '"' :: (value ++ ['"', '}']))) =
      .ok ([some value], []) := by
  rw [recordMembers.eq_def]
  simp [skipBlanks_word (show isGap '"' = false from rfl), string?_plain plainName, orMalformed,
    colon, skipBlanks_word (show isGap ':' = false from rfl), readText_plain plainValue,
    recordMembers_close, bind, Except.bind]

/-- A record of one plain text is read as this text. -/
theorem readRecord_textRecord (plainName : ∀ c ∈ name, isPlain c = true)
    (plainValue : ∀ c ∈ value, isPlain c = true) :
    readRecord [⟨name, readText⟩] (textRecord name value) = .ok [value] := by
  unfold readRecord recordAt textRecord
  rw [skipBlanks_word (show isGap '{' = false from rfl)]
  simp only [List.length_cons, List.map_cons, List.map_nil,
    recordMembers_textRecord plainName plainValue]
  rfl

end Record

end Keypad.Json
