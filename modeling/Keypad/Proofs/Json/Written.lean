/-
Module: Keypad.Proofs.Json.Written
Layer: proofs
Purpose: Writing strings, integers, arrays and objects so that they are read back.
Trusted boundary: none
Main exports:
  Json.stringText, Json.integerText, Json.arrayText, Json.objectText, Json.Reads,
  Json.reads_stringText, Json.reads_integerText, Json.reads_arrayText, Json.reads_objectText,
  Json.Reads.read?
-/
import Keypad.Json.Read
import Keypad.Proofs.Json.PlainText
import Keypad.Proofs.Number.Literal
import Keypad.Web.Url

namespace Keypad.Json

/-! ### Texts -/

/-- A character as it stands in a string. -/
def escaped (c : Char) : Text :=
  if c = '"' then ['\\', '"']
  else if c = '\\' then ['\\', '\\']
  else if c.toNat < 0x20 then
    ['\\', 'u', '0', '0', Url.hexDigit (c.toNat / 16), Url.hexDigit (c.toNat % 16)]
  else [c]

/-- A text as a string. -/
def stringText (text : Text) : Text := '"' :: (text.flatMap escaped ++ ['"'])

/-- An integer in decimal digits. -/
def integerText (value : Int) : Text :=
  if value < 0 then '-' :: Nat.toDigits 10 value.natAbs else Nat.toDigits 10 value.natAbs

/-- Texts with commas between them. -/
def joined : List Text → Text
  | [] => []
  | [text] => text
  | text :: next :: rest => text ++ ',' :: joined (next :: rest)

/-- An array of written items. -/
def arrayText (items : List Text) : Text := '[' :: (joined items ++ [']'])

/-- A member with a written value. -/
def memberText (member : Text × Text) : Text := stringText member.1 ++ ':' :: member.2

/-- An object of members with written values. -/
def objectText (members : List (Text × Text)) : Text :=
  '{' :: (joined (members.map memberText) ++ ['}'])

/-! ### Reading them back -/

/-- What may stand behind a value within an array or an object. -/
def Closes (rest : Text) : Prop := ∀ c ∈ rest.head?, c = ',' ∨ c = ']' ∨ c = '}'

/-- A text that is read as a value, whatever closes it. -/
structure Reads (depth : Nat) (text : Text) (value : Json) : Prop where
  begins : ∃ c behind, text = c :: behind ∧ isGap c = false ∧ c ≠ ']' ∧ c ≠ '}'
  reads : ∀ rest, Closes rest → valueWithin? depth (text ++ rest) = some (value, rest)

variable {depth : Nat} {rest : Text}

/-- What begins neither an array nor an object is a scalar at every depth. -/
theorem valueWithin?_scalar {c : Char} (word : isGap c = false) (notArray : c ≠ '[')
    (notObject : c ≠ '{') (depth : Nat) (behind : Text) :
    valueWithin? depth (c :: behind) = scalar? (c :: behind) := by
  cases depth
  all_goals
    rw [valueWithin?]
    dsimp only
    rw [skipBlanks_word word]
    split
    case h_1 same => exact absurd (List.cons.inj same).1 notArray
    case h_2 same => exact absurd (List.cons.inj same).1 notObject
    case h_3 => rfl

theorem codeUnit?_control {n : Nat} (control : n < 0x20) (rest : Text) :
    codeUnit? ('0' :: '0' :: Url.hexDigit (n / 16) :: Url.hexDigit (n % 16) :: rest) =
      some (n, rest) := by
  have digit : ∀ value < 16, hexValue? (Url.hexDigit value) = some value := by decide
  have zero : hexValue? '0' = some 0 := by decide
  have value : ((0 * 16 + 0) * 16 + n / 16) * 16 + n % 16 = n := by omega
  simp only [codeUnit?, List.mapM_cons, List.mapM_nil, zero, digit (n / 16) (by omega),
    digit (n % 16) (by omega)]
  exact congrArg (fun unit => some (unit, rest)) value

theorem unicodeEscape?_control {c : Char} (control : c.toNat < 0x20) (rest : Text) :
    unicodeEscape?
        ('0' :: '0' :: Url.hexDigit (c.toNat / 16) :: Url.hexDigit (c.toNat % 16) :: rest) =
      some (c, rest) := by
  have notTrailing : isTrailing c.toNat = false := by
    rw [isTrailing, Bool.and_eq_false_iff]
    exact .inl (decide_eq_false (by omega))
  have notLeading : isLeading c.toNat = false := by
    rw [isLeading, Bool.and_eq_false_iff]
    exact .inl (decide_eq_false (by omega))
  simp only [unicodeEscape?, codeUnit?_control control]
  show (if isTrailing c.toNat then none else if isLeading c.toNat then _ else some _) = _
  rw [notTrailing, notLeading, Char.ofNat_toNat]
  rfl

/-- A string is read as the text that is written in it. -/
theorem stringFrom?_escaped (rest : Text) {text : Text} :
    ∀ {rounds : Nat} (found : Text), text.length < rounds →
      stringFrom? rounds found (text.flatMap escaped ++ '"' :: rest) =
        some (found.reverse ++ text, rest) := by
  induction text with
  | nil =>
      intro rounds found enough
      obtain ⟨rounds, rfl⟩ := Nat.exists_eq_succ_of_ne_zero (Nat.ne_zero_of_lt enough)
      simp [stringFrom?]
  | cons c text inductionHypothesis =>
      intro rounds found enough
      obtain ⟨rounds, rfl⟩ := Nat.exists_eq_succ_of_ne_zero (Nat.ne_zero_of_lt enough)
      have others := inductionHypothesis (c :: found) (Nat.lt_of_succ_lt_succ enough)
      rw [List.reverse_cons, List.append_assoc, List.singleton_append] at others
      rw [List.flatMap_cons, List.append_assoc, ← others, escaped, stringFrom?.eq_def]
      by_cases quote : c = '"'
      case pos => simp [quote, simpleEscape?]
      by_cases escape : c = '\\'
      case pos => simp [escape, simpleEscape?]
      by_cases control : c.toNat < 0x20
      case pos => simp [quote, escape, control, unicodeEscape?_control control]
      case neg => simp [quote, escape, control]

theorem length_le_flatMap_escaped (text : Text) : text.length ≤ (text.flatMap escaped).length := by
  induction text with
  | nil => exact Nat.zero_le _
  | cons c text inductionHypothesis =>
      have some : 1 ≤ (escaped c).length := by
        rw [escaped]
        split
        · decide
        · split
          · decide
          · split
            · exact Nat.succ_le_succ (Nat.zero_le _)
            · exact Nat.le_refl _
      rw [List.flatMap_cons, List.length_append, List.length_cons]
      omega

theorem string?_escaped (text rest : Text) :
    string? (text.flatMap escaped ++ '"' :: rest) = some (text, rest) := by
  apply stringFrom?_escaped rest []
  have := length_le_flatMap_escaped text
  rw [List.length_append]
  omega

/-- A written string is read as its text. -/
theorem reads_stringText (text : Text) (depth : Nat) :
    Reads depth (stringText text) (.string text) where
  begins := ⟨'"', _, rfl, rfl, by decide, by decide⟩
  reads rest _ := by
    have shape : stringText text ++ rest = '"' :: (text.flatMap escaped ++ '"' :: rest) := by
      simp [stringText]
    rw [shape, valueWithin?_scalar rfl (by decide) (by decide)]
    show (string? _).map _ = _
    rw [string?_escaped]
    rfl

/-! ### Integers -/

/-- No number but zero begins with a zero. -/
theorem toDigits_head?_ne {n : Nat} (positive : 0 < n) :
    (Nat.toDigits 10 n).head? ≠ some '0' := by
  induction n using Nat.strongRecOn with
  | _ n inductionHypothesis =>
      by_cases small : n < 10
      case pos =>
        have digit : ∀ value < 10, 0 < value → some (Nat.digitChar value) ≠ some '0' := by decide
        rw [Nat.toDigits_of_lt_base small]
        exact digit n small positive
      case neg =>
        rw [Nat.toDigits_of_base_le (by decide) (Nat.not_lt.mp small),
          List.head?_append_of_ne_nil _ Nat.toDigits_ne_nil]
        exact inductionHypothesis (n / 10) (by omega) (by omega)

theorem Closes.not_digit {rest : Text} (closes : Closes rest) :
    rest.takeWhile Char.isDigit = [] ∧ rest.dropWhile Char.isDigit = rest := by
  cases rest with
  | nil => exact ⟨rfl, rfl⟩
  | cons c rest =>
      have other : c.isDigit = false := by
        rcases closes c rfl with rfl | rfl | rfl
        all_goals rfl
      simp [other]

theorem digits?_toDigits (n : Nat) {rest : Text} (closes : Closes rest) :
    digits? (Nat.toDigits 10 n ++ rest) = some (Nat.toDigits 10 n, rest) := by
  have digits : ∀ c ∈ Nat.toDigits 10 n, c.isDigit = true := Digits.toDigits n
  have taken : (Nat.toDigits 10 n ++ rest).takeWhile Char.isDigit = Nat.toDigits 10 n := by
    rw [List.takeWhile_append_of_pos digits, closes.not_digit.1, List.append_nil]
  have some : (Nat.toDigits 10 n).isEmpty = false := by
    simp
  rw [digits?]
  simp only [taken, some, Bool.false_eq_true, if_false]
  rw [List.dropWhile_append_of_pos digits, closes.not_digit.2]

theorem Closes.no_exponent {rest : Text} (closes : Closes rest) :
    exponent? rest = some (none, rest) := by
  cases rest with
  | nil => rfl
  | cons c rest =>
      rcases closes c rfl with rfl | rfl | rfl
      all_goals rfl

/-- The digits of a number are read behind either sign. -/
theorem passNumber?_toDigits (negative : Bool) (n : Nat) {rest : Text} (closes : Closes rest) :
    passNumber? ((if negative then ['-'] else []) ++ (Nat.toDigits 10 n ++ rest)) =
      some (⟨negative, Nat.toDigits 10 n, [], none⟩, rest) := by
  have leading : ((Nat.toDigits 10 n).head? = some '0' && (Nat.toDigits 10 n).length ≠ 1) =
      false := by
    rcases Nat.eq_zero_or_pos n with rfl | positive
    · rfl
    · simp [toDigits_head?_ne positive]
  have unsigned : ∀ tail, Nat.toDigits 10 n ++ rest ≠ '-' :: tail := by
    intro tail same
    have first : '-' ∈ Nat.toDigits 10 n := by
      have written : Nat.toDigits 10 n ≠ [] := Nat.toDigits_ne_nil
      obtain ⟨c, digits, shape⟩ := List.exists_cons_of_ne_nil written
      rw [shape, List.cons_append] at same
      rw [shape, (List.cons.inj same).1]
      exact List.mem_cons_self
    exact absurd (Digits.toDigits n _ first) (by decide)
  have digits := digits?_toDigits n closes
  have exponent := closes.no_exponent
  have noPoint : ∀ tail, rest ≠ '.' :: tail := by
    rintro tail rfl
    rcases closes '.' rfl with same | same | same
    all_goals exact absurd same (by decide)
  cases negative with
  | true =>
      simp only [passNumber?, if_true, List.cons_append, List.nil_append, digits,
        Option.bind_eq_bind, Option.bind_some, leading, Bool.false_eq_true, if_false, exponent,
        Option.pure_def]
  | false =>
      simp only [passNumber?, Bool.false_eq_true, if_false, List.nil_append, digits,
        Option.bind_eq_bind, Option.bind_some, leading, exponent, Option.pure_def]

/-- An integer of 64 bits is the value of its digits behind its sign. -/
theorem value?_toDigits {value : Int}
    (range : -(Nat.pow 2 63 : Int) ≤ value ∧ value < (Nat.pow 2 63 : Int)) :
    Number.value? ⟨decide (value < 0), Nat.toDigits 10 value.natAbs, [], none⟩ =
      some (.integer value) := by
  have bounds : Nat.pow 2 63 = 9223372036854775808 ∧ largestSignificand = 18446744073709551615 := by
    decide +kernel
  rw [bounds.1] at range
  simp only [Number.value?, Nat.ofDigitChars_ten_toDigits, bounds]
  by_cases negative : value < 0
  case pos =>
    have magnitude : 0 < value.natAbs ∧ value.natAbs ≤ 9223372036854775808 := by omega
    have back : -(value.natAbs : Int) = value := by omega
    simp only [negative, decide_true, magnitude, if_true, back]
    rfl
  case neg =>
    have magnitude : value.natAbs ≤ 18446744073709551615 := by omega
    have back : (value.natAbs : Int) = value := by omega
    simp only [negative, decide_false, magnitude, Bool.false_eq_true, if_false, back]
    rfl

theorem scalar?_number {c : Char} (digit : c.isDigit = true ∨ c = '-') (behind : Text) :
    scalar? (c :: behind) = number? (c :: behind) := by
  unfold scalar?
  split
  case h_5 => rfl
  all_goals
    rename_i same
    obtain ⟨rfl, _⟩ := List.cons.inj same
    exact absurd digit (by decide)

theorem integerText_eq (value : Int) :
    integerText value =
      (if decide (value < 0) then ['-'] else []) ++ Nat.toDigits 10 value.natAbs := by
  by_cases negative : value < 0
  case pos => simp [integerText, negative]
  case neg => simp [integerText, negative]

theorem integerText_begins (value : Int) :
    ∃ c behind, integerText value = c :: behind ∧ (c.isDigit = true ∨ c = '-') := by
  rw [integerText]
  split
  · exact ⟨'-', _, rfl, .inr rfl⟩
  · obtain ⟨c, digits, shape⟩ :=
      List.exists_cons_of_ne_nil (Nat.toDigits_ne_nil (n := value.natAbs) (b := 10))
    refine ⟨c, digits, shape, .inl (Digits.toDigits value.natAbs c ?_)⟩
    rw [shape]
    exact List.mem_cons_self

/-- A written integer of 64 bits is read as itself. -/
theorem reads_integerText {value : Int}
    (range : -(Nat.pow 2 63 : Int) ≤ value ∧ value < (Nat.pow 2 63 : Int)) (depth : Nat) :
    Reads depth (integerText value) (.integer value) := by
  obtain ⟨c, behind, shape, digit⟩ := integerText_begins value
  have other {d : Char} (differs : ¬(d.isDigit = true ∨ d = '-')) : c ≠ d := by
    rintro rfl
    exact differs digit
  have plain : isGap c = false ∧ c ≠ '[' ∧ c ≠ '{' ∧ c ≠ ']' ∧ c ≠ '}' := by
    refine ⟨?_, other (by decide), other (by decide), other (by decide), other (by decide)⟩
    simp only [isGap, Bool.or_eq_false_iff, decide_eq_false_iff_not]
    exact ⟨⟨⟨other (by decide), other (by decide)⟩, other (by decide)⟩, other (by decide)⟩
  refine ⟨⟨c, behind, shape, plain.1, plain.2.2.2⟩, fun rest closes => ?_⟩
  rw [shape, List.cons_append, valueWithin?_scalar plain.1 plain.2.1 plain.2.2.1,
    scalar?_number digit, ← List.cons_append, ← shape, integerText_eq, List.append_assoc, number?,
    passNumber?_toDigits _ _ closes]
  simp only [Option.bind_eq_bind, Option.bind_some, value?_toDigits range, Option.pure_def]

/-! ### Arrays and objects -/

theorem closes_cons {c : Char} (closing : c = ',' ∨ c = ']' ∨ c = '}') (rest : Text) :
    Closes (c :: rest) := by
  intro d first
  obtain rfl := Option.some.inj first
  exact closing

theorem length_le_joined (texts : List Text) : texts.length ≤ (joined texts).length + 1 := by
  induction texts with
  | nil => exact Nat.zero_le _
  | cons text texts inductionHypothesis =>
      cases texts with
      | nil => simp
      | cons next rest =>
          simp only [joined, List.length_append, List.length_cons] at inductionHypothesis ⊢
          omega

theorem joined_cons (text : Text) (texts : List Text) :
    ∃ more, joined (text :: texts) = text ++ more := by
  cases texts with
  | nil => exact ⟨[], (List.append_nil text).symm⟩
  | cons next rest => exact ⟨',' :: joined (next :: rest), rfl⟩

theorem itemsFrom?_joined {first : Text} {texts : List Text} {value : Json} {values : List Json}
    (reads : Reads depth first value) (others : List.Forall₂ (Reads depth) texts values)
    (rest : Text) :
    ∀ {rounds : Nat} (found : List Json), texts.length < rounds →
      itemsFrom? (valueWithin? depth) rounds found (joined (first :: texts) ++ ']' :: rest) =
        some (.array (found.reverse ++ value :: values), rest) := by
  induction others generalizing first value with
  | nil =>
      intro rounds found enough
      obtain ⟨rounds, rfl⟩ := Nat.exists_eq_succ_of_ne_zero (Nat.ne_zero_of_lt enough)
      rw [joined, itemsFrom?, reads.reads _ (closes_cons (by simp) rest)]
      simp [skipBlanks_word (show isGap ']' = false from rfl)]
  | @cons next nextValue texts values nextReads _ inductionHypothesis =>
      intro rounds found enough
      obtain ⟨rounds, rfl⟩ := Nat.exists_eq_succ_of_ne_zero (Nat.ne_zero_of_lt enough)
      rw [joined, List.append_assoc, List.cons_append, itemsFrom?,
        reads.reads _ (closes_cons (by simp) _)]
      simp only [Option.bind_eq_bind, Option.bind_some,
        skipBlanks_word (show isGap ',' = false from rfl)]
      rw [inductionHypothesis nextReads _ (Nat.lt_of_succ_lt_succ enough)]
      simp

/-- A written array is read as the values of its items. -/
theorem reads_arrayText {texts : List Text} {values : List Json}
    (reads : List.Forall₂ (Reads depth) texts values) :
    Reads (depth + 1) (arrayText texts) (.array values) := by
  refine ⟨⟨'[', _, rfl, rfl, by decide, by decide⟩, fun rest _ => ?_⟩
  have shape : arrayText texts ++ rest = '[' :: (joined texts ++ ']' :: rest) := by
    simp [arrayText]
  rw [shape, valueWithin?]
  simp only [skipBlanks_word (show isGap '[' = false from rfl)]
  cases reads with
  | nil => simp [joined, skipBlanks_word (show isGap ']' = false from rfl)]
  | @cons first value texts values firstReads others =>
      have enough : texts.length < (joined (first :: texts) ++ ']' :: rest).length + 1 := by
        have short := length_le_joined (first :: texts)
        simp only [List.length_append, List.length_cons] at short ⊢
        omega
      have items := itemsFrom?_joined firstReads others rest [] enough
      obtain ⟨c, behind, begins, word, notClosing, _⟩ := firstReads.begins
      obtain ⟨more, front⟩ := joined_cons first texts
      have whole : joined (first :: texts) ++ ']' :: rest =
          c :: (behind ++ (more ++ ']' :: rest)) := by
        rw [front, begins]
        simp
      rw [whole] at items ⊢
      rw [skipBlanks_word word]
      split
      · exact absurd (List.cons.inj ‹_›).1 notClosing
      · exact items

/-! ### Objects -/

/-- A member whose value is read. -/
def MemberReads (depth : Nat) (written : Text × Text) (member : Text × Json) : Prop :=
  written.1 = member.1 ∧ Reads depth written.2 member.2

theorem memberText_eq (written : Text × Text) (rest : Text) :
    memberText written ++ rest = '"' :: (written.1.flatMap escaped ++ '"' :: ':' ::
      (written.2 ++ rest)) := by
  simp [memberText, stringText]

/-- A member is read up to the value, and then the value is. -/
theorem membersFrom?_memberText {written : Text × Text} {member : Text × Json}
    (reads : MemberReads depth written member) {rest : Text} (closes : Closes rest)
    (rounds : Nat) (found : List (Text × Json)) :
    membersFrom? (valueWithin? depth) (rounds + 1) found (memberText written ++ rest) =
      match skipBlanks rest with
      | ',' :: rest => membersFrom? (valueWithin? depth) rounds (member :: found) rest
      | '}' :: rest => some (.object (member :: found).reverse, rest)
      | _ => none := by
  obtain ⟨sameName, value⟩ := reads
  rw [memberText_eq, membersFrom?, skipBlanks_word rfl]
  simp only [string?_escaped, Option.bind_eq_bind, Option.bind_some,
    skipBlanks_word (show isGap ':' = false from rfl), value.reads rest closes, sameName]
  rfl

theorem membersFrom?_joined {first : Text × Text} {writtens : List (Text × Text)}
    {member : Text × Json} {members : List (Text × Json)} (reads : MemberReads depth first member)
    (others : List.Forall₂ (MemberReads depth) writtens members) (rest : Text) :
    ∀ {rounds : Nat} (found : List (Text × Json)), writtens.length < rounds →
      membersFrom? (valueWithin? depth) rounds found
          (joined ((first :: writtens).map memberText) ++ '}' :: rest) =
        some (.object (found.reverse ++ member :: members), rest) := by
  induction others generalizing first member with
  | nil =>
      intro rounds found enough
      obtain ⟨rounds, rfl⟩ := Nat.exists_eq_succ_of_ne_zero (Nat.ne_zero_of_lt enough)
      rw [List.map_cons, List.map_nil, joined,
        membersFrom?_memberText reads (closes_cons (by simp) rest),
        skipBlanks_word (show isGap '}' = false from rfl)]
      simp
  | cons nextReads _ inductionHypothesis =>
      intro rounds found enough
      obtain ⟨rounds, rfl⟩ := Nat.exists_eq_succ_of_ne_zero (Nat.ne_zero_of_lt enough)
      rw [List.map_cons, List.map_cons, joined, List.append_assoc, List.cons_append,
        membersFrom?_memberText reads (closes_cons (by simp) _),
        skipBlanks_word (show isGap ',' = false from rfl), ← List.map_cons]
      simp only
      rw [inductionHypothesis nextReads _ (Nat.lt_of_succ_lt_succ enough)]
      simp

/-- A written object is read as its members with their values. -/
theorem reads_objectText {writtens : List (Text × Text)} {members : List (Text × Json)}
    (reads : List.Forall₂ (MemberReads depth) writtens members) :
    Reads (depth + 1) (objectText writtens) (.object members) := by
  refine ⟨⟨'{', _, rfl, rfl, by decide, by decide⟩, fun rest _ => ?_⟩
  have shape : objectText writtens ++ rest =
      '{' :: (joined (writtens.map memberText) ++ '}' :: rest) := by
    simp [objectText]
  rw [shape, valueWithin?]
  simp only [skipBlanks_word (show isGap '{' = false from rfl)]
  cases reads with
  | nil => simp [joined, skipBlanks_word (show isGap '}' = false from rfl)]
  | @cons first member writtens members firstReads others =>
      have enough : writtens.length <
          (joined ((first :: writtens).map memberText) ++ '}' :: rest).length + 1 := by
        have short := length_le_joined ((first :: writtens).map memberText)
        simp only [List.length_append, List.length_cons, List.length_map] at short ⊢
        omega
      have found := membersFrom?_joined firstReads others rest [] enough
      obtain ⟨more, front⟩ := joined_cons (memberText first) (writtens.map memberText)
      have whole : ∃ behind, joined ((first :: writtens).map memberText) ++ '}' :: rest =
          '"' :: behind := by
        rw [List.map_cons, front, List.append_assoc, memberText_eq]
        exact ⟨_, rfl⟩
      obtain ⟨behind, whole⟩ := whole
      rw [whole] at found ⊢
      rw [skipBlanks_word rfl]
      exact found

/-- A text that is read within the depth of a document is one. -/
theorem Reads.read? {text : Text} {value : Json} (reads : Reads deepest text value) :
    read? text = some value := by
  have whole := reads.reads [] (by rintro c ⟨⟩)
  rw [List.append_nil] at whole
  rw [Json.read?, whole]
  rfl

end Keypad.Json
