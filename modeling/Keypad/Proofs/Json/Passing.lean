/-
Module: Keypad.Proofs.Json.Passing
Layer: proofs
Purpose: What is read as a value is passed over as one.
Trusted boundary: none
Main exports:
  Json.stringFrom?_passes, Json.scalar?_passes, Json.Passes, Json.valueWithin?_passes,
  Json.passValue?_of_read
-/
import Keypad.Json.Read

namespace Keypad.Json

/-!
A value that is read with its contents takes the same characters as when it is passed over.
The reader goes down into arrays and objects, while passing over keeps what encloses the place
in a list of frames; so what is shown of a value is that passing over goes on behind it,
whatever encloses it.
-/

variable {text rest : Text}

/-! ### Words -/

theorem literal?_eq {expected : Text} (taken : literal? expected text = some rest) :
    text = expected ++ rest := by
  unfold literal? at taken
  split at taken
  case isTrue begins =>
    obtain rfl := Option.some.inj taken
    obtain ⟨rest, rfl⟩ := List.isPrefixOf_iff_prefix.mp begins
    simp
  case isFalse => cases taken

theorem literal?_append (expected rest : Text) :
    literal? expected (expected ++ rest) = some rest := by
  simp [literal?]

theorem codeUnit?_length {unit : Nat} (taken : codeUnit? text = some (unit, rest)) :
    rest.length < text.length := by
  unfold codeUnit? at taken
  split at taken
  · obtain ⟨digits, _, same⟩ := Option.bind_eq_some_iff.mp taken
    cases same
    simp only [List.length_cons]
    omega
  · cases taken

/-- Behind `\u` there is a code unit, and a second one behind `\u` where the character is one
of a pair. -/
theorem unicodeEscape?_cases {c : Char} (taken : unicodeEscape? text = some (c, rest)) :
    ∃ unit behind, codeUnit? text = some (unit, behind) ∧
      (rest = behind ∨ ∃ pair second, behind = '\\' :: 'u' :: pair ∧
        codeUnit? pair = some (second, rest)) := by
  obtain ⟨⟨unit, behind⟩, first, taken⟩ := Option.bind_eq_some_iff.mp taken
  refine ⟨unit, behind, first, ?_⟩
  by_cases trailing : isTrailing unit = true
  case pos => simp only [trailing, if_true, reduceCtorEq] at taken
  simp only [trailing, Bool.false_eq_true, if_false] at taken
  by_cases leading : isLeading unit = true
  case pos =>
    rw [if_pos leading] at taken
    obtain ⟨pair, escaped, taken⟩ := Option.bind_eq_some_iff.mp taken
    obtain ⟨⟨second, last⟩, unit?, taken⟩ := Option.bind_eq_some_iff.mp taken
    refine .inr ⟨pair, second, literal?_eq escaped, ?_⟩
    by_cases ends : isTrailing second = true
    case pos =>
      simp only [ends, if_true] at taken
      rw [unit?, (Prod.mk.inj (Option.some.inj taken)).2]
    case neg => simp only [ends, Bool.false_eq_true, if_false, reduceCtorEq] at taken
  case neg =>
    rw [if_neg leading] at taken
    exact .inl (Prod.mk.inj (Option.some.inj taken)).2.symm

/-- A string is passed over up to `rest`, and it takes some of the text. -/
def PassesString (text rest : Text) : Prop :=
  rest.length < text.length ∧
    ∀ rounds, text.length < rounds → passString?.go rounds text = some rest

theorem PassesString.step {behind : Text} (passes : PassesString behind rest)
    (shorter : behind.length < text.length)
    (step : ∀ rounds, passString?.go (rounds + 1) text = passString?.go rounds behind) :
    PassesString text rest := by
  refine ⟨Nat.lt_trans passes.1 shorter, fun rounds enough => ?_⟩
  obtain ⟨rounds, rfl⟩ := Nat.exists_eq_succ_of_ne_zero (Nat.ne_zero_of_lt enough)
  rw [Nat.succ_eq_add_one, step, passes.2 rounds (by omega)]

theorem PassesString.codeUnit {unit : Nat} {behind : Text} (passes : PassesString behind rest)
    (taken : codeUnit? text = some (unit, behind)) :
    PassesString ('\\' :: 'u' :: text) rest := by
  apply passes.step
  · have := codeUnit?_length taken
    simp only [List.length_cons]
    omega
  · intro rounds
    rw [passString?.go.eq_def]
    simp [taken]

/-- A string whose characters are read is passed over to the same place.  The second of a pair
of code units is passed over in a round of its own. -/
theorem stringFrom?_passes {rounds : Nat} {value : Text} :
    ∀ {found text : Text}, stringFrom? rounds found text = some (value, rest) →
      PassesString text rest := by
  induction rounds with
  | zero => rintro found text ⟨⟩
  | succ rounds inductionHypothesis =>
      intro found text read
      cases text with
      | nil => cases read
      | cons c text =>
          rw [stringFrom?.eq_def] at read
          dsimp only at read
          split at read
          case isTrue quote =>
            cases read
            refine ⟨Nat.lt_succ_self _, fun rounds enough => ?_⟩
            obtain ⟨rounds, rfl⟩ := Nat.exists_eq_succ_of_ne_zero (Nat.ne_zero_of_lt enough)
            rw [passString?.go.eq_def]
            simp [quote]
          case isFalse notQuote =>
          split at read
          case isTrue escape =>
            subst escape
            split at read
            case h_1 escaped =>
              obtain ⟨⟨c, behind⟩, taken, read⟩ := Option.bind_eq_some_iff.mp read
              have passes := inductionHypothesis read
              obtain ⟨unit, next, first, same | ⟨pair, second, same, unit?⟩⟩ :=
                unicodeEscape?_cases taken
              · exact (same ▸ passes).codeUnit first
              · exact (same ▸ passes.codeUnit unit?).codeUnit first
            case h_2 letter behind notUnit =>
              obtain ⟨character, simple, read⟩ := Option.bind_eq_some_iff.mp read
              apply (inductionHypothesis read).step
              · simp only [List.length_cons]
                omega
              · intro rounds
                rw [passString?.go.eq_def]
                simp [simple]
            case h_3 => cases read
          case isFalse notEscape =>
          split at read
          case isTrue => cases read
          case isFalse printable =>
            apply (inductionHypothesis read).step (Nat.lt_succ_self _)
            intro rounds
            rw [passString?.go.eq_def]
            simp only [notQuote, notEscape, printable, if_false]

theorem string?_passes {value : Text} (read : string? text = some (value, rest)) :
    rest.length < text.length ∧ passString? text = some rest :=
  have passes := stringFrom?_passes read
  ⟨passes.1, passes.2 _ (Nat.lt_succ_self _)⟩

theorem digits?_length {digits : Text} (taken : digits? text = some (digits, rest)) :
    rest.length < text.length := by
  simp only [digits?] at taken
  split at taken
  case isTrue => cases taken
  case isFalse some =>
    obtain ⟨rfl, rfl⟩ := Prod.mk.inj (Option.some.inj taken)
    have whole := congrArg List.length
      (List.takeWhile_append_dropWhile (p := Char.isDigit) (l := text))
    rw [List.length_append] at whole
    have := List.length_pos_iff.mpr fun none : text.takeWhile Char.isDigit = [] =>
      some (by rw [none]; rfl)
    omega

theorem exponent?_length {exponent : Option Int}
    (taken : exponent? text = some (exponent, rest)) : rest.length ≤ text.length := by
  have signed {sign : Int} {text : Text}
      (taken : ((digits? text).bind fun found =>
        some (some (sign * Nat.ofDigitChars 10 found.1 0), found.2)) = some (exponent, rest)) :
      rest.length ≤ text.length := by
    obtain ⟨⟨digits, behind⟩, read, same⟩ := Option.bind_eq_some_iff.mp taken
    cases same
    exact Nat.le_of_lt (digits?_length read)
  unfold exponent? at taken
  split at taken
  case h_7 => cases taken; exact Nat.le_refl _
  all_goals
    have := signed taken
    simp only [List.length_cons]
    omega

theorem passNumber?_length {number : Number} (taken : passNumber? text = some (number, rest)) :
    rest.length < text.length := by
  obtain ⟨⟨whole, behindWhole⟩, wholeTaken, taken⟩ := Option.bind_eq_some_iff.mp taken
  have unsigned : behindWhole.length < text.length := by
    have signed := digits?_length wholeTaken
    split at signed
    · exact Nat.lt_succ_of_lt signed
    · exact signed
  dsimp only at taken
  split at taken
  case isTrue => cases taken
  case isFalse =>
    split at taken
    case h_1 behindPoint =>
      obtain ⟨⟨fraction, behindFraction⟩, fractionTaken, taken⟩ :=
        Option.bind_eq_some_iff.mp taken
      obtain ⟨⟨exponent, behindExponent⟩, exponentTaken, taken⟩ :=
        Option.bind_eq_some_iff.mp taken
      cases taken
      calc behindExponent.length ≤ behindFraction.length := exponent?_length exponentTaken
        _ < behindPoint.length := digits?_length fractionTaken
        _ < text.length := Nat.lt_of_succ_lt unsigned
    case h_2 =>
      obtain ⟨⟨fraction, behindFraction⟩, fractionTaken, taken⟩ :=
        Option.bind_eq_some_iff.mp taken
      cases fractionTaken
      obtain ⟨⟨exponent, behindExponent⟩, exponentTaken, taken⟩ :=
        Option.bind_eq_some_iff.mp taken
      cases taken
      exact Nat.lt_of_le_of_lt (exponent?_length exponentTaken) unsigned

/-- What does not begin a text or a literal is passed over as a number. -/
theorem passScalar?_number (notString : ∀ rest, text ≠ '"' :: rest)
    (notNull : ∀ rest, text ≠ 'n' :: rest) (notTrue : ∀ rest, text ≠ 't' :: rest)
    (notFalse : ∀ rest, text ≠ 'f' :: rest) :
    passScalar? text = (passNumber? text).map Prod.snd := by
  unfold passScalar?
  split
  · exact absurd rfl (notString _)
  · exact absurd rfl (notNull _)
  · exact absurd rfl (notTrue _)
  · exact absurd rfl (notFalse _)
  · rfl

/-- A value that is neither an array nor an object takes the same characters as when it is passed
over. -/
theorem scalar?_passes {value : Json} (read : scalar? text = some (value, rest)) :
    rest.length < text.length ∧ passScalar? text = some rest := by
  have literal {expected : Text} {first : Char} {behind : Text} {value' : Json}
      (read : (literal? expected behind).map (fun rest => (value', rest)) = some (value, rest)) :
      rest.length < (first :: behind).length ∧ literal? expected behind = some rest := by
    obtain ⟨rest', taken, same⟩ := Option.map_eq_some_iff.mp read
    cases same
    refine ⟨?_, taken⟩
    rw [literal?_eq taken, List.length_cons, List.length_append]
    omega
  unfold scalar? at read
  split at read
  case h_1 behind =>
    obtain ⟨⟨characters, rest'⟩, taken, same⟩ := Option.map_eq_some_iff.mp read
    cases same
    obtain ⟨progress, passes⟩ := string?_passes taken
    exact ⟨Nat.lt_succ_of_lt progress, passes⟩
  case h_2 => exact literal read
  case h_3 => exact literal read
  case h_4 => exact literal read
  case h_5 notString notNull notTrue notFalse =>
    obtain ⟨⟨number, rest'⟩, taken, read⟩ := Option.bind_eq_some_iff.mp read
    obtain ⟨value', inRange, same⟩ := Option.bind_eq_some_iff.mp read
    cases same
    refine ⟨passNumber?_length taken, ?_⟩
    rw [passScalar?_number notString notNull notTrue notFalse, taken]
    rfl

/-! ### Values -/

theorem skipBlanks_length (text : Text) : (skipBlanks text).length ≤ text.length :=
  (List.dropWhile_sublist _).length_le

/-- A value is passed over up to `rest`, whatever encloses it, and it takes some of the text. -/
def Passes (text rest : Text) : Prop :=
  rest.length < text.length ∧
    ∀ frames rounds, text.length < rounds →
      ∃ left, rest.length < left ∧
        passFrom? rounds .value frames text = passFrom? left .more frames rest

/-- Behind a value that is passed over, passing over goes on. -/
theorem passFrom?_value {behind : Text} {frames : List Frame} {rounds : Nat}
    (passes : Passes text behind) (enough : text.length < rounds)
    (goesOn : ∀ left, behind.length ≤ left → ∃ last, rest.length < last ∧
      passFrom? (left + 1) .more frames behind = passFrom? last .more frames.tail rest) :
    ∃ last, rest.length < last ∧
      passFrom? rounds .value frames text = passFrom? last .more frames.tail rest := by
  obtain ⟨left, more, same⟩ := passes.2 frames rounds enough
  obtain ⟨left, rfl⟩ := Nat.exists_eq_succ_of_ne_zero (Nat.ne_zero_of_lt more)
  rw [same]
  exact goesOn left (Nat.le_of_lt_succ more)

section

variable {item : ValueReader}
  (itemPasses : ∀ {text value rest}, item text = some (value, rest) → Passes text rest)

include itemPasses

/-- The items of an array are passed over to the same place, within the array. -/
theorem itemsFrom?_passes {rounds : Nat} {value : Json} :
    ∀ {found text}, itemsFrom? item rounds found text = some (value, rest) →
      rest.length < text.length ∧ ∀ frames rounds', text.length < rounds' →
        ∃ left, rest.length < left ∧
          passFrom? rounds' .value (.array :: frames) text = passFrom? left .more frames rest := by
  induction rounds with
  | zero => rintro found text ⟨⟩
  | succ rounds inductionHypothesis =>
      intro found text read
      obtain ⟨⟨value', behind⟩, taken, read⟩ := Option.bind_eq_some_iff.mp read
      have passes := itemPasses taken
      have shorter := skipBlanks_length behind
      dsimp only at read
      split at read
      case h_1 next following =>
        rw [following, List.length_cons] at shorter
        obtain ⟨progress, goesOn⟩ := inductionHypothesis read
        refine ⟨by have := passes.1; omega, fun frames rounds' enough => ?_⟩
        apply passFrom?_value passes enough
        intro left more
        rw [passFrom?.eq_def]
        simp only [following]
        exact goesOn frames left (by omega)
      case h_2 next following =>
        rw [following, List.length_cons] at shorter
        cases read
        refine ⟨by have := passes.1; omega, fun frames rounds' enough => ?_⟩
        apply passFrom?_value passes enough
        intro left more
        rw [passFrom?.eq_def]
        simp only [following]
        exact ⟨left, by omega, rfl⟩
      case h_3 => cases read

/-- The members of an object are passed over to the same place, within the object. -/
theorem membersFrom?_passes {rounds : Nat} {value : Json} :
    ∀ {found text}, membersFrom? item rounds found text = some (value, rest) →
      rest.length < text.length ∧ ∀ frames rounds', text.length < rounds' →
        ∃ left, rest.length < left ∧
          passFrom? rounds' .member (.object :: frames) text =
            passFrom? left .more frames rest := by
  induction rounds with
  | zero => rintro found text ⟨⟩
  | succ rounds inductionHypothesis =>
      intro found text read
      rw [membersFrom?] at read
      split at read
      case h_2 => cases read
      case h_1 start begins =>
      obtain ⟨⟨name, behindName⟩, nameTaken, read⟩ := Option.bind_eq_some_iff.mp read
      obtain ⟨nameProgress, namePasses⟩ := string?_passes nameTaken
      have startShorter := skipBlanks_length text
      have nameShorter := skipBlanks_length behindName
      rw [begins, List.length_cons] at startShorter
      dsimp only at read
      split at read
      case h_2 => cases read
      case h_1 behindColon colon =>
      obtain ⟨⟨value', behind⟩, taken, read⟩ := Option.bind_eq_some_iff.mp read
      have passes := itemPasses taken
      have shorter := skipBlanks_length behind
      have behindProgress := passes.1
      rw [colon, List.length_cons] at nameShorter
      have enter {frames : List Frame} {rounds' : Nat} (enough : text.length < rounds')
          (goesOn : ∀ left, behind.length ≤ left → ∃ last, rest.length < last ∧
            passFrom? (left + 1) .more (.object :: frames) behind =
              passFrom? last .more frames rest) :
          ∃ left, rest.length < left ∧
            passFrom? rounds' .member (.object :: frames) text =
              passFrom? left .more frames rest := by
        obtain ⟨rounds', rfl⟩ := Nat.exists_eq_succ_of_ne_zero (Nat.ne_zero_of_lt enough)
        rw [passFrom?.eq_def]
        simp only [begins, namePasses, Option.map_some, colon]
        exact passFrom?_value passes (by omega) goesOn
      dsimp only at read
      split at read
      case h_1 next following =>
        rw [following, List.length_cons] at shorter
        obtain ⟨progress, goesOn⟩ := inductionHypothesis read
        refine ⟨by omega, fun frames rounds' enough => enter enough fun left more => ?_⟩
        rw [passFrom?.eq_def]
        simp only [following]
        exact goesOn frames left (by omega)
      case h_2 next following =>
        rw [following, List.length_cons] at shorter
        cases read
        refine ⟨by omega, fun frames rounds' enough => enter enough fun left more => ?_⟩
        rw [passFrom?.eq_def]
        simp only [following]
        exact ⟨left, by omega, rfl⟩
      case h_3 => cases read

end

theorem Passes.of_step {text rest : Text} (progress : rest.length < text.length)
    (step : ∀ frames rounds, text.length ≤ rounds → ∃ left, rest.length < left ∧
      passFrom? (rounds + 1) .value frames text = passFrom? left .more frames rest) :
    Passes text rest := by
  refine ⟨progress, fun frames rounds enough => ?_⟩
  obtain ⟨rounds, rfl⟩ := Nat.exists_eq_succ_of_ne_zero (Nat.ne_zero_of_lt enough)
  exact step frames rounds (Nat.le_of_lt_succ enough)

/-- Where neither an array nor an object begins, a value is passed over if it is read. -/
theorem Passes.of_scalar? {text rest : Text} {value : Json}
    (notArray : ∀ behind, skipBlanks text ≠ '[' :: behind)
    (notObject : ∀ behind, skipBlanks text ≠ '{' :: behind)
    (read : scalar? (skipBlanks text) = some (value, rest)) : Passes text rest := by
  obtain ⟨progress, passes⟩ := scalar?_passes read
  have shorter := skipBlanks_length text
  refine .of_step (by omega) fun frames rounds enough => ⟨rounds, by omega, ?_⟩
  rw [passFrom?.eq_def]
  dsimp only
  split
  · exact absurd ‹_› (notArray _)
  · exact absurd ‹_› (notObject _)
  · rw [passes]

/-- A value is passed over to the place up to which it is read. -/
theorem valueWithin?_passes {depth : Nat} :
    ∀ {text : Text} {value : Json} {rest : Text}, valueWithin? depth text = some (value, rest) →
      Passes text rest := by
  induction depth with
  | zero =>
      intro text value rest read
      rw [valueWithin?] at read
      dsimp only at read
      split at read
      case h_1 | h_2 => cases read
      case h_3 notArray notObject => exact .of_scalar? notArray notObject read
  | succ depth inductionHypothesis =>
      intro text value rest read
      have shorter := skipBlanks_length text
      rw [valueWithin?] at read
      dsimp only at read
      split at read
      case h_1 inside begins =>
        rw [begins, List.length_cons] at shorter
        have insideShorter := skipBlanks_length inside
        split at read
        case h_1 behind empty =>
          rw [empty, List.length_cons] at insideShorter
          cases read
          refine .of_step (by omega) fun frames rounds enough => ⟨rounds, by omega, ?_⟩
          rw [passFrom?.eq_def]
          simp only [begins, empty]
        case h_2 notEmpty =>
          obtain ⟨progress, goesOn⟩ := itemsFrom?_passes inductionHypothesis read
          refine .of_step (by omega) fun frames rounds enough => ?_
          obtain ⟨left, more, same⟩ := goesOn frames rounds (by omega)
          refine ⟨left, more, ?_⟩
          rw [passFrom?.eq_def, ← same]
          simp only [begins]
      case h_2 inside begins =>
        rw [begins, List.length_cons] at shorter
        have insideShorter := skipBlanks_length inside
        split at read
        case h_1 behind empty =>
          rw [empty, List.length_cons] at insideShorter
          cases read
          refine .of_step (by omega) fun frames rounds enough => ⟨rounds, by omega, ?_⟩
          rw [passFrom?.eq_def]
          simp only [begins, empty]
        case h_2 notEmpty =>
          obtain ⟨progress, goesOn⟩ := membersFrom?_passes inductionHypothesis read
          refine .of_step (by omega) fun frames rounds enough => ?_
          obtain ⟨left, more, same⟩ := goesOn frames rounds (by omega)
          refine ⟨left, more, ?_⟩
          rw [passFrom?.eq_def, ← same]
          simp only [begins]
      case h_3 notArray notObject => exact .of_scalar? notArray notObject read

/-- A value that can be read can be passed over. -/
theorem passValue?_of_read {depth : Nat} {text rest : Text} {value : Json}
    (read : valueWithin? depth text = some (value, rest)) : passValue? text = some rest := by
  obtain ⟨left, more, same⟩ := (valueWithin?_passes read).2 [] (text.length + 2) (by omega)
  obtain ⟨left, rfl⟩ := Nat.exists_eq_succ_of_ne_zero (Nat.ne_zero_of_lt more)
  rw [passValue?, same]
  rfl

end Keypad.Json
