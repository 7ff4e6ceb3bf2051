/-
Module: Keypad.Proofs.Formula.Runs
Layer: proofs
Purpose: The runs of digits and points in a text: where cutting it into tokens
  fails, and which runs it fails at.
Trusted boundary: none
Main exports:
  MaximalRun, RunFault, BrokenRun, FailsAt, Token.failsAt_of_scanFrom,
  Spells.literal_of_run, Token.not_scanned_of_broken
-/
import Keypad.Proofs.Formula.Spelling
import Mathlib.Data.List.Count

namespace Keypad

/-!
Cutting goes from the left and takes a whole run of digits and points as one
number.  So it fails at a character that belongs to no token, or at a run that is
no number, whichever comes first; `Token.failsAt_of_scanFrom` says this with the text
before it, which spells tokens.  Conversely every run of a text that spells tokens
is a literal of a finite double.
-/

/-! ### Runs -/

/-- A run of digits and points between two texts, neither of which goes on with
one. -/
structure MaximalRun (before run behind : Text) : Prop where
  nonempty : run ≠ []
  numeric : ∀ c ∈ run, c.isDigit = true ∨ c = '.'
  begins : ∀ c ∈ before.getLast?, c.isDigit = false ∧ c ≠ '.'
  ends : EndsRun behind

/-- No digit and no point stands at the head of a text before which a run ends. -/
theorem EndsRun.head_not_numeric {c : Char} {text : Text} (ends : EndsRun (c :: text)) :
    ¬ (c.isDigit = true ∨ c = '.') := by
  obtain ⟨noDigit, noPoint⟩ := ends c rfl
  rintro (digit | point)
  · cases digit.symm.trans noDigit
  · exact noPoint point

namespace MaximalRun

/-- A run at the beginning of a text. -/
theorem atStart {run behind : Text} (nonempty : run ≠ [])
    (numeric : ∀ c ∈ run, c.isDigit = true ∨ c = '.') (ends : EndsRun behind) :
    MaximalRun [] run behind where
  nonempty := nonempty
  numeric := numeric
  begins := nofun
  ends := ends

/-- A run is not found at a place where runs end. -/
theorem not_endsRun {before run behind : Text} (maximal : MaximalRun before run behind) :
    ¬ EndsRun (run ++ behind) := by
  intro ends
  cases run with
  | nil => exact maximal.nonempty rfl
  | cons c run => exact ends.head_not_numeric (maximal.numeric c List.mem_cons_self)

/-- A run is no longer one than the other of two that begin a text. -/
theorem run_unique {before run behind other rest : Text}
    (maximal : MaximalRun before run behind)
    (numeric : ∀ c ∈ other, c.isDigit = true ∨ c = '.') (ends : EndsRun rest)
    (same : run ++ behind = other ++ rest) : run = other := by
  rcases List.append_eq_append_iff.mp same with ⟨more, rfl, rfl⟩ | ⟨more, rfl, rfl⟩
  · cases more with
    | nil => exact (List.append_nil run).symm
    | cons c more =>
        exact absurd (numeric c (List.mem_append_right run List.mem_cons_self))
          maximal.ends.head_not_numeric
  · cases more with
    | nil => exact List.append_nil other
    | cons c more =>
        exact absurd (maximal.numeric c (List.mem_append_right other List.mem_cons_self))
          ends.head_not_numeric

/-- A run remains one with a character before it that is no part of it. -/
theorem cons {c : Char} {before run behind : Text} (other : c.isDigit = false ∧ c ≠ '.')
    (maximal : MaximalRun before run behind) : MaximalRun (c :: before) run behind where
  nonempty := maximal.nonempty
  numeric := maximal.numeric
  begins := by
    intro last tail
    cases before with
    | nil =>
        cases tail
        exact other
    | cons d before =>
        rw [List.getLast?_cons_cons] at tail
        exact maximal.begins last tail
  ends := maximal.ends

/-- A run remains one with more text before it, if a run ends between them. -/
theorem prepend {front before run behind : Text} (maximal : MaximalRun before run behind)
    (separate : EndsRun (before ++ (run ++ behind))) :
    MaximalRun (front ++ before) run behind where
  nonempty := maximal.nonempty
  numeric := maximal.numeric
  begins := by
    intro last tail
    cases before with
    | nil => exact absurd separate maximal.not_endsRun
    | cons c before =>
        rw [List.getLast?_append_of_ne_nil front (List.cons_ne_nil c before)] at tail
        exact maximal.begins last tail
  ends := maximal.ends

/-- A run remains one with less text before it. -/
theorem of_prepend (front : Text) {before run behind : Text}
    (maximal : MaximalRun (front ++ before) run behind) : MaximalRun before run behind where
  nonempty := maximal.nonempty
  numeric := maximal.numeric
  begins := fun last tail =>
    maximal.begins last (List.mem_getLast?_append_of_mem_getLast? tail)
  ends := maximal.ends

/-- The runs of a text that begins with another character are those of its rest. -/
theorem of_cons {c : Char} {text before run behind : Text} (other : c.isDigit = false ∧ c ≠ '.')
    (maximal : MaximalRun before run behind) (cut : c :: text = before ++ (run ++ behind)) :
    ∃ rest, text = rest ++ (run ++ behind) ∧ MaximalRun rest run behind := by
  cases before with
  | nil =>
      have ends : EndsRun (run ++ behind) := by
        rw [← List.nil_append (run ++ behind), ← cut]
        intro d head
        cases head
        exact other
      exact absurd ends maximal.not_endsRun
  | cons d before =>
      cases cut
      exact ⟨before, rfl, maximal.of_prepend [c]⟩

end MaximalRun

/-! ### Runs that are no numbers -/

/-- Why a run is no number, with the text behind it: no literal begins it, or
another point comes right behind its first literal, or it is a literal of a number
that no finite double is near to. -/
inductive RunFault : Text → Text → Fault → Prop where
  | malformed {more behind : Text} :
      (∀ c ∈ more.head?, c = '.') →
      RunFault ('.' :: more) behind (.malformedNumber ('.' :: more ++ behind))
  | secondPoint {literal whole fraction more behind : Text} :
      Literal literal whole fraction → '.' ∈ literal →
      RunFault (literal ++ '.' :: more) behind
        (.secondPoint (literal ++ '.' :: more ++ behind))
  | outOfRange {run whole fraction behind : Text} :
      Literal run whole fraction →
      (Decimal.ofDigits whole fraction).toBinary64.isFinite = false →
      RunFault run behind .numberOutOfRange

/-- A run that is no number holds no digit, or holds two points, or is a literal of
a number out of the range of the doubles. -/
inductive BrokenRun (run : Text) : Prop where
  | noDigit : (∀ c ∈ run, c.isDigit = false) → BrokenRun run
  | twoPoints : 2 ≤ run.count '.' → BrokenRun run
  | outOfRange {whole fraction : Text} :
      Literal run whole fraction →
      (Decimal.ofDigits whole fraction).toBinary64.isFinite = false → BrokenRun run

/-- Every fault of a run has one of the three causes. -/
theorem RunFault.broken {run behind : Text} {fault : Fault}
    (runFault : RunFault run behind fault) : BrokenRun run := by
  cases runFault with
  | @malformed more _ points =>
      cases more with
      | nil => exact .noDigit (by simp)
      | cons c more =>
          cases points c rfl
          exact .twoPoints (by simp)
  | @secondPoint literal _ _ more _ written point =>
      apply BrokenRun.twoPoints
      have first : 0 < literal.count '.' := List.count_pos_iff.mpr point
      rw [List.count_append, List.count_cons_self]
      omega
  | outOfRange written infinite => exact .outOfRange written infinite

/-- One fault is told as an unexpected character. -/
theorem Fault.unexpectedCharacter_of_message {fault : Fault}
    (told : "unexpected character".toList <+: fault.message) :
    ∃ c, fault = .unexpectedCharacter c := by
  -- what comes behind a formula is told as unexpected, too, but in quotation marks
  have start : fault.message.take 12 = "unexpected c".toList := by
    obtain ⟨rest, same⟩ := told
    rw [← same]
    rfl
  cases fault with
  | unexpectedCharacter c => exact ⟨c, rfl⟩
  | _ => cases start

/-- No fault of a run is told as an unexpected character. -/
theorem RunFault.message_ne {run behind : Text} {fault : Fault}
    (runFault : RunFault run behind fault) :
    ¬ "unexpected character".toList <+: fault.message := by
  intro told
  obtain ⟨c, rfl⟩ := Fault.unexpectedCharacter_of_message told
  cases runFault

namespace Literal

/-- A literal holds a digit. -/
theorem exists_digit {text whole fraction : Text} (literal : Literal text whole fraction) :
    ∃ c ∈ text, c.isDigit = true := by
  have ofDigits {digits : Text} (all : Digits digits) (nonempty : digits ≠ []) :
      ∃ c ∈ digits, c.isDigit = true := by
    obtain ⟨c, member⟩ := List.exists_mem_of_ne_nil digits nonempty
    exact ⟨c, member, all c member⟩
  cases literal with
  | plain digits nonempty => exact ofDigits digits nonempty
  | pointed wholeDigits fractionDigits nonempty =>
      rcases nonempty with wholeNonempty | fractionNonempty
      · obtain ⟨c, member, digit⟩ := ofDigits wholeDigits wholeNonempty
        exact ⟨c, List.mem_append_left _ member, digit⟩
      · obtain ⟨c, member, digit⟩ := ofDigits fractionDigits fractionNonempty
        exact ⟨c, List.mem_append_right _ (List.mem_cons_of_mem _ member), digit⟩

/-- A literal holds one point at most. -/
theorem count_point_le {text whole fraction : Text} (literal : Literal text whole fraction) :
    text.count '.' ≤ 1 := by
  have none {digits : Text} (all : Digits digits) : digits.count '.' = 0 := by
    apply List.count_eq_zero_of_not_mem
    intro member
    cases all '.' member
  cases literal with
  | plain digits => rw [none digits]; exact Nat.zero_le 1
  | pointed wholeDigits fractionDigits =>
      rw [List.count_append, List.count_cons_self, none wholeDigits, none fractionDigits]

/-- A literal has one way to be split at its point. -/
theorem unique {text whole fraction otherWhole otherFraction : Text}
    (literal : Literal text whole fraction) (other : Literal text otherWhole otherFraction) :
    whole = otherWhole ∧ fraction = otherFraction := by
  have ends : EndsRun [] := nofun
  have first := Numeral.leading?_of_literal literal ends
  rw [Numeral.leading?_of_literal other ends] at first
  cases first
  exact ⟨rfl, rfl⟩

/-- A literal of a finite double is no broken run. -/
theorem not_broken {text whole fraction : Text} (literal : Literal text whole fraction)
    (finite : (Decimal.ofDigits whole fraction).toBinary64.isFinite = true) :
    ¬ BrokenRun text := by
  intro broken
  cases broken with
  | noDigit noDigit =>
      obtain ⟨c, member, digit⟩ := literal.exists_digit
      cases digit.symm.trans (noDigit c member)
  | twoPoints points => exact absurd (Nat.le_trans points literal.count_point_le) (by decide)
  | outOfRange written infinite =>
      obtain ⟨rfl, rfl⟩ := literal.unique written
      cases finite.symm.trans infinite

end Literal

/-! ### Where cutting fails -/

/-- What stands at the head of a text and cannot be cut off it: a character that
belongs to no token, or a run that is no number.  The text before it is given. -/
inductive FailsAt (before : Text) : Text → Fault → Prop where
  | character {c : Char} {behind : Text} :
      isBlank c = false → Token.ofSymbol? c = none → ¬ (c.isDigit = true ∨ c = '.') →
      FailsAt before (c :: behind) (.unexpectedCharacter c)
  | run {run behind : Text} {fault : Fault} :
      MaximalRun before run behind → RunFault run behind fault →
      FailsAt before (run ++ behind) fault

namespace FailsAt

theorem cons {c : Char} {before rest : Text} {fault : Fault}
    (other : c.isDigit = false ∧ c ≠ '.') (fails : FailsAt before rest fault) :
    FailsAt (c :: before) rest fault := by
  cases fails with
  | character notBlank noSymbol notNumeric => exact .character notBlank noSymbol notNumeric
  | run maximal runFault => exact .run (maximal.cons other) runFault

theorem prepend {front before rest : Text} {fault : Fault}
    (separate : EndsRun (before ++ rest)) (fails : FailsAt before rest fault) :
    FailsAt (front ++ before) rest fault := by
  cases fails with
  | character notBlank noSymbol notNumeric => exact .character notBlank noSymbol notNumeric
  | run maximal runFault => exact .run (maximal.prepend separate) runFault

end FailsAt

namespace Numeral

/-- No numeral is found where a point is followed by no digit. -/
theorem of_leading?_eq_none {c : Char} {rest : Text}
    (begins : c.isDigit = true ∨ c = '.') (none : leading? (c :: rest) = none) :
    c = '.' ∧ ∀ d ∈ rest.head?, d.isDigit = false := by
  rcases begins with digit | rfl
  · unfold leading? at none
    split at none <;> simp [digit] at none
  · refine ⟨rfl, fun d head => ?_⟩
    by_contra digit
    cases rest with
    | nil => cases head
    | cons first rest =>
        cases head
        have notFalse : d.isDigit = true := Bool.not_eq_false _ ▸ digit
        simp [leading?, notFalse] at none

/-- When a point comes behind the numeral at the head of a text, the numeral holds
one already. -/
theorem point_mem_of_leading? {text literal : Text} {numeral : Numeral}
    (found : leading? text = some numeral) (cut : text = literal ++ numeral.rest)
    (point : numeral.rest.head? = some '.') : '.' ∈ literal := by
  have whole : text.takeWhile Char.isDigit ++ text.dropWhile Char.isDigit = text :=
    List.takeWhile_append_dropWhile
  unfold leading? at found
  split at found
  · rename_i behind shape
    dsimp only at found
    split at found
    · cases found
    · cases found
      have behindCut : behind.takeWhile Char.isDigit ++ behind.dropWhile Char.isDigit = behind :=
        List.takeWhile_append_dropWhile
      rw [shape, ← behindCut, ← List.cons_append, ← List.append_assoc, cut] at whole
      rw [← List.append_cancel_right whole]
      simp
  · rename_i noPoint
    dsimp only at found
    split at found
    · cases found
    · cases found
      cases shape : text.dropWhile Char.isDigit with
      | nil =>
          rw [shape] at point
          cases point
      | cons c rest =>
          rw [shape] at point
          cases point
          exact absurd shape (noPoint rest)

end Numeral

/-- Every text begins with a run of digits and points, which may be empty. -/
theorem exists_run (text : Text) :
    ∃ run behind, text = run ++ behind ∧ (∀ c ∈ run, c.isDigit = true ∨ c = '.') ∧
      EndsRun behind := by
  induction text with
  | nil => exact ⟨[], [], rfl, nofun, nofun⟩
  | cons c text inductionHypothesis =>
      by_cases numeric : c.isDigit = true ∨ c = '.'
      · obtain ⟨run, behind, rfl, runNumeric, ends⟩ := inductionHypothesis
        exact ⟨c :: run, behind, rfl, List.forall_mem_cons.mpr ⟨numeric, runNumeric⟩, ends⟩
      · refine ⟨[], c :: text, rfl, nofun, fun d head => ?_⟩
        cases head
        simpa using numeric

namespace FailsAt

/-- A run at the head of a text that no literal begins. -/
theorem malformed {rest : Text} (noDigit : ∀ d ∈ rest.head?, d.isDigit = false) :
    FailsAt [] ('.' :: rest) (.malformedNumber ('.' :: rest)) := by
  obtain ⟨more, behind, rfl, numeric, ends⟩ := exists_run rest
  have points : ∀ c ∈ more.head?, c = '.' := by
    intro c head
    have member := List.mem_of_mem_head? head
    have digit := noDigit c (List.mem_head?_append_of_mem_head? head)
    exact (numeric c member).resolve_left (by simp [digit])
  have whole : ∀ c ∈ '.' :: more, c.isDigit = true ∨ c = '.' :=
    List.forall_mem_cons.mpr ⟨.inr rfl, numeric⟩
  exact .run (.atStart (List.cons_ne_nil _ _) whole ends) (.malformed points)

/-- A run at the head of a text that goes on with a point behind its literal. -/
theorem secondPoint {literal whole fraction rest : Text}
    (written : Literal literal whole fraction) (point : '.' ∈ literal) :
    FailsAt [] (literal ++ '.' :: rest) (.secondPoint (literal ++ '.' :: rest)) := by
  obtain ⟨more, behind, rfl, numeric, ends⟩ := exists_run rest
  have whole : ∀ c ∈ literal ++ '.' :: more, c.isDigit = true ∨ c = '.' :=
    List.forall_mem_append.mpr
      ⟨written.digit_or_point, List.forall_mem_cons.mpr ⟨.inr rfl, numeric⟩⟩
  have maximal : MaximalRun [] (literal ++ '.' :: more) behind :=
    .atStart (List.append_ne_nil_of_left_ne_nil written.ne_nil _) whole ends
  rw [← List.cons_append, ← List.append_assoc]
  exact .run maximal (.secondPoint written point)

end FailsAt

namespace Token

/-- Where cutting fails, all before it spells tokens, and there stands a character
that belongs to no token or a run that is no number. -/
theorem failsAt_of_scanFrom {found : List Token} {text : Text} {failure : Failure}
    (failed : scanFrom found text = .error failure) :
    ∃ before rest tokens fault, text = before ++ rest ∧ Spells before tokens ∧
      failure = .syntaxError fault ∧ FailsAt before rest fault := by
  fun_induction scanFrom found text with
  | case1 => cases failed
  | case2 found c rest blank inductionHypothesis =>
      obtain ⟨before, behind, tokens, fault, rfl, spells, same, fails⟩ :=
        inductionHypothesis failed
      exact ⟨c :: before, behind, tokens, fault, rfl, .blank blank spells, same,
        fails.cons (not_literal_of_blank blank)⟩
  | case3 found c rest _ token symbol inductionHypothesis =>
      obtain ⟨before, behind, tokens, fault, rfl, spells, same, fails⟩ :=
        inductionHypothesis failed
      exact ⟨c :: before, behind, token :: tokens, fault, rfl, .symbol symbol spells, same,
        fails.cons (not_literal_of_symbol symbol).2⟩
  | case4 found c rest _ _ starts leading =>
      cases failed
      have numeric : c.isDigit = true ∨ c = '.' := by simpa using starts
      obtain ⟨rfl, noDigit⟩ := Numeral.of_leading?_eq_none numeric leading
      exact ⟨[], _, [], _, rfl, .nil, rfl, .malformed noDigit⟩
  | case5 found c rest _ _ _ numeral leading point =>
      cases failed
      obtain ⟨literal, cut, written, _⟩ := Numeral.literal_of_leading? leading
      have inLiteral := Numeral.point_mem_of_leading? leading cut point
      obtain ⟨tail, shape⟩ := List.head?_eq_some_iff.mp point
      rw [cut, shape]
      exact ⟨[], _, [], _, rfl, .nil, rfl, .secondPoint written inLiteral⟩
  | case6 found c rest _ _ _ numeral leading noPoint finite _ inductionHypothesis =>
      obtain ⟨before, behind, tokens, fault, restCut, spells, same, fails⟩ :=
        inductionHypothesis failed
      obtain ⟨literal, cut, written, noDigit⟩ := Numeral.literal_of_leading? leading
      have ends : EndsRun numeral.rest := fun d head =>
        ⟨noDigit d head, fun point => noPoint (point ▸ head)⟩
      have beforeEnds : EndsRun before := fun d head =>
        ends d (restCut ▸ List.mem_head?_append_of_mem_head? head)
      refine ⟨literal ++ before, behind, .number numeral.value :: tokens, fault, ?_,
        .number written finite beforeEnds spells, same, fails.prepend (restCut ▸ ends)⟩
      rw [cut, restCut, List.append_assoc]
  | case7 found c rest _ _ _ numeral leading noPoint notFinite =>
      cases failed
      obtain ⟨literal, cut, written, noDigit⟩ := Numeral.literal_of_leading? leading
      have ends : EndsRun numeral.rest := fun d head =>
        ⟨noDigit d head, fun point => noPoint (point ▸ head)⟩
      rw [cut]
      exact ⟨[], _, [], _, rfl, .nil, rfl,
        .run (.atStart written.ne_nil written.digit_or_point ends)
          (.outOfRange written (Bool.not_eq_true _ ▸ notFinite))⟩
  | case8 found c rest notBlank noSymbol notNumeric =>
      cases failed
      exact ⟨[], _, [], _, rfl, .nil, rfl,
        .character (Bool.not_eq_true _ ▸ notBlank) noSymbol (by simpa using notNumeric)⟩

end Token

/-- In a text that spells tokens every run is a literal of a finite double. -/
theorem Spells.literal_of_run {text : Text} {tokens : List Token} (spells : Spells text tokens) :
    ∀ {before run behind : Text}, text = before ++ (run ++ behind) →
      MaximalRun before run behind →
        ∃ whole fraction, Literal run whole fraction ∧
          (Decimal.ofDigits whole fraction).toBinary64.isFinite = true := by
  induction spells with
  | nil =>
      intro before run behind cut maximal
      have none := List.append_eq_nil_iff.mp cut.symm
      exact absurd (List.append_eq_nil_iff.mp none.2).1 maximal.nonempty
  | blank blank _ inductionHypothesis =>
      intro before run behind cut maximal
      obtain ⟨rest, restCut, restMaximal⟩ := maximal.of_cons (not_literal_of_blank blank) cut
      exact inductionHypothesis restCut restMaximal
  | symbol symbol _ inductionHypothesis =>
      intro before run behind cut maximal
      obtain ⟨rest, restCut, restMaximal⟩ := maximal.of_cons (not_literal_of_symbol symbol).2 cut
      exact inductionHypothesis restCut restMaximal
  | @number literal whole fraction text tokens written finite ends _ inductionHypothesis =>
      intro before run behind cut maximal
      rcases List.append_eq_append_iff.mp cut with ⟨more, rfl, rest⟩ | ⟨more, rfl, rest⟩
      · exact inductionHypothesis rest (maximal.of_prepend literal)
      · -- the literal begins where the run does
        rcases List.eq_nil_or_concat before with rfl | ⟨start, last, rfl⟩
        · have same : run = more :=
            maximal.run_unique written.digit_or_point ends rest
          rw [same]
          exact ⟨whole, fraction, written, finite⟩
        · rw [List.concat_eq_append] at written maximal
          obtain ⟨noDigit, noPoint⟩ := maximal.begins last (by simp)
          rcases written.digit_or_point last (by simp) with digit | point
          · cases digit.symm.trans noDigit
          · exact absurd point noPoint

/-- A text with a broken run is not cut into tokens. -/
theorem Token.not_scanned_of_broken {before run behind : Text}
    (maximal : MaximalRun before run behind) (broken : BrokenRun run) (tokens : List Token) :
    scan (before ++ (run ++ behind)) ≠ .ok tokens := by
  intro scanned
  obtain ⟨whole, fraction, written, finite⟩ :=
    (scan_eq_ok_iff.mp scanned).literal_of_run rfl maximal
  exact written.not_broken finite broken

end Keypad
