/-
Module: Keypad.Proofs.Formula.FirstFault
Layer: proofs
Purpose: Where the reader of formulas stops at tokens that are none, and what it says of them.
Trusted boundary: human-reviewed words for each place
Main exports:
  Refused, StopsAt, LeavesEnd, factor_stops, expression_stops, stopsAt_of_parse, complaint,
  parse_stops_at_first_fault
-/
import Keypad.Proofs.Formula.Reading
import Keypad.Proofs.Formula.Viable

namespace Keypad

/-!
The reader finds fault in six ways, each at a place where the next token cannot stand or
where the tokens end too early.  A reader of operands fails only inside what it reads: where
an operand is due, or behind a complete one in a group that it has opened itself.  So the same
account holds of all readers at all depths, with any number of groups open around them, and
what was read before the fault is walked along.
-/

/-- At the place the tokens cannot go on as they do, and this is the fault. -/
inductive Refused : Place → List Token → Fault → Prop where
  | operandBefore {groups : Nat} {found : Token} {behind : List Token} :
      (Place.awaiting groups).step found = none →
      Refused (.awaiting groups) (found :: behind) (.operandBefore found)
  | operandAtEnd {groups : Nat} :
      Refused (.awaiting groups) [] .operandAtEnd
  | closingExpected {groups : Nat} {found : Token} {behind : List Token} :
      (Place.complete (groups + 1)).step found = none →
      Refused (.complete (groups + 1)) (found :: behind) (.closingExpected found)
  | closingMissing {groups : Nat} :
      Refused (.complete (groups + 1)) [] .closingMissing
  | closingUnexpected {behind : List Token} :
      Refused (.complete 0) (.closing :: behind) .closingUnexpected
  | trailing {found : Token} {behind : List Token} :
      found ≠ .closing → (Place.complete 0).step found = none →
      Refused (.complete 0) (found :: behind) (.trailing found)

/-- The token that is refused cannot stand at the place. -/
theorem Refused.step_eq_none {place : Place} {found : Token} {behind : List Token}
    {fault : Fault} (refused : Refused place (found :: behind) fault) :
    place.step found = none := by
  cases refused with
  | operandBefore stuck => exact stuck
  | closingExpected stuck => exact stuck
  | closingUnexpected => rfl
  | trailing _ stuck => exact stuck

/-- From the place on, the fault is the one at the end of the walk along the tokens. -/
def StopsAt (start : Place) (tokens : List Token) (fault : Fault) : Prop :=
  ∃ before behind place, tokens = before ++ behind ∧ start.walk before = some place ∧
    Refused place behind fault

/-- A fault behind tokens that are walked along is the fault of all of them. -/
theorem StopsAt.behind (before : List Token) {start place : Place} {tokens : List Token}
    {fault : Fault} (walked : start.walk before = some place) (stops : StopsAt place tokens fault) :
    StopsAt start (before ++ tokens) fault := by
  obtain ⟨further, behind, last, rfl, goesOn, refused⟩ := stops
  refine ⟨before ++ further, behind, last, (List.append_assoc ..).symm, ?_, refused⟩
  rwa [Place.walk_append_of_walk walked]

/-- A reader of operands that fails for a fault of the tokens, and not for a limit, stops at
the first fault, whatever groups are open around it. -/
def Stops (reader : Reader) : Prop :=
  ∀ groups tokens fault, reader tokens = .error (.syntaxError fault) → fault ≠ .tooDeep →
    StopsAt (.awaiting groups) tokens fault

/-- A height that is refused is no fault of the tokens. -/
theorem checked_ne_fault {limit height : Nat} {tree : Tree} {fault : Fault}
    (other : fault ≠ .tooDeep) : Sized.checked limit tree height ≠ .error (.syntaxError fault) := by
  intro failed
  cases (checked_eq_error_iff.mp failed).2
  exact other rfl

/-! ### What readers leave -/

/-- What the reader leaves is such that it could not have gone on. -/
def LeavesEnd (Ends : List Token → Prop) (reader : Reader) : Prop :=
  ∀ tokens rest sized, reader tokens = .ok (sized, rest) → Ends rest

section Chains

variable {limit room : Nat} {operator? : Token → Option Operator} {Operand : Language}
  {Ends : List Token → Prop} {operand : Reader}

/-- With rounds for all tokens, a chain goes on to where no operator follows. -/
theorem chain_leavesEnd (reads : Reads limit room Operand Ends operand)
    (leaves : LeavesEnd Ends operand) :
    ∀ {rounds : Nat} {tokens rest : List Token} {left sized : Sized},
      tokens.length ≤ rounds → Ends tokens →
      chain limit operator? operand rounds left tokens = .ok (sized, rest) →
        Ends rest ∧ NoOperator operator? rest := by
  intro rounds
  induction rounds with
  | zero =>
      intro tokens rest left sized enough ends read
      cases List.length_eq_zero_iff.mp (Nat.le_zero.mp enough)
      cases read
      exact ⟨ends, nofun⟩
  | succ rounds inductionHypothesis =>
      intro tokens rest left sized enough ends read
      rcases chain_succ_eq_ok read with ⟨noOperator, rfl, rfl⟩ |
        ⟨token, _, behind, right, after, _, rfl, _, rightRead, _, further⟩
      · exact ⟨ends, noOperator⟩
      · obtain ⟨before, rfl, _⟩ := reads.sound rightRead
        refine inductionHypothesis ?_ (leaves _ _ _ rightRead) further
        simp only [List.length_cons, List.length_append] at enough
        omega

theorem chained_leavesEnd (reads : Reads limit room Operand Ends operand)
    (leaves : LeavesEnd Ends operand) :
    LeavesEnd (fun rest => Ends rest ∧ NoOperator operator? rest)
      (chained limit operator? operand) := by
  intro tokens rest sized read
  simp only [chained, bind_eq_ok_iff] at read
  obtain ⟨⟨first, after⟩, firstRead, further⟩ := read
  exact chain_leavesEnd reads leaves (Nat.le_refl _) (leaves _ _ _ firstRead) further

/-! ### Where readers stop -/

section Stopping

variable (reads : Reads limit room Operand Ends operand) (stops : Stops operand)
  (walks : ∀ {tokens tree nesting}, Operand tokens tree nesting →
    ∀ groups, (Place.awaiting groups).walk tokens = some (.complete groups))
  (operates : ∀ {token operator}, operator? token = some operator → token.isOperator = true)

include reads stops walks operates

/-- A chain stops where one of its operands stops. -/
theorem chain_stops (groups : Nat) {fault : Fault} (other : fault ≠ .tooDeep) :
    ∀ {rounds : Nat} {tokens : List Token} {left : Sized},
      chain limit operator? operand rounds left tokens = .error (.syntaxError fault) →
        StopsAt (.complete groups) tokens fault := by
  intro rounds
  induction rounds with
  | zero => intro tokens left failed; cases failed
  | succ rounds inductionHypothesis =>
      intro tokens left failed
      obtain ⟨token, _, behind, rfl, joins, failedBehind⟩ := chain_succ_eq_error failed
      apply StopsAt.behind [token] (Place.walk_operator groups (operates joins))
      rcases failedBehind with operandFailed | ⟨right, rest, read, joinFailed | ⟨_, further⟩⟩
      · exact stops groups behind fault operandFailed other
      · exact absurd joinFailed (checked_ne_fault other)
      · obtain ⟨before, rfl, _, derives, _⟩ := reads.sound read
        exact .behind before (walks derives groups) (inductionHypothesis further)

theorem chained_stops : Stops (chained limit operator? operand) := by
  intro groups tokens fault failed other
  simp only [chained, bind_eq_error_iff] at failed
  rcases failed with firstFailed | ⟨⟨first, rest⟩, read, further⟩
  · exact stops groups tokens fault firstFailed other
  · obtain ⟨before, rfl, _, derives, _⟩ := reads.sound read
    exact .behind before (walks derives groups)
      (chain_stops reads stops walks operates groups other further)

end Stopping

end Chains

section Limits

variable {limit room : Nat} {reader : Reader}

/-- Sums leave nothing that they could go on with. -/
theorem expression_leavesEnd
    (reads : Reads limit room (Derives .factor) (fun _ => True) reader) :
    LeavesEnd EndsSum (expression limit reader) := by
  have leaves : LeavesEnd (NoOperator productOperator?) (term limit reader) := by
    intro tokens rest sized read
    exact (chained_leavesEnd reads (fun _ _ _ _ => trivial) tokens rest sized read).2
  exact chained_leavesEnd (term_reads reads) leaves

/-- Sums stop where their factors stop. -/
theorem expression_stops
    (reads : Reads limit room (Derives .factor) (fun _ => True) reader)
    (stops : Stops reader) : Stops (expression limit reader) := by
  have products : Stops (term limit reader) :=
    chained_stops reads stops Derives.walk Token.isOperator_of_productOperator
  exact chained_stops (term_reads reads) products Derives.walk
    Token.isOperator_of_sumOperator

end Limits

/-- Behind a sum that has been read as far as it goes, only a closing parenthesis can stand,
and that in a group only. -/
theorem step_eq_none_of_endsSum {found : Token} {behind : List Token} (groups : Nat)
    (ends : EndsSum (found :: behind)) (open_ : found = .closing → groups = 0) :
    (Place.complete groups).step found = none := by
  cases found with
  | number | opening => rfl
  | closing =>
      cases open_ rfl
      rfl
  | star | slash => cases ends.1 _ rfl
  | plus | minus => cases ends.2 _ rfl

/-- A group stops where the sum inside it does, or behind this sum if it is not closed
there. -/
theorem group_stops {limit room : Nat} (positive : 0 < limit)
    (stops : Stops (factor limit room)) (groups : Nat) {behind : List Token} {fault : Fault}
    (failed : factor limit (room + 1) (.opening :: behind) = .error (.syntaxError fault))
    (other : fault ≠ .tooDeep) :
    StopsAt (.awaiting groups) (.opening :: behind) fault := by
  have reads := factor_reads limit positive room
  have opened : (Place.awaiting groups).walk [.opening] = some (.awaiting (groups + 1)) := rfl
  apply StopsAt.behind [.opening] opened
  simp only [factor, bind_eq_error_iff] at failed
  rcases failed with innerFailed | ⟨⟨inner, after⟩, read, unclosed⟩
  · exact expression_stops reads stops (groups + 1) behind fault innerFailed other
  · obtain ⟨before, rfl, _, derives, _⟩ := (expression_reads reads).sound read
    have ends := expression_leavesEnd reads _ _ _ read
    refine ⟨before, after, _, rfl, derives.walk (groups + 1), ?_⟩
    cases after with
    | nil =>
        cases unclosed
        exact .closingMissing
    | cons found after =>
        by_cases closes : found = .closing
        · subst closes
          cases unclosed
        · have stuck := step_eq_none_of_endsSum (groups + 1) ends fun same =>
            absurd same closes
          cases found <;> cases unclosed <;> exact .closingExpected stuck

/-- Factors stop at the first fault, whatever room there is. -/
theorem factor_stops (limit : Nat) (positive : 0 < limit) :
    ∀ room, Stops (factor limit room) := by
  intro room
  induction room with
  | zero =>
      intro groups tokens fault failed other
      cases failed
      exact absurd rfl other
  | succ room inductionHypothesis =>
      intro groups tokens fault failed other
      cases tokens with
      | nil =>
          cases failed
          exact ⟨[], [], _, rfl, rfl, .operandAtEnd⟩
      | cons token behind =>
          cases token with
          | number value => cases failed
          | minus =>
              simp only [factor, bind_eq_error_iff] at failed
              rcases failed with innerFailed | ⟨_, _, levelFailed | ⟨_, _, done⟩⟩
              · exact .behind [.minus] rfl
                  (inductionHypothesis groups behind fault innerFailed other)
              · exact absurd levelFailed (checked_ne_fault other)
              · cases done
          | opening => exact group_stops positive inductionHypothesis groups failed other
          | closing | plus | star | slash =>
              cases failed
              exact ⟨[], _, _, rfl, rfl, .operandBefore rfl⟩

/-- Parsing that fails for a fault of the tokens stops at the first fault. -/
theorem stopsAt_of_parse {tokens : List Token} {failure : Failure} (nonempty : tokens ≠ [])
    (failed : parse tokens = .error failure) (other : failure ≠ .syntaxError .tooDeep) :
    ∃ fault, failure = .syntaxError fault ∧ StopsAt (.awaiting 0) tokens fault := by
  obtain ⟨fault, rfl⟩ := parse_fault failed
  refine ⟨fault, rfl, ?_⟩
  have otherFault : fault ≠ .tooDeep := fun same => other (congrArg Failure.syntaxError same)
  have reads := factor_reads depthLimit (by decide) depthLimit
  have stops := expression_stops reads (factor_stops depthLimit (by decide) depthLimit)
  have inhabited : tokens.isEmpty = false := by simpa using nonempty
  unfold parse at failed
  simp only [inhabited, Bool.false_eq_true, if_false, bind_eq_error_iff] at failed
  rcases failed with unread | ⟨⟨sized, rest⟩, read, incomplete⟩
  · exact stops 0 tokens fault unread otherFault
  · obtain ⟨before, rfl, _, derives, _⟩ := formula_reads.sound read
    have ends := expression_leavesEnd reads _ _ _ read
    refine ⟨before, rest, _, rfl, derives.walk 0, ?_⟩
    cases rest with
    | nil => cases incomplete
    | cons found behind =>
        have stuck := step_eq_none_of_endsSum 0 ends fun _ => rfl
        cases found with
        | closing =>
            cases incomplete
            exact .closingUnexpected
        | _ =>
            cases incomplete
            exact .trailing nofun stuck

/-! ### The first fault and the longest beginning of a formula -/

/-- What stands before the first fault is the longest beginning that a formula can begin
with. -/
theorem longestViable_of_refused {before behind : List Token} {place : Place} {fault : Fault}
    (walked : (Place.awaiting 0).walk before = some place)
    (refused : Refused place behind fault) : LongestViable (before ++ behind) before where
  beginning := List.prefix_append before behind
  viable := viable_iff_walk.mpr ⟨place, walked⟩
  longest := by
    intro other beginning viable
    by_contra longer
    cases behind with
    | nil =>
        rw [List.append_nil] at beginning
        exact longer beginning.length_le
    | cons found behind =>
        -- a longer one would go on with the token that is refused
        have further : before ++ [found] <+: other := by
          refine List.prefix_of_prefix_length_le ?_ beginning ?_
          · exact ⟨behind, by simp⟩
          · simp only [List.length_append, List.length_singleton]
            omega
        obtain ⟨next, reached⟩ := viable_iff_walk.mp (viable.of_beginning further)
        rw [Place.walk_concat_of_walk walked, refused.step_eq_none] at reached
        cases reached

/-- What is said of tokens that are no formula, by the longest beginning that a formula can
begin with and by what stands behind it. -/
def complaint (before behind : List Token) : Text :=
  match behind with
  | [] =>
      if awaitsOperand before then "missing operand at end of expression".toList
      else "unbalanced parentheses: missing ')'".toList
  | found :: _ =>
      if awaitsOperand before then
        "missing operand before ".toList ++ ('\'' :: found.text ++ ['\''])
      else if 0 < openGroups before then
        "unbalanced parentheses: expected ')' but found ".toList ++
          ('\'' :: found.text ++ ['\''])
      else if found = .closing then "unbalanced parentheses: unexpected ')'".toList
      else
        "unexpected ".toList ++ ('\'' :: found.text ++ ['\'']) ++ " after expression".toList

/-- Each fault is told in the words for its place. -/
theorem message_eq_complaint {before behind : List Token} {place : Place} {fault : Fault}
    (walked : (Place.awaiting 0).walk before = some place)
    (refused : Refused place behind fault) : fault.message = complaint before behind := by
  obtain ⟨awaits, opened⟩ := Place.eq_of_walk walked
  cases refused with
  | operandBefore =>
      have due : awaitsOperand before = true := awaits.symm
      simp only [complaint, due, if_true]
      rfl
  | operandAtEnd =>
      have due : awaitsOperand before = true := awaits.symm
      simp only [complaint, due, if_true]
      rfl
  | @closingExpected groups =>
      have done : awaitsOperand before = false := awaits.symm
      have inside : 0 < openGroups before := opened ▸ Nat.succ_pos groups
      simp only [complaint, done, inside, Bool.false_eq_true, if_false, if_true]
      rfl
  | closingMissing =>
      have done : awaitsOperand before = false := awaits.symm
      simp only [complaint, done, Bool.false_eq_true, if_false]
      rfl
  | closingUnexpected =>
      have done : awaitsOperand before = false := awaits.symm
      have outside : openGroups before = 0 := opened.symm
      simp only [complaint, done, outside, Bool.false_eq_true, Nat.lt_irrefl, if_false, if_true]
      rfl
  | trailing notClosing =>
      have done : awaitsOperand before = false := awaits.symm
      have outside : openGroups before = 0 := opened.symm
      simp only [complaint, done, outside, notClosing, Bool.false_eq_true, Nat.lt_irrefl, if_false]
      rfl

/-- Parsing tokens that are no formula stops behind the longest beginning that a formula can
begin with, and says what is wrong there: of the token behind it, or of the end if there is
none.  Tokens that are nested too deeply are another matter.

What is said depends on what a formula can go on with at this place: with a number where an
operand is expected, with a closing parenthesis where an operand is complete in an open group,
and with nothing more where it is complete outside of all groups. -/
theorem parse_stops_at_first_fault {tokens : List Token} {failure : Failure}
    (nonempty : tokens ≠ []) (failed : parse tokens = .error failure)
    (other : failure ≠ .syntaxError .tooDeep) :
    ∃ before behind fault, tokens = before ++ behind ∧ LongestViable tokens before ∧
      failure = .syntaxError fault ∧ fault.message = complaint before behind ∧
      (awaitsOperand before = true ↔ ∃ value, Viable (before ++ [.number value])) ∧
      (awaitsOperand before = false ∧ 0 < openGroups before ↔ Viable (before ++ [.closing])) ∧
      (awaitsOperand before = false ∧ openGroups before = 0 ↔ Sentence before) := by
  obtain ⟨fault, rfl, before, behind, place, rfl, walked, refused⟩ :=
    stopsAt_of_parse nonempty failed other
  have longest := longestViable_of_refused walked refused
  exact ⟨before, behind, fault, rfl, longest, rfl, message_eq_complaint walked refused,
    longest.viable.awaitsOperand_iff, longest.viable.inGroup_iff, longest.viable.sentence_iff⟩

/-- In the tokens of `2*(3 4` no formula goes on behind the first four, and there the group
could be closed. -/
theorem parse_stops_at_first_fault_in_group :
    let before : List Token := [.number (.ofNat 2), .star, .opening, .number (.ofNat 3)]
    let found : Token := .number (.ofNat 4)
    parse (before ++ [found]) = .error (.syntaxError (.closingExpected found)) ∧
      LongestViable (before ++ [found]) before ∧
      complaint before [found] = "unbalanced parentheses: expected ')' but found '4'".toList ∧
      Viable (before ++ [.closing]) := by
  intro before found
  have failed : parse (before ++ [found]) = .error (.syntaxError (.closingExpected found)) := by
    decide +kernel
  obtain ⟨first, behind, fault, cut, longest, same, told, _, inGroup, _⟩ :=
    parse_stops_at_first_fault (by simp) failed (by simp)
  have walked : (Place.awaiting 0).walk before = some (.complete 1) := rfl
  have known : LongestViable (before ++ [found]) before :=
    longestViable_of_refused walked (.closingExpected rfl)
  obtain rfl := known.unique longest
  obtain rfl := List.append_cancel_left cut
  cases same
  exact ⟨failed, longest, told.symm.trans (by decide +kernel), inGroup.mp (by decide +kernel)⟩

end Keypad
