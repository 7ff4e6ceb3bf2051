/-
Module: Keypad.Proofs.Formula.Progress
Layer: proofs
Purpose: How far reading a formula has come at each of its steps, and how deep its calls are.
Trusted boundary: none
Main exports:
  Made, Underway, Underway.step, Underway.after, parsing_progresses
-/
import Keypad.Proofs.Formula.Calls

namespace Keypad

/-!
At every step the call that is made, or that goes on, stands on the callers that wait for it.
`Made` says what these are: which part can be called by which caller, how the count grows from
one to the next, and that the call of each gives what it would give if it went on from here.  So
all that is claimed of a call can be read off when it returns.
-/

variable {limit : Nat} {whole : List Token}

/-- The callers of a call that is made with this onset, while `whole` is read.  What a sum or a
product has joined so far is known by what it is still to give. -/
inductive Made (limit : Nat) (whole : List Token) : Part → Onset → List Caller → Prop where
  | outermost : whole ≠ [] → Made limit whole (.series .sum) ⟨whole, 0⟩ []
  | first {series : Series} {onset : Onset} {callers : List Caller} :
      Made limit whole (.series series) onset callers →
      Made limit whole series.operand onset (⟨onset, .first series⟩ :: callers)
  | next {series : Series} {onset : Onset} {callers : List Caller} {left : Sized}
      {operator : Operator} {tokens : List Token} :
      Made limit whole (.series series) onset callers →
      (Part.series series).read limit onset =
        (series.operand.read limit ⟨tokens, onset.nesting⟩ >>= fun read =>
          Sized.join limit operator left read.1 >>= fun joined =>
            chainOn limit series onset joined read.2) →
      Made limit whole series.operand ⟨tokens, onset.nesting⟩
        (⟨onset, .next series left operator⟩ :: callers)
  | signed {tokens : List Token} {nesting : Nat} {callers : List Caller} :
      nesting < limit → Made limit whole .factor ⟨.minus :: tokens, nesting⟩ callers →
      Made limit whole .factor ⟨tokens, nesting + 1⟩
        (⟨⟨.minus :: tokens, nesting⟩, .signed⟩ :: callers)
  | grouped {tokens : List Token} {nesting : Nat} {callers : List Caller} :
      nesting < limit → Made limit whole .factor ⟨.opening :: tokens, nesting⟩ callers →
      Made limit whole (.series .sum) ⟨tokens, nesting + 1⟩
        (⟨⟨.opening :: tokens, nesting⟩, .grouped⟩ :: callers)

/-- What reading comes to by the readers alone. -/
def outcome (limit : Nat) (whole : List Token) : Except Failure Tree :=
  if whole.isEmpty then .error (.syntaxError .empty)
  else (Part.series .sum).read limit ⟨whole, 0⟩ >>= fun read => completed read.1 read.2

/-- Reading as it can stand after some steps. -/
inductive Underway (limit : Nat) (whole : List Token) : Descent → Prop where
  | calls {part : Part} {onset : Onset} {callers : List Caller} :
      Made limit whole part onset callers →
      Underway limit whole ⟨.calls part, onset.tokens, onset.nesting, callers⟩
  | factor {onset : Onset} {callers : List Caller} :
      Made limit whole .factor onset callers →
      Underway limit whole ⟨.factor onset, onset.tokens, onset.nesting + 1, callers⟩
  | chain {series : Series} {onset : Onset} {callers : List Caller} {left : Sized}
      {tokens : List Token} :
      Made limit whole (.series series) onset callers →
      (Part.series series).read limit onset = chainOn limit series onset left tokens →
      Underway limit whole ⟨.chain series onset left, tokens, onset.nesting, callers⟩
  | returns {part : Part} {onset : Onset} {callers : List Caller} {sized : Sized}
      {tokens : List Token} :
      Made limit whole part onset callers → part.read limit onset = .ok (sized, tokens) →
      Underway limit whole ⟨.returns part onset sized, tokens, onset.nesting, callers⟩
  | ended {tokens : List Token} {nesting : Nat} {callers : List Caller} :
      nesting ≤ limit + 1 →
      Underway limit whole ⟨.ended (outcome limit whole), tokens, nesting, callers⟩

/-! ### What is known of a call by its callers -/

namespace Made

variable {part : Part} {onset : Onset} {callers : List Caller}

/-- The count is that of the factors among the callers. -/
theorem nesting_eq (made : Made limit whole part onset callers) :
    onset.nesting = callers.countP Caller.isFactor := by
  induction made with
  | outermost => rfl
  | first _ inductionHypothesis | next _ _ inductionHypothesis =>
      rw [List.countP_cons_of_neg Bool.false_ne_true]
      exact inductionHypothesis
  | signed _ _ inductionHypothesis | grouped _ _ inductionHypothesis =>
      rw [List.countP_cons_of_pos rfl]
      exact congrArg (· + 1) inductionHypothesis

/-- No call is made from more factors than may be open. -/
theorem nesting_le (made : Made limit whole part onset callers) : onset.nesting ≤ limit := by
  induction made with
  | outermost => exact Nat.zero_le _
  | first _ inductionHypothesis | next _ _ inductionHypothesis => exact inductionHypothesis
  | signed room | grouped room => exact room

/-- How many callers of a part there can be above the innermost factor. -/
def callersAbove : Part → Nat
  | .series .sum => 0
  | .series .product => 1
  | .factor => 2

theorem callersAbove_operand (series : Series) :
    callersAbove series.operand = callersAbove (.series series) + 1 := by
  cases series <;> rfl

/-- Between two factors there are a sum and a product, or nothing. -/
theorem length_le (made : Made limit whole part onset callers) :
    callers.length ≤ 3 * onset.nesting + callersAbove part := by
  induction made with
  | outermost => exact Nat.zero_le _
  | first _ inductionHypothesis | next _ _ inductionHypothesis =>
      rw [callersAbove_operand, List.length_cons]
      exact Nat.succ_le_succ inductionHypothesis
  | signed _ _ inductionHypothesis | grouped _ _ inductionHypothesis =>
      simp only [callersAbove, List.length_cons] at *
      omega

theorem length_lt (made : Made limit whole part onset callers) :
    callers.length < 3 * (limit + 1) := by
  have callersFew := made.length_le
  have few : callersAbove part ≤ 2 := by rcases part with (_ | _) | _ <;> decide
  have room := made.nesting_le
  omega

/-- A call that fails makes all of its callers fail. -/
theorem outcome_of_error (made : Made limit whole part onset callers) {failure : Failure}
    (failed : part.read limit onset = .error failure) :
    outcome limit whole = .error failure := by
  -- from the innermost caller outwards: none of them catches the failure
  induction made with
  | outermost nonempty =>
      rw [outcome, if_neg (by simpa using nonempty), failed]
      rfl
  | first _ inductionHypothesis =>
      apply inductionHypothesis
      rw [Part.read_series, failed]
      rfl
  | next _ answer inductionHypothesis =>
      apply inductionHypothesis
      rw [answer, failed]
      rfl
  | signed room _ inductionHypothesis =>
      apply inductionHypothesis
      rw [Part.read_factor_minus room, failed]
      rfl
  | grouped room _ inductionHypothesis =>
      apply inductionHypothesis
      rw [Part.read_factor_opening room, failed]
      rfl

end Made

/-! ### Steps and runs -/

namespace Underway

variable {part : Part} {series : Series} {onset : Onset} {callers : List Caller}
  {tokens : List Token} {nesting : Nat}

/-- Reading that ends with the failure of a call has come to its outcome. -/
theorem failed (made : Made limit whole part onset callers) {failure : Failure}
    (failed : part.read limit onset = .error failure) (counted : nesting ≤ limit + 1)
    (waiting : List Caller) :
    Underway limit whole ⟨.ended (.error failure), tokens, nesting, waiting⟩ := by
  rw [← made.outcome_of_error failed]
  exact .ended counted

open Descent

theorem stepFactor (made : Made limit whole .factor onset callers) :
    Underway limit whole
      (stepFactor limit onset ⟨.factor onset, onset.tokens, onset.nesting + 1, callers⟩) := by
  obtain ⟨tokens, nesting⟩ := onset
  have counted : nesting + 1 ≤ limit + 1 := Nat.succ_le_succ made.nesting_le
  unfold Descent.stepFactor
  split
  case isTrue full => exact failed made (Part.read_factor_full (Nat.lt_succ_iff.mp full)) counted _
  case isFalse notFull =>
    have room : nesting < limit := Nat.not_lt.mp notFull
    have shape := Part.read_factor_room room tokens
    cases tokens with
    | nil => exact failed made shape counted _
    | cons token behind =>
        cases token with
        | number value => exact .returns made shape
        | minus => exact .calls (.signed room made)
        | opening => exact .calls (.grouped room made)
        | closing | plus | star | slash => exact failed made shape counted _

theorem stepChain (positive : 0 < limit) {left : Sized}
    (made : Made limit whole (.series series) onset callers)
    (answer : (Part.series series).read limit onset = chainOn limit series onset left tokens) :
    Underway limit whole
      (stepChain series onset left
        ⟨.chain series onset left, tokens, onset.nesting, callers⟩) := by
  have complete (none : NoOperator series.operator? tokens) :
      Underway limit whole
        ⟨.returns (.series series) onset left, tokens, onset.nesting, callers⟩ :=
    .returns made (answer.trans (chainOn_of_noOperator left none))
  unfold Descent.stepChain
  cases tokens with
  | nil => exact complete nofun
  | cons token behind =>
      cases joins : series.operator? token with
      | none =>
          simp only [joins]
          refine complete fun other head => ?_
          cases head
          exact joins
      | some operator =>
          simp only [joins]
          exact .calls (.next made (answer.trans (chainOn_cons positive joins left behind)))

theorem stepReturns {sized : Sized} (made : Made limit whole part onset callers)
    (answer : part.read limit onset = .ok (sized, tokens)) :
    Underway limit whole
      (stepReturns limit sized
        ⟨.returns part onset sized, tokens, onset.nesting, callers⟩) := by
  have counted : onset.nesting ≤ limit + 1 := Nat.le_succ_of_le made.nesting_le
  -- the innermost caller is the one that goes on; its own answer is now known one step further
  cases made with
  | outermost nonempty =>
      have complete : outcome limit whole = completed sized tokens := by
        rw [outcome, if_neg (by simpa using nonempty), answer]
        rfl
      show Underway limit whole ⟨.ended (completed sized tokens), tokens, 0, []⟩
      rw [← complete]
      exact .ended counted
  | first made =>
      refine .chain made ?_
      rw [Part.read_series, answer]
      rfl
  | @next series onset callers left operator _ made goesOn =>
      rw [answer, ok_bind] at goesOn
      unfold Descent.stepReturns
      cases joined : Sized.join limit operator left sized with
      | error failure =>
          simp only [joined] at goesOn ⊢
          exact failed made goesOn counted _
      | ok joined' =>
          simp only [joined] at goesOn ⊢
          exact .chain made goesOn
  | @signed inner nesting callers room made =>
      have goesOn := Part.read_factor_minus room inner
      rw [answer, ok_bind] at goesOn
      unfold Descent.stepReturns
      cases negated : Sized.checked limit (.negation sized.tree) (sized.height + 1) with
      | error failure =>
          simp only [negated] at goesOn ⊢
          exact failed made goesOn counted _
      | ok negated' =>
          simp only [negated] at goesOn ⊢
          exact .returns made goesOn
  | @grouped inner nesting callers room made =>
      have goesOn := Part.read_factor_opening room inner
      rw [answer, ok_bind] at goesOn
      unfold Descent.stepReturns
      cases tokens with
      | nil => exact failed made goesOn counted _
      | cons token rest =>
          cases token with
          | closing => exact .returns made goesOn
          | number | plus | minus | star | slash | opening =>
              exact failed made goesOn counted _

/-- A step leads from where reading can stand to where it can stand. -/
theorem step (positive : 0 < limit) {descent : Descent} (underway : Underway limit whole descent) :
    Underway limit whole (descent.step limit) := by
  cases underway with
  | @calls part onset callers made =>
      cases part with
      | series series => exact .calls (.first made)
      | factor => exact .factor made
  | factor made => exact stepFactor made
  | chain made answer => exact stepChain positive made answer
  | returns made answer => exact stepReturns made answer
  | ended counted => exact .ended counted

theorem start (tokens : List Token) : Underway limit tokens (Descent.start tokens) := by
  cases tokens with
  | nil => exact .ended (Nat.zero_le _)
  | cons token behind => exact .calls (.outermost (List.cons_ne_nil _ _))

/-- Reading stands after any number of steps where it can stand. -/
theorem after (steps : Nat) (tokens : List Token) :
    Underway depthLimit tokens (Descent.after steps tokens) := by
  induction steps with
  | zero => exact start tokens
  | succ steps inductionHypothesis =>
      rw [Descent.after, Function.iterate_succ_apply']
      exact inductionHypothesis.step (by decide)

/-- Until reading has ended, the count is that of the factors in progress, and the calls are
three for each of them at most. -/
theorem counts {descent : Descent} (underway : Underway limit whole descent)
    (live : descent.isEnded = false) :
    descent.nesting = descent.factorsInProgress ∧ descent.callsInProgress ≤ 3 * (limit + 1) := by
  cases underway with
  | calls made | returns made => exact ⟨made.nesting_eq, Nat.le_of_lt made.length_lt⟩
  | chain made => exact ⟨made.nesting_eq, made.length_lt⟩
  | factor made => exact ⟨congrArg (· + 1) made.nesting_eq, made.length_lt⟩
  | ended => cases live

theorem nesting_le {descent : Descent} (underway : Underway limit whole descent) :
    descent.nesting ≤ limit + 1 := by
  cases underway with
  | calls made | chain made | returns made => exact Nat.le_succ_of_le made.nesting_le
  | factor made => exact Nat.succ_le_succ made.nesting_le
  | ended counted => exact counted

/-- A call that returns has the tree that its reader gives, and has found the count as it leaves
it. -/
theorem read_of_returns {descent : Descent} (underway : Underway limit whole descent)
    {part : Part} {onset : Onset} {sized : Sized}
    (returned : descent.control = .returns part onset sized) :
    part.read limit onset = .ok (sized, descent.tokens) ∧ descent.nesting = onset.nesting := by
  cases underway with
  | returns made answer =>
      cases returned
      exact ⟨answer, rfl⟩
  | calls | chain | factor | ended => cases returned

theorem outcome_of_ended {descent : Descent} (underway : Underway limit whole descent)
    (ended : descent.isEnded = true) : descent.control = .ended (outcome limit whole) := by
  cases underway with
  | ended => rfl
  | calls | chain | factor | returns => cases ended

end Underway

theorem outcome_eq_parse (tokens : List Token) : outcome depthLimit tokens = parse tokens := by
  unfold outcome parse
  split
  · rfl
  · rfl

/-- Whatever the tokens are, reading them ends, within a number of steps that is linear in their
number, and comes to what `parse` gives.  On the way no more than a constant number of calls are
in progress, and the count of open factors is that of the calls for factors among them, and at
most one more than the limit.

A call that returns has taken tokens and leaves the count as it found it, and its tree is as high
as it says, which is within the limit.  Every call that succeeds does return, to the callers that
it had. -/
theorem parsing_progresses (tokens : List Token) :
    (∀ steps, let descent := Descent.after steps tokens
      descent.nesting ≤ depthLimit + 1 ∧
        (descent.isEnded = false →
          descent.nesting = descent.factorsInProgress ∧
            descent.callsInProgress ≤ 3 * (depthLimit + 1)) ∧
        (∀ part onset sized, descent.control = .returns part onset sized →
          part.read depthLimit onset = .ok (sized, descent.tokens) ∧
            (∃ taken, taken ≠ [] ∧ onset.tokens = taken ++ descent.tokens) ∧
            descent.nesting = onset.nesting ∧
            sized.height = sized.tree.height ∧ sized.height ≤ depthLimit) ∧
        ∀ part sized rest, descent.control = .calls part →
          part.read depthLimit ⟨descent.tokens, descent.nesting⟩ = .ok (sized, rest) →
            ∃ more, Descent.after (steps + more) tokens =
              ⟨.returns part ⟨descent.tokens, descent.nesting⟩ sized, rest, descent.nesting,
                descent.callers⟩) ∧
      (Descent.after (10 * tokens.length + 8) tokens).control = .ended (parse tokens) := by
  have positive : 0 < depthLimit := by decide
  constructor
  · intro steps descent
    have underway : Underway depthLimit tokens descent := Underway.after steps tokens
    refine ⟨underway.nesting_le, underway.counts, ?_, ?_⟩
    · intro part onset sized returned
      obtain ⟨read, sameCount⟩ := underway.read_of_returns returned
      obtain ⟨taken, height, low⟩ := Part.read_progresses positive read
      exact ⟨read, taken, sameCount, height, low⟩
    · intro part sized rest called read
      obtain ⟨more, reached⟩ := Descent.returns_of_read positive part descent.nesting
        descent.tokens rest sized descent.callers read
      refine ⟨more, ?_⟩
      rw [Descent.after, Nat.add_comm, Function.iterate_add_apply, ← reached, ← called]
      rfl
  · rw [(Underway.after _ tokens).outcome_of_ended (Descent.ends tokens), outcome_eq_parse]

end Keypad
