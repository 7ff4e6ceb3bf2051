/-
Module: Keypad.Proofs.Formula.Descent
Layer: proofs
Purpose: Reading a formula step by step, with the calls in progress and the counter of open
  factors in view.
Trusted boundary: human-reviewed steps of reading
Main exports:
  Series, Part, Part.reader, Part.read, Onset, Caller, Control, Descent, Descent.step,
  Descent.after, Descent.weight_step, Descent.ends
-/
import Keypad.Proofs.Formula.Reading
import Mathlib.Logic.Function.Iterate

namespace Keypad

/-!
What the readers of formulas give does not show how they call each other.  Here the same reading
is done one step at a time: the callers that wait are a list, and the open factors are counted by
hand, one more when a factor is begun and one less when it is complete.  Nothing here relies on
the counter to be right, or on the calls to be nested as they should be; that is proved of the
steps.

That the steps come to an end needs none of this.  Every token that is taken pays for the steps
that it gives rise to.
-/

/-! ### Calls of readers -/

/-- What has operands with operators between them. -/
inductive Series where
  | sum
  | product
deriving DecidableEq, Repr

/-- What a reader is called for. -/
inductive Part where
  | series (series : Series)
  | factor
deriving DecidableEq, Repr

/-- The operators of a sum or of a product. -/
def Series.operator? : Series → Token → Option Operator
  | .sum => sumOperator?
  | .product => productOperator?

/-- The operands of a sum are products, and those of a product are factors. -/
def Series.operand : Series → Part
  | .sum => .series .product
  | .product => .factor

/-- The rank of a part in the grammar. -/
def Part.rank : Part → Rank
  | .series .sum => .sum
  | .series .product => .product
  | .factor => .factor

/-- The reader of a part when `room` factors may still be opened. -/
def Part.reader (limit room : Nat) : Part → Reader
  | .series .sum => expression limit (Keypad.factor limit room)
  | .series .product => term limit (Keypad.factor limit room)
  | .factor => Keypad.factor limit room

theorem Part.reader_series (limit room : Nat) (series : Series) :
    (Part.series series).reader limit room =
      chained limit series.operator? (series.operand.reader limit room) := by
  cases series <;> rfl

/-- What a call finds when it is made: the tokens that are left, and the count of open factors. -/
structure Onset where
  tokens : List Token
  nesting : Nat
deriving DecidableEq, Repr

/-- What the reader of a part gives for the tokens that a call finds. -/
def Part.read (limit : Nat) (part : Part) (onset : Onset) : Except Failure (Sized × List Token) :=
  part.reader limit (limit - onset.nesting) onset.tokens

/-- What a call in progress waits for, when it has called another reader. -/
inductive Waiting where
  /-- The first operand of a sum or of a product. -/
  | first (series : Series)
  /-- The operand behind an operator. -/
  | next (series : Series) (left : Sized) (operator : Operator)
  /-- The factor behind a sign. -/
  | signed
  /-- The sum inside a group. -/
  | grouped
deriving DecidableEq, Repr

/-- A call in progress that waits for another one. -/
structure Caller where
  onset : Onset
  waiting : Waiting
deriving DecidableEq, Repr

/-- Factors wait behind a sign and inside a group. -/
def Caller.isFactor (caller : Caller) : Bool :=
  match caller.waiting with
  | .first _ | .next _ _ _ => false
  | .signed | .grouped => true

/-! ### Steps -/

/-- What is done next. -/
inductive Control where
  /-- A reader is called. -/
  | calls (part : Part)
  /-- A factor that has been counted looks at its first token. -/
  | factor (onset : Onset)
  /-- A sum or a product goes on behind what it has joined so far. -/
  | chain (series : Series) (onset : Onset) (left : Sized)
  /-- A call gives its tree back to the one that waits for it. -/
  | returns (part : Part) (onset : Onset) (sized : Sized)
  /-- Reading has come to an end. -/
  | ended (outcome : Except Failure Tree)
deriving DecidableEq, Repr

/-- Reading in its course.  The callers are those that wait, the latest first. -/
structure Descent where
  control : Control
  tokens : List Token
  nesting : Nat
  callers : List Caller
deriving DecidableEq, Repr

/-- The outcome for a formula that has been read up to these tokens. -/
def completed (sized : Sized) : List Token → Except Failure Tree
  | [] => .ok sized.tree
  | .closing :: _ => .error (.syntaxError .closingUnexpected)
  | found :: _ => .error (.syntaxError (.trailing found))

namespace Descent

/-- Reading ends with a failure, and all that wait are left where they are. -/
def fail (descent : Descent) (failure : Failure) : Descent :=
  { descent with control := .ended (.error failure) }

/-- A factor looks at its first token.  It has been counted, so it is the count that says
whether it may be opened. -/
def stepFactor (limit : Nat) (onset : Onset) (descent : Descent) : Descent :=
  if limit < descent.nesting then descent.fail (.syntaxError .tooDeep)
  else
    match descent.tokens with
    | .number value :: rest =>
        ⟨.returns .factor onset ⟨.literal value, 1⟩, rest, descent.nesting - 1, descent.callers⟩
    | .minus :: behind =>
        ⟨.calls .factor, behind, descent.nesting, ⟨onset, .signed⟩ :: descent.callers⟩
    | .opening :: behind =>
        ⟨.calls (.series .sum), behind, descent.nesting, ⟨onset, .grouped⟩ :: descent.callers⟩
    | found :: _ => descent.fail (.syntaxError (.operandBefore found))
    | [] => descent.fail (.syntaxError .operandAtEnd)

/-- A sum or a product calls for the next operand, if one of its operators follows. -/
def stepChain (series : Series) (onset : Onset) (left : Sized) (descent : Descent) : Descent :=
  match descent.tokens with
  | [] => { descent with control := .returns (.series series) onset left }
  | token :: behind =>
      match series.operator? token with
      | none => { descent with control := .returns (.series series) onset left }
      | some operator =>
          ⟨.calls series.operand, behind, descent.nesting,
            ⟨onset, .next series left operator⟩ :: descent.callers⟩

/-- The latest caller goes on with the tree that it has waited for; without callers the formula
is complete.  The count goes down when a factor is complete. -/
def stepReturns (limit : Nat) (sized : Sized) (descent : Descent) : Descent :=
  match descent.callers with
  | [] => { descent with control := .ended (completed sized descent.tokens) }
  | ⟨onset, .first series⟩ :: callers =>
      { descent with control := .chain series onset sized, callers }
  | ⟨onset, .next series left operator⟩ :: callers =>
      match Sized.join limit operator left sized with
      | .ok joined => { descent with control := .chain series onset joined, callers }
      | .error failure => descent.fail failure
  | ⟨onset, .signed⟩ :: callers =>
      match Sized.checked limit (.negation sized.tree) (sized.height + 1) with
      | .ok negated =>
          ⟨.returns .factor onset negated, descent.tokens, descent.nesting - 1, callers⟩
      | .error failure => descent.fail failure
  | ⟨onset, .grouped⟩ :: callers =>
      match descent.tokens with
      | .closing :: rest => ⟨.returns .factor onset sized, rest, descent.nesting - 1, callers⟩
      | found :: _ => descent.fail (.syntaxError (.closingExpected found))
      | [] => descent.fail (.syntaxError .closingMissing)

/-- Does the next step. -/
def step (limit : Nat) (descent : Descent) : Descent :=
  match descent.control with
  | .calls (.series series) =>
      ⟨.calls series.operand, descent.tokens, descent.nesting,
        ⟨⟨descent.tokens, descent.nesting⟩, .first series⟩ :: descent.callers⟩
  | .calls .factor =>
      ⟨.factor ⟨descent.tokens, descent.nesting⟩, descent.tokens, descent.nesting + 1,
        descent.callers⟩
  | .factor onset => descent.stepFactor limit onset
  | .chain series onset left => descent.stepChain series onset left
  | .returns _ _ sized => descent.stepReturns limit sized
  | .ended _ => descent

/-- Reading begins with the call for a sum, unless there is no token at all. -/
def start (tokens : List Token) : Descent where
  control := if tokens.isEmpty then .ended (.error (.syntaxError .empty)) else .calls (.series .sum)
  tokens := tokens
  nesting := 0
  callers := []

/-- Reading after a number of steps. -/
def after (steps : Nat) (tokens : List Token) : Descent := (step depthLimit)^[steps] (start tokens)

/-- How many calls are in progress.  A call that is made has not begun. -/
def callsInProgress (descent : Descent) : Nat :=
  match descent.control with
  | .factor _ | .chain _ _ _ => descent.callers.length + 1
  | .calls _ | .returns _ _ _ | .ended _ => descent.callers.length

/-- How many of the calls in progress are for factors. -/
def factorsInProgress (descent : Descent) : Nat :=
  match descent.control with
  | .factor _ => descent.callers.countP Caller.isFactor + 1
  | .calls _ | .chain _ _ _ | .returns _ _ _ | .ended _ => descent.callers.countP Caller.isFactor

/-- Whether reading has come to an end. -/
def isEnded (descent : Descent) : Bool :=
  match descent.control with
  | .ended _ => true
  | _ => false

/-! ### Every token pays for the steps that it gives rise to -/

/-- How many steps a call may need before it takes a token. -/
def partWeight : Part → Nat
  | .series .sum => 8
  | .series .product => 5
  | .factor => 2

/-- How many steps of its own the control may still need before a token is taken. -/
def controlWeight : Control → Nat
  | .calls part => partWeight part
  | .chain _ _ _ => 2
  | .factor _ | .returns _ _ _ => 1
  | .ended _ => 0

/-- As many steps as there can still be, or more: two for every caller that goes on, ten for every
token, and those of the control. -/
def weight (descent : Descent) : Nat :=
  controlWeight descent.control + 2 * descent.callers.length + 10 * descent.tokens.length

theorem partWeight_operand (series : Series) :
    partWeight series.operand + 2 < partWeight (.series series) := by
  cases series <;> decide

theorem partWeight_le (part : Part) : partWeight part ≤ 8 := by
  rcases part with (_ | _) | _ <;> decide

theorem weight_fail {descent : Descent} (live : 0 < controlWeight descent.control)
    (failure : Failure) : (descent.fail failure).weight < descent.weight := by
  have none : controlWeight (descent.fail failure).control = 0 := rfl
  have same : (descent.fail failure).callers = descent.callers := rfl
  have sameTokens : (descent.fail failure).tokens = descent.tokens := rfl
  rw [weight, weight, none, same, sameTokens]
  omega

section Steps

variable {limit : Nat} {onset : Onset} {series : Series} {tokens : List Token} {nesting : Nat}
  {callers : List Caller}

theorem weight_stepFactor :
    (stepFactor limit onset ⟨.factor onset, tokens, nesting, callers⟩).weight <
      weight ⟨.factor onset, tokens, nesting, callers⟩ := by
  have failed (failure : Failure) :
      (fail ⟨.factor onset, tokens, nesting, callers⟩ failure).weight <
        weight ⟨.factor onset, tokens, nesting, callers⟩ :=
    weight_fail (by exact Nat.one_pos) failure
  unfold stepFactor
  split
  case isTrue => exact failed _
  case isFalse =>
    cases tokens with
    | nil => exact failed _
    | cons token behind =>
        cases token with
        | number =>
            simp only [weight, controlWeight, List.length_cons]
            omega
        | minus | opening =>
            simp only [weight, controlWeight, partWeight, List.length_cons]
            omega
        | closing | plus | star | slash => exact failed _

theorem weight_stepChain {left : Sized} :
    (stepChain series onset left ⟨.chain series onset left, tokens, nesting, callers⟩).weight <
      weight ⟨.chain series onset left, tokens, nesting, callers⟩ := by
  have called := partWeight_operand series
  have light := partWeight_le (.series series)
  unfold stepChain
  cases tokens with
  | nil => simp [weight, controlWeight]
  | cons token behind =>
      cases joins : series.operator? token with
      | none => simp [joins, weight, controlWeight]
      | some operator =>
          simp only [joins, weight, controlWeight, List.length_cons]
          omega

theorem weight_stepReturns {part : Part} {sized : Sized} :
    (stepReturns limit sized ⟨.returns part onset sized, tokens, nesting, callers⟩).weight <
      weight ⟨.returns part onset sized, tokens, nesting, callers⟩ := by
  have failed (failure : Failure) :
      (fail ⟨.returns part onset sized, tokens, nesting, callers⟩ failure).weight <
        weight ⟨.returns part onset sized, tokens, nesting, callers⟩ :=
    weight_fail (by exact Nat.one_pos) failure
  unfold stepReturns
  rcases callers with _ | ⟨⟨caller, waiting⟩, callers⟩
  case nil => simp [weight, controlWeight]
  case cons =>
    cases waiting with
    | first series =>
        simp only [weight, controlWeight, List.length_cons]
        omega
    | next series left operator =>
        cases joined : Sized.join limit operator left sized with
        | error failure => simpa [joined] using failed failure
        | ok joined' =>
            simp only [joined, weight, controlWeight, List.length_cons]
            omega
    | signed =>
        cases negated : Sized.checked limit (.negation sized.tree) (sized.height + 1) with
        | error failure => simpa [negated] using failed failure
        | ok negated' => simp [weight, controlWeight]
    | grouped =>
        cases tokens with
        | nil => exact failed _
        | cons token rest =>
            cases token with
            | closing =>
                simp only [weight, controlWeight, List.length_cons]
                omega
            | number | plus | minus | star | slash | opening => exact failed _

end Steps

/-- Until reading has come to an end, every step leaves fewer. -/
theorem weight_step (limit : Nat) {descent : Descent} (live : descent.isEnded = false) :
    (descent.step limit).weight < descent.weight := by
  obtain ⟨control, tokens, nesting, callers⟩ := descent
  cases control with
  | calls part =>
      cases part with
      | series series =>
          have called := partWeight_operand series
          simp only [step, weight, controlWeight, List.length_cons]
          omega
      | factor => simp [step, weight, controlWeight, partWeight]
  | factor onset => exact weight_stepFactor
  | chain series onset left => exact weight_stepChain
  | returns part onset sized => exact weight_stepReturns
  | ended outcome => cases live

theorem step_of_isEnded (limit : Nat) {descent : Descent} (ended : descent.isEnded = true) :
    descent.step limit = descent := by
  obtain ⟨control, tokens, nesting, callers⟩ := descent
  cases control with
  | ended outcome => rfl
  | _ => cases ended

/-- Reading has come to an end after as many steps as there can be. -/
theorem isEnded_iterate (limit : Nat) :
    ∀ {steps : Nat} {descent : Descent}, descent.weight ≤ steps →
      ((step limit)^[steps] descent).isEnded = true := by
  intro steps
  induction steps with
  | zero =>
      intro descent enough
      by_contra live
      have lighter := weight_step limit (Bool.eq_false_iff.mpr live)
      exact absurd (Nat.lt_of_lt_of_le lighter enough) (Nat.not_lt_zero _)
  | succ steps inductionHypothesis =>
      intro descent enough
      rw [Function.iterate_succ_apply]
      cases live : descent.isEnded with
      | false =>
          have lighter := weight_step limit live
          exact inductionHypothesis (by omega)
      | true =>
          rw [step_of_isEnded limit live]
          have fixed : (step limit)^[steps] descent = descent :=
            Function.iterate_fixed (step_of_isEnded limit live) steps
          rw [fixed, live]

/-- Reading ends within a number of steps that is linear in the number of tokens. -/
theorem ends (tokens : List Token) :
    (after (10 * tokens.length + 8) tokens).isEnded = true := by
  apply isEnded_iterate
  cases tokens with
  | nil => decide
  | cons token behind =>
      simp only [weight, start, List.isEmpty_cons, Bool.false_eq_true, if_false, controlWeight,
        partWeight, List.length_nil]
      omega

end Descent

end Keypad
