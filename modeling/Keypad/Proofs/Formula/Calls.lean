/-
Module: Keypad.Proofs.Formula.Calls
Layer: proofs
Purpose: What the calls of readers give, and that a call which succeeds returns to its caller.
Trusted boundary: none
Main exports:
  Part.read_progresses, chainOn, Part.read_series, chainOn_cons, Part.read_factor_minus,
  Part.read_factor_opening, Descent.Leads, Descent.returns_of_read
-/
import Keypad.Proofs.Formula.Descent

namespace Keypad

variable {limit : Nat}

/-- How a sum or a product that has found `onset` goes on with its first operand. -/
def chainOn (limit : Nat) (series : Series) (onset : Onset) (left : Sized) :
    List Token → Except Failure (Sized × List Token) :=
  fun tokens => chain limit series.operator?
    (series.operand.reader limit (limit - onset.nesting)) tokens.length left tokens

/-! ### What readers give -/

section Readers

variable {onset : Onset} {series : Series} {tokens : List Token} {nesting : Nat}

/-- The reader of a part reads what the grammar derives at its rank. -/
theorem Part.reads (positive : 0 < limit) (room : Nat) (part : Part) :
    ∃ Ends, Reads limit room (Derives part.rank) Ends (part.reader limit room) := by
  have factors := factor_reads limit positive room
  rcases part with (_ | _) | _
  · exact ⟨_, expression_reads factors⟩
  · exact ⟨_, term_reads factors⟩
  · exact ⟨_, factors⟩

/-- What is read takes up tokens, and its height is known. -/
theorem Part.read_progresses (positive : 0 < limit) {part : Part} {sized : Sized}
    (read : part.read limit onset = .ok (sized, tokens)) :
    (∃ taken, taken ≠ [] ∧ onset.tokens = taken ++ tokens) ∧
      sized.height = sized.tree.height ∧ sized.height ≤ limit := by
  obtain ⟨Ends, reads⟩ := part.reads positive (limit - onset.nesting)
  obtain ⟨taken, cut, nesting, derives, _, height, low⟩ := reads.sound read
  exact ⟨⟨taken, derives.ne_nil, cut⟩, height, low⟩

/-- A sum or a product is its first operand and what follows. -/
theorem Part.read_series (series : Series) (onset : Onset) :
    (Part.series series).read limit onset =
      series.operand.read limit onset >>= fun read => chainOn limit series onset read.1 read.2 := by
  rw [Part.read, Part.reader_series]
  rfl

/-- Where an operator follows, the next operand is read and joined. -/
theorem chainOn_cons (positive : 0 < limit) {token : Token} {operator : Operator}
    (joins : series.operator? token = some operator) (left : Sized) (behind : List Token) :
    chainOn limit series onset left (token :: behind) =
      series.operand.read limit ⟨behind, onset.nesting⟩ >>= fun read =>
        Sized.join limit operator left read.1 >>= fun joined =>
          chainOn limit series onset joined read.2 := by
  obtain ⟨Ends, reads⟩ := series.operand.reads positive (limit - onset.nesting)
  simp only [chainOn, List.length_cons, chain, joins]
  cases read : series.operand.reader limit (limit - onset.nesting) behind with
  | error failure => simp [Part.read, read]
  | ok next =>
      obtain ⟨right, rest⟩ := next
      obtain ⟨before, rfl, _⟩ := reads.sound read
      simp only [Part.read, read, ok_bind]
      cases Sized.join limit operator left right with
      | error failure => rfl
      | ok joined => exact chain_rounds reads joined (by simp)

/-- Where none follows, the sum or product is complete. -/
theorem chainOn_of_noOperator (left : Sized) (none : NoOperator series.operator? tokens) :
    chainOn limit series onset left tokens = .ok (left, tokens) :=
  chain_of_noOperator _ _ none

/-- A factor with too many others around it is refused. -/
theorem Part.read_factor_full (full : limit ≤ nesting) :
    Part.factor.read limit ⟨tokens, nesting⟩ = .error (.syntaxError .tooDeep) := by
  simp only [Part.read, Part.reader, Nat.sub_eq_zero_of_le full]
  rfl

/-- What is given for a sum when the tokens behind it are to close a group. -/
def closed (sized : Sized) : List Token → Except Failure (Sized × List Token)
  | .closing :: rest => .ok (sized, rest)
  | found :: _ => .error (.syntaxError (.closingExpected found))
  | [] => .error (.syntaxError .closingMissing)

variable (room : nesting < limit)

include room

/-- The factors inside one are read with room for one less. -/
theorem Part.read_factor_room (tokens : List Token) :
    Part.factor.read limit ⟨tokens, nesting⟩ =
      Keypad.factor limit (limit - (nesting + 1) + 1) tokens := by
  have same : limit - nesting = limit - (nesting + 1) + 1 := by omega
  simp only [Part.read, Part.reader, same]

theorem Part.read_factor_minus (behind : List Token) :
    Part.factor.read limit ⟨.minus :: behind, nesting⟩ =
      Part.factor.read limit ⟨behind, nesting + 1⟩ >>= fun read =>
        Sized.checked limit (.negation read.1.tree) (read.1.height + 1) >>= fun negated =>
          .ok (negated, read.2) :=
  Part.read_factor_room room _

theorem Part.read_factor_opening (behind : List Token) :
    Part.factor.read limit ⟨.opening :: behind, nesting⟩ =
      (Part.series .sum).read limit ⟨behind, nesting + 1⟩ >>= fun read =>
        closed read.1 read.2 :=
  Part.read_factor_room room _

end Readers

/-! ### Calls that succeed return -/

namespace Descent

/-- The steps of reading lead from one place to another. -/
def Leads (limit : Nat) (descent last : Descent) : Prop :=
  ∃ steps, (step limit)^[steps] descent = last

variable {descent middle last : Descent}

theorem Leads.refl (descent : Descent) : Leads limit descent descent := ⟨0, rfl⟩

theorem Leads.step (leads : Leads limit (descent.step limit) last) : Leads limit descent last := by
  obtain ⟨steps, reached⟩ := leads
  exact ⟨steps + 1, reached⟩

theorem Leads.trans (leads : Leads limit descent middle) (further : Leads limit middle last) :
    Leads limit descent last := by
  obtain ⟨steps, rfl⟩ := leads
  obtain ⟨more, rfl⟩ := further
  exact ⟨more + steps, Function.iterate_add_apply _ _ _ _⟩

/-- Calls for a part that succeed return, with the count and the callers as they were. -/
def Returns (limit : Nat) (part : Part) (nesting : Nat) : Prop :=
  ∀ (tokens rest : List Token) (sized : Sized) (callers : List Caller),
    part.read limit ⟨tokens, nesting⟩ = .ok (sized, rest) →
      Leads limit ⟨.calls part, tokens, nesting, callers⟩
        ⟨.returns part ⟨tokens, nesting⟩ sized, rest, nesting, callers⟩

/-- A sum or a product goes on to its end when its operands return. -/
theorem chain_returns (positive : 0 < limit) {series : Series} {onset : Onset}
    (operands : Returns limit series.operand onset.nesting) (callers : List Caller)
    {rest : List Token} {sized : Sized} :
    ∀ {rounds : Nat} {tokens : List Token} {left : Sized}, tokens.length ≤ rounds →
      chainOn limit series onset left tokens = .ok (sized, rest) →
        Leads limit ⟨.chain series onset left, tokens, onset.nesting, callers⟩
          ⟨.returns (.series series) onset sized, rest, onset.nesting, callers⟩ := by
  intro rounds
  -- the induction is on the tokens that are left; an operand takes some of them
  induction rounds with
  | zero =>
      intro tokens left enough read
      obtain rfl := List.length_eq_zero_iff.mp (Nat.le_zero.mp enough)
      cases read
      exact .step (.refl _)
  | succ rounds inductionHypothesis =>
      intro tokens left enough read
      cases tokens with
      | nil =>
          cases read
          exact .step (.refl _)
      | cons token behind =>
          apply Leads.step
          simp only [Descent.step, stepChain]
          cases joins : series.operator? token with
          | none =>
              have none : NoOperator series.operator? (token :: behind) := by
                rintro other ⟨⟩
                exact joins
              rw [chainOn_of_noOperator left none] at read
              cases read
              exact .refl _
          | some operator =>
              rw [chainOn_cons positive joins] at read
              simp only [bind_eq_ok_iff] at read
              obtain ⟨⟨right, after⟩, operandRead, joined, join, further⟩ := read
              obtain ⟨⟨taken, _, rfl⟩, _⟩ := Part.read_progresses positive operandRead
              refine (operands _ _ _ _ operandRead).trans (.step ?_)
              simp only [Descent.step, stepReturns, join]
              refine inductionHypothesis ?_ further
              simp only [List.length_cons, List.length_append] at enough
              omega

theorem series_returns (positive : 0 < limit) {series : Series} {nesting : Nat}
    (operands : Returns limit series.operand nesting) :
    Returns limit (.series series) nesting := by
  intro tokens rest sized callers read
  rw [Part.read_series, bind_eq_ok_iff] at read
  obtain ⟨⟨first, after⟩, operandRead, further⟩ := read
  refine .step ((operands _ _ _ _ operandRead).trans (.step ?_))
  exact chain_returns positive operands callers (Nat.le_refl _) further

theorem sum_returns (positive : 0 < limit) {nesting : Nat}
    (factors : Returns limit .factor nesting) : Returns limit (.series .sum) nesting := by
  have products : Returns limit Series.sum.operand nesting :=
    series_returns positive (show Returns limit Series.product.operand nesting from factors)
  exact series_returns positive products

/-- A factor returns when the factors inside it do. -/
theorem factor_returns_of_inner (positive : 0 < limit) {nesting : Nat} (room : nesting < limit)
    (inner : Returns limit .factor (nesting + 1)) : Returns limit .factor nesting := by
  intro tokens rest sized callers read
  have shape := Part.read_factor_room room tokens
  have counted : Leads limit ⟨.calls .factor, tokens, nesting, callers⟩
      (stepFactor limit ⟨tokens, nesting⟩
        ⟨.factor ⟨tokens, nesting⟩, tokens, nesting + 1, callers⟩) := ⟨2, rfl⟩
  refine counted.trans ?_
  rw [stepFactor, if_neg (Nat.not_lt.mpr room)]
  cases tokens with
  | nil => cases shape.symm.trans read
  | cons token behind =>
      cases token with
      | number value =>
          cases shape.symm.trans read
          exact .refl _
      | minus =>
          rw [Part.read_factor_minus room] at read
          simp only [bind_eq_ok_iff] at read
          obtain ⟨⟨inside, after⟩, innerRead, negated, level, done⟩ := read
          cases done
          refine (inner _ _ _ _ innerRead).trans (.step ?_)
          simp only [Descent.step, stepReturns, level]
          exact .refl _
      | opening =>
          rw [Part.read_factor_opening room, bind_eq_ok_iff] at read
          obtain ⟨⟨inside, after⟩, innerRead, close⟩ := read
          refine (sum_returns positive inner _ _ _ _ innerRead).trans (.step ?_)
          rcases after with _ | ⟨token, after⟩
          case nil => cases close
          case cons =>
            cases token <;> cases close
            exact .refl _
      | closing | plus | star | slash => cases shape.symm.trans read

/-- Factors return whatever room there is; those inside one have less. -/
theorem factor_returns (positive : 0 < limit) :
    ∀ {room nesting : Nat}, limit - nesting = room → Returns limit .factor nesting := by
  intro room
  induction room with
  | zero =>
      intro nesting none tokens rest sized callers read
      rw [Part.read_factor_full (Nat.sub_eq_zero_iff_le.mp none)] at read
      cases read
  | succ room inductionHypothesis =>
      intro nesting left tokens rest sized callers read
      have room : nesting < limit := by omega
      have inner : Returns limit .factor (nesting + 1) := inductionHypothesis (by omega)
      exact factor_returns_of_inner positive room inner tokens rest sized callers read

/-- A call that succeeds returns, with the count and the callers as they were. -/
theorem returns_of_read (positive : 0 < limit) (part : Part) (nesting : Nat) :
    Returns limit part nesting := by
  have factors : Returns limit .factor nesting := factor_returns positive rfl
  rcases part with (_ | _) | _
  · exact sum_returns positive factors
  · exact series_returns positive factors
  · exact factors

end Descent

end Keypad
