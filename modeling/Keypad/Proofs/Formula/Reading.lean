/-
Module: Keypad.Proofs.Formula.Reading
Layer: proofs
Purpose: The reader of formulas against the grammar: it accepts exactly the
  formulas within its limits, and the grammar gives a formula one tree.
Trusted boundary: none
Main exports:
  Reads, chained_reads, factor_reads, expression_reads, derives_of_parse,
  parse_of_derives, Derives.unique, parse_exact
-/
import Keypad.Formula.Grammar

namespace Keypad

/-!
The grammar joins operands from the left, and so does the reader, but the reader
starts from the first operand and the derivation from the last one.  The two
meet in `chained_of_joined`: reading the tokens of a derivation comes to the same
as going on, with the tree of the derivation as the left operand, behind them.

`Reads` says what a reader within limits owes to a set of formulas.  Products of
factors owe it to factors and sums to products by the same lemma
`chained_reads`; factors with room for one more owe it to sums with less room, so
the induction is on the room.

The limits are free in all of this.  A reader with limits large enough for two
derivations of one list of tokens reads both, so they are the same.
-/

/-- A set of formulas: lists of tokens with their trees and their nesting. -/
abbrev Language := List Token → Tree → Nat → Prop

/-- Operands of a language with operators between them, joined from the left. -/
inductive Joined (operator? : Token → Option Operator) (Operand : Language) : Language where
  | one {tokens : List Token} {tree : Tree} {nesting : Nat} :
      Operand tokens tree nesting →
      Joined operator? Operand tokens tree nesting
  | more {before behind : List Token} {token : Token} {operator : Operator}
      {left right : Tree} {leftNesting rightNesting : Nat} :
      Joined operator? Operand before left leftNesting →
      operator? token = some operator →
      Operand behind right rightNesting →
      Joined operator? Operand (before ++ token :: behind)
        (.binary operator left right) (max leftNesting rightNesting)

/-- Products are factors joined by the operators of a product. -/
theorem joined_of_product {tokens : List Token} {tree : Tree} {nesting : Nat}
    (derives : Derives .product tokens tree nesting) :
    Joined productOperator? (Derives .factor) tokens tree nesting := by
  generalize rankEq : Rank.product = rank at derives
  induction derives with
  | product factor => exact .one factor
  | times _ joins behind inductionHypothesis _ =>
      exact .more (inductionHypothesis rankEq) joins behind
  | number => cases rankEq
  | negation => cases rankEq
  | group => cases rankEq
  | sum => cases rankEq
  | plus => cases rankEq

theorem product_of_joined {tokens : List Token} {tree : Tree} {nesting : Nat}
    (joined : Joined productOperator? (Derives .factor) tokens tree nesting) :
    Derives .product tokens tree nesting := by
  induction joined with
  | one factor => exact .product factor
  | more _ joins behind inductionHypothesis =>
      exact .times inductionHypothesis joins behind

/-- Sums are products joined by the operators of a sum. -/
theorem joined_of_sum {tokens : List Token} {tree : Tree} {nesting : Nat}
    (derives : Derives .sum tokens tree nesting) :
    Joined sumOperator? (Derives .product) tokens tree nesting := by
  generalize rankEq : Rank.sum = rank at derives
  induction derives with
  | sum product => exact .one product
  | plus _ joins behind inductionHypothesis _ =>
      exact .more (inductionHypothesis rankEq) joins behind
  | number => cases rankEq
  | negation => cases rankEq
  | group => cases rankEq
  | product => cases rankEq
  | times => cases rankEq

theorem sum_of_joined {tokens : List Token} {tree : Tree} {nesting : Nat}
    (joined : Joined sumOperator? (Derives .product) tokens tree nesting) :
    Derives .sum tokens tree nesting := by
  induction joined with
  | one product => exact .sum product
  | more _ joins behind inductionHypothesis =>
      exact .plus inductionHypothesis joins behind

theorem Derives.nesting_pos {rank : Rank} {tokens : List Token} {tree : Tree}
    {nesting : Nat} (derives : Derives rank tokens tree nesting) : 0 < nesting := by
  induction derives with
  | number => exact Nat.one_pos
  | negation => exact Nat.succ_pos _
  | group => exact Nat.succ_pos _
  | product _ inductionHypothesis => exact inductionHypothesis
  | sum _ inductionHypothesis => exact inductionHypothesis
  | times _ _ _ leftPositive _ => exact Nat.lt_of_lt_of_le leftPositive (Nat.le_max_left _ _)
  | plus _ _ _ leftPositive _ => exact Nat.lt_of_lt_of_le leftPositive (Nat.le_max_left _ _)

theorem Derives.ne_nil {rank : Rank} {tokens : List Token} {tree : Tree}
    {nesting : Nat} (derives : Derives rank tokens tree nesting) : tokens ≠ [] := by
  induction derives with
  | product _ inductionHypothesis => exact inductionHypothesis
  | sum _ inductionHypothesis => exact inductionHypothesis
  | _ => simp

theorem Tree.height_pos (tree : Tree) : 0 < tree.height := by
  cases tree <;> simp only [Tree.height] <;> omega

/-- What comes of reading a formula: its tree and the tokens behind it when both
are within the limits, and the failure for deep formulas otherwise. -/
def within (limit room : Nat) (tree : Tree) (nesting : Nat) (rest : List Token) :
    Except Failure (Sized × List Token) :=
  if tree.height ≤ limit ∧ nesting ≤ room then .ok (⟨tree, tree.height⟩, rest)
  else .error (.syntaxError .tooDeep)

theorem within_of_fits {limit room : Nat} {tree : Tree} {nesting : Nat}
    {rest : List Token} (fits : tree.height ≤ limit ∧ nesting ≤ room) :
    within limit room tree nesting rest = .ok (⟨tree, tree.height⟩, rest) :=
  if_pos fits

theorem within_of_not_fits {limit room : Nat} {tree : Tree} {nesting : Nat}
    {rest : List Token} (deep : ¬ (tree.height ≤ limit ∧ nesting ≤ room)) :
    within limit room tree nesting rest = .error (.syntaxError .tooDeep) :=
  if_neg deep

/-- The tokens are a formula of the language within the limits, and its tree is
kept with its height. -/
def Fits (limit room : Nat) (language : Language) (tokens : List Token)
    (sized : Sized) : Prop :=
  ∃ nesting, language tokens sized.tree nesting ∧ nesting ≤ room ∧
    sized.height = sized.tree.height ∧ sized.height ≤ limit

/-- A reader reads a language within limits: what it reads is a formula that fits,
every formula is read behind which the tokens may end it, and nothing fails but
by the form of the tokens. -/
structure Reads (limit room : Nat) (language : Language) (Ends : List Token → Prop)
    (reader : Reader) : Prop where
  sound : ∀ {tokens rest : List Token} {sized : Sized},
    reader tokens = .ok (sized, rest) →
      ∃ before, tokens = before ++ rest ∧ Fits limit room language before sized
  complete : ∀ {before : List Token} {tree : Tree} {nesting : Nat} (rest : List Token),
    language before tree nesting → Ends rest →
      reader (before ++ rest) = within limit room tree nesting rest
  fault : ∀ {tokens : List Token} {failure : Failure},
    reader tokens = .error failure → ∃ fault, failure = .syntaxError fault

/-- No operator of this kind stands at the head of the tokens. -/
def NoOperator (operator? : Token → Option Operator) (tokens : List Token) : Prop :=
  ∀ token ∈ tokens.head?, operator? token = none

/-- A height is checked against the limit and against nothing else. -/
theorem checked_eq_ok_iff {limit height : Nat} {tree : Tree} {sized : Sized} :
    Sized.checked limit tree height = .ok sized ↔ height ≤ limit ∧ sized = ⟨tree, height⟩ := by
  unfold Sized.checked
  by_cases deep : limit < height
  · simp [deep, Nat.not_le.mpr deep]
  · simp [deep, Nat.not_lt.mp deep, eq_comm]

/-- A height beyond the limit is the only failure of its check. -/
theorem checked_eq_error_iff {limit height : Nat} {tree : Tree} {failure : Failure} :
    Sized.checked limit tree height = .error failure ↔
      limit < height ∧ failure = .syntaxError .tooDeep := by
  unfold Sized.checked
  by_cases deep : limit < height
  · simp [deep, eq_comm]
  · simp [deep]

/-- Joining the right operand to a left one within the limits gives what the
joined formula within the limits gives. -/
theorem within_join {limit room : Nat} {left right : Tree} {leftNesting rightNesting : Nat}
    {rest : List Token} {β : Type} {next : Sized → List Token → Except Failure β}
    (operator : Operator) (leftFits : left.height ≤ limit ∧ leftNesting ≤ room) :
    (within limit room right rightNesting rest >>= fun read =>
        Sized.join limit operator ⟨left, left.height⟩ read.1 >>= fun joined =>
          next joined read.2) =
      within limit room (.binary operator left right) (max leftNesting rightNesting) rest >>=
        fun read => next read.1 read.2 := by
  by_cases rightFits : right.height ≤ limit ∧ rightNesting ≤ room
  · rw [within_of_fits rightFits]
    by_cases level : 1 + max left.height right.height ≤ limit
    · have fits : (Tree.binary operator left right).height ≤ limit ∧
          max leftNesting rightNesting ≤ room :=
        ⟨level, Nat.max_le.mpr ⟨leftFits.2, rightFits.2⟩⟩
      have joined : Sized.join limit operator ⟨left, left.height⟩ ⟨right, right.height⟩ =
          .ok ⟨.binary operator left right, (Tree.binary operator left right).height⟩ :=
        checked_eq_ok_iff.mpr ⟨level, rfl⟩
      rw [within_of_fits fits, ok_bind, ok_bind, joined, ok_bind]
    · have deep : ¬ ((Tree.binary operator left right).height ≤ limit ∧
          max leftNesting rightNesting ≤ room) := fun fits => level fits.1
      have refused : Sized.join limit operator ⟨left, left.height⟩ ⟨right, right.height⟩ =
          .error (.syntaxError .tooDeep) :=
        checked_eq_error_iff.mpr ⟨Nat.not_le.mp level, rfl⟩
      rw [within_of_not_fits deep, ok_bind, refused]
      rfl
  · have deep : ¬ ((Tree.binary operator left right).height ≤ limit ∧
        max leftNesting rightNesting ≤ room) := by
      simp only [Tree.height]
      omega
    rw [within_of_not_fits rightFits, within_of_not_fits deep]
    rfl

section Chains

variable {limit room : Nat} {operator? : Token → Option Operator} {Operand : Language}
  {Ends : List Token → Prop} {operand : Reader}

/-- What follows the operands behind the first one is no operator, so a chain
ends there. -/
theorem chain_of_noOperator {rest : List Token} (rounds : Nat) (left : Sized)
    (none : NoOperator operator? rest) :
    chain limit operator? operand rounds left rest = .ok (left, rest) := by
  cases rounds with
  | zero => rfl
  | succ rounds =>
      cases rest with
      | nil => rfl
      | cons token behind =>
          have noOperator : operator? token = Option.none := none token rfl
          simp [chain, noOperator]

/-- As many rounds as there are tokens are enough. -/
theorem chain_rounds (reads : Reads limit room Operand Ends operand) :
    ∀ {rounds : Nat} {tokens : List Token} (left : Sized), tokens.length ≤ rounds →
      chain limit operator? operand rounds left tokens =
        chain limit operator? operand tokens.length left tokens := by
  intro rounds
  induction rounds using Nat.strongRecOn with
  | ind rounds inductionHypothesis =>
      intro tokens left enough
      cases tokens with
      | nil => cases rounds <;> rfl
      | cons token behind =>
          cases rounds with
          | zero => simp at enough
          | succ rounds =>
              simp only [List.length_cons, Nat.succ_le_succ_iff] at enough
              simp only [List.length_cons, chain]
              cases operator? token with
              | none => rfl
              | some operator =>
                  cases read : operand behind with
                  | error failure => rfl
                  | ok next =>
                      obtain ⟨right, rest⟩ := next
                      obtain ⟨before, cut, _⟩ := reads.sound read
                      have shorter : rest.length ≤ behind.length := by
                        simp [cut]
                      cases joins : Sized.join limit operator left right with
                      | error failure => simp [joins]
                      | ok joined =>
                          simp only [joins, ok_bind]
                          rw [inductionHypothesis rounds (Nat.lt_succ_self _) joined
                              (Nat.le_trans shorter enough),
                            inductionHypothesis behind.length (Nat.lt_succ_of_le enough)
                              joined shorter]

/-- Reading the tokens of joined operands comes to the same as going on behind
them with their tree as the left operand. -/
theorem chained_of_joined (reads : Reads limit room Operand Ends operand)
    (closes : ∀ {token operator} (rest : List Token),
      operator? token = some operator → Ends (token :: rest))
    {before : List Token} {tree : Tree} {nesting : Nat}
    (joined : Joined operator? Operand before tree nesting) :
    ∀ rest, Ends rest →
      chained limit operator? operand (before ++ rest) =
        within limit room tree nesting rest >>= fun next =>
          chain limit operator? operand next.2.length next.1 next.2 := by
  induction joined with
  | one first =>
      intro rest ends
      simp only [chained, reads.complete rest first ends]
  | @more before behind token operator left right leftNesting rightNesting
      _ joins second inductionHypothesis =>
      intro rest ends
      rw [List.append_assoc, List.cons_append,
        inductionHypothesis (token :: (behind ++ rest)) (closes _ joins)]
      by_cases leftFits : left.height ≤ limit ∧ leftNesting ≤ room
      · rw [within_of_fits leftFits]
        simp only [ok_bind, List.length_cons, chain, joins, reads.complete rest second ends]
        rw [within_join operator leftFits]
        -- the rounds left over are those for the right operand's tokens
        by_cases fits : (Tree.binary operator left right).height ≤ limit ∧
            max leftNesting rightNesting ≤ room
        · rw [within_of_fits fits]
          exact chain_rounds reads _ (by simp)
        · rw [within_of_not_fits fits]
          rfl
      · have tooDeep : ¬ ((Tree.binary operator left right).height ≤ limit ∧
            max leftNesting rightNesting ≤ room) := by
          simp only [Tree.height]
          omega
        rw [within_of_not_fits leftFits, within_of_not_fits tooDeep]

/-- A round that succeeds: no operator follows and the chain ends, or the next operand is
read, joined, and gone on from. -/
theorem chain_succ_eq_ok {rounds : Nat} {left sized : Sized} {tokens rest : List Token}
    (read : chain limit operator? operand (rounds + 1) left tokens = .ok (sized, rest)) :
    (NoOperator operator? tokens ∧ sized = left ∧ rest = tokens) ∨
      ∃ token operator behind right after joined, tokens = token :: behind ∧
        operator? token = some operator ∧ operand behind = .ok (right, after) ∧
        Sized.join limit operator left right = .ok joined ∧
        chain limit operator? operand rounds joined after = .ok (sized, rest) := by
  cases tokens with
  | nil =>
      cases read
      exact .inl ⟨nofun, rfl, rfl⟩
  | cons token behind =>
      simp only [chain] at read
      cases joins : operator? token with
      | none =>
          rw [joins] at read
          cases read
          refine .inl ⟨fun other head => ?_, rfl, rfl⟩
          cases head
          exact joins
      | some operator =>
          simp only [joins, bind_eq_ok_iff] at read
          obtain ⟨⟨right, after⟩, second, joined, join, further⟩ := read
          exact .inr ⟨token, operator, behind, right, after, joined, rfl, joins, second, join,
            further⟩

/-- A round that fails: an operator follows, and the next operand fails, or joining it, or
what comes behind it. -/
theorem chain_succ_eq_error {rounds : Nat} {left : Sized} {tokens : List Token}
    {failure : Failure}
    (failed : chain limit operator? operand (rounds + 1) left tokens = .error failure) :
    ∃ token operator behind, tokens = token :: behind ∧ operator? token = some operator ∧
      (operand behind = .error failure ∨
        ∃ right after, operand behind = .ok (right, after) ∧
          (Sized.join limit operator left right = .error failure ∨
            ∃ joined, chain limit operator? operand rounds joined after = .error failure)) := by
  cases tokens with
  | nil => cases failed
  | cons token behind =>
      simp only [chain] at failed
      cases joins : operator? token with
      | none => simp [joins] at failed
      | some operator =>
          refine ⟨token, operator, behind, rfl, joins, ?_⟩
          simp only [joins, bind_eq_error_iff] at failed
          rcases failed with operandFailed | ⟨⟨right, after⟩, second, joinFailed | ⟨joined, _, further⟩⟩
          · exact .inl operandFailed
          · exact .inr ⟨right, after, second, .inl joinFailed⟩
          · exact .inr ⟨right, after, second, .inr ⟨joined, further⟩⟩

/-- What a chain reads behind a left operand that fits is joined to it. -/
theorem chain_sound (reads : Reads limit room Operand Ends operand) :
    ∀ {rounds : Nat} {tokens rest before : List Token} {left sized : Sized},
      Fits limit room (Joined operator? Operand) before left →
      chain limit operator? operand rounds left tokens = .ok (sized, rest) →
        ∃ behind, tokens = behind ++ rest ∧
          Fits limit room (Joined operator? Operand) (before ++ behind) sized := by
  intro rounds
  induction rounds with
  | zero =>
      intro tokens rest before left sized fits read
      cases read
      exact ⟨[], rfl, by simpa using fits⟩
  | succ rounds inductionHypothesis =>
      intro tokens rest before left sized fits read
      rcases chain_succ_eq_ok read with ⟨_, rfl, rfl⟩ |
        ⟨token, operator, tokens, right, after, joined, rfl, joins, second, join, further⟩
      · exact ⟨[], rfl, by simpa using fits⟩
      · obtain ⟨behind, rfl, rightNesting, derives, shallow, rightHeight, _⟩ :=
          reads.sound second
        obtain ⟨leftNesting, leftDerives, leftShallow, leftHeight, _⟩ := fits
        obtain ⟨level, rfl⟩ := checked_eq_ok_iff.mp join
        have joinedFits : Fits limit room (Joined operator? Operand)
            (before ++ token :: behind)
            ⟨.binary operator left.tree right.tree, 1 + max left.height right.height⟩ :=
          ⟨max leftNesting rightNesting, .more leftDerives joins derives,
            Nat.max_le.mpr ⟨leftShallow, shallow⟩,
            by simp only [Tree.height, leftHeight, rightHeight], level⟩
        obtain ⟨others, rfl, whole⟩ := inductionHypothesis joinedFits further
        exact ⟨token :: (behind ++ others), by simp, by simpa using whole⟩

/-- A chain fails by the form of the tokens only. -/
theorem chain_fault (reads : Reads limit room Operand Ends operand) :
    ∀ {rounds : Nat} {tokens : List Token} {left : Sized} {failure : Failure},
      chain limit operator? operand rounds left tokens = .error failure →
        ∃ fault, failure = .syntaxError fault := by
  intro rounds
  induction rounds with
  | zero => intro tokens left failure failed; cases failed
  | succ rounds inductionHypothesis =>
      intro tokens left failure failed
      obtain ⟨_, _, _, _, _, operandFailed | ⟨_, _, _, joinFailed | ⟨_, further⟩⟩⟩ :=
        chain_succ_eq_error failed
      · exact reads.fault operandFailed
      · exact ⟨.tooDeep, (checked_eq_error_iff.mp joinFailed).2⟩
      · exact inductionHypothesis further

/-- Where operands are read, operands with operators between them are read.  An
operator must be able to end an operand; the tokens may end the whole where they
end an operand and no operator follows. -/
theorem chained_reads (reads : Reads limit room Operand Ends operand)
    (closes : ∀ {token operator} (rest : List Token),
      operator? token = some operator → Ends (token :: rest)) :
    Reads limit room (Joined operator? Operand)
      (fun rest => Ends rest ∧ NoOperator operator? rest)
      (chained limit operator? operand) where
  sound := by
    intro tokens rest sized read
    simp only [chained, bind_eq_ok_iff] at read
    obtain ⟨⟨first, after⟩, firstRead, further⟩ := read
    obtain ⟨before, rfl, nesting, derives, shallow, height, low⟩ := reads.sound firstRead
    obtain ⟨behind, rfl, fits⟩ :=
      chain_sound reads ⟨nesting, .one derives, shallow, height, low⟩ further
    exact ⟨before ++ behind, by simp, fits⟩
  complete := by
    intro before tree nesting rest joined ends
    rw [chained_of_joined reads closes joined rest ends.1]
    by_cases fits : tree.height ≤ limit ∧ nesting ≤ room
    · rw [within_of_fits fits]
      exact chain_of_noOperator _ _ ends.2
    · rw [within_of_not_fits fits]
      rfl
  fault := by
    intro tokens failure failed
    simp only [chained, bind_eq_error_iff] at failed
    rcases failed with firstFailed | ⟨_, _, further⟩
    · exact reads.fault firstFailed
    · exact chain_fault reads further

end Chains

/-- A reader of a language reads every language with the same formulas, also
behind fewer tokens. -/
theorem Reads.congr {limit room : Nat} {language other : Language}
    {Ends Fewer : List Token → Prop} {reader : Reader}
    (reads : Reads limit room language Ends reader)
    (same : ∀ {tokens tree nesting},
      language tokens tree nesting ↔ other tokens tree nesting)
    (fewer : ∀ {rest}, Fewer rest → Ends rest) :
    Reads limit room other Fewer reader where
  sound := by
    intro tokens rest sized read
    obtain ⟨before, cut, nesting, derives, bounds⟩ := reads.sound read
    exact ⟨before, cut, nesting, same.mp derives, bounds⟩
  complete := by
    intro before tree nesting rest derives ends
    exact reads.complete rest (same.mpr derives) (fewer ends)
  fault := reads.fault

/-- The tokens behind which a sum is complete. -/
def EndsSum (rest : List Token) : Prop :=
  NoOperator productOperator? rest ∧ NoOperator sumOperator? rest

/-- A product is complete before an operator of a sum. -/
theorem noOperator_of_sumOperator {token : Token} {operator : Operator}
    (rest : List Token) (joins : sumOperator? token = some operator) :
    NoOperator productOperator? (token :: rest) := by
  intro other head
  cases head
  cases token <;> first | rfl | cases joins

section Limits

variable {limit room : Nat}

/-- Where factors are read, products are. -/
theorem term_reads {reader : Reader}
    (reads : Reads limit room (Derives .factor) (fun _ => True) reader) :
    Reads limit room (Derives .product) (NoOperator productOperator?)
      (term limit reader) :=
  (chained_reads reads fun _ _ => trivial).congr
    ⟨product_of_joined, joined_of_product⟩ fun ends => ⟨trivial, ends⟩

/-- Where factors are read, sums are. -/
theorem expression_reads {reader : Reader}
    (reads : Reads limit room (Derives .factor) (fun _ => True) reader) :
    Reads limit room (Derives .sum) EndsSum (expression limit reader) :=
  (chained_reads (term_reads reads) noOperator_of_sumOperator).congr
    ⟨sum_of_joined, joined_of_sum⟩ id

/-- What is read as a factor with room for one more is a factor. -/
theorem factor_succ_sound (positive : 0 < limit)
    (reads : Reads limit room (Derives .factor) (fun _ => True) (factor limit room))
    {tokens rest : List Token} {sized : Sized}
    (read : factor limit (room + 1) tokens = .ok (sized, rest)) :
    ∃ before, tokens = before ++ rest ∧
      Fits limit (room + 1) (Derives .factor) before sized := by
  unfold factor at read
  split at read
  · rename_i value behind
    cases read
    exact ⟨[.number value], rfl, 1, .number value, by omega, rfl, positive⟩
  · rename_i behind
    simp only [bind_eq_ok_iff] at read
    obtain ⟨⟨inner, after⟩, innerRead, negated, level, done⟩ := read
    cases done
    obtain ⟨low, rfl⟩ := checked_eq_ok_iff.mp level
    obtain ⟨before, rfl, nesting, derives, shallow, height, _⟩ := reads.sound innerRead
    exact ⟨.minus :: before, rfl, nesting + 1, .negation derives, by omega,
      by simp only [Tree.height, height], low⟩
  · rename_i behind
    simp only [bind_eq_ok_iff] at read
    obtain ⟨⟨inner, after⟩, innerRead, closed⟩ := read
    obtain ⟨before, rfl, nesting, derives, shallow, height, low⟩ :=
      (expression_reads reads).sound innerRead
    cases after with
    | nil => cases closed
    | cons token after =>
        cases token <;> cases closed
        exact ⟨.opening :: (before ++ [.closing]), by simp, nesting + 1,
          .group derives, by omega, height, low⟩
  · cases read
  · cases read

/-- A factor is read with room for one more than is needed inside it. -/
theorem factor_succ_complete (positive : 0 < limit)
    (reads : Reads limit room (Derives .factor) (fun _ => True) (factor limit room))
    {before : List Token} {tree : Tree} {nesting : Nat} (rest : List Token)
    (derives : Derives .factor before tree nesting) :
    factor limit (room + 1) (before ++ rest) = within limit (room + 1) tree nesting rest := by
  cases derives with
  | number value =>
      rw [within_of_fits ⟨positive, by omega⟩]
      rfl
  | @negation tokens tree nesting inner =>
      simp only [List.cons_append, factor, reads.complete rest inner trivial]
      by_cases innerFits : tree.height ≤ limit ∧ nesting ≤ room
      · rw [within_of_fits innerFits, ok_bind]
        by_cases level : tree.height + 1 ≤ limit
        · have checked : Sized.checked limit (.negation tree) (tree.height + 1) =
              .ok ⟨.negation tree, (Tree.negation tree).height⟩ :=
            checked_eq_ok_iff.mpr ⟨level, rfl⟩
          rw [checked, within_of_fits ⟨level, by omega⟩]
          rfl
        · have refused : Sized.checked limit (.negation tree) (tree.height + 1) =
              .error (.syntaxError .tooDeep) :=
            checked_eq_error_iff.mpr ⟨Nat.not_le.mp level, rfl⟩
          rw [refused, within_of_not_fits fun fits => level fits.1]
          rfl
      · have deep : ¬ ((Tree.negation tree).height ≤ limit ∧ nesting + 1 ≤ room + 1) := by
          simp only [Tree.height]
          omega
        rw [within_of_not_fits innerFits, within_of_not_fits deep]
        rfl
  | @group tokens tree nesting inner =>
      have ends : EndsSum (.closing :: rest) := by
        constructor <;> · intro token head; cases head; rfl
      simp only [List.cons_append, List.append_assoc, List.nil_append, factor,
        (expression_reads reads).complete (.closing :: rest) inner ends]
      by_cases innerFits : tree.height ≤ limit ∧ nesting ≤ room
      · rw [within_of_fits innerFits, within_of_fits ⟨innerFits.1, by omega⟩]
        rfl
      · rw [within_of_not_fits innerFits, within_of_not_fits (by omega)]
        rfl

/-- A factor with room for one more fails by the form of the tokens only. -/
theorem factor_succ_fault
    (reads : Reads limit room (Derives .factor) (fun _ => True) (factor limit room))
    {tokens : List Token} {failure : Failure}
    (failed : factor limit (room + 1) tokens = .error failure) :
    ∃ fault, failure = .syntaxError fault := by
  unfold factor at failed
  split at failed
  · cases failed
  · simp only [bind_eq_error_iff] at failed
    rcases failed with innerFailed | ⟨_, _, levelFailed | ⟨_, _, done⟩⟩
    · exact reads.fault innerFailed
    · exact ⟨.tooDeep, (checked_eq_error_iff.mp levelFailed).2⟩
    · cases done
  · simp only [bind_eq_error_iff] at failed
    rcases failed with innerFailed | ⟨⟨_, after⟩, _, open_⟩
    · exact (expression_reads reads).fault innerFailed
    · cases after with
      | nil => cases open_; exact ⟨_, rfl⟩
      | cons token after => cases token <;> cases open_ <;> exact ⟨_, rfl⟩
  · cases failed; exact ⟨_, rfl⟩
  · cases failed; exact ⟨_, rfl⟩

/-- Factors are read with any room: the factors inside one are read with one
less. -/
theorem factor_reads (limit : Nat) (positive : 0 < limit) :
    ∀ room, Reads limit room (Derives .factor) (fun _ => True) (factor limit room) := by
  intro room
  induction room with
  | zero =>
      refine ⟨fun read => (by cases read), fun rest derives _ => ?_, fun failed => ?_⟩
      · have deep := derives.nesting_pos
        rw [within_of_not_fits (by omega)]
        rfl
      · cases failed
        exact ⟨.tooDeep, rfl⟩
  | succ room inductionHypothesis =>
      exact ⟨factor_succ_sound positive inductionHypothesis,
        fun rest derives _ => factor_succ_complete positive inductionHypothesis rest derives,
        factor_succ_fault inductionHypothesis⟩

end Limits

/-- At the end of the tokens every sum is complete. -/
theorem endsSum_nil : EndsSum [] := by
  constructor <;> · intro token head; cases head

/-- Of two derivations of one list of tokens, what nests as deep as the first is
deep enough for the second, and has its tree. -/
theorem Derives.same_tree {tokens : List Token} {tree other : Tree}
    {nesting otherNesting : Nat} (derives : Derives .sum tokens tree nesting)
    (derivesOther : Derives .sum tokens other otherNesting) :
    tree = other ∧ otherNesting ≤ nesting := by
  -- a reader with height for both trees and room for the first derivation only
  have reads := expression_reads (factor_reads (tree.height + other.height)
    (Nat.add_pos_left tree.height_pos _) nesting)
  have first := reads.complete [] derives endsSum_nil
  rw [within_of_fits ⟨Nat.le_add_right _ _, Nat.le_refl _⟩] at first
  have second := reads.complete [] derivesOther endsSum_nil
  rw [first] at second
  by_cases fits : other.height ≤ tree.height + other.height ∧ otherNesting ≤ nesting
  · rw [within_of_fits fits] at second
    injection second with read
    injection read with sized
    injection sized with sameTree
    exact ⟨sameTree, fits.2⟩
  · rw [within_of_not_fits fits] at second
    cases second

/-- The grammar is unambiguous. -/
theorem Derives.unique {tokens : List Token} {tree other : Tree}
    {nesting otherNesting : Nat} (derives : Derives .sum tokens tree nesting)
    (derivesOther : Derives .sum tokens other otherNesting) :
    tree = other ∧ nesting = otherNesting := by
  obtain ⟨sameTree, shallow⟩ := derives.same_tree derivesOther
  exact ⟨sameTree, Nat.le_antisymm (derivesOther.same_tree derives).2 shallow⟩

/-- The reader of formulas within the limits that `parse` keeps. -/
theorem formula_reads :
    Reads depthLimit depthLimit (Derives .sum) EndsSum
      (expression depthLimit (factor depthLimit depthLimit)) :=
  expression_reads (factor_reads depthLimit (by decide) depthLimit)

/-- What is parsed is a formula within the limits. -/
theorem derives_of_parse {tokens : List Token} {tree : Tree}
    (parsed : parse tokens = .ok tree) :
    ∃ nesting, Derives .sum tokens tree nesting ∧
      tree.height ≤ depthLimit ∧ nesting ≤ depthLimit := by
  unfold parse at parsed
  split at parsed
  · cases parsed
  · simp only [bind_eq_ok_iff] at parsed
    obtain ⟨⟨sized, rest⟩, read, complete⟩ := parsed
    obtain ⟨before, rfl, nesting, derives, shallow, height, low⟩ := formula_reads.sound read
    cases rest with
    | nil =>
        cases complete
        exact ⟨nesting, by simpa using derives, height ▸ low, shallow⟩
    | cons token behind => cases token <;> cases complete

/-- A formula is parsed as its tree, unless it is too deep. -/
theorem parse_of_derives {tokens : List Token} {tree : Tree} {nesting : Nat}
    (derives : Derives .sum tokens tree nesting) :
    parse tokens =
      if tree.height ≤ depthLimit ∧ nesting ≤ depthLimit then .ok tree
      else .error (.syntaxError .tooDeep) := by
  have read := formula_reads.complete [] derives endsSum_nil
  rw [List.append_nil] at read
  have nonempty : tokens.isEmpty = false := by
    simpa using derives.ne_nil
  unfold parse
  rw [nonempty, read]
  by_cases fits : tree.height ≤ depthLimit ∧ nesting ≤ depthLimit
  · rw [within_of_fits fits, if_pos fits]
    rfl
  · rw [within_of_not_fits fits, if_neg fits]
    rfl

/-- Nothing fails to be parsed but by its form. -/
theorem parse_fault {tokens : List Token} {failure : Failure}
    (failed : parse tokens = .error failure) : ∃ fault, failure = .syntaxError fault := by
  unfold parse at failed
  split at failed
  · cases failed
    exact ⟨_, rfl⟩
  · simp only [bind_eq_error_iff] at failed
    rcases failed with unread | ⟨⟨_, rest⟩, _, incomplete⟩
    · exact formula_reads.fault unread
    · cases rest with
      | nil => cases incomplete
      | cons token behind => cases token <;> cases incomplete <;> exact ⟨_, rfl⟩

/-- Parsing gives a tree exactly for the formulas of the grammar within both
limits, and then the one tree of the formula.  Of a formula beyond a limit it says
that it is nested too deeply, and what is no formula is refused for its form. -/
theorem parse_exact (tokens : List Token) :
    (∀ tree, parse tokens = .ok tree ↔
      ∃ nesting, Derives .sum tokens tree nesting ∧
        tree.height ≤ depthLimit ∧ nesting ≤ depthLimit) ∧
    (∀ tree other nesting otherNesting, Derives .sum tokens tree nesting →
      Derives .sum tokens other otherNesting →
        tree = other ∧ nesting = otherNesting) ∧
    (∀ tree nesting, Derives .sum tokens tree nesting →
      depthLimit < tree.height ∨ depthLimit < nesting →
        parse tokens = .error (.syntaxError .tooDeep)) ∧
    ((∀ tree nesting, ¬ Derives .sum tokens tree nesting) →
      ∃ fault, parse tokens = .error (.syntaxError fault)) ∧
    Fault.tooDeep.message = "expression nested too deeply".toList := by
  refine ⟨fun tree => ⟨derives_of_parse, ?_⟩, ?_, ?_, ?_, rfl⟩
  · rintro ⟨nesting, derives, low, shallow⟩
    rw [parse_of_derives derives, if_pos ⟨low, shallow⟩]
  · intro tree other nesting otherNesting derives derivesOther
    exact derives.unique derivesOther
  · intro tree nesting derives beyond
    rw [parse_of_derives derives, if_neg (by omega)]
  · intro underivable
    cases parsed : parse tokens with
    | ok tree =>
        obtain ⟨nesting, derives, _⟩ := derives_of_parse parsed
        exact absurd derives (underivable tree nesting)
    | error failure =>
        obtain ⟨fault, rfl⟩ := parse_fault parsed
        exact ⟨fault, rfl⟩

end Keypad
