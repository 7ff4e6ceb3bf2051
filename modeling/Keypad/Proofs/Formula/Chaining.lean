/-
Module: Keypad.Proofs.Formula.Chaining
Layer: proofs
Purpose: A result on display stands for the formula that it is the result of,
  whatever operator is typed behind it.
Trusted boundary: none
Main exports:
  StandsFor, chain_standsFor, parse_standsFor, shown_spells,
  evaluate_shown_append
-/
import Keypad.Proofs.Formula.Evaluate
import Keypad.Proofs.Number.ZeroSign

namespace Keypad

/-!
The text of a result spells a number, or a sign and a number.  Either is a factor,
as is the formula in parentheses, so both are read as the first operand of what
follows.  From there on the reader only asks for the height of the left operand,
and its value goes only into the left of an operator: a tree that is not higher
and has the same value up to the sign of a zero can stand for another one there.
-/

/-- A tree can stand for another as the left operand of all that follows: it is
not higher, and its value is the same up to the sign of a zero. -/
structure StandsFor (other original : Sized) : Prop where
  height_le : other.height ≤ original.height
  value : SameOutcome original.tree.value other.tree.value

/-- Joining the same right operand keeps what stands for the left one. -/
theorem StandsFor.join {limit : Nat} {operator : Operator} {other original right joined : Sized}
    (stands : StandsFor other original)
    (join : Sized.join limit operator original right = .ok joined) :
    ∃ otherJoined, Sized.join limit operator other right = .ok otherJoined ∧
      StandsFor otherJoined joined := by
  obtain ⟨low, rfl⟩ := checked_eq_ok_iff.mp join
  have lower : 1 + max other.height right.height ≤ 1 + max original.height right.height := by
    have := stands.height_le
    omega
  refine ⟨⟨.binary operator other.tree right.tree, 1 + max other.height right.height⟩,
    checked_eq_ok_iff.mpr ⟨Nat.le_trans lower low, rfl⟩, lower, ?_⟩
  apply stands.value.bind
  intro _ _ sameNumber
  cases right.tree.value with
  | error failure => exact .failure failure
  | ok rightValue => exact operator.apply_left rightValue sameNumber

/-- A chain goes on in the same way from what stands for its left operand. -/
theorem chain_standsFor {limit : Nat} {operator? : Token → Option Operator}
    {operand : Reader} :
    ∀ {rounds : Nat} {tokens rest : List Token} {other original sized : Sized},
      StandsFor other original →
      chain limit operator? operand rounds original tokens = .ok (sized, rest) →
        ∃ otherSized, chain limit operator? operand rounds other tokens =
          .ok (otherSized, rest) ∧ StandsFor otherSized sized := by
  intro rounds
  induction rounds with
  | zero =>
      intro tokens rest other original sized stands read
      cases read
      exact ⟨other, rfl, stands⟩
  | succ rounds inductionHypothesis =>
      intro tokens rest other original sized stands read
      cases tokens with
      | nil =>
          cases read
          exact ⟨other, rfl, stands⟩
      | cons token behind =>
          simp only [chain] at read ⊢
          cases joins : operator? token with
          | none =>
              simp only [joins, Except.ok.injEq, Prod.mk.injEq] at read ⊢
              obtain ⟨rfl, rfl⟩ := read
              exact ⟨other, ⟨rfl, rfl⟩, stands⟩
          | some operator =>
              simp only [joins, bind_eq_ok_iff] at read ⊢
              obtain ⟨⟨right, after⟩, operandRead, joined, join, further⟩ := read
              obtain ⟨otherJoined, otherJoin, joinedStands⟩ := stands.join join
              obtain ⟨otherSized, otherFurther, sizedStands⟩ :=
                inductionHypothesis joinedStands further
              exact ⟨otherSized, ⟨(right, after), operandRead, otherJoined, otherJoin,
                otherFurther⟩, sizedStands⟩

/-- An expression goes on in the same way from what stands for its first factor. -/
theorem expression_standsFor {limit : Nat} {factor : Reader}
    {tokens otherTokens later rest : List Token} {other original sized : Sized}
    (originalRead : factor tokens = .ok (original, later))
    (otherRead : factor otherTokens = .ok (other, later))
    (stands : StandsFor other original)
    (read : expression limit factor tokens = .ok (sized, rest)) :
    ∃ otherSized, expression limit factor otherTokens = .ok (otherSized, rest) ∧
      StandsFor otherSized sized := by
  simp only [expression, term, chained, originalRead, otherRead, ok_bind,
    bind_eq_ok_iff] at read ⊢
  obtain ⟨⟨product, after⟩, productRead, sumRead⟩ := read
  obtain ⟨otherProduct, otherProductRead, productStands⟩ :=
    chain_standsFor stands productRead
  obtain ⟨otherSized, otherSumRead, sumStands⟩ := chain_standsFor productStands sumRead
  exact ⟨otherSized, ⟨(otherProduct, after), otherProductRead, otherSumRead⟩, sumStands⟩

/-- A formula is parsed also with another factor in the place of its first one, if
the other is not higher, and its value is the same when theirs are. -/
theorem parse_standsFor {before otherBefore later : List Token} {tree other whole : Tree}
    {nesting otherNesting : Nat}
    (derives : Derives .factor before tree nesting)
    (otherDerives : Derives .factor otherBefore other otherNesting)
    (low : other.height ≤ tree.height) (shallow : otherNesting ≤ depthLimit)
    (value : SameOutcome tree.value other.value)
    (parsed : parse (before ++ later) = .ok whole) :
    ∃ otherWhole, parse (otherBefore ++ later) = .ok otherWhole ∧
      SameOutcome whole.value otherWhole.value := by
  have reads := factor_reads depthLimit (by decide) depthLimit
  have nonempty : (otherBefore ++ later).isEmpty = false := by
    simp [otherDerives.ne_nil]
  unfold parse at parsed
  split at parsed
  · cases parsed
  · simp only [bind_eq_ok_iff] at parsed
    obtain ⟨⟨sized, rest⟩, read, complete⟩ := parsed
    have fits : tree.height ≤ depthLimit ∧ nesting ≤ depthLimit := by
      by_contra deep
      have refused := reads.complete later derives trivial
      rw [within_of_not_fits deep] at refused
      simp only [expression, term, chained, refused, error_bind] at read
      cases read
    have originalRead := reads.complete later derives trivial
    rw [within_of_fits fits] at originalRead
    have otherRead := reads.complete later otherDerives trivial
    rw [within_of_fits ⟨Nat.le_trans low fits.1, shallow⟩] at otherRead
    obtain ⟨otherSized, otherWhole, stands⟩ :=
      expression_standsFor originalRead otherRead ⟨low, value⟩ read
    cases rest with
    | nil =>
        cases complete
        refine ⟨otherSized.tree, ?_, stands.value⟩
        rw [parse, nonempty, otherWhole]
        rfl
    | cons token behind => cases token <;> cases complete

/-! ### What the text of a result spells -/

/-- A tree of one level is a literal of its formula. -/
theorem Derives.literal_mem {rank : Rank} {tokens : List Token} {tree : Tree} {nesting : Nat}
    (derives : Derives rank tokens tree nesting) {value : Binary64}
    (literal : tree = .literal value) : Token.number value ∈ tokens := by
  induction derives with
  | number other =>
      cases literal
      simp
  | group _ inductionHypothesis => simp [inductionHypothesis literal]
  | product _ inductionHypothesis => exact inductionHypothesis literal
  | sum _ inductionHypothesis => exact inductionHypothesis literal
  | negation => cases literal
  | times => cases literal
  | plus => cases literal

/-- The text of a finite double spells a factor with the value on display: a
number, or a sign and a number for a double below zero. -/
theorem shown_spells {value : Binary64} (finite : value.isFinite = true) :
    ∃ tokens tree, Spells value.shown tokens ∧ Derives .factor tokens tree tree.height ∧
      tree.value = .ok value.displayed ∧
      (tree.height = 1 ∨
        tree.height = 2 ∧ ∃ rank, value = .finite true rank) := by
  have number (rank : Fin infinityRank) :
      Spells (Binary64.magnitudeText rank) [.number (.finite false rank)] := by
    obtain ⟨whole, fraction, written, same⟩ := Binary64.magnitudeText_literal rank
    have ends : EndsRun [] := fun c head => by cases head
    have spells := Spells.number written (by rw [same]; rfl) ends .nil
    rwa [same, List.append_nil] at spells
  rcases Binary64.shown_cases finite with
    ⟨rank, displayed, shown⟩ | ⟨rank, rfl, displayed, shown⟩
  · rw [displayed, shown]
    exact ⟨_, .literal (.finite false rank), number rank, .number _, rfl, .inl rfl⟩
  · have minus : Token.ofSymbol? '-' = some .minus := rfl
    rw [displayed, shown]
    exact ⟨_, .negation (.literal (.finite false rank)), .symbol minus (number rank),
      .negation (.number _), rfl, .inr ⟨rfl, rank, rfl⟩⟩

/-- The factor that the text of a result spells is not higher than the formula with
this result: a formula below zero has an operator or a sign. -/
theorem shown_height_le {text : Text} {tokens : List Token} {tree shownTree : Tree}
    {value : Binary64} (spells : Spells text tokens) (parsed : parse tokens = .ok tree)
    (treeValue : tree.value = .ok value)
    (height : shownTree.height = 1 ∨
      shownTree.height = 2 ∧ ∃ rank, value = .finite true rank) :
    shownTree.height ≤ tree.height := by
  rcases height with one | ⟨two, rank, rfl⟩
  · rw [one]
    exact tree.height_pos
  · obtain ⟨nesting, derives, _⟩ := derives_of_parse parsed
    cases tree with
    | literal literal =>
        cases treeValue
        obtain ⟨other, negative⟩ := spells.nonnegative _ (derives.literal_mem rfl)
        cases negative
    | negation inner =>
        have := inner.height_pos
        simp only [two, Tree.height]
        omega
    | binary operator left right =>
        have := left.height_pos
        simp only [two, Tree.height]
        omega

/-! ### Going on from a result -/

/-- A formula in parentheses is spelled by its text in parentheses, and what comes
behind it, if it can be cut at all, by the rest of the text. -/
theorem spells_group {text rest : Text} {tokens all : List Token}
    (spells : Spells text tokens)
    (whole : Spells ('(' :: (text ++ ')' :: rest)) all) :
    ∃ later, all = (.opening :: (tokens ++ [.closing])) ++ later ∧ Spells rest later := by
  have opening : Token.ofSymbol? '(' = some .opening := rfl
  have closing : Token.ofSymbol? ')' = some .closing := rfl
  have scanned := Token.scan_eq_ok_iff.mpr whole
  rw [Token.scan, Token.scanFrom_symbol opening,
    Token.scanFrom_append spells (endsRun_of_symbol rest closing),
    Token.scanFrom_symbol closing] at scanned
  obtain ⟨later, rfl, restSpells⟩ := Token.spells_of_scanFrom scanned
  exact ⟨later, by simp, restSpells⟩

/-- Going on from a result means going on from the formula in parentheses.  When an
operator and more is typed behind the text of a result, the outcome is the one of
the same behind the evaluated formula in parentheses, unless that has no form. -/
theorem evaluate_shown_append {text rest : Text} {value : Binary64} {operator : Char}
    (evaluated : evaluate text = .ok value) (joins : operator ∈ ['+', '-', '*', '/'])
    (formed : ∀ fault,
      evaluate ('(' :: (text ++ ')' :: operator :: rest)) ≠ .error (.syntaxError fault)) :
    SameOutcome (evaluate ('(' :: (text ++ ')' :: operator :: rest)))
      (evaluate (value.shown ++ operator :: rest)) := by
  obtain ⟨tokens, tree, spells, parsed, treeValue, finite⟩ := formula_of_evaluate evaluated
  obtain ⟨shownTokens, shownTree, shownSpells, shownDerives, shownValue, shownHeight⟩ :=
    shown_spells finite
  rcases evaluate_cases ('(' :: (text ++ ')' :: operator :: rest)) with
    ⟨fault, failed⟩ | ⟨all, whole, wholeSpells, wholeParsed, wholeOutcome⟩
  · exact absurd failed (formed fault)
  obtain ⟨later, rfl, laterSpells⟩ := spells_group spells wholeSpells
  obtain ⟨nesting, derives, _⟩ := derives_of_parse parsed
  have low := shown_height_le spells parsed treeValue shownHeight
  have shallow : shownTree.height ≤ depthLimit := by
    rcases shownHeight with one | ⟨two, _⟩
    · rw [one]
      decide
    · rw [two]
      decide
  have sameValue : SameOutcome tree.value shownTree.value := by
    rw [treeValue, shownValue]
    exact .value value.displayed_same
  obtain ⟨otherWhole, otherParsed, sameWhole⟩ :=
    parse_standsFor (.group derives) shownDerives low shallow sameValue wholeParsed
  have ends : EndsRun (operator :: rest) := by
    obtain ⟨token, symbol⟩ : ∃ token, Token.ofSymbol? operator = some token := by
      simp only [List.mem_cons, List.not_mem_nil, or_false] at joins
      rcases joins with rfl | rfl | rfl | rfl <;> exact ⟨_, rfl⟩
    exact endsRun_of_symbol rest symbol
  rw [wholeOutcome, evaluate_of_spells (shownSpells.append ends laterSpells) otherParsed]
  exact sameWhole.bind fun same => by
    rw [same.isFinite_eq]
    split
    · exact .value same
    · exact .failure _

set_option maxRecDepth 4000 in
/-- The result of `5-8`, which is below zero, goes on as the left operand. -/
theorem evaluate_shown_append_below_zero :
    evaluate "5-8".toList = .ok (.finite true ⟨0x4008000000000000, by decide⟩) ∧
      SameOutcome (evaluate "(5-8)*2".toList) (evaluate "-3*2".toList) := by
  have evaluated : evaluate "5-8".toList =
      .ok (.finite true ⟨0x4008000000000000, by decide⟩) := by decide +kernel
  have whole : evaluate "(5-8)*2".toList =
      .ok (.finite true ⟨0x4018000000000000, by decide⟩) := by decide +kernel
  have shown : Binary64.shown (.finite true ⟨0x4008000000000000, by decide⟩) =
      "-3".toList := by decide +kernel
  have same := @evaluate_shown_append _ ['2'] _ '*' evaluated (by decide)
    fun fault failed => by cases whole.symm.trans failed
  rw [shown] at same
  exact ⟨evaluated, same⟩

end Keypad
