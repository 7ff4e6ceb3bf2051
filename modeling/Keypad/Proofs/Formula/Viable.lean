/-
Module: Keypad.Proofs.Formula.Viable
Layer: proofs
Purpose: Which tokens a formula can begin with, and what it can go on with behind them.
Trusted boundary: human-reviewed statement of what a beginning asks for
Main exports:
  Sentence, Viable, LongestViable, awaitsOperand, openGroups, Place, Place.walk,
  sentence_iff_walk, viable_iff_walk, Viable.awaitsOperand_iff, Viable.inGroup_iff,
  Viable.sentence_iff
-/
import Keypad.Proofs.Formula.Adjacent

namespace Keypad

/-!
The ranks of the grammar decide which tree a formula has, but not whether there is one: any
formula may stand behind a sign, in a group, and on both sides of an operator of either rank.
So of the tokens passed so far it only matters whether an operand is due and how many groups
are open.  A walk that keeps track of these two gets stuck exactly where no formula can begin
with the tokens passed.
-/

/-- The tokens are a formula of the grammar, however deep. -/
def Sentence (tokens : List Token) : Prop :=
  ∃ tree nesting, Derives .sum tokens tree nesting

/-- Some tokens behind these make a formula of them. -/
def Viable (tokens : List Token) : Prop :=
  ∃ behind, Sentence (tokens ++ behind)

/-- The longest beginning of the tokens that a formula can begin with. -/
structure LongestViable (tokens before : List Token) : Prop where
  beginning : before <+: tokens
  viable : Viable before
  longest : ∀ other, other <+: tokens → Viable other → other.length ≤ before.length

/-- Whether an operand is expected behind the tokens: there are none yet, or none ends with
the last of them. -/
def awaitsOperand (tokens : List Token) : Bool :=
  match tokens.getLast? with
  | none => true
  | some last => !last.endsOperand

/-- How many groups have been opened and not been closed. -/
def openGroups (tokens : List Token) : Nat :=
  tokens.count .opening - tokens.count .closing

/-- There is only one longest beginning. -/
theorem LongestViable.unique {tokens before other : List Token}
    (longest : LongestViable tokens before) (otherLongest : LongestViable tokens other) :
    before = other := by
  have same : before.length = other.length :=
    Nat.le_antisymm (otherLongest.longest before longest.beginning longest.viable)
      (longest.longest other otherLongest.beginning otherLongest.viable)
  exact (List.prefix_of_prefix_length_le longest.beginning otherLongest.beginning
    same.le).eq_of_length same

/-- What begins as a formula does has always done so. -/
theorem Viable.of_beginning {tokens before : List Token} (viable : Viable tokens)
    (beginning : before <+: tokens) : Viable before := by
  obtain ⟨rest, rfl⟩ := beginning
  obtain ⟨behind, sentence⟩ := viable
  exact ⟨rest ++ behind, by rwa [← List.append_assoc]⟩

/-! ### Formulas are put together without regard to ranks -/

/-- Whether the token can stand between two operands. -/
def Token.isOperator : Token → Bool
  | .plus => true
  | .minus => true
  | .star => true
  | .slash => true
  | _ => false

/-- Every operator is one of sums or one of products. -/
theorem operator_of_isOperator {token : Token} (operates : token.isOperator = true) :
    (∃ operator, sumOperator? token = some operator) ∨
      ∃ operator, productOperator? token = some operator := by
  cases token with
  | plus => exact .inl ⟨.add, rfl⟩
  | minus => exact .inl ⟨.sub, rfl⟩
  | star => exact .inr ⟨.mul, rfl⟩
  | slash => exact .inr ⟨.div, rfl⟩
  | number | opening | closing => cases operates

/-- A sign before a formula is one before its first factor. -/
theorem Derives.signed {rank : Rank} {tokens : List Token} {tree : Tree} {nesting : Nat}
    (derives : Derives rank tokens tree nesting) :
    ∃ tree nesting, Derives rank (.minus :: tokens) tree nesting := by
  induction derives with
  | number value => exact ⟨_, _, .negation (.number value)⟩
  | negation inner => exact ⟨_, _, .negation (.negation inner)⟩
  | group inner => exact ⟨_, _, .negation (.group inner)⟩
  | product _ inductionHypothesis =>
      obtain ⟨_, _, signed⟩ := inductionHypothesis
      exact ⟨_, _, .product signed⟩
  | times _ joins right leftHypothesis _ =>
      obtain ⟨_, _, signed⟩ := leftHypothesis
      exact ⟨_, _, .times signed joins right⟩
  | sum _ inductionHypothesis =>
      obtain ⟨_, _, signed⟩ := inductionHypothesis
      exact ⟨_, _, .sum signed⟩
  | plus _ joins right leftHypothesis _ =>
      obtain ⟨_, _, signed⟩ := leftHypothesis
      exact ⟨_, _, .plus signed joins right⟩

namespace Sentence

theorem number (value : Binary64) : Sentence [.number value] :=
  ⟨_, _, .sum (.product (.number value))⟩

theorem signed {tokens : List Token} (sentence : Sentence tokens) :
    Sentence (.minus :: tokens) := by
  obtain ⟨_, _, derives⟩ := sentence
  exact derives.signed

theorem group {tokens : List Token} (sentence : Sentence tokens) :
    Sentence (.opening :: (tokens ++ [.closing])) := by
  obtain ⟨_, _, derives⟩ := sentence
  exact ⟨_, _, .sum (.product (.group derives))⟩

section Joining

variable {before behind : List Token} {token : Token}

/-- An operator of products takes the last product before it as its left operand. -/
theorem times {operator : Operator} {tree : Tree} {nesting : Nat} (left : Sentence before)
    (joins : productOperator? token = some operator)
    (right : Derives .factor behind tree nesting) : Sentence (before ++ token :: behind) := by
  obtain ⟨_, _, derives⟩ := left
  cases derives with
  | sum product => exact ⟨_, _, .sum (.times product joins right)⟩
  | plus first sumJoins product =>
      rw [List.append_assoc, List.cons_append]
      exact ⟨_, _, .plus first sumJoins (.times product joins right)⟩

/-- A factor can follow behind any operator. -/
theorem join_factor {tree : Tree} {nesting : Nat} (left : Sentence before)
    (operates : token.isOperator = true) (right : Derives .factor behind tree nesting) :
    Sentence (before ++ token :: behind) := by
  rcases operator_of_isOperator operates with ⟨_, joins⟩ | ⟨_, joins⟩
  · obtain ⟨_, _, derives⟩ := left
    exact ⟨_, _, .plus derives joins (.product right)⟩
  · exact left.times joins right

/-- A formula can follow behind any operator: its first factor follows, and it goes on from
there as it did. -/
theorem join_derived (left : Sentence before) (operates : token.isOperator = true)
    {rank : Rank} {tree : Tree} {nesting : Nat} (right : Derives rank behind tree nesting) :
    Sentence (before ++ token :: behind) := by
  induction right with
  | number value => exact left.join_factor operates (.number value)
  | negation inner => exact left.join_factor operates (.negation inner)
  | group inner => exact left.join_factor operates (.group inner)
  | product _ inductionHypothesis => exact inductionHypothesis
  | times _ joins factor leftHypothesis _ =>
      rw [← List.cons_append, ← List.append_assoc]
      exact leftHypothesis.times joins factor
  | sum _ inductionHypothesis => exact inductionHypothesis
  | plus _ joins product leftHypothesis _ =>
      obtain ⟨_, _, derives⟩ := leftHypothesis
      rw [← List.cons_append, ← List.append_assoc]
      exact ⟨_, _, .plus derives joins product⟩

theorem join (left : Sentence before) (operates : token.isOperator = true)
    (right : Sentence behind) : Sentence (before ++ token :: behind) := by
  obtain ⟨_, _, derives⟩ := right
  exact left.join_derived operates derives

end Joining

end Sentence

/-! ### Walking along a formula -/

/-- Where a walk along the tokens of a formula has come to, with the number of groups that
are open there. -/
inductive Place where
  /-- An operand has to begin. -/
  | awaiting (groups : Nat)
  /-- An operand is complete. -/
  | complete (groups : Nat)
deriving DecidableEq, Repr

namespace Place

/-- The place behind one more token, if the token can stand there. -/
def step : Place → Token → Option Place
  | .awaiting groups, .number _ => some (.complete groups)
  | .awaiting groups, .minus => some (.awaiting groups)
  | .awaiting groups, .opening => some (.awaiting (groups + 1))
  | .awaiting _, _ => none
  | .complete groups, .closing =>
      match groups with
      | 0 => none
      | groups + 1 => some (.complete groups)
  | .complete groups, token => if token.isOperator then some (.awaiting groups) else none

/-- The place behind more tokens, if they can stand there. -/
def walk (place : Place) (tokens : List Token) : Option Place :=
  tokens.foldlM step place

theorem walk_cons (place : Place) (token : Token) (tokens : List Token) :
    place.walk (token :: tokens) = place.step token >>= fun next => next.walk tokens :=
  List.foldlM_cons

theorem walk_append (place : Place) (before behind : List Token) :
    place.walk (before ++ behind) = place.walk before >>= fun next => next.walk behind :=
  List.foldlM_append

/-- A walk that got somewhere goes on from there. -/
theorem walk_append_of_walk {place next : Place} {before : List Token}
    (walked : place.walk before = some next) (behind : List Token) :
    place.walk (before ++ behind) = next.walk behind := by
  rw [walk_append, walked]
  rfl

theorem walk_concat_of_walk {place next : Place} {before : List Token}
    (walked : place.walk before = some next) (token : Token) :
    place.walk (before ++ [token]) = next.step token := by
  rw [walk_append_of_walk walked, walk_cons]
  exact bind_pure (next.step token)

/-- Behind an operator an operand is due. -/
theorem step_operator (groups : Nat) {token : Token} (operates : token.isOperator = true) :
    (complete groups).step token = some (.awaiting groups) := by
  cases token with
  | plus | minus | star | slash => rfl
  | number | opening | closing => cases operates

theorem walk_operator (groups : Nat) {token : Token} (operates : token.isOperator = true) :
    (complete groups).walk [token] = some (.awaiting groups) := by
  rw [walk_cons, step_operator groups operates]
  rfl

end Place

theorem Token.isOperator_of_sumOperator {token : Token} {operator : Operator}
    (joins : sumOperator? token = some operator) : token.isOperator = true := by
  cases token <;> first | rfl | cases joins

theorem Token.isOperator_of_productOperator {token : Token} {operator : Operator}
    (joins : productOperator? token = some operator) : token.isOperator = true := by
  cases token <;> first | rfl | cases joins

/-- A walk along operands with an operator between them gets behind both. -/
theorem Place.walk_joined {before behind : List Token} {token : Token} {groups : Nat}
    (left : (awaiting groups).walk before = some (.complete groups))
    (operates : token.isOperator = true)
    (right : (awaiting groups).walk behind = some (.complete groups)) :
    (awaiting groups).walk (before ++ token :: behind) = some (.complete groups) := by
  rw [walk_append_of_walk left, walk_cons, step_operator groups operates]
  exact right

/-- A walk along a formula of any rank completes an operand and leaves no group open. -/
theorem Derives.walk {rank : Rank} {tokens : List Token} {tree : Tree} {nesting : Nat}
    (derives : Derives rank tokens tree nesting) :
    ∀ groups, (Place.awaiting groups).walk tokens = some (.complete groups) := by
  induction derives with
  | number value => intro groups; rfl
  | negation _ inductionHypothesis => exact inductionHypothesis
  | group _ inductionHypothesis =>
      intro groups
      rw [Place.walk_cons]
      exact Place.walk_concat_of_walk (inductionHypothesis (groups + 1)) .closing
  | product _ inductionHypothesis => exact inductionHypothesis
  | times _ joins _ leftHypothesis rightHypothesis =>
      intro groups
      exact Place.walk_joined (leftHypothesis groups)
        (Token.isOperator_of_productOperator joins) (rightHypothesis groups)
  | sum _ inductionHypothesis => exact inductionHypothesis
  | plus _ joins _ leftHypothesis rightHypothesis =>
      intro groups
      exact Place.walk_joined (leftHypothesis groups)
        (Token.isOperator_of_sumOperator joins) (rightHypothesis groups)

/-! ### What can be walked along is a formula -/

/-- Behind any formula the tokens make another one of it. -/
def Extends (tokens : List Token) : Prop :=
  ∀ before, Sentence before → Sentence (before ++ tokens)

/-- Behind a complete operand the tokens close so many groups and end the formula: what stands
before each closing parenthesis goes on with the formula of its group. -/
def Finishes : Nat → List Token → Prop
  | 0, tokens => Extends tokens
  | groups + 1, tokens =>
      ∃ inside behind, tokens = inside ++ .closing :: behind ∧ Extends inside ∧
        Finishes groups behind

/-- What is left of a formula at a place: at an operand, a formula for it comes first. -/
def Place.Finishes : Place → List Token → Prop
  | .complete groups, tokens => Keypad.Finishes groups tokens
  | .awaiting groups, tokens =>
      ∃ operand behind, tokens = operand ++ behind ∧ Sentence operand ∧
        Keypad.Finishes groups behind

theorem extends_nil : Extends [] := by
  intro before sentence
  rwa [List.append_nil]

/-- An operator and its right operand go on with any formula. -/
theorem Extends.join {token : Token} {operand tokens : List Token}
    (operates : token.isOperator = true) (sentence : Sentence operand)
    (goesOn : Extends tokens) : Extends (token :: (operand ++ tokens)) := by
  intro before left
  rw [← List.cons_append, ← List.append_assoc]
  exact goesOn _ (left.join operates sentence)

namespace Finishes

/-- An operator and its right operand can come first. -/
theorem join {token : Token} {operand tokens : List Token} {groups : Nat}
    (operates : token.isOperator = true) (sentence : Sentence operand)
    (finishes : Finishes groups tokens) :
    Finishes groups (token :: (operand ++ tokens)) := by
  cases groups with
  | zero => exact Extends.join operates sentence finishes
  | succ groups =>
      obtain ⟨inside, behind, rfl, goesOn, rest⟩ := finishes
      exact ⟨token :: (operand ++ inside), behind, by simp, goesOn.join operates sentence, rest⟩

/-- What goes on behind the first operand of a group makes an operand of the group. -/
theorem group {operand tokens : List Token} {groups : Nat} (sentence : Sentence operand)
    (finishes : Finishes (groups + 1) tokens) :
    (Place.awaiting groups).Finishes (.opening :: (operand ++ tokens)) := by
  obtain ⟨inside, behind, rfl, goesOn, rest⟩ := finishes
  exact ⟨.opening :: (operand ++ inside ++ [.closing]), behind, by simp,
    (goesOn operand sentence).group, rest⟩

end Finishes

/-- The tokens of a walk to the end of a formula are what is left of it. -/
theorem Place.finishes_of_walk {tokens : List Token} :
    ∀ {place : Place}, place.walk tokens = some (.complete 0) → place.Finishes tokens := by
  induction tokens with
  | nil =>
      rintro place ⟨⟩
      exact extends_nil
  | cons token tokens inductionHypothesis =>
      intro place walked
      rw [walk_cons] at walked
      obtain ⟨next, stepped, further⟩ := Option.bind_eq_some_iff.mp walked
      have rest := inductionHypothesis further
      cases place with
      | awaiting groups =>
          cases token with
          | number value =>
              cases stepped
              exact ⟨[.number value], tokens, rfl, .number value, rest⟩
          | minus =>
              cases stepped
              obtain ⟨operand, behind, rfl, sentence, finishes⟩ := rest
              exact ⟨.minus :: operand, behind, rfl, sentence.signed, finishes⟩
          | opening =>
              cases stepped
              obtain ⟨operand, behind, rfl, sentence, finishes⟩ := rest
              exact finishes.group sentence
          | plus | star | slash | closing => cases stepped
      | complete groups =>
          by_cases operates : token.isOperator = true
          · rw [step_operator groups operates] at stepped
            cases stepped
            obtain ⟨operand, behind, rfl, sentence, finishes⟩ := rest
            exact finishes.join operates sentence
          · cases token with
            | closing =>
                cases groups with
                | zero => cases stepped
                | succ groups =>
                    cases stepped
                    exact ⟨[], tokens, rfl, extends_nil, rest⟩
            | number | opening => cases stepped
            | plus | minus | star | slash => exact absurd rfl operates

/-- The formulas are what a walk gets along, with an operand complete and no group open at
the end. -/
theorem sentence_iff_walk {tokens : List Token} :
    Sentence tokens ↔ (Place.awaiting 0).walk tokens = some (.complete 0) := by
  constructor
  · rintro ⟨tree, nesting, derives⟩
    exact derives.walk 0
  · intro walked
    obtain ⟨operand, behind, rfl, sentence, finishes⟩ := Place.finishes_of_walk walked
    exact finishes operand sentence

/-! ### What can be walked along begins a formula -/

namespace Place

/-- Tokens that end a formula from a place on. -/
def completion : Place → List Token
  | .awaiting groups => .number (.ofNat 0) :: List.replicate groups .closing
  | .complete groups => List.replicate groups .closing

theorem walk_closings (groups : Nat) :
    (complete groups).walk (List.replicate groups .closing) = some (.complete 0) := by
  induction groups with
  | zero => rfl
  | succ groups inductionHypothesis => exact inductionHypothesis

theorem walk_completion (place : Place) : place.walk place.completion = some (.complete 0) := by
  cases place with
  | awaiting groups => exact walk_closings groups
  | complete groups => exact walk_closings groups

end Place

/-- A formula can begin with the tokens exactly if a walk gets along them. -/
theorem viable_iff_walk {tokens : List Token} :
    Viable tokens ↔ ∃ place, (Place.awaiting 0).walk tokens = some place := by
  constructor
  · rintro ⟨behind, sentence⟩
    have walked := sentence_iff_walk.mp sentence
    rw [Place.walk_append] at walked
    obtain ⟨place, reached, _⟩ := Option.bind_eq_some_iff.mp walked
    exact ⟨place, reached⟩
  · rintro ⟨place, walked⟩
    refine ⟨place.completion, sentence_iff_walk.mpr ?_⟩
    rw [Place.walk_append_of_walk walked]
    exact place.walk_completion

/-! ### The place behind tokens, from the tokens -/

namespace Place

/-- Whether an operand has to begin. -/
def awaits : Place → Bool
  | .awaiting _ => true
  | .complete _ => false

/-- How many groups are open. -/
def groups : Place → Nat
  | .awaiting groups => groups
  | .complete groups => groups

/-- The token before a place tells whether an operand has to begin there, and opens a group,
closes one, or does neither. -/
theorem step_effect {place next : Place} {token : Token}
    (stepped : place.step token = some next) :
    next.awaits = !token.endsOperand ∧
      place.groups + [token].count .opening = next.groups + [token].count .closing := by
  cases place with
  | awaiting groups => cases token <;> cases stepped <;> exact ⟨rfl, rfl⟩
  | complete groups =>
      cases token with
      | closing =>
          cases groups with
          | zero => cases stepped
          | succ groups =>
              cases stepped
              exact ⟨rfl, rfl⟩
      | _ => cases stepped <;> exact ⟨rfl, rfl⟩

theorem walk_groups {tokens : List Token} :
    ∀ {place next : Place}, place.walk tokens = some next →
      place.groups + tokens.count .opening = next.groups + tokens.count .closing := by
  induction tokens with
  | nil =>
      rintro place next ⟨⟩
      rfl
  | cons token tokens inductionHypothesis =>
      intro place next walked
      rw [walk_cons] at walked
      obtain ⟨second, stepped, further⟩ := Option.bind_eq_some_iff.mp walked
      have first := (step_effect stepped).2
      have rest := inductionHypothesis further
      rw [← List.singleton_append, List.count_append, List.count_append]
      omega

/-- Where a walk has come to can be read off the last token and off the parentheses. -/
theorem eq_of_walk {tokens : List Token} {place : Place}
    (walked : (awaiting 0).walk tokens = some place) :
    place.awaits = awaitsOperand tokens ∧ place.groups = openGroups tokens := by
  constructor
  · rcases List.eq_nil_or_concat tokens with rfl | ⟨before, last, rfl⟩
    · cases walked
      rfl
    · rw [List.concat_eq_append] at walked ⊢
      rw [walk_append] at walked
      obtain ⟨next, _, stepped⟩ := Option.bind_eq_some_iff.mp walked
      rw [walk_cons] at stepped
      obtain ⟨_, stepped, ⟨⟩⟩ := Option.bind_eq_some_iff.mp stepped
      rw [awaitsOperand, List.getLast?_concat, (step_effect stepped).1]
  · have balance : 0 + tokens.count .opening = place.groups + tokens.count .closing :=
      walk_groups walked
    unfold openGroups
    omega

end Place

section Expectations

variable {tokens : List Token}

/-- Where an operand is expected behind the beginning of a formula, a number can follow, and
nowhere else. -/
theorem Viable.awaitsOperand_iff (viable : Viable tokens) :
    awaitsOperand tokens = true ↔ ∃ value, Viable (tokens ++ [.number value]) := by
  obtain ⟨place, walked⟩ := viable_iff_walk.mp viable
  simp only [← (Place.eq_of_walk walked).1, viable_iff_walk, Place.walk_concat_of_walk walked]
  cases place with
  | awaiting groups => exact ⟨fun _ => ⟨.ofNat 0, _, rfl⟩, fun _ => rfl⟩
  | complete groups => exact ⟨nofun, nofun⟩

/-- Where an operand is complete inside an open group, a closing parenthesis can follow, and
nowhere else. -/
theorem Viable.inGroup_iff (viable : Viable tokens) :
    awaitsOperand tokens = false ∧ 0 < openGroups tokens ↔ Viable (tokens ++ [.closing]) := by
  obtain ⟨place, walked⟩ := viable_iff_walk.mp viable
  obtain ⟨awaits, opened⟩ := Place.eq_of_walk walked
  rw [← awaits, ← opened, viable_iff_walk, Place.walk_concat_of_walk walked]
  cases place with
  | awaiting groups => exact ⟨nofun, nofun⟩
  | complete groups =>
      cases groups with
      | zero => exact ⟨nofun, nofun⟩
      | succ groups => exact ⟨fun _ => ⟨_, rfl⟩, fun _ => ⟨rfl, Nat.succ_pos groups⟩⟩

/-- Where an operand is complete and no group is open, the beginning of a formula is one
itself, and nowhere else. -/
theorem Viable.sentence_iff (viable : Viable tokens) :
    awaitsOperand tokens = false ∧ openGroups tokens = 0 ↔ Sentence tokens := by
  obtain ⟨place, walked⟩ := viable_iff_walk.mp viable
  obtain ⟨awaits, opened⟩ := Place.eq_of_walk walked
  rw [← awaits, ← opened, sentence_iff_walk, walked]
  cases place with
  | awaiting groups => exact ⟨nofun, nofun⟩
  | complete groups =>
      cases groups with
      | zero => exact ⟨fun _ => rfl, fun _ => ⟨rfl, rfl⟩⟩
      | succ groups => exact ⟨nofun, nofun⟩

end Expectations

end Keypad
