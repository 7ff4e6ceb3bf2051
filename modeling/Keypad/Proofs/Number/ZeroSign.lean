/-
Module: Keypad.Proofs.Number.ZeroSign
Layer: proofs
Purpose: Arithmetic up to the sign of a zero.
Trusted boundary: none
Main exports: Binary64.SameNumber, SameOutcome, Operator.apply_left
-/
import Keypad.Formula.Tree
import Keypad.Proofs.Number.Literal

namespace Keypad

namespace Binary64

/-- Two doubles are the same number when they are equal or both are zeros. -/
def SameNumber (left right : Binary64) : Prop :=
  left = right ∨ left.isZero = true ∧ right.isZero = true

theorem SameNumber.refl (value : Binary64) : SameNumber value value := .inl rfl

/-- The zeros are the two doubles that differ in their sign only. -/
theorem eq_zero_of_isZero {value : Binary64} (isZero : value.isZero = true) :
    ∃ negative, value = zero negative := by
  cases value with
  | finite negative rank =>
      have none : rank = ⟨0, infinityRank_pos⟩ := Fin.ext (by simpa [Binary64.isZero] using isZero)
      exact ⟨negative, by rw [none]; rfl⟩
  | infinite negative => cases isZero
  | notANumber => cases isZero

theorem magnitude_zero : magnitude 0 = 0 := magnitude_of_lt binade_pos

theorem magnitude_pos {rank : Nat} (positive : 0 < rank) : 0 < magnitude rank := by
  cases rank with
  | zero => exact absurd positive (Nat.lt_irrefl 0)
  | succ rank => exact Nat.lt_of_le_of_lt (Nat.zero_le _) (magnitude_lt_succ rank)

/-- No units at all are rounded to zero. -/
theorem ofRatio_zero (negative : Bool) {denominator : Nat} (positive : 0 < denominator) :
    ofRatio negative 0 denominator = zero negative := by
  have none : nearestRank 0 denominator = 0 := by
    have exactly := nearestRank_magnitude 0 positive
    rwa [magnitude_zero, Nat.zero_mul] at exactly
  have small : nearestRank 0 denominator < infinityRank := by
    rw [none]
    exact infinityRank_pos
  rw [ofRatio, dif_pos small]
  exact congrArg (Binary64.finite negative) (Fin.ext none)

/-- Whichever zero is added to a double, the sum is the same number. -/
theorem zero_add_same (negative other : Bool) (value : Binary64) :
    SameNumber ((zero negative).add value) ((zero other).add value) := by
  have noUnits (sign : Bool) : signedUnits sign ⟨0, infinityRank_pos⟩ = 0 := by
    cases sign <;> simp [signedUnits, magnitude_zero]
  cases value with
  | finite sign rank =>
      simp only [zero, add, noUnits, Int.zero_add]
      by_cases none : signedUnits sign rank = 0
      · rw [if_pos none, if_pos none]
        exact .inr ⟨rfl, rfl⟩
      · rw [if_neg none, if_neg none]
        exact .inl rfl
  | infinite sign => exact .inl rfl
  | notANumber => exact .inl rfl

/-- Whichever zero is multiplied by a double, the product is the same number. -/
theorem zero_mul_same (negative other : Bool) (value : Binary64) :
    SameNumber ((zero negative).mul value) ((zero other).mul value) := by
  cases value with
  | finite sign rank =>
      simp only [zero, mul, magnitude_zero, Nat.zero_mul, ofRatio_zero _ unitsInOne_pos]
      exact .inr ⟨rfl, rfl⟩
  | infinite sign => exact .inl rfl
  | notANumber => exact .inl rfl

/-- Whichever zero is divided by a double, the quotient is the same number. -/
theorem zero_div_same (negative other : Bool) (value : Binary64) :
    SameNumber ((zero negative).div value) ((zero other).div value) := by
  cases value with
  | finite sign rank =>
      by_cases byZero : rank.val = 0
      · simp only [zero, div, byZero, if_true]
        exact .inl rfl
      · have positive : 0 < magnitude rank := magnitude_pos (Nat.pos_of_ne_zero byZero)
        simp only [zero, div, byZero, if_false, magnitude_zero, Nat.zero_mul,
          ofRatio_zero _ positive]
        exact .inr ⟨rfl, rfl⟩
  | infinite sign => exact .inr ⟨rfl, rfl⟩
  | notANumber => exact .inl rfl

/-- Of the same number both doubles are finite or none is. -/
theorem SameNumber.isFinite_eq {left right : Binary64} (same : SameNumber left right) :
    left.isFinite = right.isFinite := by
  rcases same with rfl | ⟨leftZero, rightZero⟩
  · rfl
  · obtain ⟨_, rfl⟩ := eq_zero_of_isZero leftZero
    obtain ⟨_, rfl⟩ := eq_zero_of_isZero rightZero
    rfl

/-- A result and what is on display of it are the same number. -/
theorem displayed_same (value : Binary64) : value.SameNumber value.displayed := by
  unfold displayed
  by_cases isZero : value.isZero = true
  · rw [if_pos isZero]
    exact .inr ⟨isZero, rfl⟩
  · rw [if_neg isZero]
    exact .inl rfl

end Binary64

/-- Two outcomes are the same when both are the same number, or both are the same
failure. -/
inductive SameOutcome : Except Failure Binary64 → Except Failure Binary64 → Prop where
  | value {left right : Binary64} : left.SameNumber right → SameOutcome (.ok left) (.ok right)
  | failure (failure : Failure) : SameOutcome (.error failure) (.error failure)

namespace SameOutcome

theorem refl (outcome : Except Failure Binary64) : SameOutcome outcome outcome := by
  cases outcome with
  | error failure => exact .failure failure
  | ok value => exact .value (.refl value)

/-- Steps that have the same outcome for the same numbers have it behind the same
outcomes. -/
theorem bind {left right : Except Failure Binary64}
    {next other : Binary64 → Except Failure Binary64} (same : SameOutcome left right)
    (respects : ∀ {a b : Binary64}, a.SameNumber b → SameOutcome (next a) (other b)) :
    SameOutcome (left >>= next) (right >>= other) := by
  cases same with
  | value sameNumber => exact respects sameNumber
  | failure failure => exact .failure failure

end SameOutcome

/-- An operator gives the same outcome when its left operand is the same number. -/
theorem Operator.apply_left (operator : Operator) {left other : Binary64}
    (right : Binary64) (same : left.SameNumber other) :
    SameOutcome (operator.apply left right) (operator.apply other right) := by
  rcases same with rfl | ⟨leftZero, otherZero⟩
  · exact .refl _
  · obtain ⟨negative, rfl⟩ := Binary64.eq_zero_of_isZero leftZero
    obtain ⟨otherNegative, rfl⟩ := Binary64.eq_zero_of_isZero otherZero
    cases operator with
    | add => exact .value (Binary64.zero_add_same _ _ _)
    | sub => exact .value (Binary64.zero_add_same _ _ _)
    | mul => exact .value (Binary64.zero_mul_same _ _ _)
    | div =>
        unfold Operator.apply
        by_cases byZero : right.isZero = true
        · simp only [byZero, if_true]
          exact .failure _
        · simp only [byZero]
          exact .value (Binary64.zero_div_same _ _ _)

end Keypad
