/-
Module: Keypad.Proofs.Number.Literal
Layer: proofs
Purpose: Numbers written in digits, and that the text of every double is one
  that reads back.
Trusted boundary: none
Main exports:
  Literal, Decimal.text_literal, Decimal.rank_shortest,
  Binary64.magnitudeText_literal, Binary64.displayed, Binary64.shown_cases
-/
import Keypad.Number.Decimal
import Keypad.Proofs.Number.Magnitude

namespace Keypad

/-- A text of digits only. -/
def Digits (text : Text) : Prop := ∀ c ∈ text, c.isDigit = true

/-- A number written without sign and exponent, by its digits before and behind
the point.  The point may be left out when no digit follows it. -/
inductive Literal : Text → Text → Text → Prop where
  | plain {whole : Text} :
      Digits whole → whole ≠ [] → Literal whole whole []
  | pointed {whole fraction : Text} :
      Digits whole → Digits fraction → whole ≠ [] ∨ fraction ≠ [] →
      Literal (whole ++ '.' :: fraction) whole fraction

namespace Literal

/-- A literal holds digits and points only. -/
theorem digit_or_point {text whole fraction : Text} (literal : Literal text whole fraction) :
    ∀ c ∈ text, c.isDigit = true ∨ c = '.' := by
  intro c member
  cases literal with
  | plain digits => exact .inl (digits c member)
  | pointed wholeDigits fractionDigits =>
      rcases List.mem_append.mp member with inWhole | inRest
      · exact .inl (wholeDigits c inWhole)
      · rcases List.mem_cons.mp inRest with point | inFraction
        · exact .inr point
        · exact .inl (fractionDigits c inFraction)

theorem ne_nil {text whole fraction : Text} (literal : Literal text whole fraction) :
    text ≠ [] := by
  cases literal with
  | plain _ nonempty => exact nonempty
  | pointed => simp

end Literal

namespace Digits

theorem append {front back : Text} (frontDigits : Digits front) (backDigits : Digits back) :
    Digits (front ++ back) := by
  intro c member
  rcases List.mem_append.mp member with inFront | inBack
  · exact frontDigits c inFront
  · exact backDigits c inBack

theorem zeros (count : Nat) : Digits (Decimal.zeros count) := by
  intro c member
  rw [List.eq_of_mem_replicate member]
  rfl

theorem toDigits (n : Nat) : Digits (Nat.toDigits 10 n) := fun _ member =>
  Nat.isDigit_of_mem_toDigits (by decide) (by decide) member

end Digits

namespace Decimal

/-- Zeros behind the digits count as a power of ten. -/
theorem ofDigitChars_append_zeros (n count : Nat) :
    Nat.ofDigitChars 10 (Nat.toDigits 10 n ++ zeros count) 0 = n * Nat.pow 10 count := by
  rw [Nat.ofDigitChars_append, Nat.ofDigitChars_ten_toDigits, zeros,
    Nat.ofDigitChars_replicate_zero]
  exact Nat.mul_comm _ _

theorem ofDigitChars_zeros_append (n count : Nat) :
    Nat.ofDigitChars 10 (zeros count ++ Nat.toDigits 10 n) 0 = n := by
  rw [Nat.ofDigitChars_append, zeros, Nat.ofDigitChars_replicate_zero, Nat.mul_zero,
    Nat.ofDigitChars_ten_toDigits]

/-- The text of a whole decimal is its digits with zeros behind them. -/
theorem text_of_nonneg {d : Decimal} (whole : 0 ≤ d.exponent) :
    d.text = Nat.toDigits 10 d.coefficient ++ zeros d.exponent.toNat :=
  if_pos whole

/-- The text of a decimal with places behind the point is its digits, with zeros
before them if they are few, and a point among them. -/
theorem text_of_neg {d : Decimal} (places : d.exponent < 0) :
    ∃ whole fraction,
      d.text = whole ++ '.' :: fraction ∧
      whole ++ fraction =
        zeros ((-d.exponent).toNat + 1 - (Nat.toDigits 10 d.coefficient).length) ++
          Nat.toDigits 10 d.coefficient ∧
      whole ≠ [] ∧ fraction.length = (-d.exponent).toNat := by
  have notWhole : ¬ 0 ≤ d.exponent := Int.not_le.mpr places
  generalize paddedEq : zeros ((-d.exponent).toNat + 1 -
    (Nat.toDigits 10 d.coefficient).length) ++ Nat.toDigits 10 d.coefficient = padded
  have long : (-d.exponent).toNat + 1 ≤ padded.length := by
    rw [← paddedEq, List.length_append, zeros, List.length_replicate]
    omega
  refine ⟨padded.take (padded.length - (-d.exponent).toNat),
    padded.drop (padded.length - (-d.exponent).toNat), ?_, List.take_append_drop _ _, ?_, ?_⟩
  · simp only [text, notWhole, if_false, paddedEq]
  · intro empty
    have none := congrArg List.length empty
    rw [List.length_take, List.length_nil] at none
    omega
  · rw [List.length_drop]
    omega

/-- The text of a decimal is a literal for its number. -/
theorem text_literal (d : Decimal) :
    ∃ whole fraction, Literal d.text whole fraction ∧
      (ofDigits whole fraction).toBinary64 = d.toBinary64 := by
  by_cases whole : 0 ≤ d.exponent
  · refine ⟨d.text, [], ?_, ?_⟩
    · rw [text_of_nonneg whole]
      exact .plain ((Digits.toDigits _).append (Digits.zeros _))
        (List.append_ne_nil_of_left_ne_nil Nat.toDigits_ne_nil _)
    · have places : (-d.exponent).toNat = 0 := by omega
      have noZeros : -(([] : Text).length : Int) = 0 := rfl
      simp only [toBinary64, numerator, denominator, ofDigits, text_of_nonneg whole,
        List.append_nil, ofDigitChars_append_zeros, places, noZeros, Int.neg_zero,
        Int.toNat_zero, Nat.pow_eq, pow_zero, Nat.mul_one]
  · obtain ⟨whole, fraction, textEq, digitsEq, nonempty, length⟩ :=
      text_of_neg (Int.not_le.mp whole)
    have digits : Digits (whole ++ fraction) := by
      rw [digitsEq]
      exact (Digits.zeros _).append (Digits.toDigits _)
    refine ⟨whole, fraction, ?_, ?_⟩
    · rw [textEq]
      exact .pointed (fun c member => digits c (List.mem_append_left _ member))
        (fun c member => digits c (List.mem_append_right _ member)) (.inl nonempty)
    · have same : ofDigits whole fraction = d := by
        have exponentEq : -((fraction.length : Nat) : Int) = d.exponent := by omega
        simp only [ofDigits, digitsEq, ofDigitChars_zeros_append, exponentEq]
      rw [same]

theorem fives_mul_twos (places : Nat) :
    Nat.pow 5 places * Nat.pow 2 places = Nat.pow 10 places :=
  (Nat.mul_pow 5 2 places).symm

theorem tens_pos (places : Nat) : 0 < Nat.pow 10 places := Nat.pow_pos (by decide)

/-- A decimal found on a grid reads back as its rank. -/
theorem rank_of_onGrid {rank : Nat} {exponent : Int} {d : Decimal}
    (found : onGrid? rank exponent = some d) : d.rank = rank := by
  simp only [onGrid?] at found
  split at found
  · rename_i lower
    cases found
    exact lower.1
  · split at found
    · rename_i upper
      cases found
      exact upper
    · cases found

/-- The magnitude written out to its last digit reads back. -/
theorem rank_exact (rank : Nat) : (exact rank).rank = rank := by
  have noZeros : (-(unitPlaces : Int)).toNat = 0 := by omega
  have allPlaces : (- -(unitPlaces : Int)).toNat = unitPlaces := by omega
  have units : Nat.pow 5 unitPlaces * unitsInOne = Nat.pow 10 unitPlaces := by
    unfold unitsInOne
    exact fives_mul_twos unitPlaces
  have ratio : magnitude rank * Nat.pow 5 unitPlaces * Nat.pow 10 0 * unitsInOne =
      magnitude rank * Nat.pow 10 unitPlaces := by
    rw [show Nat.pow 10 0 = 1 from rfl, Nat.mul_one, Nat.mul_assoc, units]
  simp only [Decimal.rank, numerator, denominator, exact, noZeros, allPlaces, ratio]
  exact nearestRank_magnitude rank (tens_pos unitPlaces)

/-- A decimal without units is zero. -/
theorem rank_of_zero {d : Decimal} (zero : d.coefficient = 0) : d.rank = 0 := by
  have none := nearestRank_magnitude 0 (tens_pos (-d.exponent).toNat)
  rw [magnitude_of_lt binade_pos, Nat.zero_mul] at none
  rw [Decimal.rank, numerator, denominator, zero, Nat.zero_mul, Nat.zero_mul]
  exact none

/-- The shortest decimal of a rank reads back. -/
theorem rank_shortest (rank : Nat) : (shortest rank).rank = rank := by
  unfold shortest
  cases search : (List.range 20).findSome? fun (k : Nat) =>
      onGrid? rank (coarsestGrid rank - k) with
  | none => exact rank_exact rank
  | some d =>
      obtain ⟨_, _, _, _, found, _⟩ := List.findSome?_eq_some_iff.mp search
      exact rank_of_onGrid found

end Decimal

namespace Binary64

theorem numeral_finite_false (rank : Fin infinityRank) :
    (finite false rank).numeral = magnitudeText rank := by
  simp only [numeral, numeral.signed, Bool.false_eq_true, if_false]

theorem numeral_finite_true (rank : Fin infinityRank) :
    (finite true rank).numeral = '-' :: magnitudeText rank := by
  simp only [numeral, numeral.signed, if_true]

/-- A decimal with a finite rank is the double of this rank. -/
theorem toBinary64_of_rank {d : Decimal} {rank : Fin infinityRank} (same : d.rank = rank) :
    d.toBinary64 = .finite false rank := by
  have finite : nearestRank d.numerator d.denominator < infinityRank := by
    rw [show nearestRank d.numerator d.denominator = rank from same]
    exact rank.isLt
  rw [Decimal.toBinary64, ofRatio, dif_pos finite]
  exact congrArg (Binary64.finite false) (Fin.ext same)

/-- A ratio is rounded to a double with its sign, or to the infinity with its sign. -/
theorem ofRatio_cases (negative : Bool) (numerator denominator : Nat) :
    (∃ rank, ofRatio negative numerator denominator = .finite negative rank) ∨
      ofRatio negative numerator denominator = .infinite negative := by
  by_cases small : nearestRank numerator denominator < infinityRank
  · exact .inl ⟨⟨_, small⟩, dif_pos small⟩
  · exact .inr (dif_neg small)

/-- A finite double read from digits has no sign. -/
theorem toBinary64_nonnegative {d : Decimal} (finite : d.toBinary64.isFinite = true) :
    ∃ rank, d.toBinary64 = .finite false rank := by
  rcases ofRatio_cases false d.numerator d.denominator with found | infinite
  · exact found
  · rw [Decimal.toBinary64, infinite] at finite
    cases finite

/-- The text of a magnitude is a literal for it. -/
theorem magnitudeText_literal (rank : Fin infinityRank) :
    ∃ whole fraction, Literal (magnitudeText rank) whole fraction ∧
      (Decimal.ofDigits whole fraction).toBinary64 = .finite false rank := by
  unfold magnitudeText
  by_cases zero : rank.val = 0
  · rw [if_pos zero]
    refine ⟨['0'], [], .plain (Digits.zeros 1) (by decide), toBinary64_of_rank ?_⟩
    rw [zero]
    exact Decimal.rank_of_zero rfl
  · rw [if_neg zero]
    obtain ⟨whole, fraction, literal, same⟩ := Decimal.text_literal (Decimal.shortest rank)
    exact ⟨whole, fraction, literal,
      same.trans (toBinary64_of_rank (Decimal.rank_shortest rank))⟩

/-- The double that a result on display stands for: a zero has no sign there. -/
def displayed (value : Binary64) : Binary64 :=
  if value.isZero then .zero false else value

/-- A finite result is shown as the magnitude of the double on display, behind a minus
where that is below zero. -/
theorem shown_cases {value : Binary64} (finite : value.isFinite = true) :
    (∃ rank : Fin infinityRank,
      value.displayed = .finite false rank ∧ value.shown = magnitudeText rank) ∨
    ∃ rank : Fin infinityRank, value = .finite true rank ∧
      value.displayed = .finite true rank ∧ value.shown = '-' :: magnitudeText rank := by
  cases value with
  | infinite negative => cases finite
  | notANumber => cases finite
  | finite negative rank =>
      by_cases isZero : (Binary64.finite negative rank).isZero = true
      · refine .inl ⟨⟨0, infinityRank_pos⟩, if_pos isZero, ?_⟩
        rw [shown, if_pos isZero, magnitudeText, if_pos rfl]
      · rw [displayed, shown, if_neg isZero, if_neg isZero]
        cases negative with
        | false => exact .inl ⟨rank, rfl, numeral_finite_false rank⟩
        | true => exact .inr ⟨rank, rfl, rfl, numeral_finite_true rank⟩

end Binary64

end Keypad
