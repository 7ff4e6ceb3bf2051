/-
Module: Keypad.Proofs.Number.Magnitude
Layer: proofs
Purpose: The order of magnitudes, and that rounding keeps every double.
Trusted boundary: none
Main exports: magnitude_lt_succ, floorRank_magnitude, nearestRank_magnitude
-/
import Mathlib
import Keypad.Number.Binary64

namespace Keypad

theorem binade_eq : binade = 2 ^ 52 := rfl

theorem binade_pos : 0 < binade := Nat.two_pow_pos 52

theorem twos_pos (places : Nat) : 0 < Nat.pow 2 places := Nat.two_pow_pos places

theorem unitsInOne_pos : 0 < unitsInOne := by
  unfold unitsInOne
  exact twos_pos unitPlaces

/-- The magnitudes of the first binade are counted in single units. -/
theorem magnitude_of_lt {rank : Nat} (first : rank < binade) : magnitude rank = rank :=
  if_pos first

/-- A rank behind the first binade, by its place in its binade. -/
theorem magnitude_of_place {place : Nat} (scale : Nat) (within : place < binade) :
    magnitude ((scale + 1) * binade + place) = (binade + place) * Nat.pow 2 scale := by
  have notFirst : ¬ (scale + 1) * binade + place < binade := by
    rw [Nat.succ_mul]
    omega
  have quotient : ((scale + 1) * binade + place) / binade = scale + 1 := by
    rw [Nat.add_comm, Nat.add_mul_div_right _ _ binade_pos, Nat.div_eq_of_lt within,
      Nat.zero_add]
  have remainder : ((scale + 1) * binade + place) % binade = place := by
    rw [Nat.add_comm, Nat.add_mul_mod_self_right, Nat.mod_eq_of_lt within]
  simp only [magnitude, notFirst, if_false, quotient, remainder, Nat.add_sub_cancel]

/-- Every rank is in the first binade or has a place in a later one. -/
theorem rank_cases (rank : Nat) :
    rank < binade ∨
      ∃ scale place, place < binade ∧ rank = (scale + 1) * binade + place := by
  by_cases first : rank < binade
  · exact .inl first
  · have positive : 0 < rank / binade := Nat.div_pos (Nat.not_lt.mp first) binade_pos
    refine .inr ⟨rank / binade - 1, rank % binade, Nat.mod_lt _ binade_pos, ?_⟩
    rw [Nat.sub_add_cancel positive, Nat.mul_comm]
    exact (Nat.div_add_mod rank binade).symm

/-- A larger rank has a larger magnitude. -/
theorem magnitude_lt_succ (rank : Nat) : magnitude rank < magnitude (rank + 1) := by
  rcases rank_cases rank with first | ⟨scale, place, within, rfl⟩
  · rw [magnitude_of_lt first]
    by_cases last : rank + 1 < binade
    · rw [magnitude_of_lt last]
      exact Nat.lt_succ_self rank
    · -- the first rank of the second binade has one unit more
      have next : rank + 1 = (0 + 1) * binade + 0 := by omega
      rw [next, magnitude_of_place 0 binade_pos]
      simp only [Nat.pow_eq, pow_zero]
      omega
  · have positive := twos_pos scale
    rw [magnitude_of_place scale within]
    by_cases last : place + 1 < binade
    · rw [Nat.add_assoc, magnitude_of_place scale last]
      exact Nat.mul_lt_mul_of_pos_right (by omega) positive
    · -- the next binade begins with twice the units of this one
      have next : (scale + 1) * binade + place + 1 = (scale + 1 + 1) * binade + 0 := by
        rw [Nat.succ_mul (scale + 1)]
        omega
      rw [next, magnitude_of_place (scale + 1) binade_pos, Nat.add_zero]
      calc (binade + place) * Nat.pow 2 scale
          < (2 * binade) * Nat.pow 2 scale :=
            Nat.mul_lt_mul_of_pos_right (by omega) positive
        _ = binade * Nat.pow 2 (scale + 1) := by
            simp only [Nat.pow_eq, pow_succ]
            ring

/-- The largest rank up to the magnitude of a rank is the rank itself. -/
theorem floorRank_magnitude (rank : Nat) : floorRank (magnitude rank) = rank := by
  rcases rank_cases rank with first | ⟨scale, place, within, rfl⟩
  · rw [magnitude_of_lt first]
    have small : rank.log2 - 52 = 0 := by
      by_cases zero : rank = 0
      · subst zero
        rfl
      · have bound : rank.log2 < 52 := (Nat.log2_lt zero).mpr (binade_eq ▸ first)
        omega
    simp [floorRank, small]
  · rw [magnitude_of_place scale within]
    have positive := twos_pos scale
    have size : ((binade + place) * Nat.pow 2 scale).log2 = 52 + scale := by
      have nonzero : (binade + place) * Nat.pow 2 scale ≠ 0 :=
        Nat.mul_ne_zero (by have := binade_pos; omega) (Nat.ne_of_gt positive)
      refine (Nat.log2_eq_iff nonzero).mpr ⟨?_, ?_⟩
      · rw [Nat.pow_add, ← binade_eq]
        exact Nat.mul_le_mul_right _ (Nat.le_add_right _ _)
      · rw [show 52 + scale + 1 = 53 + scale by omega, Nat.pow_add]
        exact Nat.mul_lt_mul_of_pos_right (by rw [binade_eq] at *; omega) positive
    have shift : 52 + scale - 52 = scale := by omega
    simp only [floorRank, size, shift, Nat.mul_div_cancel _ positive]
    rw [Nat.succ_mul, Nat.add_assoc]

/-- The magnitude of a rank is rounded to no other rank, over any denominator. -/
theorem nearestRank_magnitude (rank : Nat) {denominator : Nat} (positive : 0 < denominator) :
    nearestRank (magnitude rank * denominator) denominator = rank := by
  have nearer : 2 * (magnitude rank * denominator) <
      (magnitude rank + magnitude (rank + 1)) * denominator := by
    rw [← Nat.mul_assoc]
    exact Nat.mul_lt_mul_of_pos_right (by have := magnitude_lt_succ rank; omega) positive
  simp only [nearestRank, Nat.mul_div_cancel _ positive, floorRank_magnitude, nearer, if_true]

end Keypad
