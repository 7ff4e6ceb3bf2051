/-
Module: Keypad.Number.Binary64
Layer: numbers
Purpose: Double precision numbers, by exact integer arithmetic and one rounding.
Trusted boundary: none; the arithmetic of the machine is not used.
Main exports:
  Binary64, magnitude, nearestRank, Binary64.ofRatio, Binary64.add,
  Binary64.sub, Binary64.mul, Binary64.div, Binary64.neg,
  Binary64.ofWord, Binary64.toWord
-/

namespace Keypad

/-!
The magnitudes of the finite doubles, in increasing order, are numbered from
zero on: the number of a magnitude is its rank.  A rank is what the word of a
double holds below its sign, so the order of ranks is the order of magnitudes,
and the neighbour of a rank is the neighbouring double.

A magnitude is counted in units of `2 ^ -1074`, the least positive double.
Every finite double is a whole number of units, so sums, products and
quotients are ratios of natural numbers of units, and `nearestRank` is the only
place where anything is rounded.
-/

/-- How many ranks share one power of two. -/
def binade : Nat := Nat.pow 2 52

/-- The first rank that is no finite double.  The doubles of a larger magnitude
are infinite. -/
def infinityRank : Nat := 2047 * binade

/-- Zero is the rank of a finite double. -/
theorem infinityRank_pos : 0 < infinityRank :=
  Nat.mul_pos (Nat.succ_pos 2046) (Nat.pow_pos (Nat.succ_pos 1))

/-- How many binary places the least positive double has. -/
def unitPlaces : Nat := 1074

/-- The least positive double goes this often into one. -/
def unitsInOne : Nat := Nat.pow 2 unitPlaces

/-- How many units the magnitude of a rank has.  The ranks of the first binade
count single units; from then on each binade counts units twice as large as
the one before.  Ranks beyond the finite ones go on in the same way. -/
def magnitude (rank : Nat) : Nat :=
  if rank < binade then rank
  else (binade + rank % binade) * Nat.pow 2 (rank / binade - 1)

/-- The largest rank whose magnitude is at most a whole number of units. -/
def floorRank (units : Nat) : Nat :=
  let scale := units.log2 - 52
  scale * binade + units / Nat.pow 2 scale

/-- The rank whose magnitude is nearest to the ratio `numerator / denominator`
of units; of two equally near ranks the even one. -/
def nearestRank (numerator denominator : Nat) : Nat :=
  let low := floorRank (numerator / denominator)
  let twice := 2 * numerator
  let middle := (magnitude low + magnitude (low + 1)) * denominator
  if twice < middle then low
  else if middle < twice then low + 1
  else if low % 2 = 0 then low
  else low + 1

/-- A double precision number: a sign and the rank of a finite magnitude, an
infinity, or no number at all.  There are two zeros, and all that is no number
is one value. -/
inductive Binary64 where
  | finite (negative : Bool) (rank : Fin infinityRank)
  | infinite (negative : Bool)
  | notANumber
deriving DecidableEq, Repr

namespace Binary64

/-- Zero with the given sign. -/
def zero (negative : Bool) : Binary64 := .finite negative ⟨0, infinityRank_pos⟩

instance : Inhabited Binary64 := ⟨zero false⟩

/-- The double nearest to a ratio of units with the given sign; a ratio that
rounds past the last finite rank is infinite. -/
def ofRatio (negative : Bool) (numerator denominator : Nat) : Binary64 :=
  let rank := nearestRank numerator denominator
  if isFinite : rank < infinityRank then .finite negative ⟨rank, isFinite⟩
  else .infinite negative

/-- The double nearest to a natural number. -/
def ofNat (n : Nat) : Binary64 := ofRatio false (n * unitsInOne) 1

/-- Whether the double is a number and not infinite. -/
def isFinite : Binary64 → Bool
  | .finite _ _ => true
  | _ => false

/-- Whether the double is one of the two zeros. -/
def isZero : Binary64 → Bool
  | .finite _ rank => rank.val == 0
  | _ => false

/-- The units of a finite double, with its sign. -/
def signedUnits (negative : Bool) (rank : Fin infinityRank) : Int :=
  if negative then -(magnitude rank : Int) else magnitude rank

/-- The sign is turned round, also that of a zero and of an infinity. -/
def neg : Binary64 → Binary64
  | .finite negative rank => .finite (!negative) rank
  | .infinite negative => .infinite (!negative)
  | .notANumber => .notANumber

/-- The exact sum, rounded once.  A sum that is exactly zero is the positive
zero unless both terms are negative; opposite infinities have no sum. -/
def add : Binary64 → Binary64 → Binary64
  | .finite leftSign left, .finite rightSign right =>
      let sum := signedUnits leftSign left + signedUnits rightSign right
      if sum = 0 then zero (leftSign && rightSign)
      else ofRatio (sum < 0) sum.natAbs 1
  | .infinite leftSign, .infinite rightSign =>
      if leftSign = rightSign then .infinite leftSign else .notANumber
  | .infinite sign, .finite _ _ => .infinite sign
  | .finite _ _, .infinite sign => .infinite sign
  | .notANumber, _ => .notANumber
  | _, .notANumber => .notANumber

/-- The difference is the sum with the negated second term. -/
def sub (left right : Binary64) : Binary64 := left.add right.neg

/-- The exact product, rounded once; its sign is negative exactly when the
signs differ.  Zero times an infinity is no number. -/
def mul : Binary64 → Binary64 → Binary64
  | .finite leftSign left, .finite rightSign right =>
      ofRatio (leftSign != rightSign) (magnitude left * magnitude right) unitsInOne
  | .infinite leftSign, .infinite rightSign => .infinite (leftSign != rightSign)
  | .infinite leftSign, .finite rightSign right =>
      if right.val = 0 then .notANumber else .infinite (leftSign != rightSign)
  | .finite leftSign left, .infinite rightSign =>
      if left.val = 0 then .notANumber else .infinite (leftSign != rightSign)
  | .notANumber, _ => .notANumber
  | _, .notANumber => .notANumber

/-- The exact quotient, rounded once; its sign is negative exactly when the
signs differ.  A zero divisor gives an infinity, or no number for zero over
zero; so does an infinity over an infinity. -/
def div : Binary64 → Binary64 → Binary64
  | .finite leftSign left, .finite rightSign right =>
      if right.val = 0 then
        if left.val = 0 then .notANumber else .infinite (leftSign != rightSign)
      else ofRatio (leftSign != rightSign) (magnitude left * unitsInOne) (magnitude right)
  | .infinite _, .infinite _ => .notANumber
  | .infinite leftSign, .finite rightSign _ => .infinite (leftSign != rightSign)
  | .finite leftSign _, .infinite rightSign => zero (leftSign != rightSign)
  | .notANumber, _ => .notANumber
  | _, .notANumber => .notANumber

/-- The double of a word: its highest bit is the sign, the others are the rank,
and the ranks beyond infinity are no numbers. -/
def ofWord (word : UInt64) : Binary64 :=
  let negative := Nat.pow 2 63 ≤ word.toNat
  let rank := word.toNat % Nat.pow 2 63
  if isFinite : rank < infinityRank then .finite negative ⟨rank, isFinite⟩
  else if rank = infinityRank then .infinite negative
  else .notANumber

/-- The word of a double.  What is no number has the word with the positive
sign and the highest bit of the fraction set. -/
def toWord : Binary64 → UInt64
  | .finite negative rank => signed negative rank
  | .infinite negative => signed negative infinityRank
  | .notANumber => signed false (infinityRank + Nat.pow 2 51)
where
  signed (negative : Bool) (rank : Nat) : UInt64 :=
    UInt64.ofNat ((if negative then Nat.pow 2 63 else 0) + rank)

end Binary64

end Keypad
