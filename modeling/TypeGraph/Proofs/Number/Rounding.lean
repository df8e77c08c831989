import Mathlib.Order.Monotone.Basic
import TypeGraph.Number.Binary64

/-!
# Rounding keeps the order

A greater quotient is never rounded to a smaller number, and greater ranks stand for greater
magnitudes. A comparison of rounded numbers is therefore one of their ranks, whatever the precision
at which they were rounded.
-/

namespace TypeGraph.Number

/-! ## One quotient -/

theorem div_le_roundHalfEven (numerator denominator : Nat) :
    numerator / denominator ≤ roundHalfEven numerator denominator := by
  rw [roundHalfEven]
  split <;> omega

theorem roundHalfEven_le (numerator denominator : Nat) :
    roundHalfEven numerator denominator ≤ numerator / denominator + 1 := by
  rw [roundHalfEven]
  split <;> omega

theorem roundHalfEven_mono {left right : Nat} (le : left ≤ right) (denominator : Nat) :
    roundHalfEven left denominator ≤ roundHalfEven right denominator := by
  have quotients : left / denominator ≤ right / denominator := Nat.div_le_div_right le
  rcases Nat.lt_or_eq_of_le quotients with less | same
  · have above := roundHalfEven_le left denominator
    have below := div_le_roundHalfEven right denominator
    omega
  · -- With equal quotients the remainders decide.
    have remainders : left % denominator ≤ right % denominator := by
      have leftSplit := Nat.div_add_mod left denominator
      have rightSplit := Nat.div_add_mod right denominator
      rw [same] at leftSplit
      omega
    rw [roundHalfEven, roundHalfEven, same]
    split <;> split <;> omega

/-! ## Ranks -/

/-- The doublings of the spacing for the magnitudes near a number of units. -/
def doublingsAt (units : Nat) : Nat :=
  units.log2 - 52

theorem nearestRank_eq (numerator denominator : Nat) :
    nearestRank numerator denominator =
      doublingsAt (numerator / denominator) * ranksInBinade +
        roundHalfEven numerator
          (denominator * Nat.pow 2 (doublingsAt (numerator / denominator))) :=
  rfl

theorem doublingsAt_mono {left right : Nat} (le : left ≤ right) :
    doublingsAt left ≤ doublingsAt right := by
  rcases Nat.eq_zero_or_pos left with rfl | positive
  · rw [doublingsAt, Nat.log2_zero, Nat.zero_sub]
    exact Nat.zero_le _
  · have exponents : left.log2 ≤ right.log2 := by
      rw [Nat.le_log2 (by omega)]
      exact Nat.le_trans (Nat.log2_self_le (by omega)) le
    exact Nat.sub_le_sub_right exponents 52

theorem div_doublings_lt (units : Nat) :
    units / Nat.pow 2 (doublingsAt units) < 2 * ranksInBinade := by
  have below : units < 2 ^ (units.log2 + 1) := Nat.lt_log2_self
  have covered : 2 ^ (units.log2 + 1) ≤ 2 ^ (doublingsAt units + 53) :=
    Nat.pow_le_pow_right (by decide) (by rw [doublingsAt]; omega)
  change units / 2 ^ doublingsAt units < _
  rw [Nat.div_lt_iff_lt_mul (Nat.pow_pos (by decide))]
  refine Nat.lt_of_lt_of_le below (Nat.le_trans covered (Nat.le_of_eq ?_))
  rw [Nat.pow_add, Nat.mul_comm]
  rfl

theorem le_div_doublings {units : Nat} (doubled : 0 < doublingsAt units) :
    ranksInBinade ≤ units / Nat.pow 2 (doublingsAt units) := by
  have exponent : doublingsAt units + 52 = units.log2 := by
    rw [doublingsAt] at doubled ⊢
    omega
  have nonzero : units ≠ 0 := by
    rintro rfl
    exact absurd doubled (by decide)
  change _ ≤ units / 2 ^ doublingsAt units
  rw [Nat.le_div_iff_mul_le (Nat.pow_pos (by decide))]
  refine Nat.le_trans (Nat.le_of_eq ?_) (Nat.log2_self_le nonzero)
  rw [← exponent, Nat.pow_add, Nat.mul_comm]
  rfl

/-- Rounding to the format keeps the order. Between two spacings the power of two that divides them
stands in the middle. -/
theorem nearestRank_mono {left right : Nat} (le : left ≤ right) (denominator : Nat) :
    nearestRank left denominator ≤ nearestRank right denominator := by
  have quotients : left / denominator ≤ right / denominator := Nat.div_le_div_right le
  rw [nearestRank_eq, nearestRank_eq]
  rcases Nat.lt_or_eq_of_le (doublingsAt_mono quotients) with fewer | same
  · have above := roundHalfEven_le left
      (denominator * Nat.pow 2 (doublingsAt (left / denominator)))
    have below := div_le_roundHalfEven right
      (denominator * Nat.pow 2 (doublingsAt (right / denominator)))
    rw [← Nat.div_div_eq_div_mul] at above below
    have small := div_doublings_lt (left / denominator)
    have large := le_div_doublings (Nat.zero_lt_of_lt fewer)
    have ranks := Nat.mul_le_mul_right ranksInBinade (Nat.succ_le_of_lt fewer)
    rw [Nat.succ_mul] at ranks
    omega
  · rw [same]
    exact Nat.add_le_add_left (roundHalfEven_mono le _) _

/-- The next magnitude lies one spacing above. -/
theorem unitsOfRank_succ (rank : Nat) :
    unitsOfRank (rank + 1) = unitsOfRank rank + Nat.pow 2 (rank / ranksInBinade - 1) := by
  have binade : ranksInBinade = 4503599627370496 := rfl
  rw [unitsOfRank, unitsOfRank, binade]
  by_cases last : rank % 4503599627370496 + 1 = 4503599627370496
  · -- The next rank begins a binade, in which the spacing has doubled.
    have next : (rank + 1) / 4503599627370496 - 1 = rank / 4503599627370496 := by omega
    have first : (rank + 1) % 4503599627370496 = 0 := by omega
    rw [if_neg (by omega), next, first]
    by_cases below : rank < 4503599627370496
    · have none : rank / 4503599627370496 = 0 := by omega
      rw [if_pos below, none]
      change 4503599627370496 * 1 = rank + 1
      omega
    · have doubled : Nat.pow 2 (rank / 4503599627370496) =
          2 * Nat.pow 2 (rank / 4503599627370496 - 1) := by
        conv_lhs => rw [show rank / 4503599627370496 = rank / 4503599627370496 - 1 + 1 by omega]
        exact Nat.pow_succ'
      rw [if_neg below, doubled, ← Nat.succ_mul, ← Nat.mul_assoc]
      congr 1
      omega
  · have same : (rank + 1) / 4503599627370496 = rank / 4503599627370496 := by omega
    have next : (rank + 1) % 4503599627370496 = rank % 4503599627370496 + 1 := by omega
    rw [same, next]
    by_cases below : rank < 4503599627370496
    · have none : rank / 4503599627370496 = 0 := by omega
      rw [if_pos below, if_pos (by omega), none]
    · rw [if_neg below, if_neg (by omega), ← Nat.succ_mul]
      rfl

/-- Magnitudes are numbered in increasing order. -/
theorem unitsOfRank_strictMono : StrictMono unitsOfRank := by
  refine strictMono_nat_of_lt_succ fun rank => ?_
  rw [unitsOfRank_succ]
  exact Nat.lt_add_of_pos_right (Nat.pow_pos (by decide))

end TypeGraph.Number
