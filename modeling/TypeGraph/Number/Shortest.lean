import TypeGraph.Number.Binary64

/-!
# Shortest decimals

The decimal with the fewest digits among those that round to a given binary64 number, and of these
the nearest. Every step is exact: the number, the two ends of the interval that rounds to it and
the decimals tried are all compared as multiples of a quarter of the unit.
-/

namespace TypeGraph.Number

/-- The value `significand * 10 ^ exponent`. -/
structure Decimal where
  significand : Nat
  exponent : Int
deriving DecidableEq, Repr

/-- How many digits a natural number has in base ten; zero has one. -/
def digitCount (value : Nat) : Nat :=
  (Nat.toDigits 10 value).length

namespace Decimal

/-- The place of the decimal point, counted in digits from the front of the significand. -/
def point (decimal : Decimal) : Int :=
  digitCount decimal.significand + decimal.exponent

/-- Moves zeros at the end of the significand into the exponent. -/
def dropZeros (decimal : Decimal) : Decimal :=
  if decimal.significand ≠ 0 ∧ decimal.significand % 10 = 0 then
    dropZeros ⟨decimal.significand / 10, decimal.exponent + 1⟩
  else decimal
termination_by decimal.significand
decreasing_by omega

end Decimal

/-- The interval of quarter units that round to a magnitude. Its ends belong to it when the
magnitude's own significand is even. -/
structure RoundingInterval where
  low : Nat
  value : Nat
  high : Nat
  closed : Bool

/-- Half the spacing lies above a magnitude, and below it too, except that the spacing below a
power of two is half as wide. -/
def roundingInterval (rank : Nat) : RoundingInterval :=
  let spacing := Nat.pow 2 (rank / ranksInBinade - 1)
  let below := if rank % ranksInBinade = 0 ∧ 2 * ranksInBinade ≤ rank then spacing else 2 * spacing
  let value := 4 * unitsOfRank rank
  ⟨value - below, value, value + 2 * spacing, rank % 2 = 0⟩

/-- The quarter units in a decimal, as a quotient. -/
def Decimal.quarterUnits (decimal : Decimal) : Nat × Nat :=
  (decimal.significand * Nat.pow 10 decimal.exponent.toNat * (4 * unitsInOne),
    Nat.pow 10 (-decimal.exponent).toNat)

/-- Whether a decimal rounds to the magnitude of the interval. -/
def RoundingInterval.holds (interval : RoundingInterval) (decimal : Decimal) : Bool :=
  let (numerator, denominator) := decimal.quarterUnits
  let low := interval.low * denominator
  let high := interval.high * denominator
  if interval.closed then low ≤ numerator && numerator ≤ high
  else low < numerator && numerator < high

/-- The distance of a decimal from the magnitude, times the decimal's denominator. -/
def RoundingInterval.distance (interval : RoundingInterval) (decimal : Decimal) : Nat :=
  let (numerator, denominator) := decimal.quarterUnits
  let value := interval.value * denominator
  (numerator - value) + (value - numerator)

/-- Which of two decimals with neighbouring significands is chosen when both are equally near. -/
inductive TieRule where
  | toEven
  | upward
deriving DecidableEq

/-- The decimal that rounds to the magnitude on the grid of multiples of `10 ^ exponent`, given
its lower neighbour there. -/
def RoundingInterval.onGrid? (interval : RoundingInterval) (tie : TieRule) (lower : Decimal) :
    Option Decimal :=
  let upper : Decimal := ⟨lower.significand + 1, lower.exponent⟩
  match interval.holds lower, interval.holds upper with
  | false, false => none
  | true, false => some lower
  | false, true => some upper
  | true, true =>
    if interval.distance lower < interval.distance upper then some lower
    else if interval.distance upper < interval.distance lower then some upper
    else
      match tie with
      | .toEven => some (if lower.significand % 2 = 0 then lower else upper)
      | .upward => some upper

/-- The largest multiple of `10 ^ exponent` up to a number of units. -/
def Decimal.floorOfUnits (units : Nat) (exponent : Int) : Decimal :=
  ⟨units * Nat.pow 10 (-exponent).toNat / (unitsInOne * Nat.pow 10 exponent.toNat), exponent⟩

/-- The place of the decimal point of a nonzero number of units. The smallest magnitude times ten
to the power 343 has an integral part, whose digits are counted. -/
def pointOfUnits (units : Nat) : Int :=
  digitCount (units * Nat.pow 10 343 / unitsInOne) - 343

/-- Tries the grids of `digits`, `digits + 1`, … digits in turn. -/
def shortestFrom (tie : TieRule) (interval : RoundingInterval) (units : Nat) (point : Int) :
    (attempts digits : Nat) → Decimal
  | 0, digits => Decimal.floorOfUnits units (point - digits)
  | attempts + 1, digits =>
    match interval.onGrid? tie (Decimal.floorOfUnits units (point - digits)) with
    | some decimal => decimal
    | none => shortestFrom tie interval units point attempts (digits + 1)

/-- The shortest decimal of a magnitude. Seventeen digits always suffice. -/
def Binary64.shortest (tie : TieRule) (number : Binary64) : Decimal :=
  if number.isZero then ⟨0, 0⟩
  else
    (shortestFrom tie (roundingInterval number.rank) number.units (pointOfUnits number.units)
      17 1).dropZeros

end TypeGraph.Number
