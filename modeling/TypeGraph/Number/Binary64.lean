/-!
# Binary64 numbers

The finite numbers of the binary64 format, in exact natural-number arithmetic. All magnitudes of
the format are multiples of one unit, two to the power −1074, and they are numbered in increasing
order by their rank. Rounding to the nearest member works on ranks, so that a result too large for
the format is a rank past the last finite one.
-/

namespace TypeGraph.Number

/-- The quotient rounded to the nearest natural number, a half going to the even neighbour. -/
def roundHalfEven (numerator denominator : Nat) : Nat :=
  let quotient := numerator / denominator
  let twice := 2 * (numerator % denominator)
  if denominator < twice ∨ (denominator = twice ∧ quotient % 2 = 1) then quotient + 1 else quotient

def unitsInOne : Nat :=
  Nat.pow 2 1074

/-- The number of ranks between two neighbouring powers of two. -/
def ranksInBinade : Nat :=
  Nat.pow 2 52

/-- The first rank past the finite magnitudes. -/
def infiniteRank : Nat :=
  2047 * ranksInBinade

/-- The units in the magnitude of a rank. The spacing of magnitudes is one unit up to the second
power of two reached, and doubles at each power of two from there on. -/
def unitsOfRank (rank : Nat) : Nat :=
  if rank < ranksInBinade then rank
  else (ranksInBinade + rank % ranksInBinade) * Nat.pow 2 (rank / ranksInBinade - 1)

/-- The rank of the magnitude nearest to a quotient of units. -/
def nearestRank (numerator denominator : Nat) : Nat :=
  let doublings := (numerator / denominator).log2 - 52
  doublings * ranksInBinade + roundHalfEven numerator (denominator * Nat.pow 2 doublings)

/-- A finite number of the binary64 format: a sign and the rank of its magnitude. Zero has both
signs. -/
structure Binary64 where
  negative : Bool
  rank : Nat
  finite : rank < infiniteRank
deriving DecidableEq

namespace Binary64

instance : Inhabited Binary64 :=
  ⟨⟨false, 0, by decide⟩⟩

/-- The magnitude, counted in units. -/
def units (number : Binary64) : Nat :=
  unitsOfRank number.rank

/-- The number itself, counted in units. -/
def signedUnits (number : Binary64) : Int :=
  if number.negative then -(number.units : Int) else number.units

def isZero (number : Binary64) : Bool :=
  number.rank = 0

/-- Zero without the sign. -/
def zero : Binary64 :=
  ⟨false, 0, by decide⟩

/-- The magnitude without the sign. -/
def abs (number : Binary64) : Binary64 :=
  { number with negative := false }

/-- The nonnegative number nearest to a quotient of units, unless that lies past the format. -/
def nearest? (numerator denominator : Nat) : Option Binary64 :=
  if finite : nearestRank numerator denominator < infiniteRank then
    some ⟨false, nearestRank numerator denominator, finite⟩
  else none

/-- The number nearest to a natural number. -/
def ofNat? (value : Nat) : Option Binary64 :=
  nearest? (value * unitsInOne) 1

/-- The number nearest to an integer. -/
def ofInt? (value : Int) : Option Binary64 :=
  (ofNat? value.natAbs).map fun magnitude => { magnitude with negative := value < 0 }

/-- The product of two magnitudes, rounded. -/
def mul? (left right : Binary64) : Option Binary64 :=
  nearest? (left.units * right.units) unitsInOne

/-- The quotient of two magnitudes, rounded. -/
def div? (left right : Binary64) : Option Binary64 :=
  nearest? (left.units * unitsInOne) right.units

/-- Comparison by value, for which both zeros are the same. -/
def lt (left right : Binary64) : Bool :=
  left.signedUnits < right.signedUnits

/-- Equality by value. -/
def sameValue (left right : Binary64) : Bool :=
  left.signedUnits = right.signedUnits

end Binary64

end TypeGraph.Number
