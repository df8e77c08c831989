import TypeGraph.Number.Layout

/-!
# JSON numbers

A number is an integer of 64 bits, signed or unsigned, or else a binary64 number. The value of a
numeral is computed from its leading digits, as many as fit into 64 bits, by one rounded
multiplication or division with a power of ten; it is therefore not always the nearest number to
the numeral.
-/

namespace TypeGraph.Json

open TypeGraph.Number

/-- The integers that are kept as such: those of 64 bits, with or without a sign. -/
def FitsWord (value : Int) : Prop :=
  -9223372036854775808 ≤ value ∧ value < 18446744073709551616

instance (value : Int) : Decidable (FitsWord value) :=
  inferInstanceAs (Decidable (_ ∧ _))

/-- A number of a JSON value. -/
inductive Number where
  | integer (value : Int) (fits : FitsWord value)
  | real (value : Binary64)
deriving DecidableEq

namespace Number

/-- The binary64 number nearest to a number. -/
def toBinary64? : Number → Option Binary64
  | integer value _ => Binary64.ofInt? value
  | real value => some value

/-- Equality as kept by loading and saving: an integer is never a binary64 number, and the two
zeros are one. -/
def same : Number → Number → Bool
  | integer left _, integer right _ => left = right
  | real left, real right => left.sameValue right
  | _, _ => false

def text : Number → String
  | integer value _ => toString value
  | real value => jsonLayout.text value

end Number

/-- A numeral as it is written: its digits before and after the point, and the sign and digits of
its exponent. -/
structure Numeral where
  negative : Bool
  whole : List Char
  fraction : Option (List Char)
  exponent : Option (Bool × List Char)

namespace Numeral

def digitValue (c : Char) : Nat :=
  c.toNat - '0'.toNat

/-- Appends digits to a number while the result fits into 64 bits. The digits from the first that
does not fit are left over. -/
def appendDigits (significand : Nat) : List Char → Nat × List Char
  | [] => (significand, [])
  | digit :: rest =>
    let next := significand * 10 + digitValue digit
    if next < Nat.pow 2 64 then appendDigits next rest else (significand, digit :: rest)

/-- A power of ten, rounded. -/
def powerOfTen (exponent : Nat) : Option Binary64 :=
  Binary64.ofNat? (Nat.pow 10 exponent)

/-- The exponent of the largest power of ten in the format. -/
def greatestPower : Nat :=
  308

/-- Divides by the largest power of ten so many times, or until zero is reached. -/
def divideByGreatest? : Nat → Binary64 → Option Binary64
  | 0, number => some number
  | steps + 1, number =>
    if number.isZero then some number
    else ((powerOfTen greatestPower).bind number.div?).bind (divideByGreatest? steps)

/-- Divides by a power of ten, in steps of the largest one while the exponent exceeds it. -/
def divideByPower? (number : Binary64) (exponent : Nat) : Option Binary64 :=
  let steps := (exponent - 1) / greatestPower
  (divideByGreatest? steps number).bind fun quotient =>
    (powerOfTen (exponent - steps * greatestPower)).bind quotient.div?

/-- Multiplies by a power of ten. Zero times any power is zero, and any other number times a power
past the format is out of range. -/
def multiplyByPower? (number : Binary64) (exponent : Nat) : Option Binary64 :=
  if exponent ≤ greatestPower then (powerOfTen exponent).bind number.mul?
  else if number.isZero then some number
  else none

/-- The magnitude `significand * 10 ^ exponent`. -/
def scaled? (significand : Nat) (exponent : Int) : Option Binary64 :=
  (Binary64.ofNat? significand).bind fun number =>
    if 0 ≤ exponent then multiplyByPower? number exponent.toNat
    else divideByPower? number (-exponent).toNat

/-- The largest exponent that is taken as written. -/
def greatestExponent : Nat :=
  Nat.pow 2 31 - 1

/-- The magnitude of digits and an exponent. A negative exponent past the largest one gives zero,
and so does a positive one if all digits are zeros. -/
def magnitude? (significand : Nat) (shift : Int) : Option (Bool × List Char) → Option Binary64
  | none => scaled? significand shift
  | some (negative, digits) =>
    let exponent := digits.foldl (fun value digit => value * 10 + digitValue digit) 0
    if exponent ≤ greatestExponent then
      scaled? significand (if negative then shift - exponent else shift + exponent)
    else if significand ≠ 0 ∧ !negative then none
    else some Binary64.zero

def real? (numeral : Numeral) : Option Number :=
  let (whole, wholeLeft) := appendDigits 0 numeral.whole
  let fraction := numeral.fraction.getD []
  let (significand, fractionLeft) := appendDigits whole fraction
  let shift : Int := wholeLeft.length - (fraction.length - fractionLeft.length : Nat)
  (magnitude? significand shift numeral.exponent).map fun magnitude =>
    .real { magnitude with negative := numeral.negative }

/-- The value of a numeral. Without fraction and exponent it is an integer if that fits; minus
zero is not an integer. `none` stands for a number out of range. -/
def value? (numeral : Numeral) : Option Number :=
  match numeral.fraction, numeral.exponent, appendDigits 0 numeral.whole with
  | none, none, (magnitude, []) =>
    let value : Int := if numeral.negative then -(magnitude : Int) else magnitude
    if fits : FitsWord value ∧ ¬ (numeral.negative ∧ magnitude = 0) then
      some (.integer value fits.1)
    else numeral.real?
  | _, _, _ => numeral.real?

end Numeral

end TypeGraph.Json
