import TypeGraph.Number.Shortest

/-!
# Layouts of decimals

How the digits of a number are set out as text. A layout says where positional notation ends and
whether an integral value keeps a fraction; the digits themselves are the shortest ones.
-/

namespace TypeGraph.Number

/-- The decisions that a text format takes about binary64 numbers. -/
structure Layout where
  /-- The places of the decimal point that are written out with zeros; at any other place the
  number is written with an exponent. `none` writes all of them out. -/
  positional : Option (Int × Int)
  /-- Whether an integral value ends in `.0`. -/
  keepsFraction : Bool
  /-- The choice between two equally near digit sequences. -/
  tie : TieRule

/-- JSON text writes out numbers with up to sixteen digits before the point and up to four zeros
after it. -/
def jsonLayout : Layout :=
  ⟨some (-4, 16), true, .toEven⟩

/-- Plain text writes out every number, and integral values without a point. -/
def plainLayout : Layout :=
  ⟨none, false, .upward⟩

/-- Digits with the point behind the first `point` of them, filled up with zeros. -/
def positionalText (digits : List Char) (point : Int) (keepsFraction : Bool) : List Char :=
  let whole := digits.take point.toNat
  let wholeZeros := List.replicate (point.toNat - digits.length) '0'
  let fractionZeros := List.replicate (-point).toNat '0'
  let fraction := digits.drop point.toNat
  let front := if point ≤ 0 then ['0'] else whole ++ wholeZeros
  let back :=
    if fraction = [] then (if keepsFraction then ['0'] else []) else fractionZeros ++ fraction
  if back = [] then front else front ++ '.' :: back

/-- Digits with the point behind the first, and a signed exponent. -/
def exponentText (digits : List Char) (point : Int) : List Char :=
  let exponent := point - 1
  let mantissa :=
    match digits with
    | first :: second :: rest => first :: '.' :: second :: rest
    | digits => digits
  let sign := if exponent < 0 then '-' else '+'
  mantissa ++ 'e' :: sign :: Nat.toDigits 10 exponent.natAbs

/-- The text of a decimal without a sign. -/
def Layout.decimalText (layout : Layout) (decimal : Decimal) : List Char :=
  let digits := Nat.toDigits 10 decimal.significand
  let point := decimal.point
  match layout.positional with
  | none => positionalText digits point layout.keepsFraction
  | some (least, greatest) =>
    if least ≤ point ∧ point ≤ greatest then positionalText digits point layout.keepsFraction
    else exponentText digits point

/-- The text of a number: a sign if it is negative, which zero can be, and its shortest digits. -/
def Layout.text (layout : Layout) (number : Binary64) : String :=
  let magnitude := layout.decimalText (number.shortest layout.tie)
  String.ofList (if number.negative then '-' :: magnitude else magnitude)

end TypeGraph.Number
