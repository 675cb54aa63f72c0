import Lox.Decimal.Shortest

/-!
# Decimal texts

A decimal is written in positional notation (`0.001`, `1200`) or in scientific
notation (`1.2E3`).  A `NumberFormat` says which of the two a number gets and how
its details are spelt; `NumberFormat.write` writes any number by such a format.
-/

namespace Lox

namespace Decimal

/-- The digits of the coefficient, most significant first. -/
def digits (decimal : Decimal) : List Char :=
  Nat.toDigits 10 decimal.coefficient

/-- The power `k` with which the number is `0.d₁d₂… · 10 ^ k` in its digits. -/
def magnitude (decimal : Decimal) : Int :=
  decimal.digits.length + decimal.exponent

/-- Positional notation; `pointed` keeps a fraction `.0` on whole numbers. -/
def positional (pointed : Bool) (decimal : Decimal) : List Char :=
  match decimal.exponent with
  | .ofNat zeros =>
    decimal.digits ++ List.replicate zeros '0' ++ if pointed then ['.', '0'] else []
  | .negSucc less =>
    let places := less + 1
    let whole := decimal.digits.length - places
    if places < decimal.digits.length then
      decimal.digits.take whole ++ '.' :: decimal.digits.drop whole
    else
      '0' :: '.' :: List.replicate (places - decimal.digits.length) '0' ++ decimal.digits

/-- A decimal exponent; `plus` writes the sign of those that are not negative. -/
def exponentText (plus : Bool) : Int → List Char
  | .ofNat size => (if plus then ['+'] else []) ++ Nat.toDigits 10 size
  | .negSucc less => '-' :: Nat.toDigits 10 (less + 1)

/--
Scientific notation: one digit, the others after a point, the mark and the
exponent.  `pointed` keeps a fraction `.0` behind a single digit.
-/
def scientific (mark : Char) (plus pointed : Bool) (decimal : Decimal) : List Char :=
  let fraction :=
    match decimal.digits.tail with
    | [] => if pointed then ['.', '0'] else []
    | others => '.' :: others
  decimal.digits.take 1 ++ fraction ++ mark :: exponentText plus (decimal.magnitude - 1)

end Decimal

/-- The decisions of one way of writing numbers. -/
structure NumberFormat where
  notANumber : String
  infinity : String
  negativeInfinity : String
  /-- The text of zero, without its sign. -/
  zero : String
  /-- How to choose between two shortest decimals that are equally near. -/
  tie : Tie
  /-- Whether a number with this shortest decimal is written positionally. -/
  isPositional : Float → Decimal → Bool
  /-- Whether a whole number in positional notation keeps a fraction `.0`. -/
  pointed : Float → Bool
  /-- The mark before the exponent of scientific notation. -/
  mark : Char
  /-- Whether exponents that are not negative carry a plus sign. -/
  plus : Bool
  /-- Whether a single digit in scientific notation is followed by `.0`. -/
  scientificPointed : Bool

/-- Whether the sign bit of a number is set, as it is for `-0.0`. -/
def isNegative (number : Float) : Bool :=
  decide (Nat.pow 2 63 ≤ number.toBits.toNat)

namespace NumberFormat

/-- The text of a positive finite number, from its shortest decimal. -/
def magnitudeText (format : NumberFormat) (number : Float) : String :=
  let decimal := Decimal.shortest format.tie number
  .ofList <|
    if format.isPositional number decimal then
      decimal.positional (format.pointed number)
    else
      decimal.scientific format.mark format.plus format.scientificPointed

/-- The text of a number. -/
def write (format : NumberFormat) (number : Float) : String :=
  if number.isNaN then
    format.notANumber
  else if number.isInf then
    if isNegative number then format.negativeInfinity else format.infinity
  else
    (if isNegative number then "-" else "") ++
      if number == 0 then format.zero else format.magnitudeText number

end NumberFormat

end Lox
