/-!
# Shortest decimals

A positive double is `mantissa · 2 ^ exponent`.  The real numbers that round to
it form an interval, and every decimal in that interval reads back as the same
double.  `Decimal.shortest` picks a decimal of the interval on the coarsest
possible grid `… · 10 ^ e`, hence one with the fewest digits, and among those
the one nearest to the double itself.

All comparisons are exact comparisons of rational numbers.
-/

namespace Lox

/-! ## Decimals -/

/-- The number `coefficient · 10 ^ exponent`. -/
structure Decimal where
  coefficient : Nat
  exponent : Int
deriving DecidableEq, Repr

/-- The rational number that a decimal denotes. -/
def Decimal.value (decimal : Decimal) : Rat :=
  decimal.coefficient * (10 : Rat) ^ decimal.exponent

/-- Which of two equally near decimals is preferred. -/
inductive Tie where
  /-- The larger one. -/
  | up
  /-- The one with the even coefficient. -/
  | even
deriving DecidableEq, Repr

/-! ## Doubles as binary fractions -/

/-- The positive number `mantissa · 2 ^ exponent` among its neighbouring doubles. -/
structure Binary where
  mantissa : Nat
  exponent : Int
  /-- The next smaller double is only half as far away as the next larger one. -/
  narrowBelow : Bool
deriving DecidableEq, Repr

namespace Binary

/-- Decodes the magnitude of a finite double from its bits; the sign is ignored. -/
def ofBits (bits : UInt64) : Binary :=
  let fraction : Nat := bits.toNat % Nat.pow 2 52
  let biased : Nat := bits.toNat / Nat.pow 2 52 % Nat.pow 2 11
  if biased = 0 then
    ⟨fraction, -1074, false⟩
  else
    ⟨Nat.pow 2 52 + fraction, (biased : Int) - 1075, fraction == 0 && biased != 1⟩

/-- The rational number that a binary fraction denotes. -/
def value (binary : Binary) : Rat :=
  binary.mantissa * (2 : Rat) ^ binary.exponent

/-- The lower end of the rounding interval, halfway to the next smaller double. -/
def low (binary : Binary) : Rat :=
  (binary.mantissa - if binary.narrowBelow then 1 / 4 else 1 / 2) *
    (2 : Rat) ^ binary.exponent

/-- The upper end of the rounding interval, halfway to the next larger double. -/
def high (binary : Binary) : Rat :=
  (binary.mantissa + 1 / 2) * (2 : Rat) ^ binary.exponent

/--
Whether a rational number rounds to this double.  The ends of the interval are
ties, which go to the even mantissa.
-/
def rounds (binary : Binary) (number : Rat) : Bool :=
  if binary.mantissa % 2 = 0 then
    binary.low ≤ number && number ≤ binary.high
  else
    binary.low < number && number < binary.high

/-- The value itself as a decimal: every binary fraction has a finite decimal expansion. -/
def exact (binary : Binary) : Decimal :=
  match binary.exponent with
  | .ofNat power => ⟨binary.mantissa * Nat.pow 2 power, 0⟩
  | .negSucc power => ⟨binary.mantissa * Nat.pow 5 (power + 1), .negSucc power⟩

/--
The multiple of `10 ^ exponent` nearest to the value among those that round to
it, if there is one.  Only the two neighbours of the value on this grid matter:
the interval holds the value, so it holds a multiple only if it holds one of them.
-/
def onGrid? (tie : Tie) (binary : Binary) (exponent : Int) : Option Decimal :=
  let step := (10 : Rat) ^ exponent
  let floor := (binary.value / step).floor.toNat
  let below : Decimal := ⟨floor, exponent⟩
  let above : Decimal := ⟨floor + 1, exponent⟩
  match binary.rounds below.value, binary.rounds above.value with
  | false, false => none
  | true, false => some below
  | false, true => some above
  | true, true =>
    let gapBelow := binary.value - below.value
    let gapAbove := above.value - binary.value
    if gapBelow < gapAbove then
      some below
    else if gapAbove < gapBelow then
      some above
    else
      match tie with
      | .up => some above
      | .even => some (if floor % 2 = 0 then below else above)

/--
An exponent whose power of ten exceeds the number: `3 / 10` is just below the
decimal logarithm of two, and two more cover the difference for every double.
-/
def coarsest (binary : Binary) : Int :=
  (binary.exponent + 53) * 3 / 10 + 2

/-- The grids between the coarsest one and the one that the value itself lies on. -/
def grids (binary : Binary) : List Int :=
  (List.range (binary.coarsest - min 0 binary.exponent).toNat).map fun index : Nat =>
    binary.coarsest - index

/-- The decimal on the coarsest grid that reads back as this double. -/
def shortest (tie : Tie) (binary : Binary) : Decimal :=
  (binary.grids.findSome? (binary.onGrid? tie)).getD binary.exact

end Binary

/-- The shortest decimal that reads back as the magnitude of a finite nonzero number. -/
def Decimal.shortest (tie : Tie) (number : Float) : Decimal :=
  (Binary.ofBits number.toBits).shortest tie

end Lox
