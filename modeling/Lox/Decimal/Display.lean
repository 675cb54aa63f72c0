import Lox.Decimal.Layout

/-!
# Numbers as programs print them
-/

namespace Lox

/--
Numbers in a program's output: positional from `0.001` up to ten million, and
otherwise scientific with a fraction, such as `1.0E7`.  Positional whole numbers
have no fraction.
-/
def NumberFormat.display : NumberFormat where
  notANumber := "NaN"
  infinity := "Infinity"
  negativeInfinity := "-Infinity"
  zero := "0"
  tie := .up
  isPositional := fun number _ => 0.001 ≤ number.abs && number.abs < 10000000.0
  pointed := fun _ => false
  mark := 'E'
  plus := false
  scientificPointed := true

/-- The text of a number in a program's output. -/
def displayNumber (number : Float) : String :=
  NumberFormat.display.write number

end Lox
