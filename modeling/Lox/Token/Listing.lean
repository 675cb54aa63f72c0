import Lox.Decimal.Layout
import Lox.Token.Basic

/-!
# Token listings

A token is listed either as a line of text, `TYPE lexeme literal`, or as a
compact JSON object.
-/

namespace Lox

namespace NumberFormat

/--
Numbers in text listings: always positional, and whole numbers below `10 ^ 15`
keep a fraction `.0`.
-/
def listing : NumberFormat where
  notANumber := "NaN"
  infinity := "inf"
  negativeInfinity := "-inf"
  zero := "0.0"
  tie := .up
  isPositional := fun _ _ => true
  pointed := fun number => number < 1000000000000000.0
  mark := 'e'
  plus := false
  scientificPointed := false

/--
Numbers in JSON: positional, always with a fraction, from `10 ^ -5` up to sixteen
digits before the point, and otherwise scientific.  What is not finite is `null`.
-/
def json : NumberFormat where
  notANumber := "null"
  infinity := "null"
  negativeInfinity := "null"
  zero := "0.0"
  tie := .even
  isPositional := fun _ decimal => -5 < decimal.magnitude && decimal.magnitude ≤ 16
  pointed := fun _ => true
  mark := 'e'
  plus := true
  scientificPointed := false

end NumberFormat

namespace Json

/-- A character in a JSON string. -/
def escape (char : Char) : List Char :=
  if char = '"' then ['\\', '"']
  else if char = '\\' then ['\\', '\\']
  else if char = '\x08' then ['\\', 'b']
  else if char = '\x0c' then ['\\', 'f']
  else if char = '\n' then ['\\', 'n']
  else if char = '\r' then ['\\', 'r']
  else if char = '\t' then ['\\', 't']
  else if char < ' ' then
    ['\\', 'u', '0', '0', Nat.digitChar (char.toNat / 16), Nat.digitChar (char.toNat % 16)]
  else [char]

/-- A JSON string, in quotes. -/
def quote (text : String) : String :=
  .ofList ('"' :: text.toList.flatMap escape ++ ['"'])

/-- A member of a JSON object. -/
def member (key value : String) : String :=
  quote key ++ ":" ++ value

/-- A JSON object. -/
def object (members : List String) : String :=
  "\x7b" ++ ",".intercalate members ++ "\x7d"

end Json

namespace Kind

/-- The literal column of a text listing. -/
def literalText : Kind → String
  | string contents => contents
  | number value => NumberFormat.listing.write value
  | _ => "null"

/-- A kind in JSON: its name, or an object from its name to what the literal stands for. -/
def toJson (kind : Kind) : String :=
  match kind with
  | string contents => Json.object [Json.member kind.name (Json.quote contents)]
  | number value => Json.object [Json.member kind.name (NumberFormat.json.write value)]
  | _ => Json.quote kind.name

end Kind

namespace Token

/-- A token as a line of text. -/
def toText (token : Token) : String :=
  token.kind.name ++ " " ++ token.lexeme ++ " " ++ token.kind.literalText

/-- A token as a compact JSON object. -/
def toJson (token : Token) : String :=
  Json.object [
    Json.member "token_type" token.kind.toJson,
    Json.member "lexeme" (Json.quote token.lexeme),
    Json.member "line" token.line.repr]

end Token

end Lox
