import Lox.Token.Basic

/-!
# Pieces of a source text

A source text is cut into pieces from left to right: blanks and comments, which
mean nothing, tokens, and faults, which are characters that form no token.
`Piece.next` cuts off the first piece and `Piece.pieces` all of them.  Nothing
is lost: `Piece.flatMap_text_pieces` says that the pieces joined together are
the text again.
-/

namespace Lox

/-- Why characters of a source text form no token. -/
inductive LexicalFault where
  | unexpectedCharacter
  | unterminatedString
  | unterminatedComment
deriving DecidableEq, Repr

/-- The wording of a lexical fault. -/
def LexicalFault.message : LexicalFault → String
  | unexpectedCharacter => "Unexpected character."
  | unterminatedString => "Unterminated string."
  | unterminatedComment => "Unterminated block comment."

/-- The number of line breaks in a text. -/
def newlines (chars : List Char) : Nat :=
  chars.count '\n'

/-! ## Classes of characters -/

/-- Spaces, tabs, carriage returns and line breaks. -/
def isBlank (char : Char) : Bool :=
  char == ' ' || char == '\t' || char == '\r' || char == '\n'

/-- The characters that a name or a reserved word may start with: ASCII letters and `_`. -/
def isWordStart (char : Char) : Bool :=
  char.isAlpha || char == '_'

/-- The characters that may follow in a name or a reserved word. -/
def isWordRest (char : Char) : Bool :=
  char.isAlphanum || char == '_'

/-! ## Symbols -/

/-- The symbol that a character forms by itself. -/
def Symbol.single? : Char → Option Symbol
  | '(' => some leftParen
  | ')' => some rightParen
  | '{' => some leftBrace
  | '}' => some rightBrace
  | ',' => some comma
  | '.' => some dot
  | '-' => some minus
  | '+' => some plus
  | ';' => some semicolon
  | '/' => some slash
  | '*' => some star
  | '!' => some bang
  | '=' => some equal
  | '<' => some less
  | '>' => some greater
  | _ => none

/-- The symbol that a character forms together with a following `=`. -/
def Symbol.withEqual? : Char → Option Symbol
  | '!' => some bangEqual
  | '=' => some equalEqual
  | '<' => some lessEqual
  | '>' => some greaterEqual
  | _ => none

/-- The longest symbol at the start of a text, with its spelling and the rest. -/
def Symbol.next? (first : Char) (rest : List Char) : Option (Symbol × List Char × List Char) :=
  match rest, withEqual? first with
  | '=' :: after, some symbol => some (symbol, [first, '='], after)
  | _, _ => (single? first).map fun symbol => (symbol, [first], rest)

theorem Symbol.next?_append {first : Char} {rest text after : List Char} {symbol : Symbol}
    (found : next? first rest = some (symbol, text, after)) : text ++ after = first :: rest := by
  unfold next? at found
  split at found
  · cases found; rfl
  · rw [Option.map_eq_some_iff] at found
    obtain ⟨_, _, same⟩ := found
    cases same; rfl

theorem Symbol.next?_ne_nil {first : Char} {rest text after : List Char} {symbol : Symbol}
    (found : next? first rest = some (symbol, text, after)) : text ≠ [] := by
  unfold next? at found
  split at found
  · cases found; simp
  · rw [Option.map_eq_some_iff] at found
    obtain ⟨_, _, same⟩ := found
    cases same; simp

/-! ## Numerals -/

/-- A numeral: digits and, behind a point, the digits of a fraction, if it has one. -/
structure Numeral where
  whole : List Char
  fraction : List Char

namespace Numeral

/-- How the digits of a fraction are spelt: behind a point, if there are any. -/
def fractionText : List Char → List Char
  | [] => []
  | digits => '.' :: digits

/-- How a numeral is spelt. -/
def text (numeral : Numeral) : List Char :=
  numeral.whole ++ fractionText numeral.fraction

/-- The natural number that a list of digits denotes. -/
def digitsValue (digits : List Char) : Nat :=
  digits.foldl (fun value digit => 10 * value + (digit.toNat - '0'.toNat)) 0

/-- The double nearest to a numeral. -/
def value (numeral : Numeral) : Float :=
  .ofScientific (digitsValue (numeral.whole ++ numeral.fraction)) true numeral.fraction.length

/--
The digits of a fraction at the start of a text, and the rest.  A point begins a
fraction only if a digit follows.
-/
def nextFraction : List Char → List Char × List Char
  | '.' :: digit :: rest =>
    if digit.isDigit then
      (digit :: rest.takeWhile Char.isDigit, rest.dropWhile Char.isDigit)
    else
      ([], '.' :: digit :: rest)
  | chars => ([], chars)

/-- The longest numeral at the start of a text, and the rest. -/
def next (chars : List Char) : Numeral × List Char :=
  let (fraction, rest) := nextFraction (chars.dropWhile Char.isDigit)
  (⟨chars.takeWhile Char.isDigit, fraction⟩, rest)

theorem fractionText_nextFraction_append (chars : List Char) :
    fractionText (nextFraction chars).1 ++ (nextFraction chars).2 = chars := by
  unfold nextFraction
  split
  · split <;> simp [fractionText]
  · rfl

/-- The numeral and the rest are the text. -/
theorem text_next_append (chars : List Char) :
    (next chars).1.text ++ (next chars).2 = chars := by
  simp [next, text, fractionText_nextFraction_append, List.takeWhile_append_dropWhile]

/-- A numeral starts with the digit that a text starts with. -/
theorem text_next_cons_ne_nil {digit : Char} (isDigit : digit.isDigit) (rest : List Char) :
    (next (digit :: rest)).1.text ≠ [] := by
  simp [next, text, isDigit]

end Numeral

/-! ## Comments -/

/--
Reads a block comment to its end, given how many line breaks lie before the
innermost opening marker, before the other markers that are still open, and
before the text.  Comments nest.  Without an end the result is an error with the
line breaks before the innermost marker that is still open; otherwise it is the
comment and the rest of the text.
-/
def closeComment (innermost : Nat) (others : List Nat) (before : Nat) :
    List Char → Except Nat (List Char × List Char)
  | [] => .error innermost
  | '*' :: '/' :: rest =>
    match others with
    | [] => .ok (['*', '/'], rest)
    | outer :: outermost =>
      (closeComment outer outermost before rest).map fun (text, after) =>
        ('*' :: '/' :: text, after)
  | '/' :: '*' :: rest =>
    (closeComment before (innermost :: others) before rest).map fun (text, after) =>
      ('/' :: '*' :: text, after)
  | char :: rest =>
    (closeComment innermost others (before + newlines [char]) rest).map fun (text, after) =>
      (char :: text, after)

/-- The comment and the rest are the text. -/
theorem closeComment_append {innermost before : Nat} {others : List Nat}
    {chars text after : List Char}
    (closed : closeComment innermost others before chars = .ok (text, after)) :
    text ++ after = chars := by
  fun_induction closeComment innermost others before chars generalizing text after with
  | case1 => cases closed
  | case2 => cases closed; rfl
  | case3 _ _ _ _ _ induction | case4 _ _ _ _ induction | case5 _ _ _ _ _ _ _ induction =>
    revert closed
    rename_i rest
    generalize closeComment _ _ _ _ = result at induction
    intro closed
    cases result with
    | error => cases closed
    | ok pair =>
      cases closed
      simp [induction rfl]

/-! ## Pieces -/

/-- A part of a source text. -/
inductive Piece where
  /-- A blank or a comment. -/
  | blank (text : List Char)
  | token (kind : Kind) (text : List Char)
  /-- A fault, reported on the line that this many line breaks of its text come before. -/
  | fault (cause : LexicalFault) (before : Nat) (text : List Char)

namespace Piece

/-- The characters of a piece. -/
def text : Piece → List Char
  | blank text => text
  | token _ text => text
  | fault _ _ text => text

/-- A word is a reserved word if it is spelt like one and a name otherwise. -/
def wordKind (word : List Char) : Kind :=
  match Keyword.ofText? (.ofList word) with
  | some keyword => .keyword keyword
  | none => .identifier

/-- The string literal whose opening quote comes before a text. -/
def string (rest : List Char) : Piece × List Char :=
  match rest.dropWhile (· != '"') with
  | [] => (.fault .unterminatedString (newlines rest) ('"' :: rest), [])
  | quote :: after =>
    let contents := rest.takeWhile (· != '"')
    (.token (.string (.ofList contents)) ('"' :: contents ++ [quote]), after)

theorem text_string_append (rest : List Char) :
    (string rest).1.text ++ (string rest).2 = '"' :: rest := by
  unfold string
  split
  · simp [text]
  · next quote after found =>
    have isQuote : quote = '"' := by
      have head := List.head?_dropWhile_not (· != '"') rest
      rw [found] at head
      simpa using head
    have whole := List.takeWhile_append_dropWhile (p := (· != '"')) (l := rest)
    rw [found] at whole
    simp [text, whole]

/-- The line comment whose two slashes come before a text.  It leaves the line break. -/
def lineComment (rest : List Char) : Piece × List Char :=
  (.blank ('/' :: '/' :: rest.takeWhile (· != '\n')), rest.dropWhile (· != '\n'))

/-- The block comment whose opening marker comes before a text. -/
def blockComment (rest : List Char) : Piece × List Char :=
  match closeComment 0 [] 0 rest with
  | .ok (text, after) => (.blank ('/' :: '*' :: text), after)
  | .error newlines => (.fault .unterminatedComment newlines ('/' :: '*' :: rest), [])

theorem text_blockComment_append (rest : List Char) :
    (blockComment rest).1.text ++ (blockComment rest).2 = '/' :: '*' :: rest := by
  unfold blockComment
  split
  · next closed => simp [text, closeComment_append closed]
  · simp [text]

/-- The first piece of a text that is not empty, and the rest of the text. -/
def next (first : Char) (rest : List Char) : Piece × List Char :=
  if isBlank first then
    (.blank [first], rest)
  else if first.isDigit then
    let (numeral, after) := Numeral.next (first :: rest)
    (.token (.number numeral.value) numeral.text, after)
  else if isWordStart first then
    let word := first :: rest.takeWhile isWordRest
    (.token (wordKind word) word, rest.dropWhile isWordRest)
  else
    match first, rest with
    | '"', rest => string rest
    | '/', '/' :: rest => lineComment rest
    | '/', '*' :: rest => blockComment rest
    | first, rest =>
      match Symbol.next? first rest with
      | some (symbol, text, after) => (.token (.symbol symbol) text, after)
      | none => (.fault .unexpectedCharacter 0 [first], rest)

/-- The first piece and the rest are the text. -/
theorem text_next_append (first : Char) (rest : List Char) :
    (next first rest).1.text ++ (next first rest).2 = first :: rest := by
  unfold next
  split
  · rfl
  split
  · exact Numeral.text_next_append (first :: rest)
  split
  · simp [text, List.takeWhile_append_dropWhile]
  split
  · exact text_string_append _
  · simp [lineComment, text, List.takeWhile_append_dropWhile]
  · exact text_blockComment_append _
  · split
    · next found => exact Symbol.next?_append found
    · rfl

/-- A piece is never empty. -/
theorem text_next_ne_nil (first : Char) (rest : List Char) : (next first rest).1.text ≠ [] := by
  unfold next
  split
  · simp [text]
  split
  · next isDigit => exact Numeral.text_next_cons_ne_nil isDigit rest
  split
  · simp [text]
  split
  · unfold string; split <;> simp [text]
  · simp [lineComment, text]
  · unfold blockComment; split <;> simp [text]
  · split
    · next found => exact Symbol.next?_ne_nil found
    · simp [text]

/-- What follows the first piece is shorter than the text. -/
theorem length_next_le (first : Char) (rest : List Char) :
    (next first rest).2.length ≤ rest.length := by
  have lengths := congrArg List.length (text_next_append first rest)
  have nonempty := List.length_pos_iff.mpr (text_next_ne_nil first rest)
  rw [List.length_append, List.length_cons] at lengths
  omega

/-- The pieces of a text. -/
def pieces : List Char → List Piece
  | [] => []
  | first :: rest => (next first rest).1 :: pieces (next first rest).2
termination_by chars => chars.length
decreasing_by exact Nat.lt_succ_of_le (length_next_le first rest)

/-- The pieces joined together are the text. -/
theorem flatMap_text_pieces (chars : List Char) : (pieces chars).flatMap text = chars := by
  fun_induction pieces chars with
  | case1 => rfl
  | case2 first rest induction => rw [List.flatMap_cons, induction, text_next_append]

end Piece

end Lox
