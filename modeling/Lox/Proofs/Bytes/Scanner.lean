import Lox.Proofs.Bytes.Encoding
import Lox.Source.Item

/-!
# A scanner over bytes

The pieces of a source text are cut off from the front of a list of characters.  Here a source text
is read byte by byte, at an index that moves.  Looking for a byte behind the last one, and taking a
text from or up to an index that is no boundary between characters, are failures of their own.
What was read, lexeme by lexeme, is written down.
-/

namespace Lox.Bytes

/-- Why a scanner gets stuck. -/
inductive Stop where
  /-- There is no byte at this index. -/
  | outside (index : Nat)
  /-- The indices are not in order, or one of them is no boundary of the source text. -/
  | unaligned (first last : Nat)
  /-- The bound on the length of the loops was too small. -/
  | exhausted

/-- The bytes of a lexeme, a blank or a comment, and the item that they yield. -/
structure Stretch where
  first : Nat
  last : Nat
  item : Option Item

/-- A source text and a place in it. -/
structure Scanner where
  text : String
  /-- The first byte of the lexeme. -/
  start : Nat
  /-- The byte behind the last one that was read. -/
  curr : Nat
  line : Nat
  /-- Whether the end of the input was yielded. -/
  done : Bool
  /-- The stretches that have been read. -/
  stretches : List Stretch

/-- An action of a scanner. -/
abbrev Scan := EStateM Stop Scanner

/-- In front of a source text. -/
def start (text : String) : Scanner where
  text := text
  start := 0
  curr := 0
  line := 1
  done := false
  stretches := []

/-! ## Single bytes -/

def atEnd : Scan Bool := do
  let scanner ← get
  return (bytes scanner.text).length ≤ scanner.curr

/-- The next byte, which is read. -/
def advance : Scan UInt8 := do
  let scanner ← get
  if inside : scanner.curr < (bytes scanner.text).length then
    set { scanner with curr := scanner.curr + 1 }
    return (bytes scanner.text)[scanner.curr]
  else
    throw (.outside scanner.curr)

/-- The byte that is so far behind the next one, or zero behind the last one. -/
def peek (distance : Nat) : Scan UInt8 := do
  let scanner ← get
  return (bytes scanner.text)[scanner.curr + distance]?.getD 0

/-- Reads the next byte if it is this character. -/
def accepts (expected : Char) : Scan Bool := do
  let matched := (← peek 0) == expected.toUInt8 && !(← atEnd)
  if matched then
    modify fun scanner => { scanner with curr := scanner.curr + 1 }
  return matched

def countLine : Scan Unit :=
  modify fun scanner => { scanner with line := scanner.line + 1 }

/-! ## Parts of the source text -/

/-- The text between two indices. -/
def slice (first last : Nat) : Scan String := do
  let scanner ← get
  if between : first ≤ last ∧ String.Pos.Raw.IsValid scanner.text ⟨first⟩ ∧
      String.Pos.Raw.IsValid scanner.text ⟨last⟩ then
    return scanner.text.extract ⟨⟨first⟩, between.2.1⟩ ⟨⟨last⟩, between.2.2⟩
  else
    throw (.unaligned first last)

/-- The bytes from an index on. -/
def bytesFrom (first : Nat) : Scan (List UInt8) := do
  let all := bytes (← get).text
  if first ≤ all.length then
    return all.drop first
  else
    throw (.outside first)

/-- The bytes between two indices. -/
def bytesBetween (first last : Nat) : Scan (List UInt8) := do
  let all := bytes (← get).text
  if first ≤ last ∧ last ≤ all.length then
    return (all.drop first).take (last - first)
  else
    throw (.outside last)

/-! ## Lexemes -/

/-- Reads the next byte. -/
def skip : Scan Unit := do
  let _ ← advance

/-- Reads the next byte and counts a line break. -/
def skipCounting : Scan Unit := do
  if Char.ofUInt8 (← advance) == '\n' then
    countLine

/-- Goes on while a condition holds. -/
def skipWhile (condition : Scan Bool) (step : Scan Unit) : Nat → Scan Unit
  | 0 => throw .exhausted
  | fuel + 1 => do
    if ← condition then
      step
      skipWhile condition step fuel

def skipDigits (fuel : Nat) : Scan Unit :=
  skipWhile (do return (Char.ofUInt8 (← peek 0)).isDigit) skip fuel

/-- Reads a point and the digits behind it, if there are any. -/
def skipFraction (fuel : Nat) : Scan Unit := do
  if Char.ofUInt8 (← peek 0) == '.' && (Char.ofUInt8 (← peek 1)).isDigit then
    let _ ← advance
    skipDigits fuel

/-- Reads the rest of a numeral.  Its text has digits and at most one point. -/
def number (fuel : Nat) : Scan Kind := do
  skipDigits fuel
  skipFraction fuel
  let scanner ← get
  let text ← slice scanner.start scanner.curr
  return .number (Numeral.next text.toList).1.value

/-- Reads the rest of a name or of a reserved word, which is looked up by its bytes. -/
def identifier (fuel : Nat) : Scan Kind := do
  skipWhile (do return isWordRest (Char.ofUInt8 (← peek 0))) skip fuel
  let scanner ← get
  let word ← bytesBetween scanner.start scanner.curr
  match Keyword.all.find? (bytes ·.text == word) with
  | some keyword => return .keyword keyword
  | none => return .identifier

/-- Reads the rest of a string from behind its opening quote on. -/
def string (fuel : Nat) : Scan (Except LexicalError Kind) := do
  skipWhile (do return !(← atEnd) && Char.ofUInt8 (← peek 0) != '"') skipCounting fuel
  if ← atEnd then
    return .error ⟨(← get).line, .unterminatedString⟩
  else
    let _ ← advance
    let scanner ← get
    let contents ← slice (scanner.start + 1) (scanner.curr - 1)
    return .ok (.string contents)

/-- Reads a line comment from behind its slashes on, up to the line break. -/
def skipLine : Scan Unit := do
  let rest ← bytesFrom (← get).curr
  let length := rest.findIdx (Char.ofUInt8 · == '\n')
  modify fun scanner => { scanner with curr := scanner.curr + length }

/--
Reads on behind a character of a block comment, which may start a marker, and changes the lines of
the markers that are open.
-/
def skipMarker (openLines : List Nat) : Char → Scan (List Nat)
  | '\n' => do
    countLine
    return openLines
  | '*' => do
    if ← accepts '/' then return openLines.tail else return openLines
  | '/' => do
    if ← accepts '*' then return (← get).line :: openLines else return openLines
  | _ => return openLines

/-- Reads the rest of a block comment, given the lines of the markers that are open. -/
def skipBlockComment : Nat → (openLines : List Nat) → Scan (Except LexicalError Unit)
  | 0, _ => throw .exhausted
  | fuel + 1, openLines => do
    if ← atEnd then
      return .error ⟨openLines.head?.getD (← get).line, .unterminatedComment⟩
    else
      let openLines ← skipMarker openLines (.ofUInt8 (← advance))
      if openLines.isEmpty then
        return .ok ()
      else
        skipBlockComment fuel openLines

/-- Reads the bytes that go on with a character, given its first byte. -/
def skipContinuations (fuel : Nat) (first : Char) : Scan Unit := do
  if 0x80 ≤ first.toNat then
    skipWhile (do return !(← atEnd) && isContinuation (← peek 0)) skip fuel

/-- Reads the rest of a character that no lexeme starts with; its text is logged. -/
def unexpectedCharacter (fuel : Nat) (first : Char) : Scan LexicalError := do
  skipContinuations fuel first
  let scanner ← get
  let _ ← slice scanner.start scanner.curr
  return ⟨scanner.line, .unexpectedCharacter⟩

/-- Reads on behind a slash. -/
def slash (fuel : Nat) : Scan (Except LexicalError (Option Kind)) := do
  if ← accepts '/' then
    skipLine
    return .ok none
  else if ← accepts '*' then
    let closed ← skipBlockComment fuel [(← get).line]
    return closed.map fun () => none
  else
    return .ok (some (.symbol .slash))

/-- Reads on behind a character that starts a symbol, a numeral, a name or no lexeme at all. -/
def lexeme (fuel : Nat) (char : Char) : Scan (Except LexicalError (Option Kind)) :=
  match Symbol.single? char, Symbol.withEqual? char with
  | some single, some double =>
    return .ok (some (.symbol (if ← accepts '=' then double else single)))
  | some single, none => return .ok (some (.symbol single))
  | none, _ =>
    if char.isDigit then
      return .ok (some (← number fuel))
    else if isWordStart char then
      return .ok (some (← identifier fuel))
    else
      return .error (← unexpectedCharacter fuel char)

/-- Reads on behind a character. -/
def scanBehind (fuel : Nat) : Char → Scan (Except LexicalError (Option Kind))
  | ' ' | '\r' | '\t' => return .ok none
  | '\n' => do
    countLine
    return .ok none
  | '/' => slash fuel
  | '"' => return (← string fuel).map some
  | char => lexeme fuel char

/-- Reads a lexeme, a blank or a comment.  A lexeme has a kind. -/
def scanToken (fuel : Nat) : Scan (Except LexicalError (Option Kind)) := do
  scanBehind fuel (.ofUInt8 (← advance))

/-! ## Items -/

/-- Writes down what was read from the start of the lexeme on. -/
def note (item : Option Item) : Scan Unit :=
  modify fun scanner =>
    { scanner with stretches := scanner.stretches ++ [⟨scanner.start, scanner.curr, item⟩] }

/-- Reads up to the next item, which is the end of the input at last. -/
def nextItem (fuel : Nat) : Nat → Scan Item
  | 0 => throw .exhausted
  | turns + 1 => do
    if ← atEnd then
      modify fun scanner => { scanner with done := true }
      return .token (.ending (← get).line)
    else
      modify fun scanner => { scanner with start := scanner.curr }
      match ← scanToken fuel with
      | .ok (some kind) =>
        let scanner ← get
        let lexeme ← slice scanner.start scanner.curr
        let item := Item.token ⟨kind, lexeme, scanner.line⟩
        note (some item)
        return item
      | .ok none =>
        note none
        nextItem fuel turns
      | .error error =>
        note (some (.error error))
        return .error error

/-- Reads all items that are left. -/
def drain (fuel : Nat) : Nat → Scan (List Item)
  | 0 => throw .exhausted
  | turns + 1 => do
    if (← get).done then
      return []
    else
      let item ← nextItem fuel fuel
      return item :: (← drain fuel turns)

/-- Reads a source text from its first byte on; no loop takes more turns than there are bytes. -/
def scan (text : String) : EStateM.Result Stop Scanner (List Item) :=
  drain ((bytes text).length + 1) ((bytes text).length + 2) (start text)

end Lox.Bytes
