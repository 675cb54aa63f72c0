import Lox.Source.Piece

/-!
# Items of a source text

The tokens and lexical errors of a source text in their order, each with its line,
closed by the end of the input.
-/

namespace Lox

/-- A lexical fault and the line it is reported on. -/
structure LexicalError where
  line : Nat
  fault : LexicalFault
deriving DecidableEq, Repr

/-- What a source text yields when it is read from left to right. -/
inductive Item where
  | token (found : Token)
  | error (found : LexicalError)

/--
What a piece that starts on this line yields.  A token is on the line that its
spelling ends on.
-/
def Piece.item? (line : Nat) : Piece → Option Item
  | blank _ => none
  | token kind text => some (.token ⟨kind, .ofList text, line + newlines text⟩)
  | fault cause before _ => some (.error ⟨line + before, cause⟩)

namespace Item

/-- The items of pieces of which the first starts on this line. -/
def ofPieces (line : Nat) : List Piece → List Item
  | [] => [.token (.ending line)]
  | piece :: pieces =>
    (piece.item? line).toList ++ ofPieces (line + newlines piece.text) pieces

/-- The items of a source text. -/
def scan (source : String) : List Item :=
  ofPieces 1 (Piece.pieces source.toList)

/-- The token that an item is. -/
def token? : Item → Option Token
  | token found => some found
  | error _ => none

/-- The lexical error that an item is. -/
def error? : Item → Option LexicalError
  | token _ => none
  | error found => some found

/-- The tokens among some items. -/
def tokens (items : List Item) : List Token :=
  items.filterMap token?

/-- The lexical errors among some items. -/
def errors (items : List Item) : List LexicalError :=
  items.filterMap error?

end Item

end Lox
