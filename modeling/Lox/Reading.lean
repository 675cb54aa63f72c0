import Lox.Diagnostic
import Lox.Grammar.Program

/-!
# Reading programs

From a source text to the tree of a program, with all errors on the way.
-/

namespace Lox

/-- What a source text says. -/
structure Reading where
  lexicalErrors : List LexicalError
  syntaxErrors : List SyntaxError
  /-- The statements that could be read. -/
  statements : List Stmt
  /-- The first id that no expression has. -/
  nextId : Nat

namespace Reading

/-- Reads a source text whose expressions get the ids from `firstId` on. -/
def ofSource (firstId : Nat) (source : String) : Reading :=
  let items := Item.scan source
  let parsed := Grammar.parse firstId (Item.tokens items)
  ⟨Item.errors items, parsed.errors, parsed.statements, parsed.nextId⟩

/-- All errors of a reading: first those of characters, then those of tokens. -/
def errors (reading : Reading) : List Diagnostic :=
  reading.lexicalErrors.map .lexical ++ reading.syntaxErrors.map .grammatical

end Reading

end Lox
