import Lox.Grammar.SyntaxError
import Lox.Machine.RuntimeError
import Lox.Scope.BindingError
import Lox.Source.Item

/-!
# Diagnostics

Everything that can be wrong with a program, and how it is reported.
-/

namespace Lox

/-- Something that is wrong with a program. -/
inductive Diagnostic where
  | lexical (error : LexicalError)
  | grammatical (error : SyntaxError)
  | binding (error : BindingError)
  | runtime (error : RuntimeError)
deriving DecidableEq, Repr

namespace Diagnostic

/-- The line a diagnostic is reported on. -/
def line : Diagnostic → Nat
  | lexical error => error.line
  | grammatical error => error.line
  | binding error => error.line
  | runtime error => error.line

/-- The wording of a diagnostic, without its place. -/
def message : Diagnostic → String
  | lexical error => error.fault.message
  | grammatical error => error.fault.message
  | binding error => error.fault.message
  | runtime error => error.fault.message

/-- An error that is found before a program runs, with its place. -/
def placed (line : Nat) (place message : String) : String :=
  "[line " ++ line.repr ++ "] Error" ++ place ++ ": " ++ message

/-- A diagnostic as it is shown to users. -/
def render (diagnostic : Diagnostic) : String :=
  match diagnostic with
  | lexical error => placed error.line "" diagnostic.message
  | grammatical error => placed error.line error.location.text diagnostic.message
  | binding error => placed error.line (" at " ++ error.fault.subject) diagnostic.message
  | runtime error => diagnostic.message ++ "\n[line " ++ error.line.repr ++ "]"

end Diagnostic

end Lox
