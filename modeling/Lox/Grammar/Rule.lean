import Lox.Grammar.SyntaxError
import Lox.Tree.Basic

/-!
# Rules of the grammar

A rule reads tokens from the front of what is left of a program and yields a part
of its tree.  A rule that fails ends with one syntax error; an error that does not
confuse the reading is only noted.  The token that ends the input is never read.
-/

namespace Lox.Grammar

/-- What is left to read, and what has been found on the way. -/
structure State where
  /-- The tokens that are left, without the end of the input. -/
  rest : List Token
  /-- The end of the input. -/
  ending : Token
  /-- The first id that no expression has yet. -/
  nextId : Nat
  /-- The errors noted so far, in the order they were found. -/
  errors : Array SyntaxError

/-- Why a rule yields nothing. -/
inductive Stop where
  | mistake (error : SyntaxError)
  /-- The bound on the depth of the reading was too small. -/
  | exhausted

/-- A rule of the grammar. -/
abbrev Rule := EStateM Stop State

namespace State

/-- Before the first token of a program is read; what follows the end of the input is ignored. -/
def start (firstId : Nat) (tokens : List Token) : State where
  rest := tokens.takeWhile (!·.kind.isEnding)
  ending := (tokens.find? (·.kind.isEnding)).getD (.ending 1)
  nextId := firstId
  errors := #[]

/-- The next token. -/
def next (state : State) : Token :=
  state.rest.head?.getD state.ending

/-- Notes a syntax error. -/
def note (error : SyntaxError) (state : State) : State :=
  { state with errors := state.errors.push error }

end State

/-! ## Single tokens -/

/-- The next token, which is not read. -/
def peek : Rule Token := do
  return (← get).next

/-- Whether all tokens are read. -/
def atEnd : Rule Bool := do
  return (← get).rest.isEmpty

/-- Whether the next token is of a kind. -/
def sees (kind : Kind) : Rule Bool := do
  match (← get).rest with
  | token :: _ => return token.kind.same kind
  | [] => return false

/-- Reads the next token, whatever it is. -/
def skip : Rule Unit :=
  modify fun state => { state with rest := state.rest.tail }

/-- Reads the next token if it is of a kind. -/
def accept (kind : Kind) : Rule (Option Token) := do
  let state ← get
  match state.rest with
  | token :: rest =>
    if token.kind.same kind then
      set { state with rest := rest }
      return some token
    else
      return none
  | [] => return none

/-- Reads the next token if it is of a kind, and says whether it was. -/
def accepts (kind : Kind) : Rule Bool := do
  return (← accept kind).isSome

/-- Fails at the next token. -/
def fail {α : Type} (fault : SyntaxFault) : Rule α := do
  throw (.mistake (.at (← peek) fault))

/-- Reads the next token, which has to be of a kind. -/
def demand (kind : Kind) (what : Demand) : Rule Token := do
  match ← accept kind with
  | some token => return token
  | none => fail (.missing what)

/-- Reads a symbol that has to come next. -/
def demandSymbol (symbol : Symbol) (what : Demand) : Rule Unit := do
  let _ ← demand (.symbol symbol) what

/-- Reads a name that has to come next. -/
def demandName (what : Demand) : Rule Name := do
  let token ← demand .identifier what
  return ⟨token.lexeme, token.line⟩

/-- Notes a fault at a token and goes on. -/
def note (token : Token) (fault : SyntaxFault) : Rule Unit :=
  modify (·.note (.at token fault))

/-- An id that no expression has yet. -/
def freshId : Rule Nat := do
  let state ← get
  set { state with nextId := state.nextId + 1 }
  return state.nextId

/-! ## Recovery -/

/-- Whether a kind of token starts a statement or a declaration. -/
def startsStatement : Kind → Bool
  | .keyword .classWord => true
  | .keyword .funWord => true
  | .keyword .varWord => true
  | .keyword .forWord => true
  | .keyword .ifWord => true
  | .keyword .whileWord => true
  | .keyword .printWord => true
  | .keyword .returnWord => true
  | _ => false

/-- Skips tokens until one is skipped that ends a statement or one follows that starts one. -/
def skipAfter (skipped : Token) : List Token → List Token
  | [] => []
  | token :: rest =>
    if skipped.kind.same (.symbol .semicolon) || startsStatement token.kind then
      token :: rest
    else
      skipAfter token rest

/-- Skips at least one token, up to where a statement seems to start. -/
def skipStatement : List Token → List Token
  | [] => []
  | token :: rest => skipAfter token rest

/-- Reads by a rule.  If it fails, its error is noted and the statement is skipped. -/
def recovering {α : Type} (rule : Rule α) : Rule (Option α) := fun state =>
  match rule state with
  | .ok result state => .ok (some result) state
  | .error (.mistake error) state =>
    .ok none { state.note error with rest := skipStatement state.rest }
  | .error .exhausted state => .error .exhausted state

end Lox.Grammar
