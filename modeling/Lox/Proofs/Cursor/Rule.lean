import Lox.Grammar.Program

/-!
# Rules over a cursor

The rules of the grammar read tokens from the front of a list without its end.  Here they read a
whole list of tokens, its end included, at an index that moves.  Looking behind the last token is
a failure of its own.  What the loops over declarations and methods do is written down, turn by
turn.
-/

namespace Lox.Grammar

/-- The loops that read one declaration or one method in each turn. -/
inductive Loop where
  | program
  | block
  | classBody
deriving DecidableEq, Repr

/-- How a turn of a loop ends. -/
inductive Outcome where
  | yielded
  /-- The declaration was skipped. -/
  | nothing
  /-- An error ended the loop, too. -/
  | unwound (error : SyntaxError)
deriving DecidableEq, Repr

/-- One turn of a loop: the indices it starts and finishes at, and the errors it records. -/
structure Turn where
  loop : Loop
  start : Nat
  finish : Nat
  outcome : Outcome
  errors : List SyntaxError
deriving DecidableEq, Repr

/-- A list of tokens and a place in it, with what has been found on the way. -/
structure Cursor where
  /-- All tokens, with the end of the input. -/
  tokens : List Token
  /-- The index of the next token. -/
  current : Nat
  nextId : Nat
  errors : Array SyntaxError
  /-- The tokens that have been read. -/
  consumed : List Token
  /-- The turns that have ended. -/
  turns : List Turn

namespace Cursor

/-- Why a rule yields nothing. -/
inductive Stop where
  | mistake (error : SyntaxError)
  /-- The bound on the depth of the reading was too small. -/
  | exhausted
  /-- There is no token at this index. -/
  | outside (index : Nat)

/-- A rule of the grammar over a cursor. -/
abbrev Rule := EStateM Stop Cursor

/-- At the first token of a program. -/
def start (firstId : Nat) (tokens : List Token) : Cursor where
  tokens := tokens
  current := 0
  nextId := firstId
  errors := #[]
  consumed := []
  turns := []

/-! ## Single tokens -/

/-- The token at an index. -/
def look (index : Nat) : Rule Token := do
  match (← get).tokens[index]? with
  | some token => return token
  | none => throw (.outside index)

/-- The next token, which is not read. -/
def peek : Rule Token := do
  look (← get).current

/-- The token read last; the first one before any is read. -/
def previous : Rule Token := do
  look ((← get).current - 1)

/-- Whether the next token is the end of the input. -/
def atEnd : Rule Bool := do
  return (← peek).kind.isEnding

/-- Whether the next token is of a kind. -/
def sees (kind : Kind) : Rule Bool := do
  if ← atEnd then
    return false
  else
    return (← peek).kind.same kind

/-- Whether the token behind the next one is of a kind. -/
def seesNext (kind : Kind) : Rule Bool := do
  return (← look ((← get).current + 1)).kind.same kind

/-- Reads the next token unless it is the end of the input; yields the token read last. -/
def advance : Rule Token := do
  let token ← peek
  unless token.kind.isEnding do
    modify fun cursor =>
      { cursor with current := cursor.current + 1, consumed := cursor.consumed ++ [token] }
  previous

/-- Reads the next token unless it is the end of the input. -/
def skip : Rule Unit := do
  let _ ← advance

/-- Reads the next token if it is of a kind. -/
def accept (kind : Kind) : Rule (Option Token) := do
  if ← sees kind then
    return some (← advance)
  else
    return none

/-- Reads the next token if it is of a kind, and says whether it was. -/
def accepts (kind : Kind) : Rule Bool := do
  return (← accept kind).isSome

/-- Fails at the next token. -/
def fail {α : Type} (fault : SyntaxFault) : Rule α := do
  throw (.mistake (.at (← peek) fault))

/-- Reads the next token, which has to be of a kind. -/
def demand (kind : Kind) (what : Demand) : Rule Token := do
  match ← accept kind with
  | some token => return token
  | none => fail (.missing what)

/-- Reads a symbol that has to come next. -/
def demandSymbol (symbol : Symbol) (what : Demand) : Rule Unit := do
  let _ ← demand (.symbol symbol) what

/-- Reads a name that has to come next. -/
def demandName (what : Demand) : Rule Name := do
  let token ← demand .identifier what
  return ⟨token.lexeme, token.line⟩

/-- Records an error and goes on. -/
def record (error : SyntaxError) : Rule Unit :=
  modify fun cursor => { cursor with errors := cursor.errors.push error }

/-- Notes a fault at a token and goes on. -/
def note (token : Token) (fault : SyntaxFault) : Rule Unit :=
  record (.at token fault)

/-- An id that no expression has yet. -/
def freshId : Rule Nat := do
  let cursor ← get
  set { cursor with nextId := cursor.nextId + 1 }
  return cursor.nextId

/-! ## Recovery -/

/-- Reads tokens until one is read that ends a statement or one follows that starts one. -/
def skipToStart : (bound : Nat) → Rule Unit
  | 0 => throw .exhausted
  | bound + 1 => do
    if ← atEnd then
      return
    else if (← previous).kind.same (.symbol .semicolon) then
      return
    else if startsStatement (← peek).kind then
      return
    else
      skip
      skipToStart bound

/-- Reads at least one token, up to where a statement seems to start. -/
def synchronize : Rule Unit := do
  if ← atEnd then
    return
  else
    skip
    skipToStart (← get).tokens.length

/-- Reads by a rule.  If it fails, its error is recorded and the statement is skipped. -/
def recovering {α : Type} (rule : Rule α) : Rule (Option α) := fun cursor =>
  match rule cursor with
  | .ok result after => .ok (some result) after
  | .error (.mistake error) after =>
    (do record error; synchronize; return none : Rule (Option α)) after
  | .error stop after => .error stop after

/-! ## Turns -/

/-- Writes down a turn that started where the first cursor is. -/
def turned (loop : Loop) (outcome : Outcome) (before after : Cursor) : Cursor :=
  { after with
    turns := after.turns ++ [{
      loop, outcome
      start := before.current
      finish := after.current
      errors := after.errors.toList.drop before.errors.size }] }

/-- One turn of a loop. -/
def turn {α : Type} (loop : Loop) (outcome : α → Outcome) (rule : Rule α) : Rule α := fun cursor =>
  match rule cursor with
  | .ok result after => .ok result (turned loop (outcome result) cursor after)
  | .error (.mistake error) after =>
    .error (.mistake error) (turned loop (.unwound error) cursor after)
  | .error stop after => .error stop after

/-- One turn of a loop over declarations. -/
def declarationTurn {α : Type} (loop : Loop) (rule : Rule α) : Rule (Option α) :=
  turn loop (fun result => if result.isSome then .yielded else .nothing) (recovering rule)

/-- One turn of a loop over methods. -/
def methodTurn {α : Type} (rule : Rule α) : Rule α :=
  turn .classBody (fun _ => .yielded) rule

end Cursor

end Lox.Grammar
