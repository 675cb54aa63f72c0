import Lox.Proofs.Grammar.Logic
import Lox.Proofs.Renaming.Tree

/-!
# Rules that read moved tokens

Tokens can be moved to other lines, and the ids of expressions can start at a greater number.
`Rule.Moves` says of two rules that the second one reads moved tokens as the first one reads the
tokens: its result is the renamed one, and its errors are on the moved lines.  Below are its laws
for sequences of rules and for the rules that read single tokens.
-/

namespace Lox

/-- A token on another line. -/
def Token.move (line : Nat → Nat) (token : Token) : Token :=
  ⟨token.kind, token.lexeme, line token.line⟩

/-- A syntax error on another line. -/
def SyntaxError.move (line : Nat → Nat) (error : SyntaxError) : SyntaxError :=
  ⟨line error.line, error.location, error.fault⟩

@[simp]
theorem Token.kind_move (line : Nat → Nat) (token : Token) : (token.move line).kind = token.kind :=
  rfl

/-- A fault is reported at a moved token as at the token. -/
theorem SyntaxError.at_move (line : Nat → Nat) (token : Token) (fault : SyntaxFault) :
    SyntaxError.at (token.move line) fault = (SyntaxError.at token fault).move line :=
  rfl

namespace Grammar

variable {α β γ δ : Type} {shift : Shift}

/-- What is left to read on other lines, with greater ids. -/
def State.move (shift : Shift) (state : State) : State where
  rest := state.rest.map (Token.move shift.line)
  ending := state.ending.move shift.line
  nextId := state.nextId + shift.distance
  errors := state.errors.map (SyntaxError.move shift.line)

theorem State.next_move (state : State) :
    (state.move shift).next = state.next.move shift.line := by
  rcases state with ⟨_ | ⟨token, rest⟩, ending, nextId, errors⟩ <;> rfl

/-- An error on another line. -/
def Stop.move (line : Nat → Nat) : Stop → Stop
  | .mistake error => .mistake (error.move line)
  | .exhausted => .exhausted

/-- What a rule does on other lines. -/
def moveResult (shift : Shift) (change : α → β) :
    EStateM.Result Stop State α → EStateM.Result Stop State β
  | .ok result state => .ok (change result) (state.move shift)
  | .error stop state => .error (stop.move shift.line) (state.move shift)

/-- The second rule reads moved tokens as the first one reads the tokens. -/
def Rule.Moves (shift : Shift) (change : α → β) (rule : Rule α) (rule' : Rule β) : Prop :=
  ∀ state : State, rule' (state.move shift) = moveResult shift change (rule state)

namespace Rule.Moves

variable {change : α → β} {change' : γ → δ} {rule : Rule α} {rule' : Rule β}

theorem bind {next : α → Rule γ} {next' : β → Rule δ} (moves : Rule.Moves shift change rule rule')
    (rest : ∀ result, Rule.Moves shift change' (next result) (next' (change result))) :
    Rule.Moves shift change' (rule >>= next) (rule' >>= next') := by
  intro state
  show EStateM.bind rule' next' (state.move shift) =
    moveResult shift change' (EStateM.bind rule next state)
  rw [EStateM.bind, EStateM.bind, moves state]
  cases rule state with
  | ok result after => exact rest result after
  | error stop after => rfl

theorem pure {result : α} {result' : β} (same : result' = change result) :
    Rule.Moves shift change (Pure.pure result) (Pure.pure result') := by
  subst same
  exact fun _ => rfl

theorem exhausted : Rule.Moves shift change (throw .exhausted) (throw .exhausted) :=
  fun _ => rfl

/-- A rule that yields something known of the state. -/
theorem gets (look : State → α) (look' : State → β)
    (same : ∀ state, look' (state.move shift) = change (look state)) :
    Rule.Moves shift change (do return look (← get)) (do return look' (← get)) := by
  intro state
  show EStateM.Result.ok (look' (state.move shift)) (state.move shift) =
    .ok (change (look state)) (state.move shift)
  rw [same]

/-! ## Single tokens -/

theorem peek : Rule.Moves shift (Token.move shift.line) Grammar.peek Grammar.peek :=
  gets State.next State.next fun state => state.next_move

theorem atEnd : Rule.Moves shift id Grammar.atEnd Grammar.atEnd := by
  refine gets (fun state => state.rest.isEmpty) (fun state => state.rest.isEmpty) fun state => ?_
  exact List.isEmpty_map

theorem sees (kind : Kind) : Rule.Moves shift id (Grammar.sees kind) (Grammar.sees kind) := by
  rintro ⟨_ | ⟨token, rest⟩, ending, nextId, errors⟩ <;> rfl

theorem skip : Rule.Moves shift id Grammar.skip Grammar.skip := by
  rintro ⟨_ | ⟨token, rest⟩, ending, nextId, errors⟩ <;> rfl

theorem note (token : Token) (fault : SyntaxFault) :
    Rule.Moves shift id (Grammar.note token fault)
      (Grammar.note (token.move shift.line) fault) := by
  intro state
  show EStateM.Result.ok () ((state.move shift).note (.at (token.move shift.line) fault)) =
    .ok () ((state.note (.at token fault)).move shift)
  simp only [State.note, State.move, SyntaxError.at_move, Array.map_push]

theorem freshId : Rule.Moves shift shift.renaming.id Grammar.freshId Grammar.freshId := by
  intro state
  show EStateM.Result.ok (state.nextId + shift.distance)
    { state.move shift with nextId := state.nextId + shift.distance + 1 } =
    .ok (state.nextId + shift.distance) (({ state with nextId := state.nextId + 1 }).move shift)
  simp only [State.move, Nat.add_right_comm]

theorem fail (fault : SyntaxFault) :
    Rule.Moves shift change (Grammar.fail fault) (Grammar.fail fault) := by
  intro state
  show EStateM.Result.error (Stop.mistake (.at (state.move shift).next fault))
    (state.move shift) = _
  rw [state.next_move, SyntaxError.at_move]
  rfl

theorem accept (kind : Kind) :
    Rule.Moves shift (Option.map (Token.move shift.line)) (Grammar.accept kind)
      (Grammar.accept kind) := by
  rintro ⟨_ | ⟨token, rest⟩, ending, nextId, errors⟩
  · rfl
  · show Grammar.accept kind ⟨token.move shift.line :: _, _, _, _⟩ = _
    rw [accept_cons, accept_cons, Token.kind_move]
    split <;> rfl

theorem accepts (kind : Kind) :
    Rule.Moves shift id (Grammar.accepts kind) (Grammar.accepts kind) :=
  (accept kind).bind fun found => pure (by cases found <;> rfl)

theorem demand (kind : Kind) (what : Demand) :
    Rule.Moves shift (Token.move shift.line) (Grammar.demand kind what)
      (Grammar.demand kind what) := by
  apply (accept kind).bind
  intro found
  cases found with
  | some token => exact pure rfl
  | none => exact fail _

theorem demandSymbol (symbol : Symbol) (what : Demand) :
    Rule.Moves shift id (Grammar.demandSymbol symbol what) (Grammar.demandSymbol symbol what) :=
  (demand (.symbol symbol) what).bind fun _ => pure rfl

theorem demandName (what : Demand) :
    Rule.Moves shift (Name.rename shift.renaming) (Grammar.demandName what)
      (Grammar.demandName what) :=
  (demand .identifier what).bind fun _ => pure rfl

end Rule.Moves

/-! ## Recovery -/

theorem skipAfter_move (line : Nat → Nat) (skipped : Token) (tokens : List Token) :
    skipAfter (skipped.move line) (tokens.map (Token.move line)) =
      (skipAfter skipped tokens).map (Token.move line) := by
  induction tokens generalizing skipped with
  | nil => rfl
  | cons token rest induction =>
    rw [List.map_cons, skipAfter, skipAfter, Token.kind_move, Token.kind_move]
    split
    · rfl
    · exact induction token

theorem skipStatement_move (line : Nat → Nat) (tokens : List Token) :
    skipStatement (tokens.map (Token.move line)) =
      (skipStatement tokens).map (Token.move line) := by
  cases tokens with
  | nil => rfl
  | cons token rest => exact skipAfter_move line token rest

theorem Rule.Moves.recovering {change : α → β} {rule : Rule α} {rule' : Rule β}
    (moves : Rule.Moves shift change rule rule') :
    Rule.Moves shift (Option.map change) (Grammar.recovering rule)
      (Grammar.recovering rule') := by
  intro state
  rw [Grammar.recovering, Grammar.recovering, moves state]
  cases rule state with
  | ok result after => rfl
  | error stop after =>
    cases stop with
    | exhausted => rfl
    | mistake error =>
      simp only [moveResult, Stop.move, State.note, State.move, skipStatement_move,
        Array.map_push, Option.map_none]

end Grammar

end Lox
