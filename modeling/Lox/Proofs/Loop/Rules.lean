import Lox.Grammar.Program
import Lox.Proofs.Lexical.Flow

/-!
# Loops with three clauses

What a `for` loop does, said directly of its clauses and without a tree that stands for it.  The
initial statement is executed once, in one scope.  Then, turn by turn, the condition is evaluated
in that scope, the body is executed there, and the increment is evaluated there, too: names that
the body declares are not seen by it.
-/

namespace Lox

/-- The clauses of a `for` loop and its body. -/
structure ForLoop where
  initial : Option Stmt
  condition : Option Expr
  increment : Option Expr
  body : Stmt

/-- What may stand in the first clause of a `for` loop. -/
inductive Stmt.IsInitial : Stmt → Prop where
  | varDecl (name : Name) (initial : Option Expr) : IsInitial (.varDecl name initial)
  | expression (value : Expr) : IsInitial (.expression value)

namespace ForLoop

open Lexical (Environment)

/-- The tree that stands for a loop. -/
def tree (loop : ForLoop) : Stmt :=
  Grammar.forLoop loop.initial loop.condition loop.increment loop.body

/-- Executes the initial statement, if there is one; yields the scope of the loop. -/
def begin (loop : ForLoop) (environment : Environment) (fuel : Nat) : Lexical.Step Environment :=
  match loop.initial with
  | none => return environment
  | some initial => do
    let (_, scope) ← Lexical.Step.execute true fuel environment initial
    return scope

/-- Whether there is another turn: without a condition always. -/
def test (loop : ForLoop) (scope : Environment) (fuel : Nat) : Lexical.Step Bool :=
  match loop.condition with
  | none => return true
  | some condition => do return (← Lexical.Step.evaluate fuel scope condition).isTruthy

/-- Executes the body; what it declares is forgotten. -/
def run (loop : ForLoop) (scope : Environment) (fuel : Nat) : Lexical.Step (Flow Environment) :=
  Lexical.Step.flow true scope loop.body fuel

/-- Evaluates the increment, if there is one. -/
def advance (loop : ForLoop) (scope : Environment) (fuel : Nat) : Lexical.Step Unit :=
  match loop.increment with
  | none => return ()
  | some increment => do let _ ← Lexical.Step.evaluate fuel scope increment

/-- How a loop ends: a result or an error, and the machine then. -/
abbrev Ending := EStateM.Result Stop Lexical.Machine (Flow Environment)

/-- The turns of a loop from a machine on. -/
inductive Turns (loop : ForLoop) (scope : Environment) : Lexical.Machine → Ending → Prop where
  /-- The condition cannot be evaluated. -/
  | testFails (fails : Finishes (loop.test scope) machine (.error stop after)) :
      Turns loop scope machine (.error stop after)
  /-- The condition does not hold. -/
  | stops (holdsNot : Finishes (loop.test scope) machine (.ok false after)) :
      Turns loop scope machine (.ok (.normal none) after)
  /-- An error in the body ends the loop at once. -/
  | bodyFails (holds : Finishes (loop.test scope) machine (.ok true first))
      (fails : Finishes (loop.run scope) first (.error stop after)) :
      Turns loop scope machine (.error stop after)
  /-- The body leaves the loop; the increment is not evaluated. -/
  | breaks (holds : Finishes (loop.test scope) machine (.ok true first))
      (leaves : Finishes (loop.run scope) first (.ok .broken after)) :
      Turns loop scope machine (.ok (.normal none) after)
  /-- The body returns a value; the increment is not evaluated. -/
  | returns (holds : Finishes (loop.test scope) machine (.ok true first))
      (leaves : Finishes (loop.run scope) first (.ok (.returned value) after)) :
      Turns loop scope machine (.ok (.returned value) after)
  /-- The increment cannot be evaluated. -/
  | incrementFails (holds : Finishes (loop.test scope) machine (.ok true first))
      (runs : Finishes (loop.run scope) first (.ok (.normal result) second))
      (fails : Finishes (loop.advance scope) second (.error stop after)) :
      Turns loop scope machine (.error stop after)
  /-- Another turn. -/
  | again (holds : Finishes (loop.test scope) machine (.ok true first))
      (runs : Finishes (loop.run scope) first (.ok (.normal result) second))
      (advances : Finishes (loop.advance scope) second (.ok () third))
      (turns : Turns loop scope third ending) : Turns loop scope machine ending

/-- A whole loop. -/
inductive Runs (loop : ForLoop) (environment : Environment) : Lexical.Machine → Ending → Prop where
  | initialFails (fails : Finishes (loop.begin environment) machine (.error stop after)) :
      Runs loop environment machine (.error stop after)
  | begins (begins : Finishes (loop.begin environment) machine (.ok scope first))
      (turns : Turns loop scope first ending) : Runs loop environment machine ending

variable {loop : ForLoop} {scope environment : Environment} {machine after : Lexical.Machine}
  {ending : Ending}

/-- A loop has no result of its own. -/
theorem Turns.flow {flow : Flow Environment} (turns : Turns loop scope machine ending)
    (ends : ending = .ok flow after) : flow = .normal none ∨ ∃ value, flow = .returned value := by
  induction turns with
  | testFails | bodyFails | incrementFails => cases ends
  | stops | breaks =>
    cases ends
    exact .inl rfl
  | returns =>
    cases ends
    exact .inr ⟨_, rfl⟩
  | again _ _ _ _ induction => exact induction ends

theorem Runs.flow {flow : Flow Environment} (runs : Runs loop environment machine (.ok flow after)) :
    flow = .normal none ∨ ∃ value, flow = .returned value := by
  cases runs with
  | begins _ turns => exact turns.flow rfl

/-! ## Greater bounds -/

theorem steady_test (loop : ForLoop) (scope : Environment) : IsSteady (loop.test scope) := by
  rcases loop with ⟨initial, _ | condition, increment, body⟩
  · exact .const _
  · exact (Lexical.Step.steady_evaluate scope condition).bind fun _ => .const _

theorem steady_run (loop : ForLoop) (scope : Environment) : IsSteady (loop.run scope) :=
  Lexical.Step.steady_flow true scope loop.body

theorem steady_advance (loop : ForLoop) (scope : Environment) : IsSteady (loop.advance scope) := by
  rcases loop with ⟨initial, condition, _ | increment, body⟩
  · exact .const _
  · exact (Lexical.Step.steady_evaluate scope increment).bind fun _ => .const _

end ForLoop

end Lox
