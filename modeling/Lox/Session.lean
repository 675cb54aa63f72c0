import Lox.Machine.Evaluation
import Lox.Reading
import Lox.Scope.Walk

/-!
# Sessions

A session runs one source text after the other on the same machine, so that what
one defines is there for the next.  A source text runs only if nothing is wrong
with it.  The bound `fuel` is that of the evaluation; a run that reaches it has no
result.
-/

namespace Lox

/-- How a run ends. -/
inductive Outcome where
  /-- It has run to its end; the last statement may have a result. -/
  | success (result : Option String)
  /-- Something is wrong with the source text, and nothing ran. -/
  | rejected (errors : List Diagnostic)
  /-- A runtime error ended it. -/
  | failed (error : RuntimeError)
deriving DecidableEq, Repr

namespace Outcome

/-- What is wrong according to an outcome. -/
def errors : Outcome → List Diagnostic
  | success _ => []
  | rejected errors => errors
  | failed error => [.runtime error]

/-- An outcome as it is shown to users. -/
def render : Outcome → String
  | success result => result.getD ""
  | rejected errors => "\n".intercalate (errors.map Diagnostic.render)
  | failed error => (Diagnostic.runtime error).render

/-- The exit code for an outcome. -/
def exitCode : Outcome → Nat
  | success _ => 0
  | rejected _ => 65
  | failed _ => 70

end Outcome

/-- What a run prints, in order, and how it ends. -/
structure Report where
  printed : List String
  outcome : Outcome
deriving DecidableEq, Repr

/-- A machine and what is known about the programs it has run. -/
structure Session where
  machine : Machine
  /-- The places of the local variables of all programs. -/
  addresses : AddressTable
  /-- The first id that no expression of these programs has. -/
  nextId : Nat

namespace Session

/-- A session in which nothing has run; `clock` is the time. -/
def start (clock : Float) : Session where
  machine := Machine.start clock
  addresses := ∅
  nextId := 0

/-- Sets the time. -/
def setClock (clock : Float) (session : Session) : Session :=
  { session with machine := { session.machine with clock := clock } }

/-- Records the places of local variables; a later record of an id replaces an earlier one. -/
def record (bindings : List Binding) (session : Session) : Session :=
  { session with
    addresses := bindings.foldl (fun addresses binding =>
      addresses.insert binding.id binding.address) session.addresses }

/-- What the machine has printed and how the run ends, and the session after it. -/
def conclude (outcome : Outcome) (machine : Machine) (session : Session) : Report × Session :=
  (⟨machine.printed.toList, outcome⟩, { session with machine := { machine with printed := #[] } })

/-- Executes the statements of a program. -/
def execute (fuel : Nat) (program : List Stmt) (session : Session) : Option (Report × Session) :=
  match Step.interpret session.addresses fuel none program session.machine with
  | .ok result machine => some (session.conclude (.success (result.map Value.result)) machine)
  | .error (.fault error) machine => some (session.conclude (.failed error) machine)
  | .error .outOfFuel _ => none

/-- Runs a source text, if nothing is wrong with it. -/
def run (fuel : Nat) (source : String) (session : Session) : Option (Report × Session) :=
  let reading := Reading.ofSource session.nextId source
  let session := { session with nextId := reading.nextId }
  if reading.errors ≠ [] then
    some (⟨[], .rejected reading.errors⟩, session)
  else
    let resolution := resolve reading.statements
    let session := session.record resolution.bindings
    if resolution.errors ≠ [] then
      some (⟨[], .rejected (resolution.errors.map .binding)⟩, session)
    else
      session.execute fuel reading.statements

/--
Runs what can be read of a source text, whatever is wrong with it, and yields what
is wrong too.  Without `resolving` no places of variables are found; those of
`bindings` are recorded in any case, in the place of others.
-/
def runAnyway (fuel : Nat) (resolving : Bool) (bindings : List Binding) (source : String)
    (session : Session) : Option (List Diagnostic × Report × Session) :=
  let reading := Reading.ofSource session.nextId source
  let resolution := if resolving then resolve reading.statements else ⟨[], []⟩
  let session := { session with nextId := reading.nextId }
  let session := (session.record resolution.bindings).record bindings
  match session.execute fuel reading.statements with
  | some result => some (reading.errors ++ resolution.errors.map .binding, result)
  | none => none

end Session

end Lox
