import Lox.Proofs.Machine.Current
import Lox.Session
import Mathlib

/-!
# Sessions return to the root

Between two source texts the code of a session is in the root, whatever became of the texts
before.  So what the statements of the next one declare is global.

The main statement is `current_restored`.
-/

namespace Lox

namespace Step

/-- Executes a statement of a program outside of everything: what it declares is global. -/
def executeGlobally (addresses : AddressTable) : Nat → Stmt → Step Flow
  | 0, _ => throw .outOfFuel
  | fuel + 1, statement =>
    match statement with
    | .varDecl name initial => do
      match initial with
      | some initial =>
        let value ← evaluate addresses fuel initial
        setGlobal name.text (.initialised value)
      | none => setGlobal name.text .uninitialised
      return .normal none
    | .funDecl (.mk name definition) => do
      let closure ← newClosure Machine.root name.text (.body definition false)
      setGlobal name.text (.initialised (.function closure))
      return .normal none
    | .classDecl name superclassName methods classMethods => do
      setGlobal name.text .uninitialised
      let value ← newClass addresses name superclassName methods classMethods
      setGlobal name.text (.initialised value)
      return .normal (some value)
    | other => execute addresses (fuel + 1) other

/-- Executes the statements of a program; what they declare is global. -/
def interpretGlobally (addresses : AddressTable) (fuel : Nat) (result : Option Value) :
    List Stmt → Step (Option Value)
  | [] => return result
  | first :: others => do
    let flow ← executeGlobally addresses fuel first
    interpretGlobally addresses fuel flow.programResult others

/-- In the root a step goes on like a step for the root. -/
theorem inRoot_bind {α : Type} (next : Bool → Step α) {machine : Machine}
    (isRoot : machine.current = Machine.root) : (inRoot >>= next) machine = next true machine := by
  show next (machine.current == Machine.root) machine = next true machine
  rw [isRoot]
  rfl

/-- In the root every declaration is global. -/
theorem execute_eq_executeGlobally (addresses : AddressTable) (fuel : Nat) (statement : Stmt)
    {machine : Machine} (isRoot : machine.current = Machine.root) :
    execute addresses fuel statement machine =
      executeGlobally addresses fuel statement machine := by
  cases fuel with
  | zero => rfl
  | succ fuel =>
    cases statement with
    | varDecl name initial =>
      rw [execute_varDecl_eq, declareVariable.eq_def, bind_assoc, inRoot_bind _ isRoot]
      cases initial with
      | none => rfl
      | some initial => simp [executeGlobally]
    | funDecl function =>
      rcases function with ⟨name, definition⟩
      have globally : ∀ closure : Closure, ∀ machine : Machine, machine.current = Machine.root →
          (do
            defineVariable name (.function closure)
            return Flow.normal none : Step Flow) machine =
          (do
            setGlobal name.text (.initialised (.function closure))
            return Flow.normal none : Step Flow) machine := by
        intro closure machine isRoot
        rw [defineVariable, bind_assoc, inRoot_bind _ isRoot]
        rfl
      rw [execute.eq_def]
      dsimp only
      rw [get_bind, isRoot]
      exact globally _ { machine with nextId := machine.nextId + 1 } isRoot
    | classDecl name superclassName methods classMethods =>
      rw [execute.eq_def]
      dsimp only
      rw [declareClass_eq_newClass, bind_assoc, inRoot_bind _ isRoot]
      simp [executeGlobally]
    | _ => rfl

/-- In the root the statements of a program declare globals. -/
theorem interpret_eq_interpretGlobally (addresses : AddressTable) (fuel : Nat)
    (result : Option Value) (program : List Stmt) {machine : Machine}
    (isRoot : machine.current = Machine.root) :
    interpret addresses fuel result program machine =
      interpretGlobally addresses fuel result program machine := by
  induction program generalizing result machine with
  | nil => rfl
  | cons first others induction =>
    have same := execute_eq_executeGlobally addresses fuel first isRoot
    have rests := (restoresWell addresses fuel).execute first machine
    rw [interpret, interpretGlobally]
    show EStateM.bind _ _ machine = EStateM.bind _ _ machine
    rw [EStateM.bind, EStateM.bind, ← same]
    revert rests
    rw [after]
    cases execute addresses fuel first machine with
    | error stop after => exact fun _ => rfl
    | ok flow after => exact fun rests => induction _ (rests.current.trans isRoot)

end Step

namespace Session

/-- The sessions that there are: programs may be run in them whatever is wrong with them. -/
inductive Reached : Session → Prop where
  | start (clock : Float) : Reached (.start clock)
  | setClock (clock : Float) {session} (before : Reached session) :
      Reached (session.setClock clock)
  | run {session after : Session} {report} (fuel : Nat) (source : String)
      (before : Reached session) (ran : session.run fuel source = some (report, after)) :
      Reached after
  | runAnyway {session after : Session} {diagnostics report} (fuel : Nat) (resolving : Bool)
      (bindings : List Binding) (source : String) (before : Reached session)
      (ran : session.runAnyway fuel resolving bindings source =
        some (diagnostics, report, after)) : Reached after

variable {session after : Session} {fuel : Nat} {report : Report}

/-- A program that is executed changes nothing of a session but its machine. -/
theorem execute_eq_some {program : List Stmt}
    (executed : session.execute fuel program = some (report, after)) :
    after = { session with machine :=
      { (Step.interpret session.addresses fuel none program).after session.machine with
        printed := #[] } } := by
  revert executed
  rw [execute, Step.after]
  cases Step.interpret session.addresses fuel none program session.machine with
  | ok result machine =>
    rintro ⟨⟩
    rfl
  | error stop machine =>
    cases stop with
    | outOfFuel => exact fun impossible => by cases impossible
    | fault error =>
      rintro ⟨⟩
      rfl

/-- The code of a session is in the root, which has no slots. -/
structure IsOutside (session : Session) : Prop where
  current : session.machine.current = Machine.root
  hasRoot : session.machine.HasRoot

/-- However a program ends, the code returns to the root. -/
theorem IsOutside.execute (outside : session.IsOutside) {program : List Stmt}
    (executed : session.execute fuel program = some (report, after)) : after.IsOutside := by
  have rests := Step.Restores.interpret session.addresses fuel none program session.machine
  rw [execute_eq_some executed]
  exact ⟨rests.current.trans outside.current, (rests.root outside.hasRoot).congr rfl⟩

/-- The code of every session is in the root. -/
theorem Reached.isOutside (reached : session.Reached) : session.IsOutside := by
  induction reached with
  | start clock => exact ⟨rfl, .start clock⟩
  | setClock clock _ outside => exact ⟨outside.current, outside.hasRoot.congr rfl⟩
  | run fuel source _ ran outside =>
    simp only [Session.run] at ran
    split at ran
    · cases ran
      exact ⟨outside.current, outside.hasRoot⟩
    · split at ran
      · cases ran
        exact ⟨outside.current, outside.hasRoot⟩
      · refine IsOutside.execute ?_ ran
        exact ⟨outside.current, outside.hasRoot⟩
  | runAnyway fuel resolving bindings source _ ran outside =>
    simp only [Session.runAnyway] at ran
    split at ran
    · next result executed =>
      cases ran
      refine IsOutside.execute ?_ executed
      exact ⟨outside.current, outside.hasRoot⟩
    · cases ran

end Session

/--
However a statement, a block, an expression or a call ends, whether with a result, a `return`
or a `break`, with a runtime error at any depth or without fuel, the code is in the frame in
which it was before.  So the code of every session is in the root, which has no slots; the
statements of the next program declare globals; and afterwards, whether the program failed or
not, the code is in the root again, and the places that are recorded are the same.
-/
theorem current_restored :
    (∀ (addresses : AddressTable) (fuel : Nat) (machine : Machine),
      (∀ statement, ((Step.execute addresses fuel statement).after machine).current =
        machine.current) ∧
      (∀ frame result statements,
        ((Step.within frame (Step.executeAll addresses fuel result statements)).after
          machine).current = machine.current) ∧
      (∀ expression, ((Step.evaluate addresses fuel expression).after machine).current =
        machine.current) ∧
      (∀ line callee arguments,
        ((Step.call addresses fuel line callee arguments).after machine).current =
          machine.current) ∧
      ∀ closure arguments, ((Step.invoke addresses fuel closure arguments).after machine).current =
        machine.current) ∧
    ∀ session : Session, session.Reached →
      session.machine.current = Machine.root ∧ session.machine.frames.length Machine.root = 0 ∧
      ∀ (fuel : Nat) (program : List Stmt),
        Step.interpret session.addresses fuel none program session.machine =
          Step.interpretGlobally session.addresses fuel none program session.machine ∧
        ∀ report after, session.execute fuel program = some (report, after) →
          after.machine.current = Machine.root ∧ after.addresses = session.addresses := by
  constructor
  · intro addresses fuel machine
    have rules := restoresWell addresses fuel
    refine ⟨?_, ?_, ?_, ?_, ?_⟩
    · exact fun statement => (rules.execute statement machine).current
    · exact fun frame result statements =>
        (Step.Restores.within frame (rules.executeAll result statements) machine).current
    · exact fun expression => (rules.evaluate expression machine).current
    · exact fun line callee arguments => (rules.call line callee arguments machine).current
    · exact fun closure arguments => (rules.invoke closure arguments machine).current
  · intro session reached
    have outside := reached.isOutside
    refine ⟨outside.current, outside.hasRoot.empty, ?_⟩
    intro fuel program
    refine ⟨Step.interpret_eq_interpretGlobally _ _ _ _ outside.current, ?_⟩
    intro report after executed
    refine ⟨(outside.execute executed).current, ?_⟩
    rw [Session.execute_eq_some executed]

/-- A text that fails in a function that is called in a block. -/
def failsInside : String :=
  "fun f(g) { while (true) { g(); -nil; } } { var b = f; b(clock); }"

/-- A run that failed in a loop in a function in a block leaves the session in the root. -/
theorem current_restored_failsInside :
    ∃ session, (Session.start 0).run 20 failsInside =
        some (⟨[], .failed ⟨1, .operandNotANumber⟩⟩, session) ∧
      session.machine.current = Machine.root ∧ session.machine.frames.size = 5 := by
  have ends : ((Session.start 0).run 20 failsInside).map (fun result =>
      (result.1, result.2.machine.frames.size)) =
        some (⟨[], .failed ⟨1, .operandNotANumber⟩⟩, 5) := by
    cbv
  rcases Option.map_eq_some_iff.mp ends with ⟨⟨report, session⟩, ran, same⟩
  rcases Prod.mk.inj same with ⟨rfl, size⟩
  exact ⟨session, ran,
    (current_restored.2 session (.run 20 failsInside (.start 0) ran)).1, size⟩

end Lox
