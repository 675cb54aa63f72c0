import Mathlib
import Lox.Proofs.History.Assignment
import Lox.Proofs.Session.Composition
import Lox.Proofs.Session.Current

/-!
# Declarations that fail

What becomes of the global variables when a declaration of a program ends with a runtime error.
A `var` leaves them as the evaluation of its initial value does; a class is declared before its
superclass is looked up, so its name has no value then; functions never fail.
-/

namespace Lox

/-! ## How declarations fail -/

namespace Step

variable {α β : Type}

/-- A sequence fails in its first step, or in the next one. -/
theorem bind_eq_error {first : Step α} {next : α → Step β} {machine failed : Machine} {stop : Stop}
    (fails : (first >>= next) machine = .error stop failed) :
    first machine = .error stop failed ∨
      ∃ result after, first machine = .ok result after ∧ next result after = .error stop failed := by
  replace fails : EStateM.bind first next machine = .error stop failed := fails
  rw [EStateM.bind] at fails
  cases ends : first machine with
  | ok result after =>
    rw [ends] at fails
    exact .inr ⟨result, after, rfl, fails⟩
  | error other after =>
    rw [ends] at fails
    cases fails
    exact .inl rfl

/-- A class that extends none is made without fail. -/
theorem newClass_eq_error {addresses : AddressTable} {name : Name}
    {superclassName : Option Reference} {methods classMethods : List NamedFunction}
    {machine failed : Machine} {stop : Stop}
    (fails : newClass addresses name superclassName methods classMethods machine =
      .error stop failed) :
    superclass addresses superclassName machine = .error stop failed := by
  rcases bind_eq_error fails with here | ⟨extended, after, -, later⟩
  · exact here
  rcases bind_eq_error later with here | ⟨frame, after, -, later⟩
  · cases extended <;> cases here
  rcases newMethods_eq frame true methods ∅ after with ⟨table, taken, -⟩
  rcases bind_eq_error later with here | ⟨table, after, -, later⟩
  · cases taken.symm.trans here
  rcases newMethods_eq frame false classMethods ∅ after with ⟨table, taken, -⟩
  rcases bind_eq_error later with here | ⟨table, after, -, later⟩
  · cases taken.symm.trans here
  · cases later

/-- Looking up a superclass changes nothing. -/
theorem after_superclass (addresses : AddressTable) (target : Option Reference)
    (machine : Machine) : (superclass addresses target).after machine = machine := by
  cases target with
  | none => rfl
  | some target =>
    have same := after_readVariable addresses target.id target.name machine
    simp only [superclass, after, Bind.bind, EStateM.bind] at same ⊢
    cases ends : readVariable addresses target.id target.name machine with
    | error stop after =>
      rw [ends] at same
      exact same
    | ok value after =>
      rw [ends] at same
      cases value <;> exact same

end Step

/-- The name that a statement declares. -/
def Stmt.declared? : Stmt → Option Name
  | .varDecl name _ => some name
  | .funDecl function => some function.name
  | .classDecl name _ _ _ => some name
  | _ => none

/-- How the declaration of a name fails, and what it leaves of a machine. -/
inductive Stmt.FailsToDeclare (addresses : AddressTable) (fuel : Nat) (machine failed : Machine)
    (error : RuntimeError) (name : Name) : Stmt → Prop where
  /-- The initial value fails; globals are what its evaluation assigned last, or unchanged. -/
  | varDecl {initial : Expr}
      (fails : Step.evaluate addresses fuel initial machine = .error (.fault error) failed)
      (assigned : machine.Assigned ((Recorded.evaluate addresses fuel initial).deeds machine)
        failed)
      (kept : (∀ value, Deed.assigns name.text value ∉
          (Recorded.evaluate addresses fuel initial).deeds machine) →
        failed.globals[name.text]? = machine.globals[name.text]?) :
      FailsToDeclare addresses fuel machine failed error name (.varDecl name (some initial))
  /-- There is no superclass; the name was declared before the superclass was looked up. -/
  | classDecl {superclass : Reference} {methods classMethods : List NamedFunction}
      (declared : failed =
        { machine with globals := machine.globals.insert name.text .uninitialised })
      (fails : Step.superclass addresses (some superclass) failed = .error (.fault error) failed) :
      FailsToDeclare addresses fuel machine failed error name
        (.classDecl name (some superclass) methods classMethods)

/-- In the root a declaration that fails is one of a variable or of a class. -/
theorem Step.failsToDeclare {addresses : AddressTable} {fuel : Nat} {declaration : Stmt}
    {name : Name} (declares : declaration.declared? = some name) {machine failed : Machine}
    {error : RuntimeError} (isRoot : machine.current = Machine.root) (hasRoot : machine.HasRoot)
    (fails : execute addresses (fuel + 1) declaration machine = .error (.fault error) failed) :
    declaration.FailsToDeclare addresses fuel machine failed error name := by
  rw [execute_eq_executeGlobally _ _ _ isRoot] at fails
  cases declaration with
  | varDecl name initial =>
    cases initial with
    | none => cases fails
    | some initial =>
      have globals := assigned_evaluate addresses fuel initial hasRoot
      rcases bind_eq_error fails with here | ⟨value, _, -, later⟩
      · rw [after, here] at globals
        cases declares
        exact .varDecl here globals (globals.kept name.text)
      · cases later
  | funDecl function =>
    rcases function with ⟨name, definition⟩
    cases fails
  | classDecl name superclassName methods classMethods =>
    rcases bind_eq_error fails with here | ⟨_, declared, isDeclared, later⟩
    · cases here
    cases isDeclared
    rcases bind_eq_error later with here | ⟨value, after, here, later⟩
    · have notFound := newClass_eq_error here
      have same := after_superclass addresses superclassName
        { machine with globals := machine.globals.insert name.text .uninitialised }
      rw [after, notFound] at same
      cases same
      cases superclassName with
      | none => cases notFound
      | some superclass =>
        cases declares
        exact .classDecl rfl notFound
    · cases later
  | _ => cases declares

/-! ## Declarations of source texts -/

namespace Session

/-- The places of local variables when a source text is executed. -/
def addressesIn (source : String) (session : Session) : AddressTable :=
  (session.record (resolve (Reading.ofSource session.nextId source).statements).bindings).addresses

/-- A source text is executed up to one of its statements, and this ends with a runtime error. -/
structure FailsAt (session : Session) (fuel : Nat) (source : String) (statement : Stmt)
    (machine failed : Machine) (error : RuntimeError) : Prop where
  sound : (Reading.ofSource session.nextId source).IsSound
  begins : ∃ before others result,
    (Reading.ofSource session.nextId source).statements = before ++ statement :: others ∧
      Step.interpret (session.addressesIn source) fuel none before session.machine =
        .ok result machine
  fails : Step.execute (session.addressesIn source) fuel statement machine =
    .error (.fault error) failed

/-- With the statement the run fails. -/
theorem FailsAt.run {session : Session} {fuel : Nat} {source : String} {statement : Stmt}
    {machine failed : Machine} {error : RuntimeError}
    (fails : session.FailsAt fuel source statement machine failed error) :
    ∃ after, session.run fuel source = some (⟨failed.printed.toList, .failed error⟩, after) ∧
      after.machine = { failed with printed := #[] } := by
  rcases fails with ⟨sound, ⟨before, others, result, statements, begins⟩, fails⟩
  have stops : Step.interpret (session.addressesIn source) fuel none
      (Reading.ofSource session.nextId source).statements session.machine =
        .error (.fault error) failed := by
    rw [statements, Step.interpret_append]
    show EStateM.bind _ _ session.machine = _
    rw [EStateM.bind, begins]
    dsimp only
    rw [Step.interpret]
    show EStateM.bind _ _ machine = _
    rw [EStateM.bind, fails]
  let ready := { session with nextId := (Reading.ofSource session.nextId source).nextId }.record
    (resolve (Reading.ofSource session.nextId source).statements).bindings
  refine ⟨(ready.conclude (.failed error) failed).2, ?_, rfl⟩
  rw [run_eq, runReading_of_isSound sound, execute]
  have same : Step.interpret ready.addresses fuel none
      (Reading.ofSource session.nextId source).statements ready.machine =
        .error (.fault error) failed := stops
  rw [same]
  rfl

end Session

/--
If a declaration of a name fails in a run of any session, then the run ends with this error, and
the globals stay as the declaration left them.  For a `var` they are what the evaluation of the
initial value left: the name keeps its value unless this evaluation assigned it another one.  For
a class the name has no value afterwards, since it is declared before the superclass is looked up,
and no other global has changed.  Functions, and variables without an initial value, never fail.
-/
theorem failed_declarations {session : Session} (reached : session.Reached) {fuel : Nat}
    {source : String} {declaration : Stmt} {name : Name}
    (declares : declaration.declared? = some name) {machine failed : Machine}
    {error : RuntimeError}
    (fails : session.FailsAt fuel source declaration machine failed error) :
    ∃ after, session.run fuel source = some (⟨failed.printed.toList, .failed error⟩, after) ∧
      after.machine.globals = failed.globals ∧
      declaration.FailsToDeclare (session.addressesIn source) (fuel - 1) machine failed error
        name := by
  rcases fails.run with ⟨after, ran, left⟩
  refine ⟨after, ran, by rw [left], ?_⟩
  rcases fails with ⟨-, ⟨before, others, result, -, begins⟩, fails⟩
  have outside := reached.isOutside
  have rests := Step.Restores.interpret (session.addressesIn source) fuel none before
    session.machine
  rw [Step.after, begins] at rests
  cases fuel with
  | zero => cases fails
  | succ fuel =>
    exact Step.failsToDeclare declares (rests.current.trans outside.current)
      (rests.root outside.hasRoot) fails

/-- A text with a variable whose initial value assigns the variable and then fails. -/
def failsAfterAssigning : String := "var x = true; fun f() { x = false; } var x = -f();"

/-- Its last declaration. -/
def negatedCall : Stmt :=
  .varDecl ⟨"x", 1⟩ (some (.unary .negate 1 (.call (.read ⟨1, ⟨"f", 1⟩⟩) 1 [])))

/--
The error with which the last statement of a text fails, and the slot of a global variable before
the statement and after it.
-/
def Session.lastFailure? (session : Session) (fuel : Nat) (source name : String) (last : Stmt) :
    Option (Option (Slot Value) × RuntimeError × Option (Slot Value)) :=
  match Step.interpret (session.addressesIn source) fuel none
      (Reading.ofSource session.nextId source).statements.dropLast session.machine with
  | .ok _ machine =>
    match Step.execute (session.addressesIn source) fuel last machine with
    | .error (.fault error) failed => some (machine.globals[name]?, error, failed.globals[name]?)
    | _ => none
  | .error _ _ => none

/-- The declaration fails, and the variable is what it was assigned in the function. -/
theorem failed_declarations_negatedCall :
    ∃ machine failed after, (Session.start 0).FailsAt 20 failsAfterAssigning negatedCall machine
        failed ⟨1, .operandNotANumber⟩ ∧
      (Session.start 0).run 20 failsAfterAssigning =
        some (⟨failed.printed.toList, .failed ⟨1, .operandNotANumber⟩⟩, after) ∧
      machine.globals["x"]? = some (.initialised (.bool true)) ∧
      after.machine.globals["x"]? = some (.initialised (.bool false)) := by
  have sound : (Reading.ofSource 0 failsAfterAssigning).IsSound := by
    constructor <;> cbv
  have reads : ∃ before, (Reading.ofSource (Session.start 0).nextId failsAfterAssigning).statements =
      before ++ [negatedCall] := by
    refine ⟨[.varDecl ⟨"x", 1⟩ (some (.literal (.bool true))), .funDecl (.mk ⟨"f", 1⟩ (.mk []
      [.expression (.assign ⟨0, ⟨"x", 1⟩⟩ (.literal (.bool false)))]))], ?_⟩
    cbv
  rcases reads with ⟨before, reads⟩
  have ends : (Session.start 0).lastFailure? 20 failsAfterAssigning "x" negatedCall =
      some (some (.initialised (.bool true)), ⟨1, .operandNotANumber⟩,
        some (.initialised (.bool false))) := by
    cbv
  rw [Session.lastFailure?, reads, List.dropLast_concat] at ends
  split at ends
  · next result machine begins =>
    split at ends
    · next error failed fails =>
      simp only [Option.some.injEq, Prod.mk.injEq] at ends
      rcases ends with ⟨isTrue, rfl, isFalse⟩
      have failsAt : (Session.start 0).FailsAt 20 failsAfterAssigning negatedCall machine failed
          ⟨1, .operandNotANumber⟩ := ⟨sound, ⟨before, [], result, reads, begins⟩, fails⟩
      rcases failed_declarations (.start 0) rfl failsAt with ⟨after, ran, globals, -⟩
      exact ⟨machine, failed, after, failsAt, ran, isTrue, by rw [globals, isFalse]⟩
    · cases ends
  · cases ends

/-- A text that declares a class, which extends a class that there is not. -/
def extendsMissing : String := "class x < missing {}"

/--
The name of a class that fails does not keep its value, though looking the superclass up does not
assign it.
-/
theorem not_kept_extendsMissing :
    ∃ session after : Session, session.Reached ∧
      session.machine.globals["x"]? = some (.initialised (.bool true)) ∧
      session.run 20 extendsMissing =
        some (⟨[], .failed ⟨1, .undefinedVariable "missing"⟩⟩, after) ∧
      (∀ addresses target, ((Step.superclass addresses target).after session.machine).globals =
        session.machine.globals) ∧
      after.machine.globals["x"]? = some .uninitialised := by
  have ends : ((Session.start 0).run 20 "var x = true;").bind (fun first =>
      (first.2.run 20 extendsMissing).map fun second =>
        (first.2.machine.globals["x"]?, second.1, second.2.machine.globals["x"]?)) =
      some (some (.initialised (.bool true)),
        ⟨[], .failed ⟨1, .undefinedVariable "missing"⟩⟩, some .uninitialised) := by
    cbv
  rcases Option.bind_eq_some_iff.mp ends with ⟨⟨report, session⟩, ran, ends⟩
  rcases Option.map_eq_some_iff.mp ends with ⟨⟨failure, after⟩, failed, same⟩
  simp only [Prod.mk.injEq] at same
  rcases same with ⟨isTrue, rfl, isUninitialised⟩
  refine ⟨session, after, .run 20 _ (.start 0) ran, isTrue, failed, ?_, isUninitialised⟩
  intro addresses target
  rw [Step.after_superclass]

end Lox
