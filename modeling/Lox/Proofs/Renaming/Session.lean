import Lox.Proofs.Renaming.Evaluation
import Lox.Proofs.Renaming.Scope
import Lox.Proofs.Renaming.Grammar
import Lox.Session

/-!
# Sessions that run renamed programs

Two sessions vary if their machines do and the same places are recorded in both, under ids that
correspond.  Then a run of a program in one session and a run of the renamed program in the other
one are reported in the same way, up to lines (`Session.Varies.runReading`).
-/

namespace Lox

/-! ## Reports on other lines -/

/-- A lexical error on another line. -/
def LexicalError.move (line : Nat → Nat) (error : LexicalError) : LexicalError :=
  ⟨line error.line, error.fault⟩

/-- A runtime error on another line. -/
def RuntimeError.move (line : Nat → Nat) (error : RuntimeError) : RuntimeError :=
  ⟨line error.line, error.fault⟩

/-- A diagnostic on another line. -/
def Diagnostic.move (line : Nat → Nat) : Diagnostic → Diagnostic
  | lexical error => .lexical (error.move line)
  | grammatical error => .grammatical (error.move line)
  | binding error => .binding ⟨line error.line, error.fault⟩
  | runtime error => .runtime (error.move line)

/-- An outcome with its errors on other lines. -/
def Outcome.move (line : Nat → Nat) : Outcome → Outcome
  | success result => success result
  | rejected errors => rejected (errors.map (Diagnostic.move line))
  | failed error => failed (error.move line)

/-- A report with its errors on other lines. -/
def Report.move (line : Nat → Nat) (report : Report) : Report :=
  ⟨report.printed, report.outcome.move line⟩

/-- A report of a run before which something was printed. -/
def Report.behind (earlier : List String) (report : Report) : Report :=
  ⟨earlier ++ report.printed, report.outcome⟩

/-! ## Readings and sessions -/

/-- What is read is the same, up to ids and lines. -/
structure Reading.Varies (change : Renaming) (left right : Reading) : Prop where
  lexicalErrors : right.lexicalErrors = left.lexicalErrors.map (LexicalError.move change.line)
  syntaxErrors : right.syntaxErrors = left.syntaxErrors.map (SyntaxError.move change.line)
  statements : right.statements = Stmt.renameAll change left.statements

theorem Reading.Varies.errors {change : Renaming} {left right : Reading}
    (varies : left.Varies change right) :
    right.errors = left.errors.map (Diagnostic.move change.line) := by
  rw [Reading.errors, Reading.errors, varies.lexicalErrors, varies.syntaxErrors,
    List.map_append, List.map_map, List.map_map, List.map_map, List.map_map]
  rfl

/-- Two sessions. -/
structure Session.Varies (variation : Variation) (left right : Session) : Prop where
  machine : left.machine.Varies variation right.machine
  addresses : AddressTable.Renamed variation.change left.addresses right.addresses

/-- A variation of machines of which the second one has printed something before. -/
def Variation.after (earlier : Array String) (variation : Variation) : Variation :=
  { variation with earlier := earlier }

theorem Variation.after_empty {variation : Variation} (isFresh : variation.earlier = #[]) :
    variation.after #[] = variation := by
  rw [after, ← isFresh]

/-- Two runs that end alike; the ids of the next programs start at these numbers. -/
structure RunsVary (variation : Variation) (nextId nextId' : Nat)
    (left right : Report × Session) : Prop where
  report : right.1 = (left.1.move variation.change.line).behind variation.earlier.toList
  session : left.2.Varies (variation.after #[]) right.2
  nextId : left.2.nextId = nextId
  nextId' : right.2.nextId = nextId'

namespace Session

/-- Runs a program that is read. -/
def runReading (fuel : Nat) (reading : Reading) (session : Session) :
    Option (Report × Session) :=
  let session := { session with nextId := reading.nextId }
  if reading.errors ≠ [] then
    some (⟨[], .rejected reading.errors⟩, session)
  else
    let resolution := resolve reading.statements
    let session := session.record resolution.bindings
    if resolution.errors ≠ [] then
      some (⟨[], .rejected (resolution.errors.map .binding)⟩, session)
    else
      session.execute fuel reading.statements

theorem run_eq (fuel : Nat) (source : String) (session : Session) :
    session.run fuel source =
      session.runReading fuel (.ofSource session.nextId source) := rfl

namespace Varies

variable {variation : Variation} {left right : Session}

theorem setClock (varies : left.Varies variation right) (clock : Float) :
    (left.setClock clock).Varies variation (right.setClock clock) :=
  ⟨{ varies.machine with clock := rfl }, varies.addresses⟩

/-- Places are recorded under ids that correspond. -/
theorem record (varies : left.Varies variation right)
    (injective : Function.Injective variation.change.id) (bindings : List Binding) :
    (left.record bindings).Varies variation
      (right.record (bindings.map (Binding.rename variation.change))) := by
  refine ⟨varies.machine, ?_⟩
  have addresses := varies.addresses
  simp only [Session.record]
  revert addresses
  generalize left.addresses = table
  generalize right.addresses = table'
  intro addresses
  induction bindings generalizing table table' with
  | nil => exact addresses
  | cons first others induction =>
    rw [List.map_cons, List.foldl_cons, List.foldl_cons]
    apply induction
    intro id
    have same : compare (variation.change.id first.id) (variation.change.id id) = .eq ↔
        compare first.id id = .eq := by
      rw [Nat.compare_eq_eq, Nat.compare_eq_eq, injective.eq_iff]
    rw [Std.TreeMap.getElem?_insert, Std.TreeMap.getElem?_insert]
    simp only [Binding.rename, same]
    split
    · rfl
    · exact addresses id

/-- A renamed program is executed in the same way. -/
theorem execute (varies : left.Varies variation right) (fuel : Nat) {program : List Stmt}
    (made : Stmt.MakeAll variation.allowed program) :
    Option.Rel (RunsVary variation left.nextId right.nextId) (left.execute fuel program)
      (right.execute fuel (Stmt.renameAll variation.change program)) := by
  have ends := Step.Varies.interpret varies.addresses fuel program made .none left.machine
    right.machine varies.machine
  rw [Session.execute, Session.execute]
  revert ends
  generalize Step.interpret left.addresses fuel none program left.machine = first
  generalize Step.interpret right.addresses fuel none _ right.machine = second
  intro ends
  have concludes : ∀ {machine machine' : Machine} (outcome : Outcome),
      machine.Varies variation machine' →
      RunsVary variation left.nextId right.nextId (left.conclude outcome machine)
        (right.conclude (outcome.move variation.change.line) machine') := by
    intro machine machine' outcome after
    have quiet : variation.Le (variation.after #[]) := fun _ isAllowed => ⟨isAllowed, rfl⟩
    refine ⟨?_, ⟨after.withPrinted quiet rfl, varies.addresses⟩, rfl, rfl⟩
    rw [Session.conclude, Session.conclude, after.printed, Array.toList_append]
    rfl
  cases ends with
  | @ok result result' machine machine' same after =>
    have results : result'.map Value.result = result.map Value.result := by
      cases same with
      | none => rfl
      | some same => exact congrArg some same.alike.result_eq.symm
    dsimp only
    rw [results]
    exact .some (concludes (.success _) after)
  | fault line fault after => exact .some (concludes (.failed ⟨line, fault⟩) after)
  | outOfFuel => exact .none

/-- A renamed program is run in the same way, also if something is wrong with it. -/
theorem runReading (varies : left.Varies variation right) (isFresh : variation.earlier = #[])
    (injective : Function.Injective variation.change.id) {reading reading' : Reading}
    (reads : reading.Varies variation.change reading')
    (made : reading.errors = [] → (resolve reading.statements).errors = [] →
      Stmt.MakeAll variation.allowed reading.statements) (fuel : Nat) :
    Option.Rel (RunsVary variation reading.nextId reading'.nextId)
      (left.runReading fuel reading) (right.runReading fuel reading') := by
  have still := Variation.after_empty isFresh
  have read : Varies variation { left with nextId := reading.nextId }
      { right with nextId := reading'.nextId } := ⟨varies.machine, varies.addresses⟩
  have resolved := resolve_rename variation.change reading.statements
  simp only [Session.runReading, reads.errors, reads.statements, resolved, ne_eq,
    List.map_eq_nil_iff]
  by_cases well : reading.errors = []
  · have recorded := read.record injective (resolve reading.statements).bindings
    rw [if_neg (not_not_intro well), if_neg (not_not_intro well)]
    by_cases sound : (resolve reading.statements).errors = []
    · rw [if_neg (not_not_intro sound), if_neg (not_not_intro sound)]
      exact recorded.execute fuel (made well sound)
    · rw [if_pos sound, if_pos sound]
      refine .some ⟨?_, still ▸ recorded, rfl, rfl⟩
      simp only [Report.move, Report.behind, Outcome.move, List.map_map, isFresh]
      rfl
  · rw [if_pos well, if_pos well]
    refine .some ⟨?_, still ▸ read, rfl, rfl⟩
    simp only [Report.move, Report.behind, Outcome.move, isFresh]
    rfl

end Varies

end Session

end Lox
