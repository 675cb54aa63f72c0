import Lox.Proofs.Lexical.Moment
import Lox.Proofs.Loop.Desugaring

/-!
# Functions that are made in loops

The scope of a loop is made once; every turn of the loop begins in it.  So functions that are made
in the body keep the scope of the loop, with the same cell for the variable of the initial
statement, and in front of it the cells that were made in their turn: `Makes.own` and
`Makes.separate`.
-/

namespace Lox.ForLoop

open Lexical (Environment Moment)
open Lexical.Step (evaluate execute)

/-- The body of a loop begins on a machine; so many turns were made before. -/
inductive Begins (loop : ForLoop) (scope : Environment) :
    Lexical.Machine → (turn : Nat) → Lexical.Machine → Prop where
  | first (holds : Finishes (loop.test scope) machine (.ok true start)) :
      Begins loop scope machine 0 start
  | later (holds : Finishes (loop.test scope) machine (.ok true first))
      (runs : Finishes (loop.run scope) first (.ok (.normal result) second))
      (advances : Finishes (loop.advance scope) second (.ok () third))
      (begins : Begins loop scope third turn start) : Begins loop scope machine (turn + 1) start

/-- A function is made in the body of a loop; so many turns were made before. -/
def Makes (loop : ForLoop) (scope : Environment) (machine : Lexical.Machine) (turn : Nat)
    (closure : Closure Environment) : Prop :=
  ∃ start moment, loop.Begins scope machine turn start ∧
    Moment.Reaches ⟨.statement loop.body, scope, start⟩ moment ∧ moment.Makes closure

variable {loop : ForLoop} {scope environment : Environment}
  {machine start after : Lexical.Machine} {turn : Nat} {closure closure' : Closure Environment}

/-! ## The scope of a loop -/

/-- The variable of a loop has one cell. -/
theorem begin_varDecl {name : Name} {value : Option Expr}
    (first : loop.initial = some (.varDecl name value))
    (begins : Finishes (loop.begin environment) machine (.ok scope after)) :
    scope = (name.text, machine.cells.size) :: environment := by
  obtain ⟨result, ends⟩ := (finishes_begin_ok first).mp begins
  obtain ⟨-, fuel, ends⟩ := (finishes_succ (by rw [execute])).mp ends
  dsimp only at ends
  cases value with
  | none =>
    rw [execute] at ends
    cases ends
    rfl
  | some initial =>
    rw [execute, if_pos rfl] at ends
    rcases exists_of_bind ends trivial with ⟨_, _, _, impossible, -⟩ | ⟨inner, _, first, ends⟩
    · cases impossible
    cases first
    rcases exists_of_bind ends trivial with ⟨_, _, _, impossible, -⟩ | ⟨value, _, -, ends⟩
    · cases impossible
    cases ends
    rfl

/-! ## Turns -/

theorem size_le_test {holds : Bool} (ends : Finishes (loop.test scope) machine (.ok holds after)) :
    machine.cells.size ≤ after.cells.size := by
  obtain ⟨value, ends, -⟩ := finishes_test_ok.mp ends
  exact Moment.size_le_of_evaluate ends

theorem size_le_run {flow : Flow Environment}
    (ends : Finishes (loop.run scope) machine (.ok flow after)) :
    machine.cells.size ≤ after.cells.size := by
  obtain ⟨inner, ends⟩ := Lexical.Step.finishes_flow_ok.mp ends
  exact (Moment.grows_of_finishes
    (fun fuel => (Lexical.Step.growsWell fuel).statement true _ _ _) ends).1

theorem size_le_advance (ends : Finishes (loop.advance scope) machine (.ok () after)) :
    machine.cells.size ≤ after.cells.size := by
  have grows : ∀ fuel, (loop.advance scope fuel).Grows := by
    intro fuel
    rw [advance]
    split
    · exact .pure _
    · exact ((Lexical.Step.growsWell fuel).evaluate _ _).bind fun _ => .pure _
  exact (Moment.grows_of_finishes (fun fuel => grows fuel machine) ends).1

theorem Begins.size_le (begins : loop.Begins scope machine turn start) :
    machine.cells.size ≤ start.cells.size := by
  induction begins with
  | first holds => exact size_le_test holds
  | later holds runs advances _ induction =>
    have := size_le_test holds
    have := size_le_run runs
    have := size_le_advance advances
    omega

/-- When a later turn begins, the body has come to its end in this one. -/
theorem Begins.endsBy {later : Nat} {next : Lexical.Machine}
    (begins : loop.Begins scope machine turn start) (begins' : loop.Begins scope machine later next)
    (isLater : turn < later) :
    Moment.EndsBy ⟨.statement loop.body, scope, start⟩ next.cells.size := by
  induction begins generalizing later with
  | first holds =>
    cases begins' with
    | first => cases isLater
    | later holds' runs advances begins' =>
      cases (steady_test loop scope).unique holds holds'
      obtain ⟨inner, ends⟩ := Lexical.Step.finishes_flow_ok.mp runs
      exact ⟨_, ends, Nat.le_trans (size_le_advance advances) begins'.size_le⟩
  | later holds runs advances begins induction =>
    cases begins' with
    | first => cases isLater
    | later holds' runs' advances' begins' =>
      cases (steady_test loop scope).unique holds holds'
      cases (steady_run loop scope).unique runs runs'
      cases (steady_advance loop scope).unique advances advances'
      exact induction begins' (Nat.lt_of_succ_lt_succ isLater)

/-! ## Functions -/

/-- A function that is made in the body keeps the scope of the loop behind cells of its turn. -/
theorem Makes.own (makes : loop.Makes scope machine turn closure) :
    ∃ own : Environment, closure.environment = own ++ scope ∧
      ∀ declared ∈ own, machine.cells.size ≤ declared.2 := by
  obtain ⟨start, moment, begins, reaches, makes⟩ := makes
  obtain ⟨last, ⟨own, same, range⟩, -⟩ := reaches.extends_of_makes makes
  exact ⟨own, same, fun declared isIn => Nat.le_trans begins.size_le (range declared isIn).1⟩

/-- What one turn declares and what a later turn declares are in different cells. -/
theorem Makes.separate {later : Nat} (makes : loop.Makes scope machine turn closure)
    (makes' : loop.Makes scope machine later closure') (isLater : turn < later)
    {own own' : Environment} (same : closure.environment = own ++ scope)
    (same' : closure'.environment = own' ++ scope) :
    ∀ declared ∈ own, ∀ declared' ∈ own', declared.2 < declared'.2 := by
  obtain ⟨start, moment, begins, reaches, makes⟩ := makes
  obtain ⟨start', moment', begins', reaches', makes'⟩ := makes'
  obtain ⟨last, ⟨_, is, range⟩, early⟩ := reaches.extends_of_makes makes
  obtain ⟨last', ⟨_, is', range'⟩, -⟩ := reaches'.extends_of_makes makes'
  obtain rfl := List.append_cancel_right (is.symm.trans same)
  obtain rfl := List.append_cancel_right (is'.symm.trans same')
  have before := early _ (begins.endsBy begins' isLater)
  intro declared isIn declared' isIn'
  have low := (range declared isIn).2
  have high := (range' declared' isIn').1
  exact Nat.lt_of_lt_of_le low (Nat.le_trans before high)

end Lox.ForLoop
