import Lox.Proofs.History.Execution

/-!
# Assignments of global variables

While an expression is evaluated, global variables change by assignments only: functions that it
calls declare their variables in frames of their own.  So after the evaluation, however it ends,
a global variable is what it was last assigned on the way, or else what it was before.
-/

namespace Lox

/-! ## What was done last -/

/-- What the last deed says of those that say something. -/
def History.last? {α : Type} (read : Deed → Option α) (history : History) : Option α :=
  history.reverse.findSome? read

theorem History.last?_append {α : Type} (read : Deed → Option α) (past rest : History) :
    (past ++ rest).last? read = (rest.last? read).or (past.last? read) := by
  rw [last?, List.reverse_append, List.findSome?_append]
  rfl

@[simp]
theorem History.last?_singleton {α : Type} (read : Deed → Option α) (deed : Deed) :
    History.last? read [deed] = read deed := by
  rw [last?, List.reverse_singleton, List.findSome?_singleton]

/-- What is not said by any deed is not said last. -/
theorem History.last?_eq_none {α : Type} {read : Deed → Option α} {history : History}
    (silent : ∀ deed ∈ history, read deed = none) : history.last? read = none := by
  rw [last?, List.findSome?_eq_none_iff]
  exact fun deed member => silent deed (List.mem_reverse.mp member)

/-- The value that a deed assigns to a global variable. -/
def Deed.assigned? (name : String) : Deed → Option Value
  | .assigns other value => if other = name then some value else none
  | _ => none

/-- The value that is last assigned to a global variable. -/
def History.lastAssigned? (name : String) (history : History) : Option Value :=
  history.last? (Deed.assigned? name)

/-! ## Global variables -/

/-- A machine in which global variables have changed by assignments only. -/
def Machine.Assigned (start : Machine) (done : History) (machine : Machine) : Prop :=
  ∀ name : String, machine.globals[name]? =
    ((done.lastAssigned? name).map Slot.initialised).or start.globals[name]?

namespace Machine.Assigned

theorem refl (machine : Machine) : machine.Assigned [] machine :=
  fun _ => (Option.none_or).symm

variable {start machine : Machine} {done : History} (assigned : start.Assigned done machine)
include assigned

/-- A global variable that is not assigned stays as it is. -/
theorem kept (name : String) (never : ∀ value, Deed.assigns name value ∉ done) :
    machine.globals[name]? = start.globals[name]? := by
  have silent : done.lastAssigned? name = none := by
    apply History.last?_eq_none
    intro deed member
    cases deed with
    | assigns other value =>
      apply if_neg
      rintro rfl
      exact never value member
    | _ => rfl
  rw [assigned name, silent]
  exact Option.none_or

/-- Something else is done than to assign a global variable. -/
theorem other {deed : Deed} (isOther : ∀ name, deed.assigned? name = none) {after : Machine}
    (globals : after.globals = machine.globals) : start.Assigned (done ++ [deed]) after := by
  intro name
  rw [globals, History.lastAssigned?, History.last?_append, History.last?_singleton, isOther,
    Option.none_or]
  exact assigned name

/-- A global variable is assigned. -/
theorem assign (name : String) (value : Value) :
    start.Assigned (done ++ [.assigns name value])
      { machine with globals := machine.globals.insert name (.initialised value) } := by
  intro other
  dsimp only
  rw [History.lastAssigned?, History.last?_append, History.last?_singleton,
    Std.TreeMap.getElem?_insert, Deed.assigned?]
  by_cases same : name = other
  · rw [if_pos same, if_pos (by rw [same]; exact Std.ReflCmp.compare_self)]
    rfl
  · rw [if_neg same, if_neg fun equal => same (Std.LawfulEqCmp.eq_of_compare equal),
      Option.none_or]
    exact assigned other

end Machine.Assigned

/-- Global variables change by assignments only, if nothing is declared in the root. -/
def Invariant.assigned (start : Machine) : Invariant where
  Holds := start.Assigned
  Knows _ _ := True
  DeclaresGlobals := False
  grows _ _ := trivial
  plain _ := trivial
  congr holds globals _ _ := by
    intro name
    rw [globals]
    exact holds name
  declares may := may.elim
  assigns holds name value := holds.assign name value
  makes holds _ _ _ _ _ _ _ _ _ _ _ := ⟨holds.other (fun _ => rfl) rfl, trivial⟩
  creates holds _ _ := ⟨holds.other (fun _ => rfl) rfl, trivial⟩
  sets holds _ _ _ _ _ := holds.other (fun _ => rfl) rfl
  accesses holds _ _ _ := holds.other (fun _ => rfl) rfl

/-- However an evaluation ends, global variables are what it last assigned, or unchanged. -/
theorem Step.assigned_evaluate (addresses : AddressTable) (fuel : Nat) (expression : Expr)
    {machine : Machine} (hasRoot : machine.HasRoot) :
    machine.Assigned ((Recorded.evaluate addresses fuel expression).deeds machine)
      ((Step.evaluate addresses fuel expression).after machine) := by
  have kept := (keepsWell (.assigned machine) addresses fuel).evaluate (fun _ => True) []
    expression [] machine (List.prefix_refl _) hasRoot trivial
      ⟨.refl machine, fun _ _ _ _ => trivial, fun _ _ _ => trivial, fun _ _ _ _ _ _ => trivial⟩
  rw [← Recorded.step_evaluate]
  exact kept.covers.holds

end Lox
