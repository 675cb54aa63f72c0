import Lox.Machine.Evaluation
import Lox.Proofs.Receiver.Functions

/-!
# Tables of methods

The table of methods that a class gets has, under each name, a method made from the last
declaration of that name.
-/

namespace Lox

/-- Of some declarations of methods the last one of a name defines this function. -/
def NamedFunction.IsLast (name : String) (definition : Function) (methods : List NamedFunction) :
    Prop :=
  ∃ before own after, methods = before ++ .mk own definition :: after ∧ own.text = name ∧
    ∀ other ∈ after, other.name.text ≠ name

namespace NamedFunction.IsLast

variable {name : String} {definition : Function} {methods : List NamedFunction}

/-- What is declared further in front does not matter. -/
theorem cons (last : IsLast name definition methods) (first : NamedFunction) :
    IsLast name definition (first :: methods) := by
  rcases last with ⟨before, own, after, rfl, named, others⟩
  exact ⟨first :: before, own, after, rfl, named, others⟩

/-- The first declaration is the last one of its name if no other has it. -/
theorem first {own : Name} (others : ∀ other ∈ methods, other.name.text ≠ own.text) :
    IsLast own.text definition (.mk own definition :: methods) :=
  ⟨[], own, methods, rfl, rfl, others⟩

end NamedFunction.IsLast

/-- A table has the methods of a class: of several with one name the last one. -/
structure NamedFunction.Fill (allowInitializer : Bool) (methods : List NamedFunction)
    (table : Table Closure) : Prop where
  declared : ∀ (name : String) (method : Closure), table[name]? = some method →
    ∃ definition, IsLast name definition methods ∧ method.name = name ∧
      method.behaviour = .body definition (allowInitializer && name == "init")
  absent : ∀ name : String, table[name]? = none → ∀ method ∈ methods, method.name.text ≠ name

/-- Methods replace those that the table has under their names, and leave the others. -/
theorem Step.newMethods_replace {frame : FrameId} {allowInitializer : Bool}
    {methods : List NamedFunction} {table made : Table Closure} {machine after : Machine}
    (taken : Step.newMethods frame allowInitializer methods table machine = .ok made after)
    (name : String) :
    (∃ definition method, made[name]? = some method ∧
      NamedFunction.IsLast name definition methods ∧ method.name = name ∧
      method.behaviour = .body definition (allowInitializer && name == "init")) ∨
    (made[name]? = table[name]? ∧ ∀ method ∈ methods, method.name.text ≠ name) := by
  induction methods generalizing table machine with
  | nil =>
    cases taken
    exact .inr ⟨rfl, fun _ impossible => by cases impossible⟩
  | cons first others induction =>
    rcases first with ⟨own, definition⟩
    have takenOthers : Step.newMethods frame allowInitializer others
        (table.insert own.text ⟨machine.nextId, own.text,
          .body definition (allowInitializer && own.text == "init"), frame⟩)
        { machine with nextId := machine.nextId + 1 } = .ok made after := taken
    rcases induction takenOthers with ⟨later, method, found, last, named, behaviour⟩ | ⟨same, lack⟩
    · exact .inl ⟨later, method, found, last.cons _, named, behaviour⟩
    · rw [Std.TreeMap.getElem?_insert] at same
      split at same
      · next isOwn =>
        have isName : own.text = name := Std.LawfulEqCmp.eq_of_compare isOwn
        subst isName
        exact .inl ⟨definition, _, same, .first lack, rfl, rfl⟩
      · next different =>
        refine .inr ⟨same, List.forall_mem_cons.mpr ⟨?_, lack⟩⟩
        rintro rfl
        exact different Std.ReflCmp.compare_self

/-- The methods of a class are those that are declared last. -/
theorem Step.newMethods_fill {frame : FrameId} {allowInitializer : Bool}
    {methods : List NamedFunction} {made : Table Closure} {machine after : Machine}
    (taken : Step.newMethods frame allowInitializer methods ∅ machine = .ok made after) :
    NamedFunction.Fill allowInitializer methods made := by
  have replace := Step.newMethods_replace taken
  constructor
  · intro name method found
    rcases replace name with ⟨definition, other, here, last, named, behaviour⟩ | ⟨same, -⟩
    · cases found.symm.trans here
      exact ⟨definition, last, named, behaviour⟩
    · simp [same] at found
  · intro name missing
    rcases replace name with ⟨definition, other, here, -⟩ | ⟨-, lack⟩
    · cases missing.symm.trans here
    · exact lack

end Lox
