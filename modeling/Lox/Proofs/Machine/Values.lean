import Lox.Proofs.Machine.Layout

/-!
# Values in machines

A property of values that all values in a machine have: those of local variables, of global
variables and of fields.
-/

namespace Lox

/-- What holds for all values in a machine. -/
structure Machine.Values (property : Value → Prop) (machine : Machine) : Prop where
  slots : ∀ (frame : FrameId) (index : Nat) (value : Value),
    (machine.frames.slots frame)[index]? = some (.initialised value) → property value
  globals : ∀ (name : String) (value : Value),
    machine.globals[name]? = some (.initialised value) → property value
  fields : ∀ (id : Nat) (table : Table Value) (name : String) (value : Value),
    machine.fields[id]? = some table → table[name]? = some value → property value

namespace Machine.Values

variable {property weaker : Value → Prop} {machine : Machine} (values : machine.Values property)
include values

theorem imp (implies : ∀ value, property value → weaker value) : machine.Values weaker := by
  constructor
  · exact fun frame index value here => implies value (values.slots frame index value here)
  · exact fun name value here => implies value (values.globals name value here)
  · exact fun id table name value here found =>
      implies value (values.fields id table name value here found)

/-- A value that is found at an address. -/
theorem get? {frame : FrameId} {depth index : Nat} {value : Value}
    (here : machine.frames.get? frame depth index = some (.initialised value)) :
    property value := by
  rw [Frames.get?] at here
  split at here
  · exact values.slots _ _ _ here
  · cases here

/-- Neither variables nor fields change. -/
theorem congr {after : Machine} (frames : after.frames = machine.frames)
    (globals : after.globals = machine.globals) (fields : after.fields = machine.fields) :
    after.Values property := by
  constructor
  · rw [frames]
    exact values.slots
  · rw [globals]
    exact values.globals
  · rw [fields]
    exact values.fields

/-- A frame is added. -/
theorem addFrame (enclosing : FrameId) {added : List Value}
    (hold : ∀ value ∈ added, property value) {after : Machine}
    (frames : after.frames =
      added.foldl (fun frames value => frames.define machine.frames.size value)
        (machine.frames.addChild enclosing))
    (globals : after.globals = machine.globals) (fields : after.fields = machine.fields) :
    after.Values property := by
  constructor
  · intro frame index value here
    rw [frames] at here
    by_cases same : frame = machine.frames.size
    · rw [same, ← Array.getElem?_toList, Frames.toList_slots_addFrame] at here
      rcases List.mem_map.mp (List.mem_of_getElem? here) with ⟨other, member, isValue⟩
      cases isValue
      exact hold value member
    · rw [Frames.slots_addFrame_of_ne _ _ _ same] at here
      exact values.slots frame index value here
  · rw [globals]
    exact values.globals
  · rw [fields]
    exact values.fields

/-- A frame gets a slot. -/
theorem append (frame : FrameId) {slot : Slot Value}
    (holds : ∀ value, slot = .initialised value → property value) :
    Machine.Values property { machine with frames := machine.frames.append frame slot } := by
  refine ⟨?_, values.globals, values.fields⟩
  intro other index value here
  dsimp only at here
  by_cases same : frame = other
  · subst same
    by_cases isFrame : frame < machine.frames.size
    · rw [Frames.slots_append_self frame slot machine.frames isFrame, Array.getElem?_push] at here
      split at here
      · exact holds value (Option.some.inj here)
      · exact values.slots frame index value here
    · have beyond : (machine.frames.append frame slot).size ≤ frame := by
        rw [Frames.size_append]
        exact Nat.le_of_not_lt isFrame
      rw [Frames.slots_eq_empty _ beyond] at here
      cases here
  · rw [Frames.slots_append_of_ne same] at here
    exact values.slots other index value here

/-- A variable gets a value. -/
theorem write (frame : FrameId) (index : Nat) {value : Value} (holds : property value) :
    Machine.Values property
      { machine with frames := machine.frames.write frame index value } := by
  refine ⟨?_, values.globals, values.fields⟩
  intro other place found here
  dsimp only at here
  rw [Frames.slots_write] at here
  split at here
  · rw [Array.getElem?_modify] at here
    split at here
    · rcases Option.map_eq_some_iff.mp here with ⟨before, -, same⟩
      cases same
      exact holds
    · exact values.slots other place found here
  · exact values.slots other place found here

/-- A global variable is declared or gets a value. -/
theorem setGlobal (name : String) {slot : Slot Value}
    (holds : ∀ value, slot = .initialised value → property value) :
    Machine.Values property { machine with globals := machine.globals.insert name slot } := by
  refine ⟨values.slots, ?_, values.fields⟩
  intro other value here
  dsimp only at here
  rw [Std.TreeMap.getElem?_insert] at here
  split at here
  · exact holds value (Option.some.inj here)
  · exact values.globals other value here

/-- A field of an instance gets a value. -/
theorem setField (id : Nat) (name : String) {value : Value} (holds : property value) :
    Machine.Values property
      { machine with fields := machine.fields.modify id (·.insert name value) } := by
  refine ⟨values.slots, values.globals, ?_⟩
  intro other table field found here inTable
  dsimp only at here
  rw [Array.getElem?_modify] at here
  split at here
  · rcases Option.map_eq_some_iff.mp here with ⟨before, wasHere, rfl⟩
    rw [Std.TreeMap.getElem?_insert] at inTable
    split at inTable
    · cases inTable
      exact holds
    · exact values.fields other before field found wasHere inTable
  · exact values.fields other table field found here inTable

/-- An instance without fields is added. -/
theorem newInstance :
    Machine.Values property { machine with fields := machine.fields.push ∅ } := by
  refine ⟨values.slots, values.globals, ?_⟩
  intro other table field found here inTable
  dsimp only at here
  rw [Array.getElem?_push] at here
  split at here
  · cases here
    simp at inTable
  · exact values.fields other table field found here inTable

end Machine.Values

end Lox
