import Lox.Proofs.Machine.Values

/-!
# Functions in machines

A property of functions that all functions in a machine have: those that are values of
variables and fields, those that are class methods, and, with another property, those that
are instance methods and have to be bound before they are called.
-/

namespace Lox

/-! ## Values -/

section

variable (free bound : Closure → Prop)

/-- What holds for the methods of a class. -/
structure ClassBody.All (body : ClassBody) : Prop where
  methods : ∀ (name : String) (method : Closure), body.methods[name]? = some method → bound method
  classMethods : ∀ (name : String) (method : Closure),
    body.classMethods[name]? = some method → free method

/-- What holds for all methods of a class, also for those that it inherits. -/
def Class.All (type : Class) : Prop :=
  ∀ body ∈ type.own :: type.inherited, body.All free bound

/-- What holds for the functions in a value. -/
def Value.All : Value → Prop
  | .function closure => free closure
  | .type ofClass => ofClass.All free bound
  | .object target => target.ofClass.All free bound
  | _ => True

/-- What holds for the functions in a slot. -/
def Slot.All : Slot Value → Prop
  | .uninitialised => True
  | .initialised value => value.All free bound

/-- What holds for all functions in a machine. -/
structure Machine.All (machine : Machine) : Prop where
  slots : ∀ (frame : FrameId) (index : Nat) (slot : Slot Value),
    (machine.frames.slots frame)[index]? = some slot → slot.All free bound
  globals : ∀ (name : String) (slot : Slot Value),
    machine.globals[name]? = some slot → slot.All free bound
  fields : ∀ (id : Nat) (table : Table Value) (name : String) (value : Value),
    machine.fields[id]? = some table → table[name]? = some value → value.All free bound

end

section

variable {free bound free' bound' : Closure → Prop}

theorem Class.All.method? {type : Class} (all : type.All free bound) {name : String}
    {method : Closure} (found : type.method? name = some method) : bound method := by
  rcases List.exists_of_findSome?_eq_some found with ⟨body, member, here⟩
  exact (all body member).methods name method here

theorem Class.All.classMethod? {type : Class} (all : type.All free bound) {name : String}
    {method : Closure} (found : type.classMethod? name = some method) : free method := by
  rcases List.exists_of_findSome?_eq_some found with ⟨body, member, here⟩
  exact (all body member).classMethods name method here

/-- What a class declares itself, and what it inherits. -/
theorem Class.all_extending {own : ClassBody} (all : own.All free bound)
    {superclass : Option Class} (inherited : ∀ type ∈ superclass, type.All free bound) :
    (Class.extending own superclass).All free bound := by
  cases superclass with
  | none =>
    intro body member
    rw [List.mem_singleton.mp member]
    exact all
  | some type => exact List.forall_mem_cons.mpr ⟨all, inherited type rfl⟩

/-- The superclass of a class is the one that it was made to extend. -/
theorem Class.superclass?_extending (own : ClassBody) (superclass : Option Class) :
    (Class.extending own superclass).superclass? = superclass := by
  cases superclass <;> rfl

/-- A constant has no functions. -/
theorem Value.all_ofLiteral (literal : Literal) : (Value.ofLiteral literal).All free bound := by
  cases literal <;> trivial

variable (freely : ∀ closure, free closure → free' closure)
  (bindable : ∀ closure, bound closure → bound' closure)
include freely bindable

theorem Class.All.imp {type : Class} (all : type.All free bound) : type.All free' bound' := by
  intro body member
  constructor
  · exact fun name method found => bindable method ((all body member).methods name method found)
  · exact fun name method found => freely method ((all body member).classMethods name method found)

theorem Value.All.imp {value : Value} (all : value.All free bound) : value.All free' bound' := by
  cases value with
  | function closure => exact freely closure all
  | type ofClass => exact Class.All.imp freely bindable all
  | object target => exact Class.All.imp freely bindable all
  | _ => trivial

theorem Slot.All.imp {slot : Slot Value} (all : slot.All free bound) : slot.All free' bound' := by
  cases slot with
  | uninitialised => trivial
  | initialised value => exact Value.All.imp freely bindable all

end

/-! ## Machines -/

section

variable {free bound free' bound' : Closure → Prop} {machine : Machine}

theorem Slot.all_iff {slot : Slot Value} :
    slot.All free bound ↔ ∀ value, slot = .initialised value → value.All free bound := by
  cases slot with
  | uninitialised =>
    constructor
    · rintro - value ⟨⟩
    · exact fun _ => trivial
  | initialised value =>
    constructor
    · rintro all _ ⟨⟩
      exact all
    · exact fun all => all value rfl

/-- The functions in a machine are those in its values. -/
theorem Machine.all_iff_values :
    machine.All free bound ↔ machine.Values (Value.All free bound) := by
  constructor
  · intro all
    constructor
    · exact fun frame index value here => all.slots frame index _ here
    · exact fun name value here => all.globals name _ here
    · exact all.fields
  · intro values
    constructor
    · intro frame index slot here
      rw [Slot.all_iff]
      rintro value rfl
      exact values.slots frame index value here
    · intro name slot here
      rw [Slot.all_iff]
      rintro value rfl
      exact values.globals name value here
    · exact values.fields

theorem Machine.All.imp (freely : ∀ closure, free closure → free' closure)
    (bindable : ∀ closure, bound closure → bound' closure) (all : machine.All free bound) :
    machine.All free' bound' := by
  rw [Machine.all_iff_values] at all ⊢
  exact all.imp fun _ => Value.All.imp freely bindable

end

namespace Machine.All

variable {free bound : Closure → Prop} {machine : Machine} (all : machine.All free bound)
include all

/-- A value that is found at an address. -/
theorem get? {frame : FrameId} {depth index : Nat} {slot : Slot Value}
    (here : machine.frames.get? frame depth index = some slot) : slot.All free bound := by
  rw [Frames.get?] at here
  split at here
  · exact all.slots _ _ _ here
  · cases here

/-- Neither variables nor fields change. -/
theorem congr {after : Machine} (frames : after.frames = machine.frames)
    (globals : after.globals = machine.globals) (fields : after.fields = machine.fields) :
    after.All free bound := by
  rw [all_iff_values] at all ⊢
  exact all.congr frames globals fields

/-- A frame is added. -/
theorem addFrame (enclosing : FrameId) {values : List Value}
    (hold : ∀ value ∈ values, value.All free bound) {after : Machine}
    (frames : after.frames =
      values.foldl (fun frames value => frames.define machine.frames.size value)
        (machine.frames.addChild enclosing))
    (globals : after.globals = machine.globals) (fields : after.fields = machine.fields) :
    after.All free bound := by
  rw [all_iff_values] at all ⊢
  exact all.addFrame enclosing hold frames globals fields

/-- A frame gets a slot. -/
theorem append (frame : FrameId) {slot : Slot Value} (holds : slot.All free bound) :
    Machine.All free bound { machine with frames := machine.frames.append frame slot } := by
  rw [all_iff_values] at all ⊢
  exact all.append frame (Slot.all_iff.mp holds)

/-- A variable gets a value. -/
theorem write (frame : FrameId) (index : Nat) {value : Value} (holds : value.All free bound) :
    Machine.All free bound { machine with frames := machine.frames.write frame index value } := by
  rw [all_iff_values] at all ⊢
  exact all.write frame index holds

/-- A global variable is declared or gets a value. -/
theorem setGlobal (name : String) {slot : Slot Value} (holds : slot.All free bound) :
    Machine.All free bound { machine with globals := machine.globals.insert name slot } := by
  rw [all_iff_values] at all ⊢
  exact all.setGlobal name (Slot.all_iff.mp holds)

/-- A field of an instance gets a value. -/
theorem setField (id : Nat) (name : String) {value : Value} (holds : value.All free bound) :
    Machine.All free bound
      { machine with fields := machine.fields.modify id (·.insert name value) } := by
  rw [all_iff_values] at all ⊢
  exact all.setField id name holds

/-- An instance without fields is added. -/
theorem newInstance :
    Machine.All free bound { machine with fields := machine.fields.push ∅ } := by
  rw [all_iff_values] at all ⊢
  exact all.newInstance

end Machine.All

end Lox
