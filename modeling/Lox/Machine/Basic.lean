import Lox.Machine.Operator
import Lox.Scope.Basic

/-!
# The machine

The state of a running program and the steps that programs are made of: looking
variables up, making functions and instances, entering frames.  A step may end
with a runtime error; the state then stays as the step left it.
-/

namespace Lox

/-- The places of local variables under the ids of the expressions that use them. -/
abbrev AddressTable := Std.TreeMap Nat Address

/-- The state of a running program. -/
structure Machine where
  frames : Frames Value
  /-- The frame of the code that runs. -/
  current : FrameId
  globals : Table (Slot Value)
  /-- The fields of instances, under the identities of the instances. -/
  fields : Array (Table Value)
  /-- The first identity that no function or class has. -/
  nextId : Nat
  /-- What has been printed, in order. -/
  printed : Array String
  /-- The time that `clock` yields. -/
  clock : Float

/-- Why a step yields nothing. -/
inductive Stop where
  | fault (error : RuntimeError)
  /-- The bound on the depth of the evaluation was too small. -/
  | outOfFuel

/-- A step of the machine. -/
abbrev Step := EStateM Stop Machine

namespace Machine

/-- The frame of the code that is in no block, function or method.  It stays empty. -/
def root : FrameId := 0

/-- The machine before its first program: the only global is the function `clock`. -/
def start (clock : Float) : Machine where
  frames := Frames.empty.addRoot
  current := root
  globals := (∅ : Table (Slot Value)).insert "clock"
    (.initialised (.function ⟨0, "clock", .clock, root⟩))
  fields := #[]
  nextId := 1
  printed := #[]
  clock := clock

end Machine

namespace Step

/-- Ends with a runtime error. -/
def fail {α : Type} (line : Nat) (fault : RuntimeFault) : Step α :=
  throw (.fault ⟨line, fault⟩)

/-- Yields a result, or ends with a runtime error. -/
def ofExcept {α : Type} : Except RuntimeError α → Step α
  | .ok result => return result
  | .error error => throw (.fault error)

/-- Prints a text. -/
def print (text : String) : Step Unit :=
  modify fun machine => { machine with printed := machine.printed.push text }

/-- An identity that no function or class has. -/
def freshId : Step Nat := do
  let machine ← get
  set { machine with nextId := machine.nextId + 1 }
  return machine.nextId

/-! ## Frames -/

/-- Whether the code that runs is in no block, function or method. -/
def inRoot : Step Bool := do
  return (← get).current == Machine.root

/-- Creates a frame enclosed in another one, with slots for these values. -/
def newFrame (enclosing : FrameId) (values : List Value) : Step FrameId := do
  let machine ← get
  let frame := machine.frames.size
  set { machine with
    frames := values.foldl (fun frames value => frames.define frame value)
      (machine.frames.addChild enclosing) }
  return frame

/-- Takes a step in a frame and returns to the frame before it, also after an error. -/
def within {α : Type} (frame : FrameId) (step : Step α) : Step α := fun machine =>
  let caller := machine.current
  match step { machine with current := frame } with
  | .ok result machine => .ok result { machine with current := caller }
  | .error stop machine => .error stop { machine with current := caller }

/-- Appends a slot to the current frame and yields its index. -/
def newSlot (slot : Slot Value) : Step Nat := do
  let machine ← get
  let index := machine.frames.length machine.current
  set { machine with frames := machine.frames.append machine.current slot }
  return index

/-- Gives the variable in a slot of the current frame a value. -/
def setSlot (index : Nat) (value : Value) : Step Unit :=
  modify fun machine =>
    { machine with frames := machine.frames.write machine.current index value }

/-! ## Variables -/

/-- Puts a variable into the table of globals. -/
def setGlobal (name : String) (slot : Slot Value) : Step Unit :=
  modify fun machine => { machine with globals := machine.globals.insert name slot }

/-- Declares a variable with a value in the current frame, or globally in the root frame. -/
def defineVariable (name : Name) (value : Value) : Step Unit := do
  if ← inRoot then
    setGlobal name.text (.initialised value)
  else
    let _ ← newSlot (.initialised value)

/-- The value of a variable, which is local if its place is recorded and global otherwise. -/
def readVariable (addresses : AddressTable) (id : Nat) (name : Name) : Step Value := do
  let machine ← get
  let slot? :=
    match addresses[id]? with
    | some address => machine.frames.get? machine.current address.depth address.slot
    | none => machine.globals[name.text]?
  match slot? with
  | some (.initialised value) => return value
  | some .uninitialised => fail name.line (.uninitialisedVariable name.text)
  | none => fail name.line (.undefinedVariable name.text)

/-- Gives a variable that exists a value. -/
def assignVariable (addresses : AddressTable) (target : Reference) (value : Value) :
    Step Unit := do
  let machine ← get
  match addresses[target.id]? with
  | some address =>
    match machine.frames.holder? machine.current address.depth address.slot with
    | some holder =>
      set { machine with frames := machine.frames.write holder address.slot value }
    | none => fail target.name.line (.undefinedVariable target.name.text)
  | none =>
    if machine.globals.contains target.name.text then
      setGlobal target.name.text (.initialised value)
    else
      fail target.name.line (.undefinedVariable target.name.text)

/-! ## Functions and instances -/

/-- Makes a function value that keeps a frame. -/
def newClosure (frame : FrameId) (name : String) (behaviour : Behaviour) : Step Closure := do
  return ⟨← freshId, name, behaviour, frame⟩

/-- Makes a method into a function in which `this` is an instance. -/
def bindMethod (target : Instance) (method : Closure) : Step Closure := do
  let frame ← newFrame method.environment [.object target]
  newClosure frame method.name method.behaviour

/-- Makes the methods of a class; of several with one name the last one stays. -/
def newMethods (frame : FrameId) (allowInitializer : Bool) :
    List NamedFunction → Table Closure → Step (Table Closure)
  | [], table => return table
  | .mk name definition :: others, table => do
    let isInitializer := allowInitializer && name.text == "init"
    let method ← newClosure frame name.text (.body definition isInitializer)
    newMethods frame allowInitializer others (table.insert name.text method)

/-- Makes an instance without fields. -/
def newInstance (ofClass : Class) : Step Instance := do
  let machine ← get
  set { machine with fields := machine.fields.push ∅ }
  return ⟨machine.fields.size, ofClass⟩

/-- The field of an instance. -/
def field? (target : Instance) (name : String) : Step (Option Value) := do
  match (← get).fields[target.id]? with
  | some table => return table[name]?
  | none => return none

/-- Sets a field of an instance. -/
def setField (target : Instance) (name : String) (value : Value) : Step Unit :=
  modify fun machine =>
    { machine with fields := machine.fields.modify target.id (·.insert name value) }

/-- A property of a value: a field or a method of an instance, or a class method. -/
def property (target : Value) (name : Name) : Step Value := do
  match target with
  | .object target =>
    match ← field? target name.text with
    | some value => return value
    | none =>
      match target.ofClass.method? name.text with
      | some method => return .function (← bindMethod target method)
      | none => fail name.line (.undefinedProperty name.text)
  | .type target =>
    match target.classMethod? name.text with
    | some method => return .function method
    | none => fail name.line (.undefinedProperty name.text)
  | _ => fail name.line .hasNoProperties

/--
A method of the superclass, bound to `this`.  The superclass is in the frame
around the one that holds `this` in its first slot.
-/
def superMethod (addresses : AddressTable) (id line : Nat) (method : Name) : Step Value := do
  let machine ← get
  let slot? := fun (depth slot : Nat) => machine.frames.get? machine.current depth slot
  match addresses[id]? with
  | none => fail line (.undefinedVariable "super")
  | some ⟨depth, slot⟩ =>
    match slot? depth slot with
    | some (.initialised (.type superclass)) =>
      let this? :=
        match depth with
        | 0 => none
        | thisDepth + 1 => slot? thisDepth 0
      match this? with
      | some (.initialised (.object this)) =>
        match superclass.method? method.text with
        | some found => return .function (← bindMethod this found)
        | none => fail method.line (.undefinedProperty method.text)
      | _ => fail line (.undefinedVariable "this")
    | _ => fail line (.undefinedVariable "super")

/-- Checks that a call gives as many arguments as it should. -/
def checkArity (line expected given : Nat) : Step Unit := do
  if expected ≠ given then
    fail line (.wrongArity expected given)

end Step

end Lox
