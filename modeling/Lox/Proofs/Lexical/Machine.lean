import Lox.Machine.Basic

/-!
# A machine without frames

Here a variable is a cell, and an environment says which cell each name means.  To
execute a declaration is to put the name and a fresh cell in front of the environment.
Nothing has to be found out about a program before it runs.
-/

namespace Lox.Lexical

/-- The number of a cell, in the order of their creation. -/
abbrev CellId := Nat

/-- The cells that names mean, the latest declaration first. -/
abbrev Environment := List (String × CellId)

/-- The state of a running program. -/
structure Machine where
  /-- The local variables, `this` and `super` among them. -/
  cells : Array (Slot (Value Environment))
  globals : Table (Slot (Value Environment))
  /-- The fields of instances, under the identities of the instances. -/
  fields : Array (Table (Value Environment))
  /-- The first identity that no function or class has. -/
  nextId : Nat
  /-- What has been printed, in order. -/
  printed : Array String
  /-- The time that `clock` yields. -/
  clock : Float

/-- A step of the machine. -/
abbrev Step := EStateM Stop Machine

/-- The machine before its first program: the only global is the function `clock`. -/
def Machine.start (clock : Float) : Machine where
  cells := #[]
  globals := (∅ : Table (Slot (Value Environment))).insert "clock"
    (.initialised (.function ⟨0, "clock", .clock, []⟩))
  fields := #[]
  nextId := 1
  printed := #[]
  clock := clock

/-- The variable that a name means: a local one of the environment, or else a global one. -/
def Machine.slotOf? (environment : Environment) (name : String) (machine : Machine) :
    Option (Slot (Value Environment)) :=
  match environment.lookup name with
  | some cell => machine.cells[cell]?
  | none => machine.globals[name]?

namespace Step

variable {α : Type}

/-- Ends with a runtime error. -/
def fail (line : Nat) (fault : RuntimeFault) : Step α :=
  throw (.fault ⟨line, fault⟩)

/-- Yields a result, or ends with a runtime error. -/
def ofExcept : Except RuntimeError α → Step α
  | .ok result => return result
  | .error error => throw (.fault error)

/-- Prints a text. -/
def print (text : String) : Step Unit :=
  modify fun machine => { machine with printed := machine.printed.push text }

/-- An identity that no function or class has. -/
def freshId : Step Nat := do
  let machine ← get
  set { machine with nextId := machine.nextId + 1 }
  return machine.nextId

/-! ## Variables -/

/-- A cell that is new. -/
def newCell (slot : Slot (Value Environment)) : Step CellId := do
  let machine ← get
  set { machine with cells := machine.cells.push slot }
  return machine.cells.size

/-- Gives the variable in a cell a value. -/
def setCell (cell : CellId) (value : Value Environment) : Step Unit :=
  modify fun machine =>
    { machine with cells := machine.cells.modify cell fun _ => .initialised value }

/-- Puts a variable into the table of globals. -/
def setGlobal (name : String) (slot : Slot (Value Environment)) : Step Unit :=
  modify fun machine => { machine with globals := machine.globals.insert name slot }

/-- Declares a name: it means a fresh cell from now on. -/
def declare (environment : Environment) (name : String) (slot : Slot (Value Environment)) :
    Step Environment := do
  return (name, ← newCell slot) :: environment

/-- Declares names with values. -/
def declareAll (environment : Environment) :
    List Name → List (Value Environment) → Step Environment
  | name :: names, value :: values => do
    declareAll (← declare environment name.text (.initialised value)) names values
  | _, _ => return environment

/-- The value of a variable. -/
def readVariable (environment : Environment) (name : Name) : Step (Value Environment) := do
  match (← get).slotOf? environment name.text with
  | some (.initialised value) => return value
  | some .uninitialised => fail name.line (.uninitialisedVariable name.text)
  | none => fail name.line (.undefinedVariable name.text)

/-- Gives a variable that exists a value. -/
def assignVariable (environment : Environment) (name : Name) (value : Value Environment) :
    Step Unit := do
  match environment.lookup name.text with
  | some cell => setCell cell value
  | none =>
    if (← get).globals.contains name.text then
      setGlobal name.text (.initialised value)
    else
      fail name.line (.undefinedVariable name.text)

/-! ## Functions and instances -/

/-- Makes a function value that keeps an environment. -/
def newClosure (environment : Environment) (name : String) (behaviour : Behaviour) :
    Step (Closure Environment) := do
  return ⟨← freshId, name, behaviour, environment⟩

/-- Makes a method into a function in which `this` is an instance. -/
def bindMethod (target : Instance Environment) (method : Closure Environment) :
    Step (Closure Environment) := do
  let environment ← declare method.environment "this" (.initialised (.object target))
  newClosure environment method.name method.behaviour

/-- Makes the methods of a class; of several with one name the last one stays. -/
def newMethods (environment : Environment) (allowInitializer : Bool) :
    List NamedFunction → Table (Closure Environment) → Step (Table (Closure Environment))
  | [], table => return table
  | .mk name definition :: others, table => do
    let isInitializer := allowInitializer && name.text == "init"
    let method ← newClosure environment name.text (.body definition isInitializer)
    newMethods environment allowInitializer others (table.insert name.text method)

/-- Makes an instance without fields. -/
def newInstance (ofClass : Class Environment) : Step (Instance Environment) := do
  let machine ← get
  set { machine with fields := machine.fields.push ∅ }
  return ⟨machine.fields.size, ofClass⟩

/-- The field of an instance. -/
def field? (target : Instance Environment) (name : String) :
    Step (Option (Value Environment)) := do
  match (← get).fields[target.id]? with
  | some table => return table[name]?
  | none => return none

/-- Sets a field of an instance. -/
def setField (target : Instance Environment) (name : String) (value : Value Environment) :
    Step Unit :=
  modify fun machine =>
    { machine with fields := machine.fields.modify target.id (·.insert name value) }

/-- A property of a value: a field or a method of an instance, or a class method. -/
def property (target : Value Environment) (name : Name) : Step (Value Environment) := do
  match target with
  | .object target =>
    match ← field? target name.text with
    | some value => return value
    | none =>
      match target.ofClass.method? name.text with
      | some method => return .function (← bindMethod target method)
      | none => fail name.line (.undefinedProperty name.text)
  | .type target =>
    match target.classMethod? name.text with
    | some method => return .function method
    | none => fail name.line (.undefinedProperty name.text)
  | _ => fail name.line .hasNoProperties

/-- A method of what `super` means, bound to what `this` means. -/
def superMethod (environment : Environment) (line : Nat) (method : Name) :
    Step (Value Environment) := do
  match (← get).slotOf? environment "super" with
  | some (.initialised (.type superclass)) =>
    match (← get).slotOf? environment "this" with
    | some (.initialised (.object this)) =>
      match superclass.method? method.text with
      | some found => return .function (← bindMethod this found)
      | none => fail method.line (.undefinedProperty method.text)
    | _ => fail line (.undefinedVariable "this")
  | _ => fail line (.undefinedVariable "super")

/-- Checks that a call gives as many arguments as it should. -/
def checkArity (line expected given : Nat) : Step Unit := do
  if expected ≠ given then
    fail line (.wrongArity expected given)

end Step

end Lox.Lexical
