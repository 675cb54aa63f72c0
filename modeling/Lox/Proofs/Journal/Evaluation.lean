import Lox.Proofs.Machine.Variables

/-!
# Evaluation with a journal

The evaluator once more, with a journal of what happens on the way, the earliest first: how
each slot of a frame is declared and when it gets a value later, which variables are read
without a value, which methods are bound to which instances, which functions are entered and
what they yield.
-/

namespace Lox.Noted

/-- How a local variable comes to have a slot. -/
inductive Declarer where
  | parameter
  | funDecl
  | classDecl
  | this
  | super
  /-- By a `var`, with an initial value or without. -/
  | varDecl (hasInitial : Bool)
deriving DecidableEq, Repr

/-- Something that happens while a program runs. -/
inductive Note where
  /-- A declaration is executed and gets a slot of a frame. -/
  | declares (declarer : Declarer) (frame : FrameId) (slot : Nat)
  /-- The variable in a slot gets a value: it is assigned to, or what declares it is finished. -/
  | gives (frame : FrameId) (slot : Nat)
  /-- The initial value of the variable in a slot is cut short by a fault. -/
  | abandons (frame : FrameId) (slot : Nat)
  /--
  A variable whose place is known is read, but has no value.  The function that runs was
  entered when so many things had happened; there is none outside of all functions.
  -/
  | misses (frame : FrameId) (slot : Nat) (entered : Option Nat)
  /-- A global variable is read that has no value. -/
  | missesGlobal (name : String)
  /-- A class is made. -/
  | makes (type : Class)
  /-- A method is bound to an instance. -/
  | binds (bound : Closure) (target : Instance)
  /-- A function with a body is entered. -/
  | enters (closure : Closure)
  /-- Its body ends, and the call yields a value. -/
  | yields (closure : Closure) (flow : Flow) (value : Value)

/-- What has happened, the earliest first. -/
abbrev Journal := List Note

/-- A machine and the journal of what it did. -/
structure State where
  machine : Machine
  journal : Journal

/-- A step of a machine with a journal. -/
abbrev Step := EStateM Stop State

variable {α : Type}

namespace Step

/-- A step of which nothing is noted. -/
def ordinary (step : Lox.Step α) : Step α := fun state =>
  match step state.machine with
  | .ok result machine => .ok result ⟨machine, state.journal⟩
  | .error stop machine => .error stop ⟨machine, state.journal⟩

/-- Notes what happens. -/
def note (notes : List Note) : Step Unit :=
  modify fun state => { state with journal := state.journal ++ notes }

/-- Takes a step, and notes something if it stops without a result. -/
def orNote (notes : List Note) (step : Step α) : Step α := fun state =>
  match step state with
  | .ok result after => .ok result after
  | .error stop after => .error stop { after with journal := after.journal ++ notes }

/-- Takes a step in a frame and returns to the frame before it, also if it stops. -/
def within (frame : FrameId) (step : Step α) : Step α := fun state =>
  let caller := state.machine.current
  match step { state with machine := { state.machine with current := frame } } with
  | .ok result after =>
    .ok result { after with machine := { after.machine with current := caller } }
  | .error stop after =>
    .error stop { after with machine := { after.machine with current := caller } }

/-! ## Frames and slots -/

/-- The notes of declarations that get slots of a frame, the first of them this slot. -/
def declarations (frame : FrameId) (slot : Nat) : List Declarer → List Note
  | [] => []
  | declarer :: others => .declares declarer frame slot :: declarations frame (slot + 1) others

/-- Creates a frame with slots that are declared somehow. -/
def newFrame (enclosing : FrameId) (declarers : List Declarer) (values : List Value) :
    Step FrameId := do
  let frame ← ordinary (.newFrame enclosing values)
  note (declarations frame 0 declarers)
  return frame

/-- Appends a slot to the current frame. -/
def newSlot (declarer : Declarer) (slot : Slot Value) : Step Nat := do
  let machine ← ordinary get
  let index ← ordinary (.newSlot slot)
  note [.declares declarer machine.current index]
  return index

/-- Gives a variable of the current frame a value. -/
def setSlot (index : Nat) (value : Value) : Step Unit := do
  let machine ← ordinary get
  ordinary (.setSlot index value)
  note [.gives machine.current index]

/-! ## Variables -/

/-- The note of a read that finds no value. -/
def missed (addresses : AddressTable) (entered : Option Nat) (id : Nat) (name : Name)
    (machine : Machine) : List Note :=
  match addresses[id]? with
  | some address =>
    match machine.frames.ancestor? machine.current address.depth with
    | some frame =>
      match (machine.frames.slots frame)[address.slot]? with
      | some .uninitialised => [.misses frame address.slot entered]
      | _ => []
    | none => []
  | none =>
    match machine.globals[name.text]? with
    | some .uninitialised => [.missesGlobal name.text]
    | _ => []

/-- The value of a variable. -/
def readVariable (addresses : AddressTable) (entered : Option Nat) (id : Nat) (name : Name) :
    Step Value := do
  let machine ← ordinary get
  note (missed addresses entered id name machine)
  ordinary (.readVariable addresses id name)

/-- The note of an assignment to a local variable. -/
def given (addresses : AddressTable) (id : Nat) (machine : Machine) : List Note :=
  match addresses[id]? with
  | some address =>
    match machine.frames.holder? machine.current address.depth address.slot with
    | some frame => [.gives frame address.slot]
    | none => []
  | none => []

/-- Gives a variable that exists a value. -/
def assignVariable (addresses : AddressTable) (target : Reference) (value : Value) :
    Step Unit := do
  let machine ← ordinary get
  ordinary (.assignVariable addresses target value)
  note (given addresses target.id machine)

/-- Declares a function. -/
def defineFunction (name : Name) (closure : Closure) : Step Unit := do
  if ← ordinary .inRoot then
    ordinary (.setGlobal name.text (.initialised (.function closure)))
  else
    let _ ← newSlot .funDecl (.initialised (.function closure))

/-- Declares a variable, then takes a step for its initial value, if it has one. -/
def declareVariable (name : Name) (initial : Option (Step Value)) : Step Unit := do
  if ← ordinary .inRoot then
    match initial with
    | some initial =>
      let value ← initial
      ordinary (.setGlobal name.text (.initialised value))
    | none => ordinary (.setGlobal name.text .uninitialised)
  else
    let machine ← ordinary get
    let index ← newSlot (.varDecl initial.isSome) .uninitialised
    match initial with
    | some initial =>
      let value ← orNote [.abandons machine.current index] initial
      setSlot index value
    | none => pure ()

/-! ## Functions and classes -/

/-- Makes a method into a function in which `this` is an instance. -/
def bindMethod (target : Instance) (method : Closure) : Step Closure := do
  let frame ← newFrame method.environment [.this] [.object target]
  let bound ← ordinary (.newClosure frame method.name method.behaviour)
  note [.binds bound target]
  return bound

/-- A property of a value. -/
def property (target : Value) (name : Name) : Step Value := do
  match target with
  | .object target =>
    match ← ordinary (.field? target name.text) with
    | some value => return value
    | none =>
      match target.ofClass.method? name.text with
      | some method => return .function (← bindMethod target method)
      | none => ordinary (.fail name.line (.undefinedProperty name.text))
  | .type target =>
    match target.classMethod? name.text with
    | some method => return .function method
    | none => ordinary (.fail name.line (.undefinedProperty name.text))
  | _ => ordinary (.fail name.line .hasNoProperties)

/-- A method of the superclass, bound to `this`. -/
def superMethod (addresses : AddressTable) (id line : Nat) (method : Name) : Step Value := do
  let machine ← ordinary get
  match Lox.Step.superclass? addresses id machine, Lox.Step.receiver? addresses id machine with
  | some superclass, some target =>
    match superclass.method? method.text with
    | some found => return .function (← bindMethod target found)
    | none => ordinary (.superMethod addresses id line method)
  | _, _ => ordinary (.superMethod addresses id line method)

/-- The class that a class extends. -/
def superclass (addresses : AddressTable) (entered : Option Nat) :
    Option Reference → Step (Option Class)
  | none => return none
  | some target => do
    match ← readVariable addresses entered target.id target.name with
    | .type superclass => return some superclass
    | _ => ordinary (.fail target.name.line .superclassNotAClass)

/-- The frame that the methods of a class keep. -/
def methodFrame : Option Class → Step FrameId
  | none => return (← ordinary get).current
  | some superclass => do newFrame (← ordinary get).current [.super] [.type superclass]

/-- Makes a class whose name is declared. -/
def newClass (addresses : AddressTable) (entered : Option Nat) (name : Name)
    (superclassName : Option Reference) (methods classMethods : List NamedFunction) :
    Step Value := do
  let superclass ← superclass addresses entered superclassName
  let frame ← methodFrame superclass
  let methods ← ordinary (.newMethods frame true methods ∅)
  let classMethods ← ordinary (.newMethods frame false classMethods ∅)
  let id ← ordinary .freshId
  let type := Class.extending ⟨id, name.text, methods, classMethods⟩ superclass
  note [.makes type]
  return .type type

/-- Declares a class. -/
def declareClass (addresses : AddressTable) (entered : Option Nat) (name : Name)
    (superclassName : Option Reference) (methods classMethods : List NamedFunction) :
    Step Value := do
  if ← ordinary .inRoot then
    ordinary (.setGlobal name.text .uninitialised)
    let value ← newClass addresses entered name superclassName methods classMethods
    ordinary (.setGlobal name.text (.initialised value))
    return value
  else
    let index ← newSlot .classDecl .uninitialised
    let value ← newClass addresses entered name superclassName methods classMethods
    setSlot index value
    return value

/-- Notes that a function is entered, and yields how much had happened before. -/
def enter (closure : Closure) : Step Nat := do
  let state ← get
  note [.enters closure]
  return state.journal.length

/-- What the call of a function yields whose body ends somehow. -/
def callResult (closure : Closure) (isInitializer : Bool) (flow : Flow) : Step Value := do
  if isInitializer then
    let machine ← ordinary get
    match machine.frames.get? closure.environment 0 0 with
    | some (.initialised this) => return this
    | _ => return .nil
  else
    return flow.callResult

/-! ## The evaluator -/

mutual

/-- Evaluates an expression in a function that was entered at some time. -/
def evaluate (addresses : AddressTable) (entered : Option Nat) : Nat → Expr → Step Value
  | 0, _ => ordinary (throw .outOfFuel)
  | fuel + 1, expression =>
    match expression with
    | .literal value => return .ofLiteral value
    | .group inner => evaluate addresses entered fuel inner
    | .unary op line operand => do
      let value ← evaluate addresses entered fuel operand
      ordinary (.ofExcept (op.apply line value))
    | .binary op line left right => do
      let leftValue ← evaluate addresses entered fuel left
      let rightValue ← evaluate addresses entered fuel right
      ordinary (.ofExcept (op.apply line leftValue rightValue))
    | .logical op _ left right => do
      let leftValue ← evaluate addresses entered fuel left
      if op.decides leftValue then
        return leftValue
      else
        evaluate addresses entered fuel right
    | .read target => readVariable addresses entered target.id target.name
    | .assign target value => do
      let value ← evaluate addresses entered fuel value
      assignVariable addresses target value
      return value
    | .call callee line arguments => do
      let callee ← evaluate addresses entered fuel callee
      let arguments ← evaluateAll addresses entered fuel arguments
      call addresses fuel line callee arguments
    | .function definition => do
      let machine ← ordinary get
      return .function
        (← ordinary (.newClosure machine.current "anonymous" (.body definition false)))
    | .get object name => do
      property (← evaluate addresses entered fuel object) name
    | .set object name value => do
      match ← evaluate addresses entered fuel object with
      | .object target =>
        let value ← evaluate addresses entered fuel value
        ordinary (.setField target name.text value)
        return value
      | _ => ordinary (.fail name.line .hasNoFields)
    | .this id line => readVariable addresses entered id ⟨"this", line⟩
    | .super id line method => superMethod addresses id line method
termination_by structural fuel => fuel

/-- Evaluates expressions in their order. -/
def evaluateAll (addresses : AddressTable) (entered : Option Nat) :
    Nat → List Expr → Step (List Value)
  | 0, _ => ordinary (throw .outOfFuel)
  | _ + 1, [] => return []
  | fuel + 1, first :: others => do
    let value ← evaluate addresses entered fuel first
    return value :: (← evaluateAll addresses entered fuel others)
termination_by structural fuel => fuel

/-- Calls a function, or makes an instance of a class. -/
def call (addresses : AddressTable) : Nat → (line : Nat) → Value → List Value → Step Value
  | 0, _, _, _ => ordinary (throw .outOfFuel)
  | fuel + 1, line, callee, arguments => do
    match callee with
    | .function closure =>
      ordinary (.checkArity line closure.arity arguments.length)
      invoke addresses fuel closure arguments
    | .type ofClass =>
      ordinary (.checkArity line ofClass.arity arguments.length)
      let created ← ordinary (.newInstance ofClass)
      match ofClass.initializer? with
      | some initializer =>
        let bound ← bindMethod created initializer
        let _ ← invoke addresses fuel bound arguments
        return .object created
      | none => return .object created
    | _ => ordinary (.fail line .notCallable)
termination_by structural fuel => fuel

/-- Runs a function. -/
def invoke (addresses : AddressTable) : Nat → Closure → List Value → Step Value
  | 0, _, _ => ordinary (throw .outOfFuel)
  | fuel + 1, closure, arguments =>
    match closure.behaviour with
    | .clock => do
      let machine ← ordinary get
      return .number machine.clock
    | .body definition isInitializer => do
      let entered ← enter closure
      let parameters ←
        newFrame closure.environment (definition.parameters.map fun _ => .parameter) arguments
      let body ← newFrame parameters [] []
      let flow ← within body (executeAll addresses (some entered) fuel none definition.body)
      let value ← callResult closure isInitializer flow
      note [.yields closure flow value]
      return value
termination_by structural fuel => fuel

/-- Executes a statement in a function that was entered at some time. -/
def execute (addresses : AddressTable) (entered : Option Nat) : Nat → Stmt → Step Flow
  | 0, _ => ordinary (throw .outOfFuel)
  | fuel + 1, statement =>
    match statement with
    | .expression value => do
      return .normal (some (← evaluate addresses entered fuel value))
    | .print value => do
      let value ← evaluate addresses entered fuel value
      ordinary (.print value.display)
      return .normal none
    | .varDecl name initial => do
      match initial with
      | some initial => declareVariable name (some (evaluate addresses entered fuel initial))
      | none => declareVariable name none
      return .normal none
    | .block body => do
      let machine ← ordinary get
      let frame ← newFrame machine.current [] []
      within frame (executeAll addresses entered fuel none body)
    | .ifElse condition whenTrue whenFalse => do
      let value ← evaluate addresses entered fuel condition
      if value.isTruthy then
        execute addresses entered fuel whenTrue
      else
        match whenFalse with
        | some whenFalse => execute addresses entered fuel whenFalse
        | none => return .normal none
    | .whileLoop condition body => loop addresses entered fuel condition body
    | .breakLoop _ => return .broken
    | .funDecl (.mk name definition) => do
      let machine ← ordinary get
      let closure ← ordinary (.newClosure machine.current name.text (.body definition false))
      defineFunction name closure
      return .normal none
    | .returnValue _ value => do
      match value with
      | some value => return .returned (← evaluate addresses entered fuel value)
      | none => return .returned .nil
    | .classDecl name superclass methods classMethods => do
      return .normal
        (some (← declareClass addresses entered name superclass methods classMethods))
termination_by structural fuel => fuel

/-- Executes statements in their order until one does not run to its end. -/
def executeAll (addresses : AddressTable) (entered : Option Nat) :
    Nat → (result : Option Value) → List Stmt → Step Flow
  | 0, _, _ => ordinary (throw .outOfFuel)
  | _ + 1, result, [] => return .normal result
  | fuel + 1, _, first :: others => do
    match ← execute addresses entered fuel first with
    | .normal result => executeAll addresses entered fuel result others
    | unfinished => return unfinished
termination_by structural fuel => fuel

/-- Executes a body as long as a condition holds. -/
def loop (addresses : AddressTable) (entered : Option Nat) : Nat → Expr → Stmt → Step Flow
  | 0, _, _ => ordinary (throw .outOfFuel)
  | fuel + 1, condition, body => do
    let value ← evaluate addresses entered fuel condition
    if value.isTruthy then
      match ← execute addresses entered fuel body with
      | .normal _ => loop addresses entered fuel condition body
      | .broken => return .normal none
      | .returned value => return .returned value
    else
      return .normal none
termination_by structural fuel => fuel

end

/-- Executes the statements of a program; they are in no function. -/
def interpret (addresses : AddressTable) (fuel : Nat) (result : Option Value) :
    List Stmt → Step (Option Value)
  | [] => return result
  | first :: others => do
    let flow ← execute addresses none fuel first
    interpret addresses fuel flow.programResult others

end Step

end Lox.Noted
