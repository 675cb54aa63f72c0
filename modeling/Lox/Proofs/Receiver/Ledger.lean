import Lox.Machine.Evaluation

/-!
# Evaluation with a ledger

The evaluator once more, but `this` and `super` are not variables.  A ledger notes, when a
method is bound, to which instance, and when a class is made, which methods it declares.
A function takes over what is noted of the code that makes it.  `this` is the instance that
is noted of the function that runs, and `super` begins at the superclass of the class that
declares its method; no frame is looked at for that.

The ledger also notes what was put into the frames that hold `this` or `super`.  It is a
violation to write such a frame or to add a slot to it.
-/

namespace Lox.Tied

/-- What `this` and `super` mean in a method that is bound, and in functions in it. -/
structure Tie where
  /-- The instance that the method is bound to. -/
  target : Instance
  /-- The class that declares the method. -/
  home : Class

/-- What is noted while programs run. -/
structure Ledger where
  /-- The ties of functions, under their identities. -/
  ties : Nat → Option Tie
  /-- The classes that declare instance methods, under the identities of the methods. -/
  homes : Nat → Option Class
  /-- What is held by the frames that were made for `this` or `super`. -/
  holders : FrameId → Option Value

namespace Ledger

/-- Nothing is noted. -/
def empty : Ledger where
  ties := fun _ => none
  homes := fun _ => none
  holders := fun _ => none

/-- Notes the tie of a function, if it has one. -/
def noteTie (id : Nat) (tie : Option Tie) (ledger : Ledger) : Ledger :=
  { ledger with ties := fun other => if other = id then tie else ledger.ties other }

/-- Notes the class that declares the methods with these identities. -/
def noteHome (first last : Nat) (home : Class) (ledger : Ledger) : Ledger :=
  { ledger with
    homes := fun id => if first ≤ id ∧ id < last then some home else ledger.homes id }

/-- Notes what a frame holds. -/
def noteHolder (frame : FrameId) (value : Value) (ledger : Ledger) : Ledger :=
  { ledger with
    holders := fun other => if other = frame then some value else ledger.holders other }

end Ledger

/-- What should not happen. -/
inductive Violation where
  /-- It is not noted what `this` or `super` means. -/
  | untied
  /-- A frame that holds `this` or `super` is changed. -/
  | overwritten
deriving DecidableEq, Repr

/-- Why a step with a ledger yields nothing. -/
inductive Stop where
  /-- The machine stops. -/
  | ordinary (stop : Lox.Stop)
  | violated (violation : Violation)

/-- A machine and the ledger of what it did. -/
structure State where
  machine : Machine
  ledger : Ledger

/-- A step of a machine with a ledger. -/
abbrev Step := EStateM Stop State

variable {α : Type}

namespace Step

/-- A step of which nothing is noted. -/
def ordinary (step : Lox.Step α) : Step α := fun state =>
  match step state.machine with
  | .ok result machine => .ok result ⟨machine, state.ledger⟩
  | .error stop machine => .error (.ordinary stop) ⟨machine, state.ledger⟩

/-- Ends with a violation. -/
def violate (violation : Violation) : Step α :=
  throw (.violated violation)

/-- Notes something. -/
def note (change : Ledger → Ledger) : Step Unit :=
  modify fun state => { state with ledger := change state.ledger }

/-- The tie of a function. -/
def noted (id : Nat) : Step (Option Tie) := do
  return (← get).ledger.ties id

/-- Takes a step in a frame and returns to the frame before it, also if it stops. -/
def within (frame : FrameId) (step : Step α) : Step α := fun state =>
  let caller := state.machine.current
  match step { state with machine := { state.machine with current := frame } } with
  | .ok result after =>
    .ok result { after with machine := { after.machine with current := caller } }
  | .error stop after =>
    .error stop { after with machine := { after.machine with current := caller } }

/-! ## Frames that hold `this` or `super` -/

/-- Creates a frame for `this` or `super`. -/
def newHolder (enclosing : FrameId) (value : Value) : Step FrameId := do
  let frame ← ordinary (.newFrame enclosing [value])
  note (.noteHolder frame value)
  return frame

/-- A frame is going to be changed. -/
def checkOpen (frame : FrameId) : Step Unit := do
  let state ← get
  match state.ledger.holders frame with
  | some _ => violate .overwritten
  | none => return ()

/-- Appends a slot to the current frame. -/
def newSlot (slot : Slot Value) : Step Nat := do
  let machine ← ordinary get
  checkOpen machine.current
  ordinary (.newSlot slot)

/-- Gives a variable of the current frame a value. -/
def setSlot (index : Nat) (value : Value) : Step Unit := do
  let machine ← ordinary get
  checkOpen machine.current
  ordinary (.setSlot index value)

/-- The frame of a local variable that is used. -/
def holder? (addresses : AddressTable) (id : Nat) (machine : Machine) : Option FrameId :=
  addresses[id]?.bind fun address =>
    machine.frames.holder? machine.current address.depth address.slot

/-- A variable is going to be changed. -/
def checkVariable (addresses : AddressTable) (id : Nat) : Step Unit := do
  let machine ← ordinary get
  match holder? addresses id machine with
  | some holder => checkOpen holder
  | none => return ()

/-- Gives a variable that exists a value. -/
def assignVariable (addresses : AddressTable) (target : Reference) (value : Value) :
    Step Unit := do
  checkVariable addresses target.id
  ordinary (.assignVariable addresses target value)

/-- Declares a variable with a value. -/
def defineVariable (name : Name) (value : Value) : Step Unit := do
  if ← ordinary .inRoot then
    ordinary (.setGlobal name.text (.initialised value))
  else
    let _ ← newSlot (.initialised value)

/-- Declares a variable, then takes a step for its initial value, if it has one. -/
def declareVariable (name : Name) (initial : Option (Step Value)) : Step Unit := do
  if ← ordinary .inRoot then
    match initial with
    | some initial =>
      let value ← initial
      ordinary (.setGlobal name.text (.initialised value))
    | none => ordinary (.setGlobal name.text .uninitialised)
  else
    let index ← newSlot .uninitialised
    match initial with
    | some initial =>
      let value ← initial
      setSlot index value
    | none => pure ()

/-! ## Functions and classes -/

/-- Makes a function value and notes its tie. -/
def newClosure (tie : Option Tie) (frame : FrameId) (name : String) (behaviour : Behaviour) :
    Step Closure := do
  let closure ← ordinary (.newClosure frame name behaviour)
  note (.noteTie closure.id tie)
  return closure

/-- Makes a method into a function that is tied to an instance. -/
def bindMethod (target : Instance) (method : Closure) : Step Closure := do
  let state ← get
  match state.ledger.homes method.id with
  | some home =>
    let frame ← newHolder method.environment (.object target)
    newClosure (some ⟨target, home⟩) frame method.name method.behaviour
  | none => violate .untied

/-- A property of a value. -/
def property (target : Value) (name : Name) : Step Value := do
  match target with
  | .object target =>
    match ← ordinary (.field? target name.text) with
    | some value => return value
    | none =>
      match target.ofClass.method? name.text with
      | some method => return .function (← bindMethod target method)
      | none => ordinary (.fail name.line (.undefinedProperty name.text))
  | .type target =>
    match target.classMethod? name.text with
    | some method => return .function method
    | none => ordinary (.fail name.line (.undefinedProperty name.text))
  | _ => ordinary (.fail name.line .hasNoProperties)

/-- The instance that the running code is tied to. -/
def this : Option Tie → Step Value
  | some tie => return .object tie.target
  | none => violate .untied

/-- The superclass of the class that declares the running method. -/
def extended : Option Tie → Option (Instance × Class)
  | some tie => tie.home.superclass?.map (tie.target, ·)
  | none => none

/-- A method of that superclass, bound to `this`. -/
def superMethod (tie : Option Tie) (method : Name) : Step Value :=
  match extended tie with
  | some (target, superclass) =>
    match superclass.method? method.text with
    | some found => do return .function (← bindMethod target found)
    | none => ordinary (.fail method.line (.undefinedProperty method.text))
  | none => violate .untied

/-- The class that a class extends. -/
def superclass (addresses : AddressTable) : Option Reference → Step (Option Class)
  | none => return none
  | some target => do
    match ← ordinary (.readVariable addresses target.id target.name) with
    | .type superclass => return some superclass
    | _ => ordinary (.fail target.name.line .superclassNotAClass)

/-- The frame that the methods of a class keep. -/
def methodFrame : Option Class → Step FrameId
  | none => return (← ordinary get).current
  | some superclass => do newHolder (← ordinary get).current (.type superclass)

/-- Makes a class whose name is declared, and notes that it declares its methods. -/
def newClass (addresses : AddressTable) (name : Name) (superclassName : Option Reference)
    (methods classMethods : List NamedFunction) : Step Value := do
  let superclass ← superclass addresses superclassName
  let frame ← methodFrame superclass
  let before ← ordinary get
  let methods ← ordinary (.newMethods frame true methods ∅)
  let after ← ordinary get
  let classMethods ← ordinary (.newMethods frame false classMethods ∅)
  let id ← ordinary .freshId
  let type := Class.extending ⟨id, name.text, methods, classMethods⟩ superclass
  note (.noteHome before.nextId after.nextId type)
  return .type type

/-- Declares a class. -/
def declareClass (addresses : AddressTable) (name : Name) (superclassName : Option Reference)
    (methods classMethods : List NamedFunction) : Step Value := do
  if ← ordinary .inRoot then
    ordinary (.setGlobal name.text .uninitialised)
    let value ← newClass addresses name superclassName methods classMethods
    ordinary (.setGlobal name.text (.initialised value))
    return value
  else
    let index ← newSlot .uninitialised
    let value ← newClass addresses name superclassName methods classMethods
    setSlot index value
    return value

/-! ## The evaluator -/

mutual

/-- Evaluates an expression of code with a tie. -/
def evaluate (addresses : AddressTable) (tie : Option Tie) : Nat → Expr → Step Value
  | 0, _ => ordinary (throw .outOfFuel)
  | fuel + 1, expression =>
    match expression with
    | .literal value => return .ofLiteral value
    | .group inner => evaluate addresses tie fuel inner
    | .unary op line operand => do
      let value ← evaluate addresses tie fuel operand
      ordinary (.ofExcept (op.apply line value))
    | .binary op line left right => do
      let leftValue ← evaluate addresses tie fuel left
      let rightValue ← evaluate addresses tie fuel right
      ordinary (.ofExcept (op.apply line leftValue rightValue))
    | .logical op _ left right => do
      let leftValue ← evaluate addresses tie fuel left
      if op.decides leftValue then
        return leftValue
      else
        evaluate addresses tie fuel right
    | .read target => ordinary (.readVariable addresses target.id target.name)
    | .assign target value => do
      let value ← evaluate addresses tie fuel value
      assignVariable addresses target value
      return value
    | .call callee line arguments => do
      let callee ← evaluate addresses tie fuel callee
      let arguments ← evaluateAll addresses tie fuel arguments
      call addresses fuel line callee arguments
    | .function definition => do
      let machine ← ordinary get
      return .function (← newClosure tie machine.current "anonymous" (.body definition false))
    | .get object name => do
      property (← evaluate addresses tie fuel object) name
    | .set object name value => do
      match ← evaluate addresses tie fuel object with
      | .object target =>
        let value ← evaluate addresses tie fuel value
        ordinary (.setField target name.text value)
        return value
      | _ => ordinary (.fail name.line .hasNoFields)
    | .this _ _ => this tie
    | .super _ _ method => superMethod tie method
termination_by structural fuel => fuel

/-- Evaluates expressions in their order. -/
def evaluateAll (addresses : AddressTable) (tie : Option Tie) :
    Nat → List Expr → Step (List Value)
  | 0, _ => ordinary (throw .outOfFuel)
  | _ + 1, [] => return []
  | fuel + 1, first :: others => do
    let value ← evaluate addresses tie fuel first
    return value :: (← evaluateAll addresses tie fuel others)
termination_by structural fuel => fuel

/-- Calls a function, or makes an instance of a class. -/
def call (addresses : AddressTable) : Nat → (line : Nat) → Value → List Value → Step Value
  | 0, _, _, _ => ordinary (throw .outOfFuel)
  | fuel + 1, line, callee, arguments => do
    match callee with
    | .function closure =>
      ordinary (.checkArity line closure.arity arguments.length)
      invoke addresses fuel closure arguments
    | .type ofClass =>
      ordinary (.checkArity line ofClass.arity arguments.length)
      let created ← ordinary (.newInstance ofClass)
      match ofClass.initializer? with
      | some initializer =>
        let bound ← bindMethod created initializer
        let _ ← invoke addresses fuel bound arguments
        return .object created
      | none => return .object created
    | _ => ordinary (.fail line .notCallable)
termination_by structural fuel => fuel

/-- Runs a function, with the tie that is noted of it. -/
def invoke (addresses : AddressTable) : Nat → Closure → List Value → Step Value
  | 0, _, _ => ordinary (throw .outOfFuel)
  | fuel + 1, closure, arguments =>
    match closure.behaviour with
    | .clock => do
      let machine ← ordinary get
      return .number machine.clock
    | .body definition isInitializer => do
      let tie ← noted closure.id
      let parameters ← ordinary (.newFrame closure.environment arguments)
      let body ← ordinary (.newFrame parameters [])
      let flow ← within body (executeAll addresses tie fuel none definition.body)
      if isInitializer then
        let machine ← ordinary get
        match machine.frames.get? closure.environment 0 0 with
        | some (.initialised this) => return this
        | _ => return .nil
      else
        return flow.callResult
termination_by structural fuel => fuel

/-- Executes a statement of code with a tie. -/
def execute (addresses : AddressTable) (tie : Option Tie) : Nat → Stmt → Step Flow
  | 0, _ => ordinary (throw .outOfFuel)
  | fuel + 1, statement =>
    match statement with
    | .expression value => do
      return .normal (some (← evaluate addresses tie fuel value))
    | .print value => do
      let value ← evaluate addresses tie fuel value
      ordinary (.print value.display)
      return .normal none
    | .varDecl name initial => do
      match initial with
      | some initial => declareVariable name (some (evaluate addresses tie fuel initial))
      | none => declareVariable name none
      return .normal none
    | .block body => do
      let machine ← ordinary get
      let frame ← ordinary (.newFrame machine.current [])
      within frame (executeAll addresses tie fuel none body)
    | .ifElse condition whenTrue whenFalse => do
      let value ← evaluate addresses tie fuel condition
      if value.isTruthy then
        execute addresses tie fuel whenTrue
      else
        match whenFalse with
        | some whenFalse => execute addresses tie fuel whenFalse
        | none => return .normal none
    | .whileLoop condition body => loop addresses tie fuel condition body
    | .breakLoop _ => return .broken
    | .funDecl (.mk name definition) => do
      let machine ← ordinary get
      let closure ← newClosure tie machine.current name.text (.body definition false)
      defineVariable name (.function closure)
      return .normal none
    | .returnValue _ value => do
      match value with
      | some value => return .returned (← evaluate addresses tie fuel value)
      | none => return .returned .nil
    | .classDecl name superclass methods classMethods => do
      return .normal (some (← declareClass addresses name superclass methods classMethods))
termination_by structural fuel => fuel

/-- Executes statements in their order until one does not run to its end. -/
def executeAll (addresses : AddressTable) (tie : Option Tie) :
    Nat → (result : Option Value) → List Stmt → Step Flow
  | 0, _, _ => ordinary (throw .outOfFuel)
  | _ + 1, result, [] => return .normal result
  | fuel + 1, _, first :: others => do
    match ← execute addresses tie fuel first with
    | .normal result => executeAll addresses tie fuel result others
    | unfinished => return unfinished
termination_by structural fuel => fuel

/-- Executes a body as long as a condition holds. -/
def loop (addresses : AddressTable) (tie : Option Tie) : Nat → Expr → Stmt → Step Flow
  | 0, _, _ => ordinary (throw .outOfFuel)
  | fuel + 1, condition, body => do
    let value ← evaluate addresses tie fuel condition
    if value.isTruthy then
      match ← execute addresses tie fuel body with
      | .normal _ => loop addresses tie fuel condition body
      | .broken => return .normal none
      | .returned value => return .returned value
    else
      return .normal none
termination_by structural fuel => fuel

end

/-- Executes the statements of a program; they are in no method. -/
def interpret (addresses : AddressTable) (fuel : Nat) (result : Option Value) :
    List Stmt → Step (Option Value)
  | [] => return result
  | first :: others => do
    let flow ← execute addresses none fuel first
    interpret addresses fuel flow.programResult others

end Step

end Lox.Tied
