import Lox.Machine.Evaluation
import Lox.Proofs.Tree.Occurrence

/-!
# Watching the machine

The evaluator once more, with a note of what happens on the way: code starts to
run, a variable is about to be used, a slot is created.  Watching changes nothing:
`Watched.step_interpret` says that without the notes it is the evaluator.
-/

namespace Lox

/-! ## Events -/

/-- A variable, `this` or `super` that is used. -/
inductive Use where
  | read (id : Nat) (name : Name)
  | assign (target : Reference) (value : Value)
  /-- A method of the superclass is used. -/
  | super (id line : Nat) (method : Name)

namespace Use

/-- The id of the expression that uses a variable. -/
def id : Use → Nat
  | read id _ => id
  | assign target _ => target.id
  | super id _ _ => id

/-- What the machine does for a use. -/
def step (addresses : AddressTable) : Use → Step Value
  | read id name => Step.readVariable addresses id name
  | assign target value => do
    Step.assignVariable addresses target value
    return value
  | super id line method => Step.superMethod addresses id line method

end Use

/-- Something that happens while a program runs, with the machine as it is then. -/
inductive Event where
  /-- An expression or a statement starts, `inside` a block, function or method or outside. -/
  | runs (inside : Bool) (machine : Machine)
  /-- An assignment starts; its value is evaluated next. -/
  | reaches (id : Nat) (machine : Machine)
  /-- A variable is used next. -/
  | uses (use : Use) (machine : Machine)
  /-- A declaration is executed and gets a slot of a frame. -/
  | creates (declared : Local) (frame : FrameId) (slot : Nat)

namespace Event

/-- The use that is evaluated when an event happens, and the machine. -/
def evaluated? : Event → Option (Nat × Machine)
  | reaches id machine => some (id, machine)
  | uses use machine => some (use.id, machine)
  | _ => none

/-- The slots that are created for some locals, the first of them in this slot. -/
def creations (frame : FrameId) (slot : Nat) : List Local → List Event
  | [] => []
  | declared :: others => creates declared frame slot :: creations frame (slot + 1) others

/-- The local that an event creates a slot of a frame for. -/
def created? (frame : FrameId) : Event → Option Local
  | creates declared other _ => if other = frame then some declared else none
  | _ => none

end Event

/-! ## Steps that are watched -/

/-- A step of the machine, and what happens while it is taken. -/
structure Watched (α : Type) where
  step : Step α
  events : Machine → List Event

namespace Watched

variable {α β : Type}

instance : Monad Watched where
  pure result := ⟨pure result, fun _ => []⟩
  bind first next :=
    ⟨first.step >>= fun result => (next result).step, fun machine =>
      first.events machine ++
        match first.step machine with
        | .ok result after => (next result).events after
        | .error _ _ => []⟩

@[simp]
theorem step_pure (result : α) : (pure result : Watched α).step = pure result := rfl

@[simp]
theorem step_bind (first : Watched α) (next : α → Watched β) :
    (first >>= next).step = first.step >>= fun result => (next result).step := rfl

/-- A step of which nothing is noted. -/
def quiet (step : Step α) : Watched α :=
  ⟨step, fun _ => []⟩

/-- Notes that something happens now. -/
def note (event : Machine → Event) : Watched Unit :=
  ⟨pure (), fun machine => [event machine]⟩

@[simp]
theorem step_quiet (step : Step α) : (quiet step).step = step := rfl

@[simp]
theorem step_note (event : Machine → Event) : (note event).step = pure () := rfl

/-- A step in a frame. -/
def within (frame : FrameId) (watched : Watched α) : Watched α :=
  ⟨Step.within frame watched.step, fun machine => watched.events { machine with current := frame }⟩

@[simp]
theorem step_within (frame : FrameId) (watched : Watched α) :
    (within frame watched).step = Step.within frame watched.step := rfl

section

variable {watched : Watched α} (next : α → Watched β) {machine after : Machine}

/-- A step that fails is the last one. -/
theorem bind_of_error {stop : Stop} (taken : watched.step machine = .error stop after) :
    (watched >>= next).step machine = .error stop after ∧
      (watched >>= next).events machine = watched.events machine := by
  constructor
  · show EStateM.bind watched.step _ machine = _
    simp [EStateM.bind, taken]
  · show watched.events machine ++ _ = _
    simp [taken]

/-- A step that yields a result is followed by the next one. -/
theorem bind_of_ok {result : α} (taken : watched.step machine = .ok result after) :
    (watched >>= next).step machine = (next result).step after ∧
      (watched >>= next).events machine = watched.events machine ++ (next result).events after := by
  constructor
  · show EStateM.bind watched.step _ machine = _
    simp [EStateM.bind, taken]
  · show watched.events machine ++ _ = _
    simp [taken]

end

/-- A method of the superclass, for which a frame for `this` is created. -/
def superMethod (addresses : AddressTable) (id line : Nat) (method : Name) : Watched Value :=
  ⟨Step.superMethod addresses id line method, fun machine =>
    match Step.superMethod addresses id line method machine with
    | .ok _ _ => [.creates .this machine.frames.size 0]
    | .error _ _ => []⟩

/-- Uses a variable. -/
def use (addresses : AddressTable) (used : Use) : Watched Value := do
  note (.uses used)
  match used with
  | .read id name => quiet (Step.readVariable addresses id name)
  | .assign target value => do
    quiet (Step.assignVariable addresses target value)
    return value
  | .super id line method => superMethod addresses id line method

@[simp]
theorem step_use (addresses : AddressTable) (used : Use) :
    (use addresses used).step = used.step addresses := by
  cases used <;> rfl

/-- Creates a frame with slots for some locals. -/
def newFrame (enclosing : FrameId) (locals : List Local) (values : List Value) :
    Watched FrameId :=
  ⟨Step.newFrame enclosing values, fun machine => Event.creations machine.frames.size 0 locals⟩

@[simp]
theorem step_newFrame (enclosing : FrameId) (locals : List Local) (values : List Value) :
    (newFrame enclosing locals values).step = Step.newFrame enclosing values := rfl

/-- Appends a slot for a local to the current frame. -/
def newSlot (declared : Local) (slot : Slot Value) : Watched Nat :=
  ⟨Step.newSlot slot, fun machine =>
    [.creates declared machine.current (machine.frames.length machine.current)]⟩

@[simp]
theorem step_newSlot (declared : Local) (slot : Slot Value) :
    (newSlot declared slot).step = Step.newSlot slot := rfl

/-- Declares a variable with a value. -/
def defineVariable (name : Name) (value : Value) : Watched Unit := do
  if ← quiet Step.inRoot then
    quiet (Step.setGlobal name.text (.initialised value))
  else
    let _ ← newSlot (.named name) (.initialised value)

/-- Declares a variable, then takes a step for its initial value, if it has one. -/
def declareVariable (name : Name) (initial : Option (Watched Value)) : Watched Unit := do
  if ← quiet Step.inRoot then
    match initial with
    | some initial =>
      let value ← initial
      quiet (Step.setGlobal name.text (.initialised value))
    | none => quiet (Step.setGlobal name.text .uninitialised)
  else
    let index ← newSlot (.named name) .uninitialised
    match initial with
    | some initial =>
      let value ← initial
      quiet (Step.setSlot index value)
    | none => pure ()

/-- Makes a method into a function in which `this` is an instance. -/
def bindMethod (target : Instance) (method : Closure) : Watched Closure := do
  let frame ← newFrame method.environment [.this] [.object target]
  quiet (Step.newClosure frame method.name method.behaviour)

/-- A property of a value. -/
def property (target : Value) (name : Name) : Watched Value := do
  match target with
  | .object target =>
    match ← quiet (Step.field? target name.text) with
    | some value => return value
    | none =>
      match target.ofClass.method? name.text with
      | some method => return .function (← bindMethod target method)
      | none => quiet (Step.fail name.line (.undefinedProperty name.text))
  | .type target =>
    match target.classMethod? name.text with
    | some method => return .function method
    | none => quiet (Step.fail name.line (.undefinedProperty name.text))
  | _ => quiet (Step.fail name.line .hasNoProperties)

/-- The class that a class extends. -/
def superclass (addresses : AddressTable) : Option Reference → Watched (Option Class)
  | none => return none
  | some target => do
    match ← use addresses (.read target.id target.name) with
    | .type superclass => return some superclass
    | _ => quiet (Step.fail target.name.line .superclassNotAClass)

/-- The frame that the methods of a class keep. -/
def methodFrame : Option Class → Watched FrameId
  | none => return (← quiet get).current
  | some superclass => do newFrame (← quiet get).current [.super] [.type superclass]

/-- Makes a class whose name is declared. -/
def newClass (addresses : AddressTable) (name : Name) (superclassName : Option Reference)
    (methods classMethods : List NamedFunction) : Watched Value := do
  let superclass ← superclass addresses superclassName
  let frame ← methodFrame superclass
  let methods ← quiet (Step.newMethods frame true methods ∅)
  let classMethods ← quiet (Step.newMethods frame false classMethods ∅)
  let id ← quiet Step.freshId
  return .type (.extending ⟨id, name.text, methods, classMethods⟩ superclass)

/-- Declares a class. -/
def declareClass (addresses : AddressTable) (name : Name) (superclassName : Option Reference)
    (methods classMethods : List NamedFunction) : Watched Value := do
  if ← quiet Step.inRoot then
    quiet (Step.setGlobal name.text .uninitialised)
    let value ← newClass addresses name superclassName methods classMethods
    quiet (Step.setGlobal name.text (.initialised value))
    return value
  else
    let index ← newSlot (.named name) .uninitialised
    let value ← newClass addresses name superclassName methods classMethods
    quiet (Step.setSlot index value)
    return value

/-! ## The evaluator -/

mutual

/-- Evaluates an expression. -/
def evaluate (addresses : AddressTable) (inside : Bool) : Nat → Expr → Watched Value
  | 0, _ => quiet (throw .outOfFuel)
  | fuel + 1, expression => do
    note (.runs inside)
    match expression with
    | .literal value => return .ofLiteral value
    | .group inner => evaluate addresses inside fuel inner
    | .unary op line operand => do
      let value ← evaluate addresses inside fuel operand
      quiet (Step.ofExcept (op.apply line value))
    | .binary op line left right => do
      let leftValue ← evaluate addresses inside fuel left
      let rightValue ← evaluate addresses inside fuel right
      quiet (Step.ofExcept (op.apply line leftValue rightValue))
    | .logical op _ left right => do
      let leftValue ← evaluate addresses inside fuel left
      if op.decides leftValue then
        return leftValue
      else
        evaluate addresses inside fuel right
    | .read target => use addresses (.read target.id target.name)
    | .assign target value => do
      note (.reaches target.id)
      let value ← evaluate addresses inside fuel value
      use addresses (.assign target value)
    | .call callee line arguments => do
      let callee ← evaluate addresses inside fuel callee
      let arguments ← evaluateAll addresses inside fuel arguments
      call addresses fuel line callee arguments
    | .function definition => do
      let machine ← quiet get
      return .function
        (← quiet (Step.newClosure machine.current "anonymous" (.body definition false)))
    | .get object name => do
      property (← evaluate addresses inside fuel object) name
    | .set object name value => do
      match ← evaluate addresses inside fuel object with
      | .object target =>
        let value ← evaluate addresses inside fuel value
        quiet (Step.setField target name.text value)
        return value
      | _ => quiet (Step.fail name.line .hasNoFields)
    | .this id line => use addresses (.read id ⟨"this", line⟩)
    | .super id line method => use addresses (.super id line method)

/-- Evaluates expressions in their order. -/
def evaluateAll (addresses : AddressTable) (inside : Bool) :
    Nat → List Expr → Watched (List Value)
  | 0, _ => quiet (throw .outOfFuel)
  | _ + 1, [] => return []
  | fuel + 1, first :: others => do
    let value ← evaluate addresses inside fuel first
    return value :: (← evaluateAll addresses inside fuel others)

/-- Calls a function, or makes an instance of a class. -/
def call (addresses : AddressTable) : Nat → (line : Nat) → Value → List Value → Watched Value
  | 0, _, _, _ => quiet (throw .outOfFuel)
  | fuel + 1, line, callee, arguments => do
    match callee with
    | .function closure =>
      quiet (Step.checkArity line closure.arity arguments.length)
      invoke addresses fuel closure arguments
    | .type ofClass =>
      quiet (Step.checkArity line ofClass.arity arguments.length)
      let created ← quiet (Step.newInstance ofClass)
      match ofClass.initializer? with
      | some initializer =>
        let bound ← bindMethod created initializer
        let _ ← invoke addresses fuel bound arguments
        return .object created
      | none => return .object created
    | _ => quiet (Step.fail line .notCallable)

/-- Runs a function. -/
def invoke (addresses : AddressTable) : Nat → Closure → List Value → Watched Value
  | 0, _, _ => quiet (throw .outOfFuel)
  | fuel + 1, closure, arguments =>
    match closure.behaviour with
    | .clock => do
      let machine ← quiet get
      return .number machine.clock
    | .body definition isInitializer => do
      let parameters ←
        newFrame closure.environment (definition.parameters.map Local.named) arguments
      let body ← newFrame parameters [] []
      let flow ← within body (executeAll addresses true fuel none definition.body)
      if isInitializer then
        let machine ← quiet get
        match machine.frames.get? closure.environment 0 0 with
        | some (.initialised this) => return this
        | _ => return .nil
      else
        return flow.callResult

/-- Executes a statement. -/
def execute (addresses : AddressTable) (inside : Bool) : Nat → Stmt → Watched Flow
  | 0, _ => quiet (throw .outOfFuel)
  | fuel + 1, statement => do
    note (.runs inside)
    match statement with
    | .expression value => do
      return .normal (some (← evaluate addresses inside fuel value))
    | .print value => do
      let value ← evaluate addresses inside fuel value
      quiet (Step.print value.display)
      return .normal none
    | .varDecl name initial => do
      declareVariable name (initial.map (evaluate addresses inside fuel))
      return .normal none
    | .block body => do
      let machine ← quiet get
      let frame ← newFrame machine.current [] []
      within frame (executeAll addresses true fuel none body)
    | .ifElse condition whenTrue whenFalse => do
      let value ← evaluate addresses inside fuel condition
      if value.isTruthy then
        execute addresses inside fuel whenTrue
      else
        match whenFalse with
        | some whenFalse => execute addresses inside fuel whenFalse
        | none => return .normal none
    | .whileLoop condition body => loop addresses inside fuel condition body
    | .breakLoop _ => return .broken
    | .funDecl (.mk name definition) => do
      let machine ← quiet get
      let closure ← quiet (Step.newClosure machine.current name.text (.body definition false))
      defineVariable name (.function closure)
      return .normal none
    | .returnValue _ value => do
      match value with
      | some value => return .returned (← evaluate addresses inside fuel value)
      | none => return .returned .nil
    | .classDecl name superclass methods classMethods => do
      return .normal (some (← declareClass addresses name superclass methods classMethods))

/-- Executes statements in their order until one does not run to its end. -/
def executeAll (addresses : AddressTable) (inside : Bool) :
    Nat → (result : Option Value) → List Stmt → Watched Flow
  | 0, _, _ => quiet (throw .outOfFuel)
  | _ + 1, result, [] => return .normal result
  | fuel + 1, _, first :: others => do
    match ← execute addresses inside fuel first with
    | .normal result => executeAll addresses inside fuel result others
    | unfinished => return unfinished

/-- Executes a body as long as a condition holds. -/
def loop (addresses : AddressTable) (inside : Bool) : Nat → Expr → Stmt → Watched Flow
  | 0, _, _ => quiet (throw .outOfFuel)
  | fuel + 1, condition, body => do
    let value ← evaluate addresses inside fuel condition
    if value.isTruthy then
      match ← execute addresses inside fuel body with
      | .normal _ => loop addresses inside fuel condition body
      | .broken => return .normal none
      | .returned value => return .returned value
    else
      return .normal none

end

/-- Executes the statements of a program. -/
def interpret (addresses : AddressTable) (fuel : Nat) (result : Option Value) :
    List Stmt → Watched (Option Value)
  | [] => return result
  | first :: others => do
    let flow ← execute addresses false fuel first
    interpret addresses fuel flow.programResult others

/-! ## Watching changes nothing -/

@[simp]
theorem step_defineVariable (name : Name) (value : Value) :
    (defineVariable name value).step = Step.defineVariable name value := by
  simp only [defineVariable, Step.defineVariable, step_bind, step_quiet]
  congr 1
  funext isGlobal
  cases isGlobal <;> rfl

@[simp]
theorem step_bindMethod (target : Instance) (method : Closure) :
    (bindMethod target method).step = Step.bindMethod target method := rfl

@[simp]
theorem step_property (target : Value) (name : Name) :
    (property target name).step = Step.property target name := by
  cases target with
  | object target =>
    simp only [property, Step.property, step_bind, step_quiet]
    congr 1
    funext field
    cases field with
    | some value => rfl
    | none => cases target.ofClass.method? name.text <;> rfl
  | type target =>
    simp only [property, Step.property]
    cases target.classMethod? name.text <;> rfl
  | _ => rfl

@[simp]
theorem step_superclass (addresses : AddressTable) (target : Option Reference) :
    (superclass addresses target).step = Step.superclass addresses target := by
  cases target with
  | none => rfl
  | some target =>
    simp only [superclass, Step.superclass, step_bind, step_use, Use.step]
    congr 1
    funext value
    cases value <;> rfl

@[simp]
theorem step_methodFrame (extended : Option Class) :
    (methodFrame extended).step = Step.methodFrame extended := by
  cases extended <;> rfl

@[simp]
theorem step_declareClass (addresses : AddressTable) (name : Name)
    (superclassName : Option Reference) (methods classMethods : List NamedFunction) :
    (declareClass addresses name superclassName methods classMethods).step =
      Step.declareClass addresses name superclassName methods classMethods := by
  simp only [declareClass, Step.declareClass, step_bind, step_quiet]
  congr 1
  funext isGlobal
  cases isGlobal <;> simp [newClass]

mutual

theorem step_evaluate (addresses : AddressTable) (inside : Bool) :
    ∀ (fuel : Nat) (expression : Expr),
      (evaluate addresses inside fuel expression).step = Step.evaluate addresses fuel expression
  | 0, _ => rfl
  | fuel + 1, expression => by
    have same := step_evaluate addresses inside fuel
    cases expression with
    | literal | function | read | this | super => rfl
    | group inner => exact same inner
    | unary op line operand => simp [evaluate, Step.evaluate, same]
    | binary op line left right => simp [evaluate, Step.evaluate, same]
    | logical op line left right =>
      simp only [evaluate, Step.evaluate, step_bind, step_note, pure_bind, same]
      congr 1
      funext value
      split
      · rfl
      · exact same right
    | assign target value => simp [evaluate, Step.evaluate, same, Use.step]
    | call callee line arguments =>
      simp [evaluate, Step.evaluate, same, step_evaluateAll addresses inside fuel arguments,
        step_call addresses fuel]
    | get object name => simp [evaluate, Step.evaluate, same]
    | set object name value =>
      simp only [evaluate, Step.evaluate, step_bind, step_note, pure_bind, same]
      congr 1
      funext object
      cases object with
      | object target => simp [same]
      | _ => rfl

theorem step_evaluateAll (addresses : AddressTable) (inside : Bool) :
    ∀ (fuel : Nat) (expressions : List Expr),
      (evaluateAll addresses inside fuel expressions).step =
        Step.evaluateAll addresses fuel expressions
  | 0, _ => rfl
  | _ + 1, [] => rfl
  | fuel + 1, first :: others => by
    rw [evaluateAll, Step.evaluateAll]
    simp [step_evaluate addresses inside fuel, step_evaluateAll addresses inside fuel others]

theorem step_call (addresses : AddressTable) :
    ∀ (fuel line : Nat) (callee : Value) (arguments : List Value),
      (call addresses fuel line callee arguments).step =
        Step.call addresses fuel line callee arguments
  | 0, _, _, _ => rfl
  | fuel + 1, line, callee, arguments => by
    cases callee with
    | function closure => simp [call, Step.call, step_invoke addresses fuel]
    | type ofClass =>
      simp only [call, Step.call, step_bind, step_quiet]
      cases ofClass.initializer? with
      | none => rfl
      | some initializer => simp [step_invoke addresses fuel]
    | _ => rfl

theorem step_invoke (addresses : AddressTable) :
    ∀ (fuel : Nat) (closure : Closure) (arguments : List Value),
      (invoke addresses fuel closure arguments).step = Step.invoke addresses fuel closure arguments
  | 0, _, _ => rfl
  | fuel + 1, closure, arguments => by
    rw [invoke, Step.invoke]
    cases closure.behaviour with
    | clock => rfl
    | body definition isInitializer =>
      simp only [step_bind, step_newFrame, step_within,
        step_executeAll addresses true fuel none definition.body]
      cases isInitializer with
      | false => rfl
      | true =>
        congr 1; funext parameters
        congr 1; funext body
        congr 1; funext flow
        simp only [if_true, step_bind, step_quiet]
        congr 1; funext machine
        cases machine.frames.get? closure.environment 0 0 with
        | none => rfl
        | some slot => cases slot <;> rfl

theorem step_execute (addresses : AddressTable) (inside : Bool) :
    ∀ (fuel : Nat) (statement : Stmt),
      (execute addresses inside fuel statement).step = Step.execute addresses fuel statement
  | 0, _ => rfl
  | fuel + 1, statement => by
    have same := step_evaluate addresses inside fuel
    cases statement with
    | breakLoop => rfl
    | expression value => simp [execute, Step.execute, same]
    | print value => simp [execute, Step.execute, same]
    | varDecl name initial =>
      simp only [execute, declareVariable, Step.execute, step_bind, step_note, pure_bind,
        step_quiet, bind_assoc]
      congr 1; funext isGlobal
      cases isGlobal <;> cases initial <;> simp [same]
    | block body =>
      simp [execute, Step.execute, step_executeAll addresses true fuel none body]
    | ifElse condition whenTrue whenFalse =>
      simp only [execute, Step.execute, step_bind, step_note, pure_bind, same]
      congr 1; funext value
      split
      · exact step_execute addresses inside fuel whenTrue
      · cases whenFalse with
        | none => rfl
        | some whenFalse => exact step_execute addresses inside fuel whenFalse
    | whileLoop condition body =>
      simp [execute, Step.execute, step_loop addresses inside fuel condition body]
    | funDecl function =>
      cases function
      simp [execute, Step.execute]
    | returnValue line value =>
      cases value <;> simp [execute, Step.execute, same]
    | classDecl name superclass methods classMethods => simp [execute, Step.execute]

theorem step_executeAll (addresses : AddressTable) (inside : Bool) :
    ∀ (fuel : Nat) (result : Option Value) (statements : List Stmt),
      (executeAll addresses inside fuel result statements).step =
        Step.executeAll addresses fuel result statements
  | 0, _, _ => rfl
  | _ + 1, _, [] => rfl
  | fuel + 1, _, first :: others => by
    rw [executeAll, Step.executeAll]
    simp only [step_bind, step_execute addresses inside fuel first]
    congr 1; funext flow
    cases flow with
    | normal result => exact step_executeAll addresses inside fuel result others
    | _ => rfl

theorem step_loop (addresses : AddressTable) (inside : Bool) :
    ∀ (fuel : Nat) (condition : Expr) (body : Stmt),
      (loop addresses inside fuel condition body).step = Step.loop addresses fuel condition body
  | 0, _, _ => rfl
  | fuel + 1, condition, body => by
    rw [loop, Step.loop]
    simp only [step_bind, step_evaluate addresses inside fuel condition]
    congr 1; funext value
    split
    · simp only [step_bind, step_execute addresses inside fuel body]
      congr 1; funext flow
      cases flow with
      | normal => exact step_loop addresses inside fuel condition body
      | _ => rfl
    · rfl

end

/-- Watched or not, a program does the same. -/
theorem step_interpret (addresses : AddressTable) (fuel : Nat) (result : Option Value)
    (program : List Stmt) :
    (interpret addresses fuel result program).step =
      Step.interpret addresses fuel result program := by
  induction program generalizing result with
  | nil => rfl
  | cons first others induction =>
    rw [interpret, Step.interpret]
    simp [step_execute, induction]

end Watched

end Lox
