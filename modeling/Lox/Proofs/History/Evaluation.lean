import Lox.Machine.Evaluation

/-!
# Evaluation with a history

The evaluator once more, with a history of what is done to classes, instances and global
variables on the way: classes and instances are made, fields are set, properties are looked up,
global variables are assigned.  Recording changes nothing: `Recorded.step_interpret` says that
without the history it is the evaluator.
-/

namespace Lox

/-- Something that a program does. -/
inductive Deed where
  /-- Makes a class from these declarations of methods and class methods. -/
  | makes (type : Class) (methods classMethods : List NamedFunction)
  /-- Makes an instance. -/
  | creates (target : Instance)
  /-- Sets a field of an instance. -/
  | sets (target : Instance) (name : String) (value : Value)
  /-- Looks a property of a value up, on a machine and with a result. -/
  | accesses (target : Value) (name : Name) (before : Machine)
      (ending : EStateM.Result Stop Machine Value)
  /-- Gives a global variable that exists a value. -/
  | assigns (name : String) (value : Value)

/-- What has been done, the earliest first. -/
abbrev History := List Deed

/-- A step of the machine, and what is done when it is taken. -/
structure Recorded (α : Type) where
  step : Step α
  deeds : Machine → History

namespace Recorded

variable {α β : Type}

instance : Monad Recorded where
  pure result := ⟨pure result, fun _ => []⟩
  bind first next :=
    ⟨first.step >>= fun result => (next result).step, fun machine =>
      first.deeds machine ++
        match first.step machine with
        | .ok result after => (next result).deeds after
        | .error _ _ => []⟩

@[simp]
theorem step_pure (result : α) : (pure result : Recorded α).step = pure result := rfl

@[simp]
theorem step_bind (first : Recorded α) (next : α → Recorded β) :
    (first >>= next).step = first.step >>= fun result => (next result).step := rfl

section Bind

variable {first : Recorded α} {next : α → Recorded β} {result : α} {stop : Stop}
  {machine after : Machine}

theorem step_bind_ok (ends : first.step machine = .ok result after) :
    (first >>= next).step machine = (next result).step after := by
  show EStateM.bind _ _ machine = _
  rw [EStateM.bind, ends]

theorem step_bind_error (ends : first.step machine = .error stop after) :
    (first >>= next).step machine = .error stop after := by
  show EStateM.bind _ _ machine = _
  rw [EStateM.bind, ends]

theorem deeds_bind_ok (ends : first.step machine = .ok result after) :
    (first >>= next).deeds machine = first.deeds machine ++ (next result).deeds after := by
  simp only [Bind.bind, ends]

theorem deeds_bind_error (ends : first.step machine = .error stop after) :
    (first >>= next).deeds machine = first.deeds machine := by
  simp only [Bind.bind, ends, List.append_nil]

end Bind

/-- A step of which nothing is recorded. -/
def quiet (step : Step α) : Recorded α :=
  ⟨step, fun _ => []⟩

@[simp]
theorem step_quiet (step : Step α) : (quiet step).step = step := rfl

/-- Records something that is done now. -/
def record (deed : Deed) : Recorded Unit :=
  ⟨pure (), fun _ => [deed]⟩

@[simp]
theorem step_record (deed : Deed) : (record deed).step = pure () := rfl

/-- A step in a frame. -/
def within (frame : FrameId) (recorded : Recorded α) : Recorded α :=
  ⟨Step.within frame recorded.step, fun machine => recorded.deeds { machine with current := frame }⟩

@[simp]
theorem step_within (frame : FrameId) (recorded : Recorded α) :
    (within frame recorded).step = Step.within frame recorded.step := rfl

/-! ## What is recorded -/

/-- The assignment of a global variable, if it exists. -/
def assigned (addresses : AddressTable) (target : Reference) (value : Value) (machine : Machine) :
    History :=
  match addresses[target.id]? with
  | some _ => []
  | none =>
    if machine.globals.contains target.name.text then [.assigns target.name.text value] else []

/-- Gives a variable that exists a value. -/
def assignVariable (addresses : AddressTable) (target : Reference) (value : Value) :
    Recorded Unit :=
  ⟨Step.assignVariable addresses target value, assigned addresses target value⟩

/-- Makes an instance without fields. -/
def newInstance (ofClass : Class) : Recorded Instance :=
  ⟨Step.newInstance ofClass, fun machine => [.creates ⟨machine.fields.size, ofClass⟩]⟩

/-- Sets a field of an instance. -/
def setField (target : Instance) (name : String) (value : Value) : Recorded Unit :=
  ⟨Step.setField target name value, fun _ => [.sets target name value]⟩

/-- A property of a value. -/
def property (target : Value) (name : Name) : Recorded Value :=
  ⟨Step.property target name, fun machine =>
    [.accesses target name machine (Step.property target name machine)]⟩

/-- Declares a variable, then takes a step for its initial value, if it has one. -/
def declareVariable (name : Name) (initial : Option (Recorded Value)) : Recorded Unit := do
  if ← quiet Step.inRoot then
    match initial with
    | some initial =>
      let value ← initial
      quiet (Step.setGlobal name.text (.initialised value))
    | none => quiet (Step.setGlobal name.text .uninitialised)
  else
    let index ← quiet (Step.newSlot .uninitialised)
    match initial with
    | some initial =>
      let value ← initial
      quiet (Step.setSlot index value)
    | none => pure ()

/-- Makes a class whose name is declared. -/
def newClass (addresses : AddressTable) (name : Name) (superclassName : Option Reference)
    (methods classMethods : List NamedFunction) : Recorded Value := do
  let superclass ← quiet (Step.superclass addresses superclassName)
  let frame ← quiet (Step.methodFrame superclass)
  let methodTable ← quiet (Step.newMethods frame true methods ∅)
  let classMethodTable ← quiet (Step.newMethods frame false classMethods ∅)
  let id ← quiet Step.freshId
  let type := Class.extending ⟨id, name.text, methodTable, classMethodTable⟩ superclass
  record (.makes type methods classMethods)
  return .type type

/-- Declares a class. -/
def declareClass (addresses : AddressTable) (name : Name) (superclassName : Option Reference)
    (methods classMethods : List NamedFunction) : Recorded Value := do
  if ← quiet Step.inRoot then
    quiet (Step.setGlobal name.text .uninitialised)
    let value ← newClass addresses name superclassName methods classMethods
    quiet (Step.setGlobal name.text (.initialised value))
    return value
  else
    let index ← quiet (Step.newSlot .uninitialised)
    let value ← newClass addresses name superclassName methods classMethods
    quiet (Step.setSlot index value)
    return value

/-! ## The evaluator -/

mutual

/-- Evaluates an expression. -/
def evaluate (addresses : AddressTable) : Nat → Expr → Recorded Value
  | 0, _ => quiet (throw .outOfFuel)
  | fuel + 1, expression =>
    match expression with
    | .literal value => return .ofLiteral value
    | .group inner => evaluate addresses fuel inner
    | .unary op line operand => do
      let value ← evaluate addresses fuel operand
      quiet (Step.ofExcept (op.apply line value))
    | .binary op line left right => do
      let leftValue ← evaluate addresses fuel left
      let rightValue ← evaluate addresses fuel right
      quiet (Step.ofExcept (op.apply line leftValue rightValue))
    | .logical op _ left right => do
      let leftValue ← evaluate addresses fuel left
      if op.decides leftValue then
        return leftValue
      else
        evaluate addresses fuel right
    | .read target => quiet (Step.readVariable addresses target.id target.name)
    | .assign target value => do
      let value ← evaluate addresses fuel value
      assignVariable addresses target value
      return value
    | .call callee line arguments => do
      let callee ← evaluate addresses fuel callee
      let arguments ← evaluateAll addresses fuel arguments
      call addresses fuel line callee arguments
    | .function definition => do
      let machine ← quiet get
      return .function
        (← quiet (Step.newClosure machine.current "anonymous" (.body definition false)))
    | .get object name => do
      property (← evaluate addresses fuel object) name
    | .set object name value => do
      match ← evaluate addresses fuel object with
      | .object target =>
        let value ← evaluate addresses fuel value
        setField target name.text value
        return value
      | _ => quiet (Step.fail name.line .hasNoFields)
    | .this id line => quiet (Step.readVariable addresses id ⟨"this", line⟩)
    | .super id line method => quiet (Step.superMethod addresses id line method)
termination_by structural fuel => fuel

/-- Evaluates expressions in their order. -/
def evaluateAll (addresses : AddressTable) : Nat → List Expr → Recorded (List Value)
  | 0, _ => quiet (throw .outOfFuel)
  | _ + 1, [] => return []
  | fuel + 1, first :: others => do
    let value ← evaluate addresses fuel first
    return value :: (← evaluateAll addresses fuel others)
termination_by structural fuel => fuel

/-- Calls a function, or makes an instance of a class. -/
def call (addresses : AddressTable) : Nat → (line : Nat) → Value → List Value → Recorded Value
  | 0, _, _, _ => quiet (throw .outOfFuel)
  | fuel + 1, line, callee, arguments => do
    match callee with
    | .function closure =>
      quiet (Step.checkArity line closure.arity arguments.length)
      invoke addresses fuel closure arguments
    | .type ofClass =>
      quiet (Step.checkArity line ofClass.arity arguments.length)
      let created ← newInstance ofClass
      match ofClass.initializer? with
      | some initializer =>
        let bound ← quiet (Step.bindMethod created initializer)
        let _ ← invoke addresses fuel bound arguments
        return .object created
      | none => return .object created
    | _ => quiet (Step.fail line .notCallable)
termination_by structural fuel => fuel

/-- Runs a function. -/
def invoke (addresses : AddressTable) : Nat → Closure → List Value → Recorded Value
  | 0, _, _ => quiet (throw .outOfFuel)
  | fuel + 1, closure, arguments =>
    match closure.behaviour with
    | .clock => do
      let machine ← quiet get
      return .number machine.clock
    | .body definition isInitializer => do
      let parameters ← quiet (Step.newFrame closure.environment arguments)
      let body ← quiet (Step.newFrame parameters [])
      let flow ← within body (executeAll addresses fuel none definition.body)
      if isInitializer then
        let machine ← quiet get
        match machine.frames.get? closure.environment 0 0 with
        | some (.initialised this) => return this
        | _ => return .nil
      else
        return flow.callResult
termination_by structural fuel => fuel

/-- Executes a statement. -/
def execute (addresses : AddressTable) : Nat → Stmt → Recorded Flow
  | 0, _ => quiet (throw .outOfFuel)
  | fuel + 1, statement =>
    match statement with
    | .expression value => do
      return .normal (some (← evaluate addresses fuel value))
    | .print value => do
      let value ← evaluate addresses fuel value
      quiet (Step.print value.display)
      return .normal none
    | .varDecl name initial => do
      match initial with
      | some initial => declareVariable name (some (evaluate addresses fuel initial))
      | none => declareVariable name none
      return .normal none
    | .block body => do
      let machine ← quiet get
      let frame ← quiet (Step.newFrame machine.current [])
      within frame (executeAll addresses fuel none body)
    | .ifElse condition whenTrue whenFalse => do
      let value ← evaluate addresses fuel condition
      if value.isTruthy then
        execute addresses fuel whenTrue
      else
        match whenFalse with
        | some whenFalse => execute addresses fuel whenFalse
        | none => return .normal none
    | .whileLoop condition body => loop addresses fuel condition body
    | .breakLoop _ => return .broken
    | .funDecl (.mk name definition) => do
      let machine ← quiet get
      let closure ← quiet (Step.newClosure machine.current name.text (.body definition false))
      quiet (Step.defineVariable name (.function closure))
      return .normal none
    | .returnValue _ value => do
      match value with
      | some value => return .returned (← evaluate addresses fuel value)
      | none => return .returned .nil
    | .classDecl name superclass methods classMethods => do
      return .normal (some (← declareClass addresses name superclass methods classMethods))
termination_by structural fuel => fuel

/-- Executes statements in their order until one does not run to its end. -/
def executeAll (addresses : AddressTable) :
    Nat → (result : Option Value) → List Stmt → Recorded Flow
  | 0, _, _ => quiet (throw .outOfFuel)
  | _ + 1, result, [] => return .normal result
  | fuel + 1, _, first :: others => do
    match ← execute addresses fuel first with
    | .normal result => executeAll addresses fuel result others
    | unfinished => return unfinished
termination_by structural fuel => fuel

/-- Executes a body as long as a condition holds. -/
def loop (addresses : AddressTable) : Nat → Expr → Stmt → Recorded Flow
  | 0, _, _ => quiet (throw .outOfFuel)
  | fuel + 1, condition, body => do
    let value ← evaluate addresses fuel condition
    if value.isTruthy then
      match ← execute addresses fuel body with
      | .normal _ => loop addresses fuel condition body
      | .broken => return .normal none
      | .returned value => return .returned value
    else
      return .normal none
termination_by structural fuel => fuel

end

/-- Executes the statements of a program. -/
def interpret (addresses : AddressTable) (fuel : Nat) (result : Option Value) :
    List Stmt → Recorded (Option Value)
  | [] => return result
  | first :: others => do
    let flow ← execute addresses fuel first
    interpret addresses fuel flow.programResult others

/-! ## Recording changes nothing -/

@[simp]
theorem step_newClass (addresses : AddressTable) (name : Name) (superclassName : Option Reference)
    (methods classMethods : List NamedFunction) :
    (newClass addresses name superclassName methods classMethods).step = (do
      let superclass ← Step.superclass addresses superclassName
      let frame ← Step.methodFrame superclass
      let methods ← Step.newMethods frame true methods ∅
      let classMethods ← Step.newMethods frame false classMethods ∅
      return .type (.extending ⟨← Step.freshId, name.text, methods, classMethods⟩ superclass)) := by
  simp [newClass]

@[simp]
theorem step_declareClass (addresses : AddressTable) (name : Name)
    (superclassName : Option Reference) (methods classMethods : List NamedFunction) :
    (declareClass addresses name superclassName methods classMethods).step =
      Step.declareClass addresses name superclassName methods classMethods := by
  simp only [declareClass, Step.declareClass, step_bind, step_quiet]
  congr 1
  funext isGlobal
  cases isGlobal <;> simp

mutual

theorem step_evaluate (addresses : AddressTable) :
    ∀ (fuel : Nat) (expression : Expr),
      (evaluate addresses fuel expression).step = Step.evaluate addresses fuel expression
  | 0, _ => rfl
  | fuel + 1, expression => by
    have same := step_evaluate addresses fuel
    cases expression with
    | literal | function | read | this | super => rfl
    | group inner => exact same inner
    | unary op line operand => simp [evaluate, Step.evaluate, same]
    | binary op line left right => simp [evaluate, Step.evaluate, same]
    | logical op line left right =>
      simp only [evaluate, Step.evaluate, step_bind, same]
      congr 1
      funext value
      split
      · rfl
      · exact same right
    | assign target value => simp [evaluate, Step.evaluate, same, assignVariable]
    | call callee line arguments =>
      simp [evaluate, Step.evaluate, same, step_evaluateAll addresses fuel arguments,
        step_call addresses fuel]
    | get object name => simp [evaluate, Step.evaluate, same, property]
    | set object name value =>
      simp only [evaluate, Step.evaluate, step_bind, same]
      congr 1
      funext object
      cases object with
      | object target => simp [same, setField]
      | _ => rfl

theorem step_evaluateAll (addresses : AddressTable) :
    ∀ (fuel : Nat) (expressions : List Expr),
      (evaluateAll addresses fuel expressions).step = Step.evaluateAll addresses fuel expressions
  | 0, _ => rfl
  | _ + 1, [] => rfl
  | fuel + 1, first :: others => by
    rw [evaluateAll, Step.evaluateAll]
    simp [step_evaluate addresses fuel, step_evaluateAll addresses fuel others]

theorem step_call (addresses : AddressTable) :
    ∀ (fuel line : Nat) (callee : Value) (arguments : List Value),
      (call addresses fuel line callee arguments).step =
        Step.call addresses fuel line callee arguments
  | 0, _, _, _ => rfl
  | fuel + 1, line, callee, arguments => by
    cases callee with
    | function closure => simp [call, Step.call, step_invoke addresses fuel]
    | type ofClass =>
      simp only [call, Step.call, step_bind, step_quiet, newInstance]
      cases ofClass.initializer? with
      | none => rfl
      | some initializer => simp [step_invoke addresses fuel]
    | _ => rfl

theorem step_invoke (addresses : AddressTable) :
    ∀ (fuel : Nat) (closure : Closure) (arguments : List Value),
      (invoke addresses fuel closure arguments).step = Step.invoke addresses fuel closure arguments
  | 0, _, _ => rfl
  | fuel + 1, closure, arguments => by
    rw [invoke, Step.invoke]
    cases closure.behaviour with
    | clock => rfl
    | body definition isInitializer =>
      simp only [step_bind, step_quiet, step_within,
        step_executeAll addresses fuel none definition.body]
      cases isInitializer with
      | false => rfl
      | true =>
        congr 1; funext parameters
        congr 1; funext body
        congr 1; funext flow
        simp only [if_true, step_bind, step_quiet]
        congr 1; funext machine
        cases machine.frames.get? closure.environment 0 0 with
        | none => rfl
        | some slot => cases slot <;> rfl

theorem step_execute (addresses : AddressTable) :
    ∀ (fuel : Nat) (statement : Stmt),
      (execute addresses fuel statement).step = Step.execute addresses fuel statement
  | 0, _ => rfl
  | fuel + 1, statement => by
    have same := step_evaluate addresses fuel
    cases statement with
    | breakLoop => rfl
    | expression value => simp [execute, Step.execute, same]
    | print value => simp [execute, Step.execute, same]
    | varDecl name initial =>
      cases initial with
      | none =>
        simp only [execute, declareVariable, Step.execute, step_bind, step_quiet, bind_assoc]
        congr 1; funext isGlobal
        cases isGlobal <;> simp
      | some initial =>
        simp only [execute, declareVariable, Step.execute, step_bind, step_quiet, bind_assoc]
        congr 1; funext isGlobal
        cases isGlobal <;> simp [same]
    | block body => simp [execute, Step.execute, step_executeAll addresses fuel none body]
    | ifElse condition whenTrue whenFalse =>
      simp only [execute, Step.execute, step_bind, same]
      congr 1; funext value
      split
      · exact step_execute addresses fuel whenTrue
      · cases whenFalse with
        | none => rfl
        | some whenFalse => exact step_execute addresses fuel whenFalse
    | whileLoop condition body =>
      simp [execute, Step.execute, step_loop addresses fuel condition body]
    | funDecl function =>
      cases function
      simp [execute, Step.execute]
    | returnValue line value =>
      cases value <;> simp [execute, Step.execute, same]
    | classDecl name superclass methods classMethods => simp [execute, Step.execute]

theorem step_executeAll (addresses : AddressTable) :
    ∀ (fuel : Nat) (result : Option Value) (statements : List Stmt),
      (executeAll addresses fuel result statements).step =
        Step.executeAll addresses fuel result statements
  | 0, _, _ => rfl
  | _ + 1, _, [] => rfl
  | fuel + 1, _, first :: others => by
    rw [executeAll, Step.executeAll]
    simp only [step_bind, step_execute addresses fuel first]
    congr 1; funext flow
    cases flow with
    | normal result => exact step_executeAll addresses fuel result others
    | _ => rfl

theorem step_loop (addresses : AddressTable) :
    ∀ (fuel : Nat) (condition : Expr) (body : Stmt),
      (loop addresses fuel condition body).step = Step.loop addresses fuel condition body
  | 0, _, _ => rfl
  | fuel + 1, condition, body => by
    rw [loop, Step.loop]
    simp only [step_bind, step_evaluate addresses fuel condition]
    congr 1; funext value
    split
    · simp only [step_bind, step_execute addresses fuel body]
      congr 1; funext flow
      cases flow with
      | normal => exact step_loop addresses fuel condition body
      | _ => rfl
    · rfl

end

/-- Recorded or not, a program does the same. -/
theorem step_interpret (addresses : AddressTable) (fuel : Nat) (result : Option Value)
    (program : List Stmt) :
    (interpret addresses fuel result program).step =
      Step.interpret addresses fuel result program := by
  induction program generalizing result with
  | nil => rfl
  | cons first others induction =>
    rw [interpret, Step.interpret]
    simp [step_execute, induction]

end Recorded

end Lox
