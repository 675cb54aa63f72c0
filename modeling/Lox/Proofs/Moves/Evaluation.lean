import Lox.Proofs.Machine.Current

/-!
# Evaluation move by move

The evaluator once more, with a trace of its moves: the machines before and after every single
step, and what the frames are for that the step makes.  Code that enters a frame and leaves it
moves as well, so each move begins where the one before it ends.  Tracing changes nothing:
`Traced.step_interpret` says that without the trace it is the evaluator.
-/

namespace Lox

/-- What a frame is for. -/
inductive Role where
  /-- The code that is in no block, function or method. -/
  | root
  /-- The variables of a block. -/
  | block
  /-- The parameters of a function. -/
  | parameters
  /-- The variables of the body of a function. -/
  | body
  /-- `this` in a method. -/
  | this
  /-- `super` in the methods of a class. -/
  | super
deriving DecidableEq, Repr

/-- A single step of a machine. -/
structure Move where
  before : Machine
  after : Machine
  /-- What the frames are for that are made. -/
  made : List Role

/-- A step, and the moves that are made when it is taken. -/
structure Traced (α : Type) where
  step : Step α
  moves : Machine → List Move

namespace Traced

variable {α β : Type}

instance : Monad Traced where
  pure result := ⟨pure result, fun _ => []⟩
  bind first next :=
    ⟨first.step >>= fun result => (next result).step, fun machine =>
      first.moves machine ++
        match first.step machine with
        | .ok result after => (next result).moves after
        | .error _ _ => []⟩

@[simp]
theorem step_pure (result : α) : (pure result : Traced α).step = pure result := rfl

@[simp]
theorem step_bind (first : Traced α) (next : α → Traced β) :
    (first >>= next).step = first.step >>= fun result => (next result).step := rfl

section Bind

variable {first : Traced α} {next : α → Traced β} {result : α} {stop : Stop}
  {machine after : Machine}

theorem moves_bind_ok (ends : first.step machine = .ok result after) :
    (first >>= next).moves machine = first.moves machine ++ (next result).moves after := by
  simp only [Bind.bind, ends]

theorem moves_bind_error (ends : first.step machine = .error stop after) :
    (first >>= next).moves machine = first.moves machine := by
  simp only [Bind.bind, ends, List.append_nil]

end Bind

/-- A single move that makes frames for these purposes. -/
def single (made : List Role) (step : Step α) : Traced α :=
  ⟨step, fun machine => [⟨machine, step.after machine, made⟩]⟩

@[simp]
theorem step_single (made : List Role) (step : Step α) : (single made step).step = step := rfl

/-- A single move that makes no frame. -/
def plain (step : Step α) : Traced α :=
  single [] step

@[simp]
theorem step_plain (step : Step α) : (plain step).step = step := rfl

/-- Makes a frame. -/
def newFrame (role : Role) (enclosing : FrameId) (values : List Value) : Traced FrameId :=
  single [role] (Step.newFrame enclosing values)

@[simp]
theorem step_newFrame (role : Role) (enclosing : FrameId) (values : List Value) :
    (newFrame role enclosing values).step = Step.newFrame enclosing values := rfl

/-- A step in a frame, which is entered and left. -/
def within (frame : FrameId) (traced : Traced α) : Traced α :=
  ⟨Step.within frame traced.step, fun machine =>
    let entered := { machine with current := frame }
    let ended := traced.step.after entered
    ⟨machine, entered, []⟩ ::
      (traced.moves entered ++ [⟨ended, { ended with current := machine.current }, []⟩])⟩

@[simp]
theorem step_within (frame : FrameId) (traced : Traced α) :
    (within frame traced).step = Step.within frame traced.step := rfl

/-! ## What makes frames -/

/-- Makes a method into a function in which `this` is an instance. -/
def bindMethod (target : Instance) (method : Closure) : Traced Closure := do
  let frame ← newFrame .this method.environment [.object target]
  plain (Step.newClosure frame method.name method.behaviour)

/-- A property of a value: a field or a method of an instance, or a class method. -/
def property (target : Value) (name : Name) : Traced Value := do
  match target with
  | .object target =>
    match ← plain (Step.field? target name.text) with
    | some value => return value
    | none =>
      match target.ofClass.method? name.text with
      | some method => return .function (← bindMethod target method)
      | none => plain (Step.fail name.line (.undefinedProperty name.text))
  | .type target =>
    match target.classMethod? name.text with
    | some method => return .function method
    | none => plain (Step.fail name.line (.undefinedProperty name.text))
  | _ => plain (Step.fail name.line .hasNoProperties)

/-- A method of the superclass, bound to `this`. -/
def superMethod (addresses : AddressTable) (id line : Nat) (method : Name) : Traced Value := do
  let machine ← plain get
  let slot? := fun (depth slot : Nat) => machine.frames.get? machine.current depth slot
  match addresses[id]? with
  | none => plain (Step.fail line (.undefinedVariable "super"))
  | some ⟨depth, slot⟩ =>
    match slot? depth slot with
    | some (.initialised (.type superclass)) =>
      let this? :=
        match depth with
        | 0 => none
        | thisDepth + 1 => slot? thisDepth 0
      match this? with
      | some (.initialised (.object this)) =>
        match superclass.method? method.text with
        | some found => return .function (← bindMethod this found)
        | none => plain (Step.fail method.line (.undefinedProperty method.text))
      | _ => plain (Step.fail line (.undefinedVariable "this"))
    | _ => plain (Step.fail line (.undefinedVariable "super"))

/-- The frame that the methods of a class keep: one that holds `super` if it extends a class. -/
def methodFrame : Option Class → Traced FrameId
  | none => do return (← plain get).current
  | some superclass => do newFrame .super (← plain get).current [.type superclass]

/-! ## Declarations -/

/-- Declares a variable, then takes a step for its initial value, if it has one. -/
def declareVariable (name : Name) (initial : Option (Traced Value)) : Traced Unit := do
  if ← plain Step.inRoot then
    match initial with
    | some initial =>
      let value ← initial
      plain (Step.setGlobal name.text (.initialised value))
    | none => plain (Step.setGlobal name.text .uninitialised)
  else
    let index ← plain (Step.newSlot .uninitialised)
    match initial with
    | some initial =>
      let value ← initial
      plain (Step.setSlot index value)
    | none => pure ()

/-- Declares a variable with a value. -/
def defineVariable (name : Name) (value : Value) : Traced Unit := do
  if ← plain Step.inRoot then
    plain (Step.setGlobal name.text (.initialised value))
  else
    let _ ← plain (Step.newSlot (.initialised value))

/-- Makes a class whose name is declared. -/
def newClass (addresses : AddressTable) (name : Name) (superclassName : Option Reference)
    (methods classMethods : List NamedFunction) : Traced Value := do
  let superclass ← plain (Step.superclass addresses superclassName)
  let frame ← methodFrame superclass
  let methods ← plain (Step.newMethods frame true methods ∅)
  let classMethods ← plain (Step.newMethods frame false classMethods ∅)
  let id ← plain Step.freshId
  return .type (.extending ⟨id, name.text, methods, classMethods⟩ superclass)

/-- Declares a class. -/
def declareClass (addresses : AddressTable) (name : Name) (superclassName : Option Reference)
    (methods classMethods : List NamedFunction) : Traced Value := do
  if ← plain Step.inRoot then
    plain (Step.setGlobal name.text .uninitialised)
    let value ← newClass addresses name superclassName methods classMethods
    plain (Step.setGlobal name.text (.initialised value))
    return value
  else
    let index ← plain (Step.newSlot .uninitialised)
    let value ← newClass addresses name superclassName methods classMethods
    plain (Step.setSlot index value)
    return value

/-! ## The evaluator -/

mutual

/-- Evaluates an expression. -/
def evaluate (addresses : AddressTable) : Nat → Expr → Traced Value
  | 0, _ => plain (throw .outOfFuel)
  | fuel + 1, expression =>
    match expression with
    | .literal value => return .ofLiteral value
    | .group inner => evaluate addresses fuel inner
    | .unary op line operand => do
      let value ← evaluate addresses fuel operand
      plain (Step.ofExcept (op.apply line value))
    | .binary op line left right => do
      let leftValue ← evaluate addresses fuel left
      let rightValue ← evaluate addresses fuel right
      plain (Step.ofExcept (op.apply line leftValue rightValue))
    | .logical op _ left right => do
      let leftValue ← evaluate addresses fuel left
      if op.decides leftValue then
        return leftValue
      else
        evaluate addresses fuel right
    | .read target => plain (Step.readVariable addresses target.id target.name)
    | .assign target value => do
      let value ← evaluate addresses fuel value
      plain (Step.assignVariable addresses target value)
      return value
    | .call callee line arguments => do
      let callee ← evaluate addresses fuel callee
      let arguments ← evaluateAll addresses fuel arguments
      call addresses fuel line callee arguments
    | .function definition => do
      let machine ← plain get
      return .function
        (← plain (Step.newClosure machine.current "anonymous" (.body definition false)))
    | .get object name => do
      property (← evaluate addresses fuel object) name
    | .set object name value => do
      match ← evaluate addresses fuel object with
      | .object target =>
        let value ← evaluate addresses fuel value
        plain (Step.setField target name.text value)
        return value
      | _ => plain (Step.fail name.line .hasNoFields)
    | .this id line => plain (Step.readVariable addresses id ⟨"this", line⟩)
    | .super id line method => superMethod addresses id line method
termination_by structural fuel => fuel

/-- Evaluates expressions in their order. -/
def evaluateAll (addresses : AddressTable) : Nat → List Expr → Traced (List Value)
  | 0, _ => plain (throw .outOfFuel)
  | _ + 1, [] => return []
  | fuel + 1, first :: others => do
    let value ← evaluate addresses fuel first
    return value :: (← evaluateAll addresses fuel others)
termination_by structural fuel => fuel

/-- Calls a function, or makes an instance of a class. -/
def call (addresses : AddressTable) : Nat → (line : Nat) → Value → List Value → Traced Value
  | 0, _, _, _ => plain (throw .outOfFuel)
  | fuel + 1, line, callee, arguments => do
    match callee with
    | .function closure =>
      plain (Step.checkArity line closure.arity arguments.length)
      invoke addresses fuel closure arguments
    | .type ofClass =>
      plain (Step.checkArity line ofClass.arity arguments.length)
      let created ← plain (Step.newInstance ofClass)
      match ofClass.initializer? with
      | some initializer =>
        let bound ← bindMethod created initializer
        let _ ← invoke addresses fuel bound arguments
        return .object created
      | none => return .object created
    | _ => plain (Step.fail line .notCallable)
termination_by structural fuel => fuel

/-- Runs a function. -/
def invoke (addresses : AddressTable) : Nat → Closure → List Value → Traced Value
  | 0, _, _ => plain (throw .outOfFuel)
  | fuel + 1, closure, arguments =>
    match closure.behaviour with
    | .clock => do
      let machine ← plain get
      return .number machine.clock
    | .body definition isInitializer => do
      let parameters ← newFrame .parameters closure.environment arguments
      let body ← newFrame .body parameters []
      let flow ← within body (executeAll addresses fuel none definition.body)
      if isInitializer then
        let machine ← plain get
        match machine.frames.get? closure.environment 0 0 with
        | some (.initialised this) => return this
        | _ => return .nil
      else
        return flow.callResult
termination_by structural fuel => fuel

/-- Executes a statement. -/
def execute (addresses : AddressTable) : Nat → Stmt → Traced Flow
  | 0, _ => plain (throw .outOfFuel)
  | fuel + 1, statement =>
    match statement with
    | .expression value => do
      return .normal (some (← evaluate addresses fuel value))
    | .print value => do
      let value ← evaluate addresses fuel value
      plain (Step.print value.display)
      return .normal none
    | .varDecl name initial => do
      match initial with
      | some initial => declareVariable name (some (evaluate addresses fuel initial))
      | none => declareVariable name none
      return .normal none
    | .block body => do
      let machine ← plain get
      let frame ← newFrame .block machine.current []
      within frame (executeAll addresses fuel none body)
    | .ifElse condition whenTrue whenFalse => do
      let value ← evaluate addresses fuel condition
      if value.isTruthy then
        execute addresses fuel whenTrue
      else
        match whenFalse with
        | some whenFalse => execute addresses fuel whenFalse
        | none => return .normal none
    | .whileLoop condition body => loop addresses fuel condition body
    | .breakLoop _ => return .broken
    | .funDecl (.mk name definition) => do
      let machine ← plain get
      let closure ← plain (Step.newClosure machine.current name.text (.body definition false))
      defineVariable name (.function closure)
      return .normal none
    | .returnValue _ value => do
      match value with
      | some value => return .returned (← evaluate addresses fuel value)
      | none => return .returned .nil
    | .classDecl name superclass methods classMethods => do
      return .normal (some (← declareClass addresses name superclass methods classMethods))
termination_by structural fuel => fuel

/-- Executes statements in their order until one does not run to its end. -/
def executeAll (addresses : AddressTable) :
    Nat → (result : Option Value) → List Stmt → Traced Flow
  | 0, _, _ => plain (throw .outOfFuel)
  | _ + 1, result, [] => return .normal result
  | fuel + 1, _, first :: others => do
    match ← execute addresses fuel first with
    | .normal result => executeAll addresses fuel result others
    | unfinished => return unfinished
termination_by structural fuel => fuel

/-- Executes a body as long as a condition holds. -/
def loop (addresses : AddressTable) : Nat → Expr → Stmt → Traced Flow
  | 0, _, _ => plain (throw .outOfFuel)
  | fuel + 1, condition, body => do
    let value ← evaluate addresses fuel condition
    if value.isTruthy then
      match ← execute addresses fuel body with
      | .normal _ => loop addresses fuel condition body
      | .broken => return .normal none
      | .returned value => return .returned value
    else
      return .normal none
termination_by structural fuel => fuel

end

/-- Executes the statements of a program. -/
def interpret (addresses : AddressTable) (fuel : Nat) (result : Option Value) :
    List Stmt → Traced (Option Value)
  | [] => return result
  | first :: others => do
    let flow ← execute addresses fuel first
    interpret addresses fuel flow.programResult others

/-! ## Tracing changes nothing -/

@[simp]
theorem step_bindMethod (target : Instance) (method : Closure) :
    (bindMethod target method).step = Step.bindMethod target method := rfl

@[simp]
theorem step_property (target : Value) (name : Name) :
    (property target name).step = Step.property target name := by
  cases target with
  | object target =>
    simp only [property, Step.property, step_bind, step_plain]
    congr 1
    funext found
    cases found with
    | some value => rfl
    | none => cases target.ofClass.method? name.text <;> rfl
  | type target =>
    simp only [property, Step.property]
    cases target.classMethod? name.text <;> rfl
  | _ => rfl

@[simp]
theorem step_superMethod (addresses : AddressTable) (id line : Nat) (method : Name) :
    (superMethod addresses id line method).step = Step.superMethod addresses id line method := by
  simp only [superMethod, Step.superMethod, step_bind, step_plain]
  congr 1
  funext machine
  cases addresses[id]? with
  | none => rfl
  | some address =>
    rcases address with ⟨depth, slot⟩
    dsimp only
    rcases machine.frames.get? machine.current depth slot with _ | _ | value
    · rfl
    · rfl
    · cases value with
      | type superclass =>
        cases depth with
        | zero => rfl
        | succ thisDepth =>
          dsimp only
          rcases machine.frames.get? machine.current thisDepth 0 with _ | _ | value
          · rfl
          · rfl
          · cases value with
            | object this =>
              dsimp only
              cases superclass.method? method.text <;> rfl
            | _ => rfl
      | _ => rfl

@[simp]
theorem step_methodFrame (extended : Option Class) :
    (methodFrame extended).step = Step.methodFrame extended := by
  cases extended <;> rfl

@[simp]
theorem step_defineVariable (name : Name) (value : Value) :
    (defineVariable name value).step = Step.defineVariable name value := by
  simp only [defineVariable, Step.defineVariable, step_bind, step_plain]
  congr 1
  funext isGlobal
  cases isGlobal <;> rfl

@[simp]
theorem step_newClass (addresses : AddressTable) (name : Name) (superclassName : Option Reference)
    (methods classMethods : List NamedFunction) :
    (newClass addresses name superclassName methods classMethods).step =
      Step.newClass addresses name superclassName methods classMethods := by
  simp [newClass, Step.newClass]

@[simp]
theorem step_declareVariable (name : Name) (initial : Option (Traced Value)) :
    (declareVariable name initial).step =
      Step.declareVariable name (initial.map Traced.step) := by
  simp only [declareVariable, Step.declareVariable, step_bind, step_plain]
  congr 1
  funext isGlobal
  cases isGlobal <;> cases initial <;> simp

@[simp]
theorem step_declareClass (addresses : AddressTable) (name : Name)
    (superclassName : Option Reference) (methods classMethods : List NamedFunction) :
    (declareClass addresses name superclassName methods classMethods).step =
      Step.declareClass addresses name superclassName methods classMethods := by
  rw [Step.declareClass_eq_newClass]
  simp only [declareClass, step_bind, step_plain]
  congr 1
  funext isGlobal
  cases isGlobal <;> simp

mutual

theorem step_evaluate (addresses : AddressTable) :
    ∀ (fuel : Nat) (expression : Expr),
      (evaluate addresses fuel expression).step = Step.evaluate addresses fuel expression
  | 0, _ => rfl
  | fuel + 1, expression => by
    have same := step_evaluate addresses fuel
    cases expression with
    | literal | function | read | this => rfl
    | super id line method => exact step_superMethod addresses id line method
    | group inner => exact same inner
    | unary op line operand => simp [evaluate, Step.evaluate, same]
    | binary op line left right => simp [evaluate, Step.evaluate, same]
    | logical op line left right =>
      simp only [evaluate, Step.evaluate, step_bind, same]
      congr 1
      funext value
      split
      · rfl
      · exact same right
    | assign target value => simp [evaluate, Step.evaluate, same]
    | call callee line arguments =>
      simp [evaluate, Step.evaluate, same, step_evaluateAll addresses fuel arguments,
        step_call addresses fuel]
    | get object name => simp [evaluate, Step.evaluate, same]
    | set object name value =>
      simp only [evaluate, Step.evaluate, step_bind, same]
      congr 1
      funext object
      cases object with
      | object target => simp [same]
      | _ => rfl

theorem step_evaluateAll (addresses : AddressTable) :
    ∀ (fuel : Nat) (expressions : List Expr),
      (evaluateAll addresses fuel expressions).step = Step.evaluateAll addresses fuel expressions
  | 0, _ => rfl
  | _ + 1, [] => rfl
  | fuel + 1, first :: others => by
    rw [evaluateAll, Step.evaluateAll]
    simp [step_evaluate addresses fuel, step_evaluateAll addresses fuel others]

theorem step_call (addresses : AddressTable) :
    ∀ (fuel line : Nat) (callee : Value) (arguments : List Value),
      (call addresses fuel line callee arguments).step =
        Step.call addresses fuel line callee arguments
  | 0, _, _, _ => rfl
  | fuel + 1, line, callee, arguments => by
    cases callee with
    | function closure => simp [call, Step.call, step_invoke addresses fuel]
    | type ofClass =>
      simp only [call, Step.call, step_bind, step_plain]
      cases ofClass.initializer? with
      | none => rfl
      | some initializer => simp [step_invoke addresses fuel]
    | _ => rfl

theorem step_invoke (addresses : AddressTable) :
    ∀ (fuel : Nat) (closure : Closure) (arguments : List Value),
      (invoke addresses fuel closure arguments).step = Step.invoke addresses fuel closure arguments
  | 0, _, _ => rfl
  | fuel + 1, closure, arguments => by
    rw [invoke, Step.invoke]
    cases closure.behaviour with
    | clock => rfl
    | body definition isInitializer =>
      simp only [step_bind, step_newFrame, step_within,
        step_executeAll addresses fuel none definition.body]
      cases isInitializer with
      | false => rfl
      | true =>
        congr 1; funext parameters
        congr 1; funext body
        congr 1; funext flow
        simp only [if_true, step_bind, step_plain]
        congr 1; funext machine
        cases machine.frames.get? closure.environment 0 0 with
        | none => rfl
        | some slot => cases slot <;> rfl

theorem step_execute (addresses : AddressTable) :
    ∀ (fuel : Nat) (statement : Stmt),
      (execute addresses fuel statement).step = Step.execute addresses fuel statement
  | 0, _ => rfl
  | fuel + 1, statement => by
    have same := step_evaluate addresses fuel
    cases statement with
    | breakLoop => rfl
    | expression value => simp [execute, Step.execute, same]
    | print value => simp [execute, Step.execute, same]
    | varDecl name initial =>
      rw [Step.execute_varDecl_eq]
      cases initial <;> simp [execute, same]
    | block body => simp [execute, Step.execute, step_executeAll addresses fuel none body]
    | ifElse condition whenTrue whenFalse =>
      simp only [execute, Step.execute, step_bind, same]
      congr 1; funext value
      split
      · exact step_execute addresses fuel whenTrue
      · cases whenFalse with
        | none => rfl
        | some whenFalse => exact step_execute addresses fuel whenFalse
    | whileLoop condition body =>
      simp [execute, Step.execute, step_loop addresses fuel condition body]
    | funDecl function =>
      cases function
      simp [execute, Step.execute]
    | returnValue line value =>
      cases value <;> simp [execute, Step.execute, same]
    | classDecl name superclass methods classMethods => simp [execute, Step.execute]

theorem step_executeAll (addresses : AddressTable) :
    ∀ (fuel : Nat) (result : Option Value) (statements : List Stmt),
      (executeAll addresses fuel result statements).step =
        Step.executeAll addresses fuel result statements
  | 0, _, _ => rfl
  | _ + 1, _, [] => rfl
  | fuel + 1, _, first :: others => by
    rw [executeAll, Step.executeAll]
    simp only [step_bind, step_execute addresses fuel first]
    congr 1; funext flow
    cases flow with
    | normal result => exact step_executeAll addresses fuel result others
    | _ => rfl

theorem step_loop (addresses : AddressTable) :
    ∀ (fuel : Nat) (condition : Expr) (body : Stmt),
      (loop addresses fuel condition body).step = Step.loop addresses fuel condition body
  | 0, _, _ => rfl
  | fuel + 1, condition, body => by
    rw [loop, Step.loop]
    simp only [step_bind, step_evaluate addresses fuel condition]
    congr 1; funext value
    split
    · simp only [step_bind, step_execute addresses fuel body]
      congr 1; funext flow
      cases flow with
      | normal => exact step_loop addresses fuel condition body
      | _ => rfl
    · rfl

end

/-- Traced or not, a program does the same. -/
theorem step_interpret (addresses : AddressTable) (fuel : Nat) (result : Option Value)
    (program : List Stmt) :
    (interpret addresses fuel result program).step =
      Step.interpret addresses fuel result program := by
  induction program generalizing result with
  | nil => rfl
  | cons first others induction =>
    rw [interpret, Step.interpret]
    simp [step_execute, induction]

end Traced

end Lox
