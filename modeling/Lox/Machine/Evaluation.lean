import Lox.Machine.Basic

/-!
# Evaluation

Expressions are evaluated to values and statements are executed.  Calls and loops
may go on for ever, so the functions take a bound on the depth of the evaluation
and stop with `Stop.outOfFuel` when it is reached; any larger bound gives the same
result as one that is not reached.
-/

namespace Lox

/-- How a statement ends. -/
inductive Flow (ε : Type := FrameId) where
  /-- It has run to its end, with a result if it is an expression or a class. -/
  | normal (result : Option (Value ε))
  /-- It returns a value from the function around it. -/
  | returned (value : Value ε)
  /-- It leaves the loop around it. -/
  | broken

namespace Flow

variable {ε : Type}

/-- What a call yields whose body ends like this. -/
def callResult : Flow ε → Value ε
  | returned value => value
  | normal _ => .nil
  | broken => .nil

/-- The result of a statement of a program that ends like this. -/
def programResult : Flow ε → Option (Value ε)
  | normal result => result
  | returned _ => none
  | broken => none

end Flow

namespace Step

/-- The class that a class extends: the value of its name, which has to be a class. -/
def superclass (addresses : AddressTable) : Option Reference → Step (Option Class)
  | none => return none
  | some target => do
    match ← readVariable addresses target.id target.name with
    | .type superclass => return some superclass
    | _ => fail target.name.line .superclassNotAClass

/-- The frame that the methods of a class keep: one that holds `super` if it extends a class. -/
def methodFrame : Option Class → Step FrameId
  | none => return (← get).current
  | some superclass => do newFrame (← get).current [.type superclass]

/--
Declares a class.  Its name is declared first, without a value, so that methods
can refer to the class.
-/
def declareClass (addresses : AddressTable) (name : Name) (superclassName : Option Reference)
    (methods classMethods : List NamedFunction) : Step Value := do
  let isGlobal ← inRoot
  let index ←
    if isGlobal then
      setGlobal name.text .uninitialised
      pure 0
    else
      newSlot .uninitialised
  let superclass ← superclass addresses superclassName
  let frame ← methodFrame superclass
  let methods ← newMethods frame true methods ∅
  let classMethods ← newMethods frame false classMethods ∅
  let value := Value.type (.extending ⟨← freshId, name.text, methods, classMethods⟩ superclass)
  if isGlobal then
    setGlobal name.text (.initialised value)
  else
    setSlot index value
  return value

mutual

/-- Evaluates an expression. -/
def evaluate (addresses : AddressTable) : Nat → Expr → Step Value
  | 0, _ => throw .outOfFuel
  | fuel + 1, expression =>
    match expression with
    | .literal value => return .ofLiteral value
    | .group inner => evaluate addresses fuel inner
    | .unary op line operand => do
      ofExcept (op.apply line (← evaluate addresses fuel operand))
    | .binary op line left right => do
      let leftValue ← evaluate addresses fuel left
      let rightValue ← evaluate addresses fuel right
      ofExcept (op.apply line leftValue rightValue)
    | .logical op _ left right => do
      let leftValue ← evaluate addresses fuel left
      if op.decides leftValue then
        return leftValue
      else
        evaluate addresses fuel right
    | .read target => readVariable addresses target.id target.name
    | .assign target value => do
      let value ← evaluate addresses fuel value
      assignVariable addresses target value
      return value
    | .call callee line arguments => do
      let callee ← evaluate addresses fuel callee
      let arguments ← evaluateAll addresses fuel arguments
      call addresses fuel line callee arguments
    | .function definition => do
      return .function (← newClosure (← get).current "anonymous" (.body definition false))
    | .get object name => do
      property (← evaluate addresses fuel object) name
    | .set object name value => do
      match ← evaluate addresses fuel object with
      | .object target =>
        let value ← evaluate addresses fuel value
        setField target name.text value
        return value
      | _ => fail name.line .hasNoFields
    | .this id line => readVariable addresses id ⟨"this", line⟩
    | .super id line method => superMethod addresses id line method

/-- Evaluates expressions in their order. -/
def evaluateAll (addresses : AddressTable) : Nat → List Expr → Step (List Value)
  | 0, _ => throw .outOfFuel
  | _ + 1, [] => return []
  | fuel + 1, first :: others => do
    let value ← evaluate addresses fuel first
    return value :: (← evaluateAll addresses fuel others)

/-- Calls a function, or makes an instance of a class. -/
def call (addresses : AddressTable) : Nat → (line : Nat) → Value → List Value → Step Value
  | 0, _, _, _ => throw .outOfFuel
  | fuel + 1, line, callee, arguments => do
    match callee with
    | .function closure =>
      checkArity line closure.arity arguments.length
      invoke addresses fuel closure arguments
    | .type ofClass =>
      checkArity line ofClass.arity arguments.length
      let created ← newInstance ofClass
      match ofClass.initializer? with
      | some initializer =>
        let bound ← bindMethod created initializer
        let _ ← invoke addresses fuel bound arguments
        return .object created
      | none => return .object created
    | _ => fail line .notCallable

/--
Runs a function.  Its parameters are in a frame of their own, and the variables of
its body in another one inside.  An initialiser yields the instance in the frame
that it keeps.
-/
def invoke (addresses : AddressTable) : Nat → Closure → List Value → Step Value
  | 0, _, _ => throw .outOfFuel
  | fuel + 1, closure, arguments =>
    match closure.behaviour with
    | .clock => do return .number (← get).clock
    | .body definition isInitializer => do
      let parameters ← newFrame closure.environment arguments
      let body ← newFrame parameters []
      let flow ← within body (executeAll addresses fuel none definition.body)
      if isInitializer then
        match (← get).frames.get? closure.environment 0 0 with
        | some (.initialised this) => return this
        | _ => return .nil
      else
        return flow.callResult

/-- Executes a statement. -/
def execute (addresses : AddressTable) : Nat → Stmt → Step Flow
  | 0, _ => throw .outOfFuel
  | fuel + 1, statement =>
    match statement with
    | .expression value => do
      return .normal (some (← evaluate addresses fuel value))
    | .print value => do
      print (← evaluate addresses fuel value).display
      return .normal none
    | .varDecl name initial => do
      if ← inRoot then
        match initial with
        | some initial =>
          let value ← evaluate addresses fuel initial
          setGlobal name.text (.initialised value)
        | none => setGlobal name.text .uninitialised
      else
        let index ← newSlot .uninitialised
        match initial with
        | some initial =>
          let value ← evaluate addresses fuel initial
          setSlot index value
        | none => pure ()
      return .normal none
    | .block body => do
      let frame ← newFrame (← get).current []
      within frame (executeAll addresses fuel none body)
    | .ifElse condition whenTrue whenFalse => do
      if (← evaluate addresses fuel condition).isTruthy then
        execute addresses fuel whenTrue
      else
        match whenFalse with
        | some whenFalse => execute addresses fuel whenFalse
        | none => return .normal none
    | .whileLoop condition body => loop addresses fuel condition body
    | .breakLoop _ => return .broken
    | .funDecl (.mk name definition) => do
      let closure ← newClosure (← get).current name.text (.body definition false)
      defineVariable name (.function closure)
      return .normal none
    | .returnValue _ value => do
      match value with
      | some value => return .returned (← evaluate addresses fuel value)
      | none => return .returned .nil
    | .classDecl name superclass methods classMethods => do
      return .normal (some (← declareClass addresses name superclass methods classMethods))

/--
Executes statements in their order until one does not run to its end.  The result
is that of the last one; before the first one it is `result`.
-/
def executeAll (addresses : AddressTable) : Nat → (result : Option Value) → List Stmt → Step Flow
  | 0, _, _ => throw .outOfFuel
  | _ + 1, result, [] => return .normal result
  | fuel + 1, _, first :: others => do
    match ← execute addresses fuel first with
    | .normal result => executeAll addresses fuel result others
    | unfinished => return unfinished

/-- Executes a body as long as a condition holds. -/
def loop (addresses : AddressTable) : Nat → Expr → Stmt → Step Flow
  | 0, _, _ => throw .outOfFuel
  | fuel + 1, condition, body => do
    if (← evaluate addresses fuel condition).isTruthy then
      match ← execute addresses fuel body with
      | .normal _ => loop addresses fuel condition body
      | .broken => return .normal none
      | .returned value => return .returned value
    else
      return .normal none

end

/--
Executes the statements of a program.  One that returns or breaks has no result,
and the program goes on with the next.
-/
def interpret (addresses : AddressTable) (fuel : Nat) (result : Option Value) :
    List Stmt → Step (Option Value)
  | [] => return result
  | first :: others => do
    let flow ← execute addresses fuel first
    interpret addresses fuel flow.programResult others

end Step

end Lox
