import Lox.Machine.Evaluation
import Lox.Proofs.Lexical.Machine

/-!
# Evaluation without frames

The reference for the meaning of programs: an interpreter that looks names up in
environments when it comes across them.  A block, a function or a method runs `inside`;
its declarations are local.  Outside, declarations are global.

The bound on the depth of the evaluation counts as in the evaluator with frames.
-/

namespace Lox.Lexical.Step

/--
Makes known a variable or class without a value: in a fresh cell, or globally if nothing
is around it.
-/
def introduce (inside : Bool) (environment : Environment) (name : String) : Step Environment := do
  if inside then
    declare environment name .uninitialised
  else
    setGlobal name .uninitialised
    return environment

/-- Gives the variable or class that was declared last a value. -/
def initialise (inside : Bool) (environment : Environment) (name : String)
    (value : Value Environment) : Step Unit :=
  match inside, environment with
  | true, (_, cell) :: _ => setCell cell value
  | _, _ => setGlobal name (.initialised value)

/-- The class that a class extends: the value of its name, which has to be a class. -/
def superclass (environment : Environment) : Option Reference → Step (Option (Class Environment))
  | none => return none
  | some target => do
    match ← readVariable environment target.name with
    | .type superclass => return some superclass
    | _ => fail target.name.line .superclassNotAClass

/-- The environment of the methods of a class, where `super` is the class that it extends. -/
def methodEnvironment (environment : Environment) :
    Option (Class Environment) → Step Environment
  | none => return environment
  | some superclass => declare environment "super" (.initialised (.type superclass))

/-- Declares a class, whose methods can refer to it. -/
def declareClass (inside : Bool) (environment : Environment) (name : Name)
    (superclassName : Option Reference) (methods classMethods : List NamedFunction) :
    Step (Value Environment × Environment) := do
  let environment ← introduce inside environment name.text
  let superclass ← superclass environment superclassName
  let inClass ← methodEnvironment environment superclass
  let methods ← newMethods inClass true methods ∅
  let classMethods ← newMethods inClass false classMethods ∅
  let value := Value.type (.extending ⟨← freshId, name.text, methods, classMethods⟩ superclass)
  initialise inside environment name.text value
  return (value, environment)

/-- Declares a function, which can refer to itself. -/
def declareFunction (inside : Bool) (environment : Environment) (name : Name)
    (definition : Function) : Step Environment := do
  if inside then
    let environment ← introduce true environment name.text
    let closure ← newClosure environment name.text (.body definition false)
    initialise true environment name.text (.function closure)
    return environment
  else
    let closure ← newClosure environment name.text (.body definition false)
    setGlobal name.text (.initialised (.function closure))
    return environment

mutual

/-- Evaluates an expression. -/
def evaluate : Nat → Environment → Expr → Step (Value Environment)
  | 0, _, _ => throw .outOfFuel
  | fuel + 1, environment, expression =>
    match expression with
    | .literal value => return .ofLiteral value
    | .group inner => evaluate fuel environment inner
    | .unary op line operand => do
      ofExcept (op.apply line (← evaluate fuel environment operand))
    | .binary op line left right => do
      let leftValue ← evaluate fuel environment left
      let rightValue ← evaluate fuel environment right
      ofExcept (op.apply line leftValue rightValue)
    | .logical op _ left right => do
      let leftValue ← evaluate fuel environment left
      if op.decides leftValue then
        return leftValue
      else
        evaluate fuel environment right
    | .read target => readVariable environment target.name
    | .assign target value => do
      let value ← evaluate fuel environment value
      assignVariable environment target.name value
      return value
    | .call callee line arguments => do
      let callee ← evaluate fuel environment callee
      let arguments ← evaluateAll fuel environment arguments
      call fuel line callee arguments
    | .function definition => do
      return .function (← newClosure environment "anonymous" (.body definition false))
    | .get object name => do
      property (← evaluate fuel environment object) name
    | .set object name value => do
      match ← evaluate fuel environment object with
      | .object target =>
        let value ← evaluate fuel environment value
        setField target name.text value
        return value
      | _ => fail name.line .hasNoFields
    | .this _ line => readVariable environment ⟨"this", line⟩
    | .super _ line method => superMethod environment line method

/-- Evaluates expressions in their order. -/
def evaluateAll : Nat → Environment → List Expr → Step (List (Value Environment))
  | 0, _, _ => throw .outOfFuel
  | _ + 1, _, [] => return []
  | fuel + 1, environment, first :: others => do
    let value ← evaluate fuel environment first
    return value :: (← evaluateAll fuel environment others)

/-- Calls a function, or makes an instance of a class. -/
def call : Nat → (line : Nat) → Value Environment → List (Value Environment) →
    Step (Value Environment)
  | 0, _, _, _ => throw .outOfFuel
  | fuel + 1, line, callee, arguments => do
    match callee with
    | .function closure =>
      checkArity line closure.arity arguments.length
      invoke fuel closure arguments
    | .type ofClass =>
      checkArity line ofClass.arity arguments.length
      let created ← newInstance ofClass
      match ofClass.initializer? with
      | some initializer =>
        let bound ← bindMethod created initializer
        let _ ← invoke fuel bound arguments
        return .object created
      | none => return .object created
    | _ => fail line .notCallable

/--
Runs a function in the environment that it keeps, where its parameters are declared.
An initialiser yields what `this` means.
-/
def invoke : Nat → Closure Environment → List (Value Environment) → Step (Value Environment)
  | 0, _, _ => throw .outOfFuel
  | fuel + 1, closure, arguments =>
    match closure.behaviour with
    | .clock => do return .number (← get).clock
    | .body definition isInitializer => do
      let environment ← declareAll closure.environment definition.parameters arguments
      let (flow, _) ← executeAll true fuel environment none definition.body
      if isInitializer then
        match (← get).slotOf? closure.environment "this" with
        | some (.initialised this) => return this
        | _ => return .nil
      else
        return flow.callResult

/-- Executes a statement; it may declare a name for those that follow. -/
def execute (inside : Bool) : Nat → Environment → Stmt → Step (Flow Environment × Environment)
  | 0, _, _ => throw .outOfFuel
  | fuel + 1, environment, statement =>
    match statement with
    | .expression value => do
      return (.normal (some (← evaluate fuel environment value)), environment)
    | .print value => do
      print (← evaluate fuel environment value).display
      return (.normal none, environment)
    | .varDecl name none => do
      return (.normal none, ← introduce inside environment name.text)
    | .varDecl name (some initial) => do
      if inside then
        let environment ← introduce true environment name.text
        let value ← evaluate fuel environment initial
        initialise true environment name.text value
        return (.normal none, environment)
      else
        let value ← evaluate fuel environment initial
        setGlobal name.text (.initialised value)
        return (.normal none, environment)
    | .block body => do
      let (flow, _) ← executeAll true fuel environment none body
      return (flow, environment)
    | .ifElse condition whenTrue whenFalse => do
      if (← evaluate fuel environment condition).isTruthy then
        execute inside fuel environment whenTrue
      else
        match whenFalse with
        | some whenFalse => execute inside fuel environment whenFalse
        | none => return (.normal none, environment)
    | .whileLoop condition body => do
      return (← loop inside fuel environment condition body, environment)
    | .breakLoop _ => return (.broken, environment)
    | .funDecl (.mk name definition) => do
      return (.normal none, ← declareFunction inside environment name definition)
    | .returnValue _ value => do
      match value with
      | some value => return (.returned (← evaluate fuel environment value), environment)
      | none => return (.returned .nil, environment)
    | .classDecl name superclass methods classMethods => do
      let (value, environment) ← declareClass inside environment name superclass methods classMethods
      return (.normal (some value), environment)

/--
Executes statements in their order until one does not run to its end.  The result
is that of the last one; before the first one it is `result`.
-/
def executeAll (inside : Bool) : Nat → Environment → (result : Option (Value Environment)) →
    List Stmt → Step (Flow Environment × Environment)
  | 0, _, _, _ => throw .outOfFuel
  | _ + 1, environment, result, [] => return (.normal result, environment)
  | fuel + 1, environment, _, first :: others => do
    let (flow, environment) ← execute inside fuel environment first
    match flow with
    | .normal result => executeAll inside fuel environment result others
    | unfinished => return (unfinished, environment)

/-- Executes a body as long as a condition holds. -/
def loop (inside : Bool) : Nat → Environment → Expr → Stmt → Step (Flow Environment)
  | 0, _, _, _ => throw .outOfFuel
  | fuel + 1, environment, condition, body => do
    if (← evaluate fuel environment condition).isTruthy then
      let (flow, _) ← execute inside fuel environment body
      match flow with
      | .normal _ => loop inside fuel environment condition body
      | .broken => return .normal none
      | .returned value => return .returned value
    else
      return .normal none

end

/--
Executes the statements of a program.  One that returns or breaks has no result,
and the program goes on with the next.
-/
def interpret (fuel : Nat) (environment : Environment) (result : Option (Value Environment)) :
    List Stmt → Step (Option (Value Environment))
  | [] => return result
  | first :: others => do
    let (flow, environment) ← execute false fuel environment first
    interpret fuel environment flow.programResult others

end Lox.Lexical.Step
