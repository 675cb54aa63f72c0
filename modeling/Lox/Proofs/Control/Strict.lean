import Lox.Session

/-!
# Strict evaluation

The evaluator once more, but one that does not forgive.  A `break` names the loop that it is to
end: the innermost one around it in the function that runs.  It is an escape if there is none,
if another loop gets the signal, or if it leaves a function.  It is an escape, too, if a `return`
or a `break` leaves a statement of a program.  And a binary operator is looked up by its symbol,
which may be unknown.
-/

namespace Lox.Strict

/-- What should not happen. -/
inductive Violation where
  /-- A signal is not consumed where it should be. -/
  | escape
  /-- The symbol of a binary operator is that of none. -/
  | invalidOperator (symbol : Symbol)
deriving DecidableEq, Repr

/-- Why a strict step yields nothing. -/
inductive Stop where
  /-- The machine stops. -/
  | ordinary (stop : Lox.Stop)
  | violated (violation : Violation)

/-- A strict step of the machine. -/
abbrev Step := EStateM Stop Machine

/-- How a statement ends. -/
inductive Signal where
  | normal (result : Option Value)
  | returned (value : Value)
  /-- It leaves the loop that has so many loops around it in the same function. -/
  | broken (loop : Nat)

/-- The binary operator that a symbol stands for. -/
def binaryOp? : Symbol → Option BinaryOp
  | .plus => some .add
  | .minus => some .subtract
  | .star => some .multiply
  | .slash => some .divide
  | .greater => some .greater
  | .greaterEqual => some .greaterEqual
  | .less => some .less
  | .lessEqual => some .lessEqual
  | .equalEqual => some .equal
  | .bangEqual => some .notEqual
  | _ => none

variable {α : Type}

namespace Step

/-- A step that sends no signals. -/
def ordinary (step : Lox.Step α) : Step α := fun machine =>
  match step machine with
  | .ok result machine => .ok result machine
  | .error stop machine => .error (.ordinary stop) machine

/-- Ends with an escape. -/
def escape : Step α :=
  throw (.violated .escape)

/-- Applies the binary operator that a symbol stands for. -/
def applyBinary (symbol : Symbol) (line : Nat) (left right : Value) : Step Value :=
  match binaryOp? symbol with
  | some op => ordinary (.ofExcept (op.apply line left right))
  | none => throw (.violated (.invalidOperator symbol))

/-- Takes a step in a frame and returns to the frame before it, also if it stops. -/
def within (frame : FrameId) (step : Step α) : Step α := fun machine =>
  let caller := machine.current
  match step { machine with current := frame } with
  | .ok result machine => .ok result { machine with current := caller }
  | .error stop machine => .error stop { machine with current := caller }

/-- What a call yields whose body ends like this; it must not leave a loop. -/
def bodyResult (isInitializer : Bool) (environment : FrameId) : Signal → Step Value
  | .broken _ => escape
  | .normal _ => if isInitializer then this else return .nil
  | .returned value => if isInitializer then this else return value
where
  /-- The instance that an initialiser is for. -/
  this : Step Value := do
    match (← ordinary get).frames.get? environment 0 0 with
    | some (.initialised this) => return this
    | _ => return .nil

mutual

/-- Evaluates an expression. -/
def evaluate (addresses : AddressTable) : Nat → Expr → Step Value
  | 0, _ => ordinary (throw .outOfFuel)
  | fuel + 1, expression =>
    match expression with
    | .literal value => return .ofLiteral value
    | .group inner => evaluate addresses fuel inner
    | .unary op line operand => do
      let value ← evaluate addresses fuel operand
      ordinary (.ofExcept (op.apply line value))
    | .binary op line left right => do
      let leftValue ← evaluate addresses fuel left
      let rightValue ← evaluate addresses fuel right
      applyBinary op.symbol line leftValue rightValue
    | .logical op _ left right => do
      let leftValue ← evaluate addresses fuel left
      if op.decides leftValue then
        return leftValue
      else
        evaluate addresses fuel right
    | .read target => ordinary (.readVariable addresses target.id target.name)
    | .assign target value => do
      let value ← evaluate addresses fuel value
      ordinary (.assignVariable addresses target value)
      return value
    | .call callee line arguments => do
      let callee ← evaluate addresses fuel callee
      let arguments ← evaluateAll addresses fuel arguments
      call addresses fuel line callee arguments
    | .function definition => do
      let machine ← ordinary get
      return .function
        (← ordinary (.newClosure machine.current "anonymous" (.body definition false)))
    | .get object name => do
      let object ← evaluate addresses fuel object
      ordinary (.property object name)
    | .set object name value => do
      match ← evaluate addresses fuel object with
      | .object target =>
        let value ← evaluate addresses fuel value
        ordinary (.setField target name.text value)
        return value
      | _ => ordinary (.fail name.line .hasNoFields)
    | .this id line => ordinary (.readVariable addresses id ⟨"this", line⟩)
    | .super id line method => ordinary (.superMethod addresses id line method)
termination_by structural fuel => fuel

/-- Evaluates expressions in their order. -/
def evaluateAll (addresses : AddressTable) : Nat → List Expr → Step (List Value)
  | 0, _ => ordinary (throw .outOfFuel)
  | _ + 1, [] => return []
  | fuel + 1, first :: others => do
    let value ← evaluate addresses fuel first
    return value :: (← evaluateAll addresses fuel others)
termination_by structural fuel => fuel

/-- Calls a function, or makes an instance of a class. -/
def call (addresses : AddressTable) : Nat → (line : Nat) → Value → List Value → Step Value
  | 0, _, _, _ => ordinary (throw .outOfFuel)
  | fuel + 1, line, callee, arguments => do
    match callee with
    | .function closure =>
      ordinary (.checkArity line closure.arity arguments.length)
      invoke addresses fuel closure arguments
    | .type ofClass =>
      ordinary (.checkArity line ofClass.arity arguments.length)
      let created ← ordinary (.newInstance ofClass)
      match ofClass.initializer? with
      | some initializer =>
        let bound ← ordinary (.bindMethod created initializer)
        let _ ← invoke addresses fuel bound arguments
        return .object created
      | none => return .object created
    | _ => ordinary (.fail line .notCallable)
termination_by structural fuel => fuel

/-- Runs a function.  No loop is around the statements of its body. -/
def invoke (addresses : AddressTable) : Nat → Closure → List Value → Step Value
  | 0, _, _ => ordinary (throw .outOfFuel)
  | fuel + 1, closure, arguments =>
    match closure.behaviour with
    | .clock => do
      let machine ← ordinary get
      return .number machine.clock
    | .body definition isInitializer => do
      let parameters ← ordinary (.newFrame closure.environment arguments)
      let body ← ordinary (.newFrame parameters [])
      let signal ← within body (executeAll addresses 0 fuel none definition.body)
      bodyResult isInitializer closure.environment signal
termination_by structural fuel => fuel

/-- Executes a statement with so many loops around it in the function that runs. -/
def execute (addresses : AddressTable) (loops : Nat) : Nat → Stmt → Step Signal
  | 0, _ => ordinary (throw .outOfFuel)
  | fuel + 1, statement =>
    match statement with
    | .expression value => do
      return .normal (some (← evaluate addresses fuel value))
    | .print value => do
      let value ← evaluate addresses fuel value
      ordinary (.print value.display)
      return .normal none
    | .varDecl name initial => do
      if ← ordinary .inRoot then
        match initial with
        | some initial =>
          let value ← evaluate addresses fuel initial
          ordinary (.setGlobal name.text (.initialised value))
        | none => ordinary (.setGlobal name.text .uninitialised)
      else
        let index ← ordinary (.newSlot .uninitialised)
        match initial with
        | some initial =>
          let value ← evaluate addresses fuel initial
          ordinary (.setSlot index value)
        | none => pure ()
      return .normal none
    | .block body => do
      let machine ← ordinary get
      let frame ← ordinary (.newFrame machine.current [])
      within frame (executeAll addresses loops fuel none body)
    | .ifElse condition whenTrue whenFalse => do
      let value ← evaluate addresses fuel condition
      if value.isTruthy then
        execute addresses loops fuel whenTrue
      else
        match whenFalse with
        | some whenFalse => execute addresses loops fuel whenFalse
        | none => return .normal none
    | .whileLoop condition body => loop addresses loops fuel condition body
    | .breakLoop _ =>
      match loops with
      | innermost + 1 => return .broken innermost
      | 0 => escape
    | .funDecl (.mk name definition) => do
      let machine ← ordinary get
      let closure ← ordinary (.newClosure machine.current name.text (.body definition false))
      ordinary (.defineVariable name (.function closure))
      return .normal none
    | .returnValue _ value => do
      match value with
      | some value => return .returned (← evaluate addresses fuel value)
      | none => return .returned .nil
    | .classDecl name superclass methods classMethods => do
      return .normal (some
        (← ordinary (.declareClass addresses name superclass methods classMethods)))
termination_by structural fuel => fuel

/-- Executes statements in their order until one does not run to its end. -/
def executeAll (addresses : AddressTable) (loops : Nat) :
    Nat → (result : Option Value) → List Stmt → Step Signal
  | 0, _, _ => ordinary (throw .outOfFuel)
  | _ + 1, result, [] => return .normal result
  | fuel + 1, _, first :: others => do
    match ← execute addresses loops fuel first with
    | .normal result => executeAll addresses loops fuel result others
    | unfinished => return unfinished
termination_by structural fuel => fuel

/-- Executes a body as long as a condition holds.  The loop is ended by its own signal only. -/
def loop (addresses : AddressTable) (loops : Nat) : Nat → Expr → Stmt → Step Signal
  | 0, _, _ => ordinary (throw .outOfFuel)
  | fuel + 1, condition, body => do
    let value ← evaluate addresses fuel condition
    if value.isTruthy then
      match ← execute addresses (loops + 1) fuel body with
      | .normal _ => loop addresses loops fuel condition body
      | .broken ended => if ended = loops then return .normal none else escape
      | .returned value => return .returned value
    else
      return .normal none
termination_by structural fuel => fuel

end

/-- Executes the statements of a program, each of which has to run to its end. -/
def interpret (addresses : AddressTable) (fuel : Nat) (result : Option Value) :
    List Stmt → Step (Option Value)
  | [] => return result
  | first :: others => do
    match ← execute addresses 0 fuel first with
    | .normal result => interpret addresses fuel result others
    | _ => escape

/-- A `break` in a function does not end the loop around the function. -/
example (machine : Machine) :
    match interpret ∅ 20 none [.whileLoop (.literal (.bool true))
      (.expression (.call (.function (.mk [] [.breakLoop 1])) 1 []))] machine with
    | .error (.violated .escape) _ => True
    | _ => False := by
  cbv

end Step

end Lox.Strict
