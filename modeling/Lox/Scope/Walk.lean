import Lox.Scope.Basic
import Lox.Scope.BindingError

/-!
# The walk through the scopes of a program

The walk visits the statements of a program in their order.  It opens a scope for
each block, two for each function (its parameters and its body), one for `super`
around the methods of a subclass and one for `this` around instance methods.  For
each use of a local variable it records where the variable is; a name that no
open scope declares is global and gets no record.

A visit leaves as many scopes open as it finds.
-/

namespace Lox

/-- Under which id the place of a variable is recorded, and the place. -/
structure Binding where
  id : Nat
  address : Address
deriving DecidableEq, Repr

/-! ## What surrounds a statement -/

/-- The kind of the innermost function around a statement. -/
inductive FunctionContext where
  | outside
  | function
  | method
  | initializer
deriving DecidableEq, Repr

/-- The kind of the innermost class around a statement. -/
inductive ClassContext where
  | outside
  | plain
  | subclass
deriving DecidableEq, Repr

/-- What surrounds a statement. -/
structure Context where
  function : FunctionContext
  ofClass : ClassContext
  /-- Whether the innermost method around the statement is a class method. -/
  inClassMethod : Bool
deriving DecidableEq, Repr

namespace Context

/-- Nothing surrounds the statements of a program. -/
def program : Context := ⟨.outside, .outside, false⟩

/-- What is wrong with `this` in a context. -/
def thisFault? (context : Context) : Option BindingFault :=
  match context.ofClass, context.inClassMethod with
  | .outside, _ => some .thisOutsideClass
  | _, true => some .thisInClassMethod
  | _, false => none

/-- What is wrong with `super` in a context. -/
def superFault? (context : Context) : Option BindingFault :=
  match context.ofClass, context.inClassMethod with
  | .outside, _ => some .superOutsideClass
  | _, true => some .superInClassMethod
  | .plain, false => some .superWithoutSuperclass
  | .subclass, false => none

end Context

/-! ## The state of the walk -/

/-- The open scopes, and what the walk has found. -/
structure Walk where
  /-- The open scopes, innermost first. -/
  scopes : List Scope
  errors : Array BindingError
  bindings : Array Binding

namespace Walk

/-- Before the first statement of a program no scope is open. -/
def start : Walk := ⟨[], #[], #[]⟩

/-- Reports a fault. -/
def report (line : Nat) (fault : BindingFault) (walk : Walk) : Walk :=
  { walk with errors := walk.errors.push ⟨line, fault⟩ }

/-- Opens a scope. -/
def openScope (walk : Walk) : Walk :=
  { walk with scopes := [] :: walk.scopes }

/-- Closes the innermost scope and reports what is never used of it. -/
def closeScope (walk : Walk) : Walk :=
  match walk.scopes with
  | [] => walk
  | scope :: outer =>
    scope.unread.foldl (fun walk declaration =>
      walk.report declaration.line (.neverUsed declaration.name)) { walk with scopes := outer }

/-- Declares a name in the innermost scope; without an open scope it is global. -/
def declare (name : Name) (defined read : Bool) (walk : Walk) : Walk :=
  match walk.scopes with
  | [] => walk
  | scope :: outer =>
    let declared := { walk with scopes := (scope ++ [⟨name.text, name.line, defined, read⟩]) :: outer }
    if scope.any (·.name == name.text) then
      declared.report name.line (.alreadyDeclared name.text)
    else
      declared

/-- Completes the declaration of a name in the innermost scope. -/
def define (name : Name) (walk : Walk) : Walk :=
  match walk.scopes with
  | [] => walk
  | scope :: outer => { walk with scopes := scope.define name.text :: outer }

/-- Records the place of a local variable, which is then read. -/
def refer (id : Nat) (name : String) (walk : Walk) : Walk :=
  match locate? name (walk.scopes.map Scope.names) with
  | none => walk
  | some address =>
    { walk with
      scopes := walk.scopes.modify address.depth (·.markRead address.slot)
      bindings := walk.bindings.push ⟨id, address⟩ }

/-- A use of a variable, which must not be in its own initial value. -/
def read (target : Reference) (walk : Walk) : Walk :=
  let pending :=
    match walk.scopes with
    | [] => false
    | scope :: _ => scope.isPending target.name.text
  let reported :=
    if pending then
      walk.report target.name.line (.readInOwnInitializer target.name.text)
    else
      walk
  reported.refer target.id target.name.text

/-- A use of `this` or `super`, unless something is wrong with it. -/
def readImplicit (fault? : Option BindingFault) (id line : Nat) (name : String)
    (walk : Walk) : Walk :=
  match fault? with
  | some fault => walk.report line fault
  | none => walk.refer id name

/-- Opens a scope for `this` or `super`, which need not be used. -/
def openImplicit (name : String) (line : Nat) (walk : Walk) : Walk :=
  walk.openScope.declare ⟨name, line⟩ true true

/-- Opens the scope of the parameters of a function, which need not be used. -/
def openParameters (parameters : List Name) (walk : Walk) : Walk :=
  parameters.foldl (fun walk parameter => walk.declare parameter true true) walk.openScope

/-- The superclass of a class: another class, whose name is a use of a variable. -/
def superclass (name : Name) (target : Reference) (walk : Walk) : Walk :=
  let reported :=
    if target.name.text = name.text then
      walk.report target.name.line (.inheritsFromItself target.name.text)
    else
      walk
  reported.read target

/-- A `return` statement, which must be in a function. -/
def returns (context : Context) (line : Nat) (walk : Walk) : Walk :=
  if context.function = .outside then walk.report line .returnOutsideFunction else walk

/-! ## Visits -/

mutual

/-- Visits an expression. -/
def expression (context : Context) (walk : Walk) : Expr → Walk
  | .literal _ => walk
  | .group inner => walk.expression context inner
  | .unary _ _ operand => walk.expression context operand
  | .binary _ _ left right => (walk.expression context left).expression context right
  | .logical _ _ left right => (walk.expression context left).expression context right
  | .read target => walk.read target
  | .assign target value =>
    (walk.expression context value).refer target.id target.name.text
  | .call callee _ arguments => (walk.expression context callee).expressions context arguments
  | .function definition => walk.function { context with function := .function } definition
  | .get object _ => walk.expression context object
  | .set object _ value => (walk.expression context object).expression context value
  | .this id line => walk.readImplicit context.thisFault? id line "this"
  | .super id line _ => walk.readImplicit context.superFault? id line "super"

/-- Visits expressions in their order. -/
def expressions (context : Context) (walk : Walk) : List Expr → Walk
  | [] => walk
  | value :: values => (walk.expression context value).expressions context values

/-- Visits the parameters and the body of a function, which is the innermost one of the context. -/
def function (context : Context) (walk : Walk) : Function → Walk
  | .mk parameters body =>
    (((walk.openParameters parameters).openScope).statements context body).closeScope.closeScope

/-- Visits the methods of a class; `context` is that of the class. -/
def methods (context : Context) (walk : Walk) : List NamedFunction → Walk
  | [] => walk
  | .mk name definition :: others =>
    let role : FunctionContext :=
      if !context.inClassMethod && name.text = "init" then .initializer else .method
    (walk.function { context with function := role } definition).methods context others

/-- Visits a statement. -/
def statement (context : Context) (walk : Walk) : Stmt → Walk
  | .expression value => walk.expression context value
  | .print value => walk.expression context value
  | .varDecl name none => (walk.declare name false false).define name
  | .varDecl name (some initial) =>
    ((walk.declare name false false).expression context initial).define name
  | .block body => (walk.openScope.statements context body).closeScope
  | .ifElse condition whenTrue none =>
    (walk.expression context condition).statement context whenTrue
  | .ifElse condition whenTrue (some whenFalse) =>
    ((walk.expression context condition).statement context whenTrue).statement context whenFalse
  | .whileLoop condition body => (walk.expression context condition).statement context body
  | .breakLoop _ => walk
  | .funDecl (.mk name definition) =>
    (walk.declare name true false).function { context with function := .function } definition
  | .returnValue line none => walk.returns context line
  | .returnValue line (some value) =>
    let walk := walk.returns context line
    let walk :=
      if context.function = .initializer then walk.report line .initializerReturnsValue else walk
    walk.expression context value
  | .classDecl name none methods classMethods =>
    let declared := walk.declare name true false
    let inClass := declared.methods ⟨context.function, .plain, true⟩ classMethods
    let inInstance := inClass.openImplicit "this" name.line
    (inInstance.methods ⟨context.function, .plain, false⟩ methods).closeScope
  | .classDecl name (some target) methods classMethods =>
    let declared := walk.declare name true false
    let extending := (declared.superclass name target).openImplicit "super" name.line
    let inClass := extending.methods ⟨context.function, .subclass, true⟩ classMethods
    let inInstance := inClass.openImplicit "this" name.line
    (inInstance.methods ⟨context.function, .subclass, false⟩ methods).closeScope.closeScope

/-- Visits statements in their order. -/
def statements (context : Context) (walk : Walk) : List Stmt → Walk
  | [] => walk
  | first :: others => (walk.statement context first).statements context others

end

end Walk

/-- What the walk through a program finds. -/
structure Resolution where
  errors : List BindingError
  /-- The places of local variables, in the order of their uses. -/
  bindings : List Binding

/-- Resolves the names of a program. -/
def resolve (program : List Stmt) : Resolution :=
  let walk := Walk.start.statements .program program
  ⟨walk.errors.toList, walk.bindings.toList⟩

end Lox
