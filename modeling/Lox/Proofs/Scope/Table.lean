import Lox.Scope.Walk
import Lox.Value

/-!
# The walk with tables

The walk through the scopes of a program once more, but a scope is a table from names to variables.
In which order the entries of a table are enumerated is not known: an `Enumeration` arranges them
anew whenever a scope is closed.  So the unused variables are sorted by their slots before they are
reported.

What is declared in a scope, and what is reported when it is closed, is written down; nothing looks
at it.
-/

namespace Lox

/-- A variable in the table of a scope. -/
structure Entry where
  slot : Nat
  line : Nat
  /-- Whether the declaration is complete, so that the variable may be read. -/
  defined : Bool
  /-- Whether the name is used as a variable. -/
  read : Bool
deriving DecidableEq, Repr

/-- What is reported of an entry that is not read. -/
def Entry.neverUsed (entry : String × Entry) : BindingError :=
  ⟨entry.2.line, .neverUsed entry.1⟩

/-- A scope as a table from names to variables. -/
structure TableScope where
  entries : Table Entry
  /-- The slot of the variable that is declared next. -/
  next : Nat
  /-- What was declared, in its order. -/
  declared : List Name

namespace TableScope

/-- In a scope that is opened nothing is declared. -/
def empty : TableScope := ⟨∅, 0, []⟩

/-- Puts a variable into the next slot; it takes the place of one of the same name. -/
def insert (name : Name) (defined read : Bool) (scope : TableScope) : TableScope where
  entries := scope.entries.insert name.text ⟨scope.next, name.line, defined, read⟩
  next := scope.next + 1
  declared := scope.declared ++ [name]

/-- Completes the declaration of a name. -/
def define (name : String) (scope : TableScope) : TableScope :=
  { scope with entries := scope.entries.modify name fun entry => { entry with defined := true } }

/-- Marks the variable of a name as read. -/
def markRead (name : String) (scope : TableScope) : TableScope :=
  { scope with entries := scope.entries.modify name fun entry => { entry with read := true } }

/-- The variables that are never read, by their slots. -/
def unread (entries : List (String × Entry)) : List (String × Entry) :=
  (entries.filter fun entry => !entry.2.read).mergeSort fun first second =>
    first.2.slot ≤ second.2.slot

/-- Where the innermost of nested scopes that knows a name has its variable. -/
def locate? (name : String) : List TableScope → Option Address
  | [] => none
  | scope :: outer =>
    match scope.entries[name]? with
    | some entry => some ⟨0, entry.slot⟩
    | none => (locate? name outer).map fun address => { address with depth := address.depth + 1 }

end TableScope

/--
In which order the entries of tables are enumerated, which may be another one whenever a scope is
closed: it depends on how many scopes were closed before.
-/
structure Enumeration where
  arrange : Nat → List (String × Entry) → List (String × Entry)
  perm_arrange : ∀ turn entries, (arrange turn entries).Perm entries

/-- A scope that was closed, and what was reported of its variables. -/
structure Closing where
  scope : TableScope
  errors : List BindingError

/-- The open scopes, and what the walk has found. -/
structure TableWalk where
  /-- The open scopes, innermost first. -/
  scopes : List TableScope
  errors : List BindingError
  bindings : List Binding
  closings : List Closing

namespace TableWalk

/-- Before the first statement of a program no scope is open. -/
def start : TableWalk := ⟨[], [], [], []⟩

/-- Reports a fault. -/
def report (line : Nat) (fault : BindingFault) (walk : TableWalk) : TableWalk :=
  { walk with errors := walk.errors ++ [⟨line, fault⟩] }

/-- Changes the innermost scope, if one is open. -/
def change (update : TableScope → TableScope) (walk : TableWalk) : TableWalk :=
  match walk.scopes with
  | [] => walk
  | scope :: outer => { walk with scopes := update scope :: outer }

/-- Opens a scope. -/
def openScope (walk : TableWalk) : TableWalk :=
  { walk with scopes := .empty :: walk.scopes }

/-- Declares a name in the innermost scope; its declaration is not complete. -/
def declare (name : Name) (walk : TableWalk) : TableWalk :=
  let isDuplicate : Bool :=
    match walk.scopes with
    | [] => false
    | scope :: _ => scope.entries.contains name.text
  let declared := walk.change (.insert name false false)
  if isDuplicate then declared.report name.line (.alreadyDeclared name.text) else declared

/-- Completes the declaration of a name in the innermost scope. -/
def define (name : Name) (walk : TableWalk) : TableWalk :=
  walk.change (.define name.text)

/-- Marks the variable of a name in the innermost scope as read. -/
def markRead (name : Name) (walk : TableWalk) : TableWalk :=
  walk.change (.markRead name.text)

/-- Records the place of a local variable, which is then read. -/
def refer (id : Nat) (name : String) (walk : TableWalk) : TableWalk :=
  match TableScope.locate? name walk.scopes with
  | none => walk
  | some address =>
    { walk with
      scopes := walk.scopes.modify address.depth (.markRead name)
      bindings := walk.bindings ++ [⟨id, address⟩] }

/-- A use of a variable, which must not be in its own initial value. -/
def read (target : Reference) (walk : TableWalk) : TableWalk :=
  let pending : Bool :=
    match walk.scopes with
    | [] => false
    | scope :: _ => scope.entries[target.name.text]?.any (!·.defined)
  let reported :=
    if pending then
      walk.report target.name.line (.readInOwnInitializer target.name.text)
    else
      walk
  reported.refer target.id target.name.text

/-- A use of `this` or `super`, unless something is wrong with it. -/
def readImplicit (fault? : Option BindingFault) (id line : Nat) (name : String)
    (walk : TableWalk) : TableWalk :=
  match fault? with
  | some fault => walk.report line fault
  | none => walk.refer id name

/-- Opens a scope for `this` or `super`, which need not be used. -/
def openImplicit (name : String) (line : Nat) (walk : TableWalk) : TableWalk :=
  walk.openScope.change (.insert ⟨name, line⟩ true true)

/-- Opens the scope of the parameters of a function, which need not be used. -/
def openParameters (parameters : List Name) (walk : TableWalk) : TableWalk :=
  parameters.foldl (fun walk parameter =>
    ((walk.declare parameter).define parameter).markRead parameter) walk.openScope

/-- The superclass of a class: another class, whose name is a use of a variable. -/
def superclass (name : Name) (target : Reference) (walk : TableWalk) : TableWalk :=
  let reported :=
    if target.name.text = name.text then
      walk.report target.name.line (.inheritsFromItself target.name.text)
    else
      walk
  reported.read target

/-- A `return` statement, which must be in a function. -/
def returns (context : Context) (line : Nat) (walk : TableWalk) : TableWalk :=
  if context.function = .outside then walk.report line .returnOutsideFunction else walk

/-! ## Visits -/

variable (order : Enumeration)

/-- Closes the innermost scope and reports what is never used of it. -/
def closeScope (walk : TableWalk) : TableWalk :=
  match walk.scopes with
  | [] => walk
  | scope :: outer =>
    let entries := order.arrange walk.closings.length scope.entries.toList
    let errors := (TableScope.unread entries).map Entry.neverUsed
    { walk with
      scopes := outer
      errors := walk.errors ++ errors
      closings := walk.closings ++ [⟨scope, errors⟩] }

mutual

/-- Visits an expression. -/
def expression (context : Context) (walk : TableWalk) : Expr → TableWalk
  | .literal _ => walk
  | .group inner => walk.expression context inner
  | .unary _ _ operand => walk.expression context operand
  | .binary _ _ left right => (walk.expression context left).expression context right
  | .logical _ _ left right => (walk.expression context left).expression context right
  | .read target => walk.read target
  | .assign target value =>
    (walk.expression context value).refer target.id target.name.text
  | .call callee _ arguments => (walk.expression context callee).expressions context arguments
  | .function definition => walk.function { context with function := .function } definition
  | .get object _ => walk.expression context object
  | .set object _ value => (walk.expression context object).expression context value
  | .this id line => walk.readImplicit context.thisFault? id line "this"
  | .super id line _ => walk.readImplicit context.superFault? id line "super"

/-- Visits expressions in their order. -/
def expressions (context : Context) (walk : TableWalk) : List Expr → TableWalk
  | [] => walk
  | value :: values => (walk.expression context value).expressions context values

/-- Visits the parameters and the body of a function, which is the innermost one of the context. -/
def function (context : Context) (walk : TableWalk) : Function → TableWalk
  | .mk parameters body =>
    ((((walk.openParameters parameters).openScope).statements context body).closeScope
      order).closeScope order

/-- Visits the methods of a class; `context` is that of the class. -/
def methods (context : Context) (walk : TableWalk) : List NamedFunction → TableWalk
  | [] => walk
  | .mk name definition :: others =>
    let role : FunctionContext :=
      if !context.inClassMethod && name.text = "init" then .initializer else .method
    (walk.function { context with function := role } definition).methods context others

/-- Visits a statement. -/
def statement (context : Context) (walk : TableWalk) : Stmt → TableWalk
  | .expression value => walk.expression context value
  | .print value => walk.expression context value
  | .varDecl name none => (walk.declare name).define name
  | .varDecl name (some initial) =>
    ((walk.declare name).expression context initial).define name
  | .block body => (walk.openScope.statements context body).closeScope order
  | .ifElse condition whenTrue none =>
    (walk.expression context condition).statement context whenTrue
  | .ifElse condition whenTrue (some whenFalse) =>
    ((walk.expression context condition).statement context whenTrue).statement context whenFalse
  | .whileLoop condition body => (walk.expression context condition).statement context body
  | .breakLoop _ => walk
  | .funDecl (.mk name definition) =>
    ((walk.declare name).define name).function { context with function := .function } definition
  | .returnValue line none => walk.returns context line
  | .returnValue line (some value) =>
    let walk := walk.returns context line
    let walk :=
      if context.function = .initializer then walk.report line .initializerReturnsValue else walk
    walk.expression context value
  | .classDecl name none methods classMethods =>
    let declared := (walk.declare name).define name
    let inClass := declared.methods ⟨context.function, .plain, true⟩ classMethods
    let inInstance := inClass.openImplicit "this" name.line
    (inInstance.methods ⟨context.function, .plain, false⟩ methods).closeScope order
  | .classDecl name (some target) methods classMethods =>
    let declared := (walk.declare name).define name
    let extending := (declared.superclass name target).openImplicit "super" name.line
    let inClass := extending.methods ⟨context.function, .subclass, true⟩ classMethods
    let inInstance := inClass.openImplicit "this" name.line
    ((inInstance.methods ⟨context.function, .subclass, false⟩ methods).closeScope
      order).closeScope order

/-- Visits statements in their order. -/
def statements (context : Context) (walk : TableWalk) : List Stmt → TableWalk
  | [] => walk
  | first :: others => (walk.statement context first).statements context others

end

end TableWalk

/-- Resolves the names of a program with tables that are enumerated in some order. -/
def Enumeration.resolve (order : Enumeration) (program : List Stmt) : TableWalk :=
  TableWalk.start.statements order .program program

end Lox
