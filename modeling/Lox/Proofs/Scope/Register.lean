import Lox.Proofs.Scope.Balance

/-!
# The walk with registers

The walk once more, but what surrounds a statement is not handed down to it.  It stands in
registers: a function or a class sets them when it is entered, and when it is left they are set
back to what was read from them before.  And a scope is closed only if one is open; if none is, the
walk is stuck.

The walk with registers is never stuck, it does what the walk does, and it leaves the registers as
it finds them (`Walker.statement_eq`).  `visits_balanced` says this together with what visits do to
scopes, also if these are tables.
-/

namespace Lox

/-- The walk, and the registers for what surrounds the statement that is visited. -/
structure Walker where
  walk : Walk
  registers : Context

namespace Walker

/-- Before the first statement of a program. -/
def start : Walker := ⟨.start, .program⟩

/-- Takes a step of the walk, for which the registers do not matter. -/
def step (change : Walk → Walk) (walker : Walker) : Walker :=
  { walker with walk := change walker.walk }

/-- Sets the kind of the innermost function. -/
def setFunction (kind : FunctionContext) (walker : Walker) : Walker :=
  { walker with registers := { walker.registers with function := kind } }

/-- Sets the kind of the innermost class. -/
def setClass (kind : ClassContext) (walker : Walker) : Walker :=
  { walker with registers := { walker.registers with ofClass := kind } }

/-- Sets whether the innermost method is a class method. -/
def setClassMethod (inClassMethod : Bool) (walker : Walker) : Walker :=
  { walker with registers := { walker.registers with inClassMethod := inClassMethod } }

/-- Closes the innermost scope, if there is one. -/
def closeScope (walker : Walker) : Option Walker :=
  if walker.walk.scopes.isEmpty then none else some (walker.step .closeScope)

/-! ## Visits -/

mutual

/-- Visits an expression. -/
def expression (walker : Walker) : Expr → Option Walker
  | .literal _ => some walker
  | .group inner => walker.expression inner
  | .unary _ _ operand => walker.expression operand
  | .binary _ _ left right => do
    let walker ← walker.expression left
    walker.expression right
  | .logical _ _ left right => do
    let walker ← walker.expression left
    walker.expression right
  | .read target => some (walker.step (·.read target))
  | .assign target value => do
    let walker ← walker.expression value
    return walker.step (·.refer target.id target.name.text)
  | .call callee _ arguments => do
    let walker ← walker.expression callee
    walker.expressions arguments
  | .function definition => walker.function .function definition
  | .get object _ => walker.expression object
  | .set object _ value => do
    let walker ← walker.expression object
    walker.expression value
  | .this id line => some (walker.step (·.readImplicit walker.registers.thisFault? id line "this"))
  | .super id line _ =>
    some (walker.step (·.readImplicit walker.registers.superFault? id line "super"))

/-- Visits expressions in their order. -/
def expressions (walker : Walker) : List Expr → Option Walker
  | [] => some walker
  | value :: values => do
    let walker ← walker.expression value
    walker.expressions values

/-- Visits a function of some kind. -/
def function (kind : FunctionContext) (walker : Walker) : Function → Option Walker
  | .mk parameters body => do
    let enclosing := walker.registers.function
    let entered := walker.setFunction kind
    let opened := (entered.step (·.openParameters parameters)).step .openScope
    let visited ← opened.statements body
    let inParameters ← visited.closeScope
    let left ← inParameters.closeScope
    return left.setFunction enclosing

/-- Visits the methods of a class; one named `init` may be an initialiser. -/
def methods (initialise : Bool) (walker : Walker) : List NamedFunction → Option Walker
  | [] => some walker
  | .mk name definition :: others => do
    let kind : FunctionContext := if initialise && name.text = "init" then .initializer else .method
    let walker ← walker.function kind definition
    walker.methods initialise others

/-- Visits a statement. -/
def statement (walker : Walker) : Stmt → Option Walker
  | .expression value => walker.expression value
  | .print value => walker.expression value
  | .varDecl name none => some ((walker.step (·.declare name false false)).step (·.define name))
  | .varDecl name (some initial) => do
    let walker ← (walker.step (·.declare name false false)).expression initial
    return walker.step (·.define name)
  | .block body => do
    let visited ← (walker.step .openScope).statements body
    visited.closeScope
  | .ifElse condition whenTrue none => do
    let walker ← walker.expression condition
    walker.statement whenTrue
  | .ifElse condition whenTrue (some whenFalse) => do
    let walker ← walker.expression condition
    let walker ← walker.statement whenTrue
    walker.statement whenFalse
  | .whileLoop condition body => do
    let walker ← walker.expression condition
    walker.statement body
  | .breakLoop _ => some walker
  | .funDecl (.mk name definition) =>
    (walker.step (·.declare name true false)).function .function definition
  | .returnValue line none => some (walker.step (·.returns walker.registers line))
  | .returnValue line (some value) =>
    let reported := walker.step fun walk =>
      let walk := walk.returns walker.registers line
      if walker.registers.function = .initializer then
        walk.report line .initializerReturnsValue
      else
        walk
    reported.expression value
  | .classDecl name none methods classMethods => do
    let enclosing := walker.registers
    let entered := (walker.setClass .plain).setClassMethod false
    let declared := entered.step (·.declare name true false)
    let inClass ← (declared.setClassMethod true).methods false classMethods
    let bound := (inClass.setClassMethod false).step (·.openImplicit "this" name.line)
    let inInstance ← bound.methods true methods
    let left ← inInstance.closeScope
    return (left.setClass enclosing.ofClass).setClassMethod enclosing.inClassMethod
  | .classDecl name (some target) methods classMethods => do
    let enclosing := walker.registers
    let entered := (walker.setClass .plain).setClassMethod false
    let declared := entered.step (·.declare name true false)
    let extending := (declared.setClass .subclass).step (·.superclass name target)
    let opened := extending.step (·.openImplicit "super" name.line)
    let inClass ← (opened.setClassMethod true).methods false classMethods
    let bound := (inClass.setClassMethod false).step (·.openImplicit "this" name.line)
    let inInstance ← bound.methods true methods
    let inSuper ← inInstance.closeScope
    let left ← inSuper.closeScope
    return (left.setClass enclosing.ofClass).setClassMethod enclosing.inClassMethod

/-- Visits statements in their order. -/
def statements (walker : Walker) : List Stmt → Option Walker
  | [] => some walker
  | first :: others => do
    let walker ← walker.statement first
    walker.statements others

end

/-! ## The registers are set back -/

theorem closeScope_of_ne_nil {walk : Walk} (isOpen : walk.scopes ≠ []) (registers : Context) :
    closeScope ⟨walk, registers⟩ = some ⟨walk.closeScope, registers⟩ := by
  have notEmpty : ¬ walk.scopes.isEmpty = true := isOpen ∘ List.isEmpty_iff.mp
  rw [closeScope, if_neg notEmpty]
  rfl

open Walk (balanced_statements balanced_methods balanced_declare balanced_declareAll)

mutual

theorem expression_eq (walk : Walk) (registers : Context) : ∀ value : Expr,
    expression ⟨walk, registers⟩ value = some ⟨walk.expression registers value, registers⟩
  | .literal _ => by
    simp only [expression, Walk.expression]
  | .group inner => by
    simp only [expression, Walk.expression]
    exact expression_eq walk registers inner
  | .unary _ _ operand => by
    simp only [expression, Walk.expression]
    exact expression_eq walk registers operand
  | .binary _ _ left right => by
    simp only [expression, Walk.expression, expression_eq walk registers left]
    exact expression_eq _ registers right
  | .logical _ _ left right => by
    simp only [expression, Walk.expression, expression_eq walk registers left]
    exact expression_eq _ registers right
  | .read target => by
    simp only [expression, Walk.expression]
    rfl
  | .assign target value => by
    simp only [expression, Walk.expression, expression_eq walk registers value]
    rfl
  | .call callee _ arguments => by
    simp only [expression, Walk.expression, expression_eq walk registers callee]
    exact expressions_eq _ registers arguments
  | .function definition => by
    simp only [expression, Walk.expression]
    exact function_eq .function walk registers definition
  | .get object _ => by
    simp only [expression, Walk.expression]
    exact expression_eq walk registers object
  | .set object _ value => by
    simp only [expression, Walk.expression, expression_eq walk registers object]
    exact expression_eq _ registers value
  | .this id line => by
    simp only [expression, Walk.expression]
    rfl
  | .super id line _ => by
    simp only [expression, Walk.expression]
    rfl

theorem expressions_eq (walk : Walk) (registers : Context) : ∀ values : List Expr,
    expressions ⟨walk, registers⟩ values = some ⟨walk.expressions registers values, registers⟩
  | [] => by
    simp only [expressions, Walk.expressions]
  | value :: values => by
    simp only [expressions, Walk.expressions, expression_eq walk registers value]
    exact expressions_eq _ registers values

theorem function_eq (kind : FunctionContext) (walk : Walk) (registers : Context) :
    ∀ definition : Function, function kind ⟨walk, registers⟩ definition =
      some ⟨walk.function { registers with function := kind } definition, registers⟩
  | .mk parameters body => by
    -- What is visited in the two scopes is balanced, so both are still open when they are closed.
    have visited := balanced_statements { registers with function := kind } body
    have inParameters := (balanced_declareAll parameters).trans visited.enclosed
    simp only [function, Walk.function, step, setFunction, statements_eq, Option.bind_eq_bind,
      Option.bind_some]
    rw [closeScope_of_ne_nil, Option.bind_some, closeScope_of_ne_nil]
    · rfl
    · exact inParameters.ne_nil walk
    · exact visited.ne_nil (walk.openParameters parameters)

theorem methods_eq (initialise : Bool) (walk : Walk) (registers : Context)
    (fits : registers.inClassMethod = !initialise) : ∀ members : List NamedFunction,
      methods initialise ⟨walk, registers⟩ members =
        some ⟨walk.methods registers members, registers⟩
  | [] => by
    simp only [methods, Walk.methods]
  | .mk name definition :: others => by
    simp only [methods, Walk.methods, function_eq, fits, Bool.not_not]
    exact methods_eq initialise _ registers fits others

theorem statement_eq (walk : Walk) (registers : Context) : ∀ statement : Stmt,
    Walker.statement ⟨walk, registers⟩ statement =
      some ⟨walk.statement registers statement, registers⟩
  | .expression value => by
    simp only [statement, Walk.statement]
    exact expression_eq walk registers value
  | .print value => by
    simp only [statement, Walk.statement]
    exact expression_eq walk registers value
  | .varDecl name none => by
    simp only [statement, Walk.statement]
    rfl
  | .varDecl name (some initial) => by
    simp only [statement, Walk.statement, step, expression_eq]
    rfl
  | .block body => by
    simp only [statement, Walk.statement, step, statements_eq]
    exact closeScope_of_ne_nil ((balanced_statements registers body).ne_nil walk) registers
  | .ifElse condition whenTrue none => by
    simp only [statement, Walk.statement, expression_eq walk registers condition]
    exact statement_eq _ registers whenTrue
  | .ifElse condition whenTrue (some whenFalse) => by
    simp only [statement, Walk.statement, expression_eq walk registers condition,
      Option.bind_eq_bind, Option.bind_some, statement_eq _ registers whenTrue]
    exact statement_eq _ registers whenFalse
  | .whileLoop condition body => by
    simp only [statement, Walk.statement, expression_eq walk registers condition]
    exact statement_eq _ registers body
  | .breakLoop _ => by
    simp only [statement, Walk.statement]
  | .funDecl (.mk name definition) => by
    simp only [statement, Walk.statement]
    exact function_eq .function _ registers definition
  | .returnValue line none => by
    simp only [statement, Walk.statement]
    rfl
  | .returnValue line (some value) => by
    simp only [statement, Walk.statement]
    exact expression_eq _ registers value
  | .classDecl name none methods classMethods => by
    have bound := (balanced_declare ⟨"this", name.line⟩ true true).trans
      (balanced_methods ⟨registers.function, .plain, false⟩ methods)
    simp only [statement, Walk.statement, step, setClass, setClassMethod, Option.bind_eq_bind]
    rw [methods_eq false _ _ rfl, Option.bind_some, methods_eq true _ _ rfl, Option.bind_some,
      closeScope_of_ne_nil]
    · rfl
    · exact bound.ne_nil _
  | .classDecl name (some target) methods classMethods => by
    have bound := (balanced_declare ⟨"this", name.line⟩ true true).trans
      (balanced_methods ⟨registers.function, .subclass, false⟩ methods)
    have members := (balanced_methods ⟨registers.function, .subclass, true⟩ classMethods).trans
      bound.enclosed
    have extending := (balanced_declare ⟨"super", name.line⟩ true true).trans members
    simp only [statement, Walk.statement, step, setClass, setClassMethod, Option.bind_eq_bind]
    rw [methods_eq false _ _ rfl, Option.bind_some, methods_eq true _ _ rfl, Option.bind_some,
      closeScope_of_ne_nil, Option.bind_some, closeScope_of_ne_nil]
    · rfl
    · exact extending.ne_nil _
    · exact bound.ne_nil _

theorem statements_eq (walk : Walk) (registers : Context) : ∀ statements : List Stmt,
    Walker.statements ⟨walk, registers⟩ statements =
      some ⟨walk.statements registers statements, registers⟩
  | [] => by
    simp only [statements, Walk.statements]
  | first :: others => by
    simp only [statements, Walk.statements, statement_eq walk registers first]
    exact statements_eq _ registers others

end

/-- Between two statements of a program everything is as at the start, apart from what was found. -/
theorem statements_start (program : List Stmt) :
    start.statements program =
      some ⟨⟨[], (resolve program).errors.toArray, (resolve program).bindings.toArray⟩,
        .program⟩ := by
  rw [start, statements_eq, ← Walk.scopes_statements_start program]
  rfl

end Walker

/-! ## Tables -/

/-- An entry is what it was before, but its variable may have been read. -/
structure Entry.Keeps (before after : Entry) : Prop where
  slot : after.slot = before.slot
  line : after.line = before.line
  defined : after.defined = before.defined
  read : before.read → after.read

theorem Declaration.Keeps.entry {before after : Declaration} (keeps : before.Keeps after)
    (slot : Nat) : (before.entry slot).Keeps (after.entry slot) :=
  ⟨rfl, keeps.line, keeps.defined, keeps.read⟩

/-- Related lists have related elements in every place. -/
theorem getElem?_of_forall₂ {α β : Type} {related : α → β → Prop} {lefts : List α}
    {rights : List β} (all : List.Forall₂ related lefts rights) (index : Nat) :
    Option.Rel related lefts[index]? rights[index]? := by
  induction all generalizing index with
  | nil => exact .none
  | cons first _ induction =>
    cases index with
    | zero => exact .some first
    | succ index => exact induction index

theorem Scope.Keeps.lookup? {before after : Scope} (keeps : before.Keeps after) (name : String) :
    Option.Rel Entry.Keeps (before.lookup? name) (after.lookup? name) := by
  rw [Scope.lookup?, Scope.lookup?, keeps.names_eq]
  cases latest? name before.names with
  | none => exact .none
  | some slot =>
    have same := getElem?_of_forall₂ keeps slot
    dsimp only [Option.bind_some]
    revert same
    generalize before[slot]? = earlier
    generalize after[slot]? = later
    intro same
    cases same with
    | none => exact .none
    | some keeps => exact .some (keeps.entry slot)

namespace TableScope

variable {table table' : TableScope} {scope scope' : Scope}

/-- Makes declarations, each of which takes the place of an entry with its name. -/
def declare (declarations : List Declaration) (table : TableScope) : TableScope :=
  declarations.foldl (fun table declaration =>
    table.insert ⟨declaration.name, declaration.line⟩ declaration.defined declaration.read) table

/-- A table has the entries that it had before, but variables may have been read. -/
structure Keeps (before after : TableScope) : Prop where
  next : after.next = before.next
  entries : ∀ name : String, Option.Rel Entry.Keeps before.entries[name]? after.entries[name]?

theorem Matches.declare (same : table.Matches scope) (declarations : List Declaration) :
    (table.declare declarations).Matches (scope ++ declarations) := by
  induction declarations generalizing table scope with
  | nil =>
    rw [List.append_nil]
    exact same
  | cons first others induction =>
    have inserted := induction
      (same.insert ⟨first.name, first.line⟩ first.defined first.read)
    rw [List.append_assoc] at inserted
    exact inserted

theorem matches_modifyHead {tables : List TableScope} {scopes : List Scope}
    (all : List.Forall₂ Matches tables scopes) (declarations : List Declaration) :
    List.Forall₂ Matches (tables.modifyHead (·.declare declarations))
      (scopes.modifyHead (· ++ declarations)) := by
  cases all with
  | nil => exact .nil
  | cons innermost outer => exact .cons (innermost.declare declarations) outer

/-- What a scope keeps, its table keeps. -/
theorem Matches.keeps (same : table.Matches scope) (keeps : scope.Keeps scope')
    (same' : table'.Matches scope') : table.Keeps table' where
  next := same'.next.trans (keeps.length_eq.symm.trans same.next.symm)
  entries name := by
    rw [same.entries, same'.entries]
    exact keeps.lookup? name

end TableScope

namespace TableWalk

/--
Between two states of the walk with tables these declarations were made in the innermost table, if
a scope is open, where each took the place of an entry with its name.  Tables have all their other
entries, of which only variables may have been read.  To what was found, something was added.
-/
structure Adds (declarations : List Declaration) (before after : TableWalk) : Prop where
  scopes : List.Forall₂ TableScope.Keeps (before.scopes.modifyHead (·.declare declarations))
    after.scopes
  errors : before.errors <+: after.errors
  bindings : before.bindings <+: after.bindings

variable {tables tables' : TableWalk} {walk walk' : Walk}

/-- What is added to the walk is added to tables. -/
theorem Agrees.adds (agrees : tables.Agrees walk) (agrees' : tables'.Agrees walk')
    {declarations : List Declaration} (adds : walk.Adds declarations walk') :
    tables.Adds declarations tables' where
  scopes := by
    have declared := TableScope.matches_modifyHead agrees.scopes declarations
    have kept : List.Forall₂ (fun table scope => ∃ earlier, TableScope.Matches table earlier ∧
        earlier.Keeps scope) (tables.scopes.modifyHead (·.declare declarations)) walk'.scopes := by
      refine forall₂_comp ?_ declared adds.scopes
      intro _ earlier _ same keeps
      exact ⟨earlier, same, keeps⟩
    refine forall₂_comp ?_ kept agrees'.scopes.flip
    rintro _ _ _ ⟨earlier, same, keeps⟩ same'
    exact same.keeps keeps same'
  errors := by
    rw [agrees.errors, agrees'.errors]
    exact adds.errors
  bindings := by
    rw [agrees.bindings, agrees'.bindings]
    exact adds.bindings

end TableWalk

/--
Visits are balanced.  With registers, a visit of a statement is never stuck at a scope that it is to
close, does what the walk does, and leaves the registers as it finds them.  It leaves as many scopes
open as it finds; what it declares around itself is added to the innermost of them, and nothing else
happens to their declarations, or to the entries of tables, but that variables are read.  And it
only adds to what was found.  The same holds for expressions, which declare nothing.

So between two statements of a program everything is as at the start, and what is found in programs
one after the other is what is found in each of them.
-/
theorem visits_balanced (walk : Walk) (context : Context) :
    (∀ statement : Stmt,
      Walker.statement ⟨walk, context⟩ statement =
        some ⟨walk.statement context statement, context⟩ ∧
      walk.Adds statement.declarations (walk.statement context statement) ∧
      ∀ (order : Enumeration) (tables : TableWalk), tables.Agrees walk →
        tables.Adds statement.declarations (tables.statement order context statement)) ∧
    (∀ value : Expr,
      Walker.expression ⟨walk, context⟩ value = some ⟨walk.expression context value, context⟩ ∧
      walk.Adds [] (walk.expression context value) ∧
      ∀ (order : Enumeration) (tables : TableWalk), tables.Agrees walk →
        tables.Adds [] (tables.expression order context value)) ∧
    ∀ first second : List Stmt,
      Walker.start.statements first = some
        ⟨⟨[], (resolve first).errors.toArray, (resolve first).bindings.toArray⟩, .program⟩ ∧
      (resolve (first ++ second)).errors = (resolve first).errors ++ (resolve second).errors ∧
      (resolve (first ++ second)).bindings =
        (resolve first).bindings ++ (resolve second).bindings := by
  refine ⟨fun statement => ?_, fun value => ?_, fun first second => ?_⟩
  · have adds := (Walk.balanced_statement context statement).adds walk
    refine ⟨Walker.statement_eq walk context statement, adds, ?_⟩
    intro order tables agrees
    exact agrees.adds (TableWalk.agrees_statement order context agrees statement) adds
  · have adds := (Walk.balanced_expression context value).adds walk
    refine ⟨Walker.expression_eq walk context value, adds, ?_⟩
    intro order tables agrees
    exact agrees.adds (TableWalk.agrees_expression order context agrees value) adds
  · exact ⟨Walker.statements_start first, errors_resolve_append first second,
      bindings_resolve_append first second⟩

/-- Tables are enumerated as their entries are listed. -/
def Enumeration.asListed : Enumeration where
  arrange _ entries := entries
  perm_arrange _ entries := .refl entries

/-- A class is declared again and extends what is then itself; each of its methods has a local. -/
def extendsItself : Stmt :=
  .classDecl ⟨"a", 2⟩ (some ⟨0, ⟨"a", 2⟩⟩)
    [.mk ⟨"init", 2⟩ (.mk [⟨"b", 2⟩] [.varDecl ⟨"c", 2⟩ (some (.super 1 2 ⟨"b", 2⟩))])]
    [.mk ⟨"b", 2⟩ (.mk [] [.block [.varDecl ⟨"a", 2⟩ none]])]

/-- The new declaration takes the place of the old one, and only it is read. -/
theorem visits_balanced_extendsItself :
    TableWalk.Agrees ((TableWalk.start.openScope.declare ⟨"a", 1⟩).define ⟨"a", 1⟩)
        (Walk.start.openScope.declare ⟨"a", 1⟩ true false) ∧
      TableWalk.Adds [⟨"a", 2, true, false⟩]
        ((TableWalk.start.openScope.declare ⟨"a", 1⟩).define ⟨"a", 1⟩)
        (((TableWalk.start.openScope.declare ⟨"a", 1⟩).define ⟨"a", 1⟩).statement .asListed
          ⟨.initializer, .subclass, true⟩ extendsItself) ∧
      (((TableWalk.start.openScope.declare ⟨"a", 1⟩).define ⟨"a", 1⟩).statement .asListed
          ⟨.initializer, .subclass, true⟩ extendsItself).scopes.map (·.entries.toList) =
        [[("a", ⟨1, 2, true, true⟩)]] := by
  have agrees := TableWalk.agrees_start.openScope.declareDefined ⟨"a", 1⟩
  refine ⟨agrees, ?_, by decide +kernel⟩
  exact ((visits_balanced _ ⟨.initializer, .subclass, true⟩).1 extendsItself).2.2 .asListed _ agrees

end Lox
