import Lox.Proofs.Renaming.Tree
import Lox.Scope.Walk

/-!
# The scopes of renamed programs

The walk through a renamed program finds the same as that through the program: the same errors on
other lines, and the same places under other ids (`resolve_rename`).
-/

namespace Lox

/-! ## What changes -/

/-- A declaration on another line. -/
def Declaration.rename (change : Renaming) (declaration : Declaration) : Declaration :=
  { declaration with line := change.line declaration.line }

/-- A scope on other lines. -/
def Scope.rename (change : Renaming) (scope : Scope) : Scope :=
  List.map (Declaration.rename change) scope

/-- A binding error on another line. -/
def BindingError.rename (change : Renaming) (error : BindingError) : BindingError :=
  ⟨change.line error.line, error.fault⟩

/-- A place that is recorded under another id. -/
def Binding.rename (change : Renaming) (binding : Binding) : Binding :=
  ⟨change.id binding.id, binding.address⟩

/-- What the walk through a renamed program finds. -/
def Walk.rename (change : Renaming) (walk : Walk) : Walk where
  scopes := walk.scopes.map (Scope.rename change)
  errors := walk.errors.map (BindingError.rename change)
  bindings := walk.bindings.map (Binding.rename change)

/-- An entry of a list may be changed before or after all are. -/
theorem modify_map {α β : Type} {change : α → β} {here : α → α} {here' : β → β}
    (same : ∀ entry, here' (change entry) = change (here entry)) (entries : List α)
    (index : Nat) :
    (entries.map change).modify index here' = (entries.modify index here).map change := by
  apply List.ext_getElem?
  intro other
  rw [List.getElem?_modify, List.getElem?_map, List.getElem?_map, List.getElem?_modify]
  cases entries[other]? with
  | none => rfl
  | some entry =>
    simp only [Option.map_some, Option.map_eq_map]
    split
    · rw [same]
    · rfl

variable (change : Renaming)

/-! ## Scopes -/

namespace Scope

@[simp]
theorem names_rename (scope : Scope) : (scope.rename change).names = scope.names := by
  simp [names, rename, Declaration.rename]

theorem isPending_rename (name : String) (scope : Scope) :
    (scope.rename change).isPending name = scope.isPending name := by
  rw [isPending, isPending, names_rename]
  split
  · next slot _ =>
    rw [rename, List.getElem?_map, Option.any_map]
    rfl
  · rfl

theorem define_rename (name : String) (scope : Scope) :
    (scope.rename change).define name = (scope.define name).rename change := by
  rw [define, define, names_rename]
  split
  · next slot _ =>
    show (List.map (Declaration.rename change) scope).modify slot _ =
      (List.modify scope slot _).map (Declaration.rename change)
    apply modify_map
    intro entry
    rfl
  · rfl

theorem markRead_rename (slot : Nat) (scope : Scope) :
    (scope.rename change).markRead slot = (scope.markRead slot).rename change := by
  show (List.map (Declaration.rename change) scope).modify slot _ =
    (List.modify scope slot _).map (Declaration.rename change)
  apply modify_map
  intro entry
  rfl

theorem unread_rename (scope : Scope) :
    (scope.rename change).unread = scope.unread.map (Declaration.rename change) := by
  induction scope with
  | nil => rfl
  | cons declaration later induction =>
    have hidden : (rename change later).any (·.name == declaration.name) =
        later.any (·.name == declaration.name) := by
      rw [rename, List.any_map]
      rfl
    show (if declaration.read || (rename change later).any (·.name == declaration.name) then
      (rename change later).unread
      else declaration.rename change :: (rename change later).unread) = _
    rw [hidden, induction, unread]
    split <;> rfl

end Scope

/-! ## Single steps of the walk -/

namespace Walk

theorem report_rename (line : Nat) (fault : BindingFault) (walk : Walk) :
    (walk.rename change).report (change.line line) fault =
      (walk.report line fault).rename change := by
  simp [report, rename, BindingError.rename]

theorem openScope_rename (walk : Walk) :
    (walk.rename change).openScope = walk.openScope.rename change := rfl

/-- The declarations that nothing reads are reported. -/
theorem foldl_report_rename (declarations : List Declaration) (walk : Walk) :
    (declarations.map (Declaration.rename change)).foldl (fun walk declaration =>
        walk.report declaration.line (.neverUsed declaration.name)) (walk.rename change) =
      (declarations.foldl (fun walk declaration =>
        walk.report declaration.line (.neverUsed declaration.name)) walk).rename change := by
  induction declarations generalizing walk with
  | nil => rfl
  | cons first others induction =>
    rw [List.map_cons, List.foldl_cons, List.foldl_cons, ← induction, ← report_rename]
    rfl

theorem closeScope_rename (walk : Walk) :
    (walk.rename change).closeScope = walk.closeScope.rename change := by
  rcases walk with ⟨_ | ⟨scope, outer⟩, errors, bindings⟩
  · rfl
  · have reports := foldl_report_rename change scope.unread ⟨outer, errors, bindings⟩
    rw [← Scope.unread_rename] at reports
    exact reports

theorem declare_rename (name : Name) (defined read : Bool) (walk : Walk) :
    (walk.rename change).declare (name.rename change) defined read =
      (walk.declare name defined read).rename change := by
  rcases walk with ⟨_ | ⟨scope, outer⟩, errors, bindings⟩
  · rfl
  · have before : (scope.rename change).any (·.name == name.text) =
        scope.any (·.name == name.text) := by
      rw [Scope.rename, List.any_map]
      rfl
    have declared : (scope.rename change) ++ [⟨name.text, change.line name.line, defined, read⟩] =
        Scope.rename change (scope ++ [⟨name.text, name.line, defined, read⟩]) := by
      rw [Scope.rename, Scope.rename, List.map_append]
      rfl
    simp only [declare, rename, List.map_cons, Name.text_rename, Name.line_rename, before,
      declared]
    split
    · exact report_rename change name.line _ ⟨_ :: outer, errors, bindings⟩
    · rfl

theorem define_rename (name : Name) (walk : Walk) :
    (walk.rename change).define (name.rename change) = (walk.define name).rename change := by
  rcases walk with ⟨_ | ⟨scope, outer⟩, errors, bindings⟩
  · rfl
  · simp only [define, rename, List.map_cons, Name.text_rename, Scope.define_rename]

theorem refer_rename (id : Nat) (name : String) (walk : Walk) :
    (walk.rename change).refer (change.id id) name = (walk.refer id name).rename change := by
  have names : (walk.rename change).scopes.map Scope.names = walk.scopes.map Scope.names := by
    simp [rename]
  rw [refer, refer, names]
  split
  · rfl
  · next address _ =>
    simp only [rename, Array.map_push]
    rw [modify_map fun scope => Scope.markRead_rename change address.slot scope]
    rfl

theorem read_rename (target : Reference) (walk : Walk) :
    (walk.rename change).read (target.rename change) = (walk.read target).rename change := by
  rcases target with ⟨id, text, line⟩
  rcases walk with ⟨_ | ⟨scope, outer⟩, errors, bindings⟩
  · exact refer_rename change id text ⟨[], errors, bindings⟩
  · let walk : Walk := ⟨scope :: outer, errors, bindings⟩
    show Walk.refer (change.id id) text (if (scope.rename change).isPending text then
        (walk.rename change).report (change.line line) (.readInOwnInitializer text)
        else walk.rename change) =
      (Walk.refer id text (if scope.isPending text then
        walk.report line (.readInOwnInitializer text) else walk)).rename change
    rw [Scope.isPending_rename, report_rename, ← apply_ite (rename change), refer_rename]

theorem readImplicit_rename (fault? : Option BindingFault) (id line : Nat) (name : String)
    (walk : Walk) :
    (walk.rename change).readImplicit fault? (change.id id) (change.line line) name =
      (walk.readImplicit fault? id line name).rename change := by
  cases fault? with
  | none => exact refer_rename change id name walk
  | some fault => exact report_rename change line fault walk

theorem openImplicit_rename (name : String) (line : Nat) (walk : Walk) :
    (walk.rename change).openImplicit name (change.line line) =
      (walk.openImplicit name line).rename change :=
  declare_rename change ⟨name, line⟩ true true walk.openScope

theorem openParameters_rename (parameters : List Name) (walk : Walk) :
    (walk.rename change).openParameters (parameters.map (Name.rename change)) =
      (walk.openParameters parameters).rename change := by
  rw [openParameters, openParameters, openScope_rename]
  generalize walk.openScope = opened
  induction parameters generalizing opened with
  | nil => rfl
  | cons first others induction =>
    rw [List.map_cons, List.foldl_cons, List.foldl_cons, declare_rename, induction]

theorem superclass_rename (name : Name) (target : Reference) (walk : Walk) :
    (walk.rename change).superclass (name.rename change) (target.rename change) =
      (walk.superclass name target).rename change := by
  have same : (target.rename change).name.text = (name.rename change).text ↔
      target.name.text = name.text := Iff.rfl
  simp only [superclass, same]
  rw [Reference.name_rename, Name.line_rename, Name.text_rename, report_rename,
    ← apply_ite (rename change), read_rename]

theorem returns_rename (context : Context) (line : Nat) (walk : Walk) :
    (walk.rename change).returns context (change.line line) =
      (walk.returns context line).rename change := by
  rw [returns, returns, report_rename, apply_ite (rename change)]

/-! ## Visits -/

mutual

theorem expression_rename (context : Context) (walk : Walk) :
    ∀ expression : Expr, (walk.rename change).expression context (expression.rename change) =
      (walk.expression context expression).rename change
  | .literal _ => rfl
  | .group inner => expression_rename context walk inner
  | .unary _ _ operand => expression_rename context walk operand
  | .binary _ _ left right => by
    simp only [Expr.rename, expression, expression_rename context walk left,
      expression_rename context _ right]
  | .logical _ _ left right => by
    simp only [Expr.rename, expression, expression_rename context walk left,
      expression_rename context _ right]
  | .read target => read_rename change target walk
  | .assign target value => by
    simp only [Expr.rename, expression, expression_rename context walk value]
    exact refer_rename change target.id target.name.text _
  | .call callee _ arguments => by
    simp only [Expr.rename, expression, expression_rename context walk callee,
      expressions_rename context _ arguments]
  | .function definition => function_rename _ walk definition
  | .get object _ => expression_rename context walk object
  | .set object _ value => by
    simp only [Expr.rename, expression, expression_rename context walk object,
      expression_rename context _ value]
  | .this id line => readImplicit_rename change _ id line "this" walk
  | .super id line _ => readImplicit_rename change _ id line "super" walk

theorem expressions_rename (context : Context) (walk : Walk) :
    ∀ values : List Expr, (walk.rename change).expressions context (Expr.renameAll change values) =
      (walk.expressions context values).rename change
  | [] => rfl
  | first :: others => by
    rw [Expr.renameAll, expressions, expressions, expression_rename context walk first,
      expressions_rename context _ others]

theorem function_rename (context : Context) (walk : Walk) :
    ∀ definition : Function, (walk.rename change).function context (definition.rename change) =
      (walk.function context definition).rename change
  | .mk parameters body => by
    rw [Function.rename, function, function, openParameters_rename, openScope_rename,
      statements_rename context _ body, closeScope_rename, closeScope_rename]

theorem methods_rename (context : Context) (walk : Walk) :
    ∀ functions : List NamedFunction,
      (walk.rename change).methods context (NamedFunction.renameAll change functions) =
        (walk.methods context functions).rename change
  | [] => rfl
  | .mk name definition :: others => by
    rw [NamedFunction.renameAll, methods, methods, Name.text_rename,
      function_rename _ walk definition, methods_rename context _ others]

theorem statement_rename (context : Context) (walk : Walk) :
    ∀ statement : Stmt, (walk.rename change).statement context (statement.rename change) =
      (walk.statement context statement).rename change
  | .expression value => expression_rename context walk value
  | .print value => expression_rename context walk value
  | .varDecl name none => by
    rw [Stmt.rename, statement, statement, declare_rename, define_rename]
  | .varDecl name (some initial) => by
    rw [Stmt.rename, statement, statement, declare_rename, expression_rename context _ initial,
      define_rename]
  | .block body => by
    rw [Stmt.rename, statement, statement, openScope_rename, statements_rename context _ body,
      closeScope_rename]
  | .ifElse condition whenTrue none => by
    rw [Stmt.rename, statement, statement, expression_rename context walk condition,
      statement_rename context _ whenTrue]
  | .ifElse condition whenTrue (some whenFalse) => by
    rw [Stmt.rename, statement, statement, expression_rename context walk condition,
      statement_rename context _ whenTrue, statement_rename context _ whenFalse]
  | .whileLoop condition body => by
    rw [Stmt.rename, statement, statement, expression_rename context walk condition,
      statement_rename context _ body]
  | .breakLoop _ => rfl
  | .funDecl (.mk name definition) => by
    rw [Stmt.rename, statement, statement, declare_rename, function_rename _ _ definition]
  | .returnValue line none => returns_rename change context line walk
  | .returnValue line (some value) => by
    simp only [Stmt.rename, statement, returns_rename, report_rename]
    rw [← apply_ite (rename change), expression_rename context _ value]
  | .classDecl name none methods classMethods => by
    simp only [Stmt.rename, statement, Option.map_none, Name.line_rename, declare_rename,
      methods_rename _ _ classMethods, openImplicit_rename, methods_rename _ _ methods,
      closeScope_rename]
  | .classDecl name (some target) methods classMethods => by
    simp only [Stmt.rename, statement, Option.map_some, Name.line_rename, declare_rename,
      superclass_rename, methods_rename _ _ classMethods, openImplicit_rename,
      methods_rename _ _ methods, closeScope_rename]

theorem statements_rename (context : Context) (walk : Walk) :
    ∀ program : List Stmt,
      (walk.rename change).statements context (Stmt.renameAll change program) =
        (walk.statements context program).rename change
  | [] => rfl
  | first :: others => by
    rw [Stmt.renameAll, statements, statements, statement_rename context walk first,
      statements_rename context _ others]

end

end Walk

/-- The same is found in a renamed program: errors on other lines, places under other ids. -/
theorem resolve_rename (program : List Stmt) :
    resolve (Stmt.renameAll change program) =
      ⟨(resolve program).errors.map (BindingError.rename change),
        (resolve program).bindings.map (Binding.rename change)⟩ := by
  have walks := Walk.statements_rename change .program .start program
  have start : Walk.start.rename change = Walk.start := by
    simp [Walk.rename, Walk.start]
  rw [start] at walks
  simp only [resolve, walks, Walk.rename, Array.toList_map]

end Lox
