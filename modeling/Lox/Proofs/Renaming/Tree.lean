import Lox.Proofs.Tree.Identity

/-!
# Renaming

The ids of expressions and the lines of a program can be changed without changing what the
program says.  A renaming tells what becomes of them.  Two renamings that agree on the ids of a
tree change it in the same way: `Stmt.rename_congr`.
-/

namespace Lox

/-- What becomes of ids and lines. -/
structure Renaming where
  id : Nat → Nat
  line : Nat → Nat

namespace Renaming

/-- Everything stays as it is. -/
protected def refl : Renaming := ⟨fun id => id, fun line => line⟩

end Renaming

/-- A change of lines by which ids only grow, all by the same number. -/
structure Shift where
  distance : Nat
  line : Nat → Nat

/-- What becomes of ids and lines by a shift. -/
def Shift.renaming (shift : Shift) : Renaming := ⟨(· + shift.distance), shift.line⟩

/-! ## Trees -/

/-- A name on another line. -/
def Name.rename (change : Renaming) (name : Name) : Name :=
  ⟨name.text, change.line name.line⟩

/-- A use of a variable with another id. -/
def Reference.rename (change : Renaming) (target : Reference) : Reference :=
  ⟨change.id target.id, target.name.rename change⟩

mutual

/-- An expression with other ids and lines. -/
def Expr.rename (change : Renaming) : Expr → Expr
  | .literal value => .literal value
  | .group inner => .group (inner.rename change)
  | .unary op line operand => .unary op (change.line line) (operand.rename change)
  | .binary op line left right =>
    .binary op (change.line line) (left.rename change) (right.rename change)
  | .logical op line left right =>
    .logical op (change.line line) (left.rename change) (right.rename change)
  | .read target => .read (target.rename change)
  | .assign target value => .assign (target.rename change) (value.rename change)
  | .call callee line arguments =>
    .call (callee.rename change) (change.line line) (Expr.renameAll change arguments)
  | .function definition => .function (definition.rename change)
  | .get object name => .get (object.rename change) (name.rename change)
  | .set object name value =>
    .set (object.rename change) (name.rename change) (value.rename change)
  | .this id line => .this (change.id id) (change.line line)
  | .super id line method =>
    .super (change.id id) (change.line line) (method.rename change)

/-- Expressions with other ids and lines. -/
def Expr.renameAll (change : Renaming) : List Expr → List Expr
  | [] => []
  | first :: others => first.rename change :: Expr.renameAll change others

/-- A function with other ids and lines. -/
def Function.rename (change : Renaming) : Function → Function
  | .mk parameters body =>
    .mk (parameters.map (Name.rename change)) (Stmt.renameAll change body)

/-- Named functions with other ids and lines. -/
def NamedFunction.renameAll (change : Renaming) : List NamedFunction → List NamedFunction
  | [] => []
  | .mk name definition :: others =>
    .mk (name.rename change) (definition.rename change) ::
      NamedFunction.renameAll change others

/-- A statement with other ids and lines. -/
def Stmt.rename (change : Renaming) : Stmt → Stmt
  | .expression value => .expression (value.rename change)
  | .print value => .print (value.rename change)
  | .varDecl name none => .varDecl (name.rename change) none
  | .varDecl name (some initial) =>
    .varDecl (name.rename change) (some (initial.rename change))
  | .block body => .block (Stmt.renameAll change body)
  | .ifElse condition whenTrue none =>
    .ifElse (condition.rename change) (whenTrue.rename change) none
  | .ifElse condition whenTrue (some whenFalse) =>
    .ifElse (condition.rename change) (whenTrue.rename change)
      (some (whenFalse.rename change))
  | .whileLoop condition body => .whileLoop (condition.rename change) (body.rename change)
  | .breakLoop line => .breakLoop (change.line line)
  | .funDecl (.mk name definition) =>
    .funDecl (.mk (name.rename change) (definition.rename change))
  | .returnValue line none => .returnValue (change.line line) none
  | .returnValue line (some value) =>
    .returnValue (change.line line) (some (value.rename change))
  | .classDecl name superclass methods classMethods =>
    .classDecl (name.rename change) (superclass.map (Reference.rename change))
      (NamedFunction.renameAll change methods) (NamedFunction.renameAll change classMethods)

/-- Statements with other ids and lines. -/
def Stmt.renameAll (change : Renaming) : List Stmt → List Stmt
  | [] => []
  | first :: others => first.rename change :: Stmt.renameAll change others

end

/-- A named function with other ids and lines. -/
def NamedFunction.rename (change : Renaming) : NamedFunction → NamedFunction
  | .mk name definition => .mk (name.rename change) (definition.rename change)

variable (change : Renaming)

theorem Stmt.renameAll_eq_map (statements : List Stmt) :
    Stmt.renameAll change statements = statements.map (Stmt.rename change) := by
  induction statements with
  | nil => rfl
  | cons first others induction => rw [Stmt.renameAll, induction, List.map_cons]

theorem Stmt.renameAll_append (first second : List Stmt) :
    Stmt.renameAll change (first ++ second) =
      Stmt.renameAll change first ++ Stmt.renameAll change second := by
  rw [Stmt.renameAll_eq_map, Stmt.renameAll_eq_map, Stmt.renameAll_eq_map, List.map_append]

@[simp]
theorem Name.text_rename (name : Name) : (name.rename change).text = name.text := rfl

@[simp]
theorem Name.line_rename (name : Name) : (name.rename change).line = change.line name.line := rfl

@[simp]
theorem Reference.name_rename (target : Reference) :
    (target.rename change).name = target.name.rename change := rfl

@[simp]
theorem Function.parameters_rename (definition : Function) :
    (definition.rename change).parameters =
      definition.parameters.map (Name.rename change) := by
  cases definition
  rfl

@[simp]
theorem Function.body_rename (definition : Function) :
    (definition.rename change).body = Stmt.renameAll change definition.body := by
  cases definition
  rfl

/-! ## Nothing changes -/

mutual

theorem Expr.rename_refl : ∀ expression : Expr, expression.rename .refl = expression
  | .literal _ | .read _ | .this _ _ | .super _ _ _ => rfl
  | .group inner => congrArg Expr.group inner.rename_refl
  | .unary op line operand => congrArg (Expr.unary op line) operand.rename_refl
  | .binary op line left right =>
    congrArg₂ (Expr.binary op line) left.rename_refl right.rename_refl
  | .logical op line left right =>
    congrArg₂ (Expr.logical op line) left.rename_refl right.rename_refl
  | .assign target value => congrArg (Expr.assign target) value.rename_refl
  | .call callee line arguments =>
    congrArg₂ (Expr.call · line) callee.rename_refl (Expr.renameAll_refl arguments)
  | .function definition => congrArg Expr.function definition.rename_refl
  | .get object name => congrArg (Expr.get · name) object.rename_refl
  | .set object name value => congrArg₂ (Expr.set · name) object.rename_refl value.rename_refl

theorem Expr.renameAll_refl : ∀ expressions : List Expr,
    Expr.renameAll .refl expressions = expressions
  | [] => rfl
  | first :: others => congrArg₂ List.cons first.rename_refl (Expr.renameAll_refl others)

theorem Function.rename_refl : ∀ definition : Function, definition.rename .refl = definition
  | .mk parameters body =>
    congrArg₂ Function.mk (List.map_id' parameters) (Stmt.renameAll_refl body)

theorem NamedFunction.renameAll_refl : ∀ functions : List NamedFunction,
    NamedFunction.renameAll .refl functions = functions
  | [] => rfl
  | .mk name definition :: others =>
    congrArg₂ List.cons (congrArg (NamedFunction.mk name) definition.rename_refl)
      (NamedFunction.renameAll_refl others)

theorem Stmt.rename_refl : ∀ statement : Stmt, statement.rename .refl = statement
  | .varDecl _ none | .breakLoop _ | .returnValue _ none => rfl
  | .expression value => congrArg Stmt.expression value.rename_refl
  | .print value => congrArg Stmt.print value.rename_refl
  | .varDecl name (some initial) =>
    congrArg (Stmt.varDecl name ∘ some) initial.rename_refl
  | .block body => congrArg Stmt.block (Stmt.renameAll_refl body)
  | .ifElse condition whenTrue none =>
    congrArg₂ (Stmt.ifElse · · none) condition.rename_refl whenTrue.rename_refl
  | .ifElse condition whenTrue (some whenFalse) => by
    rw [Stmt.rename, condition.rename_refl, whenTrue.rename_refl, whenFalse.rename_refl]
  | .whileLoop condition body =>
    congrArg₂ Stmt.whileLoop condition.rename_refl body.rename_refl
  | .funDecl (.mk name definition) =>
    congrArg (Stmt.funDecl ∘ NamedFunction.mk name) definition.rename_refl
  | .returnValue line (some value) =>
    congrArg (Stmt.returnValue line ∘ some) value.rename_refl
  | .classDecl name superclass methods classMethods => by
    have names : superclass.map (Reference.rename .refl) = superclass := by
      cases superclass <;> rfl
    rw [Stmt.rename, names, NamedFunction.renameAll_refl methods,
      NamedFunction.renameAll_refl classMethods]
    rfl

theorem Stmt.renameAll_refl : ∀ statements : List Stmt,
    Stmt.renameAll .refl statements = statements
  | [] => rfl
  | first :: others => congrArg₂ List.cons first.rename_refl (Stmt.renameAll_refl others)

end

/-! ## Renamings that agree -/

section

variable {change} {other : Renaming}

theorem Name.rename_congr (lines : change.line = other.line) (name : Name) :
    name.rename change = name.rename other := by
  rw [Name.rename, Name.rename, lines]

theorem Reference.rename_congr (lines : change.line = other.line) (target : Reference)
    (same : change.id target.id = other.id target.id) :
    target.rename change = target.rename other := by
  rw [Reference.rename, Reference.rename, same, target.name.rename_congr lines]

mutual

theorem Expr.rename_congr (lines : change.line = other.line) : ∀ expression : Expr,
    (∀ id ∈ expression.ids, change.id id = other.id id) →
      expression.rename change = expression.rename other
  | .literal _, _ => rfl
  | .group inner, same => by
    rw [Expr.rename, Expr.rename, inner.rename_congr lines same]
  | .unary _ _ operand, same => by
    rw [Expr.rename, Expr.rename, operand.rename_congr lines same, lines]
  | .binary _ _ left right, same => by
    rw [Expr.ids, List.forall_mem_append] at same
    rw [Expr.rename, Expr.rename, left.rename_congr lines same.1,
      right.rename_congr lines same.2, lines]
  | .logical _ _ left right, same => by
    rw [Expr.ids, List.forall_mem_append] at same
    rw [Expr.rename, Expr.rename, left.rename_congr lines same.1,
      right.rename_congr lines same.2, lines]
  | .read target, same => by
    rw [Expr.rename, Expr.rename, target.rename_congr lines (same _ List.mem_cons_self)]
  | .assign target value, same => by
    rw [Expr.ids, List.forall_mem_append] at same
    rw [Expr.rename, Expr.rename, value.rename_congr lines same.1,
      target.rename_congr lines (same.2 _ List.mem_cons_self)]
  | .call callee _ arguments, same => by
    rw [Expr.ids, List.forall_mem_append] at same
    rw [Expr.rename, Expr.rename, callee.rename_congr lines same.1,
      Expr.renameAll_congr lines arguments same.2, lines]
  | .function definition, same => by
    rw [Expr.rename, Expr.rename, definition.rename_congr lines same]
  | .get object name, same => by
    rw [Expr.rename, Expr.rename, object.rename_congr lines same, name.rename_congr lines]
  | .set object name value, same => by
    rw [Expr.ids, List.forall_mem_append] at same
    rw [Expr.rename, Expr.rename, object.rename_congr lines same.1, value.rename_congr lines same.2,
      name.rename_congr lines]
  | .this _ _, same => by
    rw [Expr.rename, Expr.rename, same _ List.mem_cons_self, lines]
  | .super _ _ method, same => by
    rw [Expr.rename, Expr.rename, same _ List.mem_cons_self, lines, method.rename_congr lines]

theorem Expr.renameAll_congr (lines : change.line = other.line) : ∀ expressions : List Expr,
    (∀ id ∈ Expr.idsAll expressions, change.id id = other.id id) →
      Expr.renameAll change expressions = Expr.renameAll other expressions
  | [], _ => rfl
  | first :: others, same => by
    rw [Expr.idsAll, List.forall_mem_append] at same
    rw [Expr.renameAll, Expr.renameAll, first.rename_congr lines same.1,
      Expr.renameAll_congr lines others same.2]

theorem Function.rename_congr (lines : change.line = other.line) : ∀ definition : Function,
    (∀ id ∈ definition.ids, change.id id = other.id id) →
      definition.rename change = definition.rename other
  | .mk parameters body, same => by
    have names : parameters.map (Name.rename change) = parameters.map (Name.rename other) :=
      List.map_congr_left fun name _ => name.rename_congr lines
    rw [Function.rename, Function.rename, Stmt.renameAll_congr lines body same, names]

theorem NamedFunction.renameAll_congr (lines : change.line = other.line) :
    ∀ functions : List NamedFunction,
    (∀ id ∈ NamedFunction.idsAll functions, change.id id = other.id id) →
      NamedFunction.renameAll change functions = NamedFunction.renameAll other functions
  | [], _ => rfl
  | .mk name definition :: others, same => by
    rw [NamedFunction.idsAll, List.forall_mem_append] at same
    rw [NamedFunction.renameAll, NamedFunction.renameAll, definition.rename_congr lines same.1,
      NamedFunction.renameAll_congr lines others same.2, name.rename_congr lines]

theorem Stmt.rename_congr (lines : change.line = other.line) : ∀ statement : Stmt,
    (∀ id ∈ statement.ids, change.id id = other.id id) →
      statement.rename change = statement.rename other
  | .expression value, same => by
    rw [Stmt.rename, Stmt.rename, value.rename_congr lines same]
  | .print value, same => by
    rw [Stmt.rename, Stmt.rename, value.rename_congr lines same]
  | .varDecl name none, _ => by
    rw [Stmt.rename, Stmt.rename, name.rename_congr lines]
  | .varDecl name (some initial), same => by
    rw [Stmt.rename, Stmt.rename, initial.rename_congr lines same, name.rename_congr lines]
  | .block body, same => by
    rw [Stmt.rename, Stmt.rename, Stmt.renameAll_congr lines body same]
  | .ifElse condition whenTrue none, same => by
    rw [Stmt.ids, List.forall_mem_append] at same
    rw [Stmt.rename, Stmt.rename, condition.rename_congr lines same.1,
      whenTrue.rename_congr lines same.2]
  | .ifElse condition whenTrue (some whenFalse), same => by
    rw [Stmt.ids, List.forall_mem_append, List.forall_mem_append] at same
    rw [Stmt.rename, Stmt.rename, condition.rename_congr lines same.1.1,
      whenTrue.rename_congr lines same.1.2, whenFalse.rename_congr lines same.2]
  | .whileLoop condition body, same => by
    rw [Stmt.ids, List.forall_mem_append] at same
    rw [Stmt.rename, Stmt.rename, condition.rename_congr lines same.1,
      body.rename_congr lines same.2]
  | .breakLoop _, _ => by
    rw [Stmt.rename, Stmt.rename, lines]
  | .funDecl (.mk name definition), same => by
    rw [Stmt.rename, Stmt.rename, definition.rename_congr lines same, name.rename_congr lines]
  | .returnValue _ none, _ => by
    rw [Stmt.rename, Stmt.rename, lines]
  | .returnValue _ (some value), same => by
    rw [Stmt.rename, Stmt.rename, value.rename_congr lines same, lines]
  | .classDecl name superclass methods classMethods, same => by
    rw [Stmt.ids, List.forall_mem_append, List.forall_mem_append] at same
    have names : superclass.map (Reference.rename change) =
        superclass.map (Reference.rename other) := by
      cases superclass with
      | none => rfl
      | some target =>
        exact congrArg some (target.rename_congr lines (same.1.1 _ List.mem_cons_self))
    rw [Stmt.rename, Stmt.rename, name.rename_congr lines, names,
      NamedFunction.renameAll_congr lines methods same.2,
      NamedFunction.renameAll_congr lines classMethods same.1.2]

theorem Stmt.renameAll_congr (lines : change.line = other.line) : ∀ statements : List Stmt,
    (∀ id ∈ Stmt.idsAll statements, change.id id = other.id id) →
      Stmt.renameAll change statements = Stmt.renameAll other statements
  | [], _ => rfl
  | first :: others, same => by
    rw [Stmt.idsAll, List.forall_mem_append] at same
    rw [Stmt.renameAll, Stmt.renameAll, first.rename_congr lines same.1,
      Stmt.renameAll_congr lines others same.2]

end

end

end Lox
