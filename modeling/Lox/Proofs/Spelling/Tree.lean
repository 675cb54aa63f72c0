import Lox.Tree.Basic
import Mathlib.Data.List.Basic

/-!
# Spellings

A program can be spelt in other ways, with other names in some places.  A spelling tells how
each name of a tree is spelt, and on which line things are.  `Stmt.mentions` lists the names of a
tree by what they are for: it is for this that some of them may be spelt differently and others
may not.
-/

namespace Lox

/-- How names are spelt, and on which lines things are. -/
structure Spelling where
  text : Name → String
  line : Nat → Nat

/-- Everything stays as it is. -/
def Spelling.plain : Spelling := ⟨Name.text, fun line => line⟩

/-! ## Trees -/

/-- A name as it is spelt. -/
def Name.spell (spelling : Spelling) (name : Name) : Name :=
  ⟨spelling.text name, spelling.line name.line⟩

/-- A use of a variable as it is spelt. -/
def Reference.spell (spelling : Spelling) (target : Reference) : Reference :=
  ⟨target.id, target.name.spell spelling⟩

section

variable (spelling : Spelling)

mutual

/-- An expression as it is spelt. -/
def Expr.spell : Expr → Expr
  | .literal value => .literal value
  | .group inner => .group inner.spell
  | .unary op line operand => .unary op (spelling.line line) operand.spell
  | .binary op line left right => .binary op (spelling.line line) left.spell right.spell
  | .logical op line left right => .logical op (spelling.line line) left.spell right.spell
  | .read target => .read (target.spell spelling)
  | .assign target value => .assign (target.spell spelling) value.spell
  | .call callee line arguments =>
    .call callee.spell (spelling.line line) (Expr.spellAll arguments)
  | .function definition => .function definition.spell
  | .get object name => .get object.spell (name.spell spelling)
  | .set object name value => .set object.spell (name.spell spelling) value.spell
  | .this id line => .this id (spelling.line line)
  | .super id line method => .super id (spelling.line line) (method.spell spelling)

/-- Expressions as they are spelt. -/
def Expr.spellAll : List Expr → List Expr
  | [] => []
  | first :: others => first.spell :: Expr.spellAll others

/-- A function as it is spelt. -/
def Function.spell : Function → Function
  | .mk parameters body => .mk (parameters.map (Name.spell spelling)) (Stmt.spellAll body)

/-- Named functions as they are spelt. -/
def NamedFunction.spellAll : List NamedFunction → List NamedFunction
  | [] => []
  | .mk name definition :: others =>
    .mk (name.spell spelling) definition.spell :: NamedFunction.spellAll others

/-- A statement as it is spelt. -/
def Stmt.spell : Stmt → Stmt
  | .expression value => .expression value.spell
  | .print value => .print value.spell
  | .varDecl name none => .varDecl (name.spell spelling) none
  | .varDecl name (some initial) => .varDecl (name.spell spelling) (some initial.spell)
  | .block body => .block (Stmt.spellAll body)
  | .ifElse condition whenTrue none => .ifElse condition.spell whenTrue.spell none
  | .ifElse condition whenTrue (some whenFalse) =>
    .ifElse condition.spell whenTrue.spell (some whenFalse.spell)
  | .whileLoop condition body => .whileLoop condition.spell body.spell
  | .breakLoop line => .breakLoop (spelling.line line)
  | .funDecl (.mk name definition) => .funDecl (.mk (name.spell spelling) definition.spell)
  | .returnValue line none => .returnValue (spelling.line line) none
  | .returnValue line (some value) => .returnValue (spelling.line line) (some value.spell)
  | .classDecl name superclass methods classMethods =>
    .classDecl (name.spell spelling) (superclass.map (Reference.spell spelling))
      (NamedFunction.spellAll methods) (NamedFunction.spellAll classMethods)

/-- Statements as they are spelt. -/
def Stmt.spellAll : List Stmt → List Stmt
  | [] => []
  | first :: others => first.spell :: Stmt.spellAll others

end

/-- A named function as it is spelt. -/
def NamedFunction.spell : NamedFunction → NamedFunction
  | .mk name definition => .mk (name.spell spelling) (definition.spell spelling)

theorem Stmt.spellAll_eq_map (statements : List Stmt) :
    Stmt.spellAll spelling statements = statements.map (Stmt.spell spelling) := by
  induction statements with
  | nil => rfl
  | cons first others induction => rw [Stmt.spellAll, induction, List.map_cons]

@[simp]
theorem Name.text_spell (name : Name) : (name.spell spelling).text = spelling.text name := rfl

@[simp]
theorem Name.line_spell (name : Name) :
    (name.spell spelling).line = spelling.line name.line := rfl

@[simp]
theorem Function.parameters_spell (definition : Function) :
    (definition.spell spelling).parameters =
      definition.parameters.map (Name.spell spelling) := by
  cases definition
  rfl

@[simp]
theorem Function.body_spell (definition : Function) :
    (definition.spell spelling).body = Stmt.spellAll spelling definition.body := by
  cases definition
  rfl

end

/-! ## Nothing is spelt differently -/

mutual

theorem Expr.spell_plain : ∀ expression : Expr, expression.spell .plain = expression
  | .literal _ | .read _ | .this _ _ | .super _ _ _ => rfl
  | .group inner => congrArg Expr.group inner.spell_plain
  | .unary op line operand => congrArg (Expr.unary op line) operand.spell_plain
  | .binary op line left right =>
    congrArg₂ (Expr.binary op line) left.spell_plain right.spell_plain
  | .logical op line left right =>
    congrArg₂ (Expr.logical op line) left.spell_plain right.spell_plain
  | .assign target value => congrArg (Expr.assign target) value.spell_plain
  | .call callee line arguments =>
    congrArg₂ (Expr.call · line) callee.spell_plain (Expr.spellAll_plain arguments)
  | .function definition => congrArg Expr.function definition.spell_plain
  | .get object name => congrArg (Expr.get · name) object.spell_plain
  | .set object name value => congrArg₂ (Expr.set · name) object.spell_plain value.spell_plain

theorem Expr.spellAll_plain : ∀ expressions : List Expr,
    Expr.spellAll .plain expressions = expressions
  | [] => rfl
  | first :: others => congrArg₂ List.cons first.spell_plain (Expr.spellAll_plain others)

theorem Function.spell_plain : ∀ definition : Function, definition.spell .plain = definition
  | .mk parameters body =>
    congrArg₂ Function.mk (List.map_id' parameters) (Stmt.spellAll_plain body)

theorem NamedFunction.spellAll_plain : ∀ functions : List NamedFunction,
    NamedFunction.spellAll .plain functions = functions
  | [] => rfl
  | .mk name definition :: others =>
    congrArg₂ List.cons (congrArg (NamedFunction.mk name) definition.spell_plain)
      (NamedFunction.spellAll_plain others)

theorem Stmt.spell_plain : ∀ statement : Stmt, statement.spell .plain = statement
  | .varDecl _ none | .breakLoop _ | .returnValue _ none => rfl
  | .expression value => congrArg Stmt.expression value.spell_plain
  | .print value => congrArg Stmt.print value.spell_plain
  | .varDecl name (some initial) => congrArg (Stmt.varDecl name ∘ some) initial.spell_plain
  | .block body => congrArg Stmt.block (Stmt.spellAll_plain body)
  | .ifElse condition whenTrue none =>
    congrArg₂ (Stmt.ifElse · · none) condition.spell_plain whenTrue.spell_plain
  | .ifElse condition whenTrue (some whenFalse) => by
    rw [Stmt.spell, condition.spell_plain, whenTrue.spell_plain, whenFalse.spell_plain]
  | .whileLoop condition body =>
    congrArg₂ Stmt.whileLoop condition.spell_plain body.spell_plain
  | .funDecl (.mk name definition) =>
    congrArg (Stmt.funDecl ∘ NamedFunction.mk name) definition.spell_plain
  | .returnValue line (some value) =>
    congrArg (Stmt.returnValue line ∘ some) value.spell_plain
  | .classDecl name superclass methods classMethods => by
    have names : superclass.map (Reference.spell .plain) = superclass := by
      cases superclass <;> rfl
    rw [Stmt.spell, names, NamedFunction.spellAll_plain methods,
      NamedFunction.spellAll_plain classMethods]
    rfl

theorem Stmt.spellAll_plain : ∀ statements : List Stmt,
    Stmt.spellAll .plain statements = statements
  | [] => rfl
  | first :: others => congrArg₂ List.cons first.spell_plain (Stmt.spellAll_plain others)

end

/-! ## Names -/

/-- A name in a program, by what it is for. -/
inductive Mention where
  /-- A variable is declared; it is local if a scope is around its declaration. -/
  | declaration (name : Name) (isLocal : Bool)
  | parameter (name : Name)
  /-- A variable is read or set. -/
  | use (target : Reference)
  /-- A function, a class, a method or a property is named. -/
  | label (name : Name)
deriving DecidableEq, Repr

namespace Mention

/-- The name itself. -/
def name : Mention → Name
  | declaration name _ => name
  | parameter name => name
  | use target => target.name
  | label name => name

/-- The name, unless it is a use of one that is declared elsewhere. -/
def declared? : Mention → Option Name
  | declaration name _ => some name
  | parameter name => some name
  | use _ => none
  | label name => some name

theorem name_of_declared? {mention : Mention} {name : Name}
    (declared : mention.declared? = some name) : mention.name = name := by
  cases mention with
  | use => cases declared
  | declaration | parameter | label => exact Option.some.inj declared

end Mention

/-- A name is declared in one of some places. -/
def Name.IsDeclared (mentions : List Mention) (name : Name) : Prop :=
  ∃ mention ∈ mentions, mention.declared? = some name

theorem Name.IsDeclared.mono {mentions more : List Mention} {name : Name}
    (declared : name.IsDeclared mentions) (subset : mentions ⊆ more) : name.IsDeclared more := by
  rcases declared with ⟨mention, isIn, same⟩
  exact ⟨mention, subset isIn, same⟩

mutual

/-- The names in an expression. -/
def Expr.mentions : Expr → List Mention
  | .literal _ => []
  | .group inner => inner.mentions
  | .unary _ _ operand => operand.mentions
  | .binary _ _ left right => left.mentions ++ right.mentions
  | .logical _ _ left right => left.mentions ++ right.mentions
  | .read target => [.use target]
  | .assign target value => .use target :: value.mentions
  | .call callee _ arguments => callee.mentions ++ Expr.mentionsAll arguments
  | .function definition => definition.mentions
  | .get object name => object.mentions ++ [.label name]
  | .set object name value => object.mentions ++ .label name :: value.mentions
  | .this _ _ => []
  | .super _ _ method => [.label method]

/-- The names in expressions. -/
def Expr.mentionsAll : List Expr → List Mention
  | [] => []
  | first :: others => first.mentions ++ Expr.mentionsAll others

/-- The names in a function. -/
def Function.mentions : Function → List Mention
  | .mk parameters body => parameters.map .parameter ++ Stmt.mentionsAll true body

/-- The names in named functions. -/
def NamedFunction.mentionsAll : List NamedFunction → List Mention
  | [] => []
  | .mk name definition :: others =>
    .label name :: (definition.mentions ++ NamedFunction.mentionsAll others)

/-- The names in a statement; it is local if a scope is around it. -/
def Stmt.mentions (isLocal : Bool) : Stmt → List Mention
  | .expression value => value.mentions
  | .print value => value.mentions
  | .varDecl name none => [.declaration name isLocal]
  | .varDecl name (some initial) => .declaration name isLocal :: initial.mentions
  | .block body => Stmt.mentionsAll true body
  | .ifElse condition whenTrue none => condition.mentions ++ whenTrue.mentions isLocal
  | .ifElse condition whenTrue (some whenFalse) =>
    condition.mentions ++ whenTrue.mentions isLocal ++ whenFalse.mentions isLocal
  | .whileLoop condition body => condition.mentions ++ body.mentions isLocal
  | .breakLoop _ => []
  | .funDecl (.mk name definition) => .label name :: definition.mentions
  | .returnValue _ none => []
  | .returnValue _ (some value) => value.mentions
  | .classDecl name superclass methods classMethods =>
    .label name :: (superclass.toList.map .use ++
      (NamedFunction.mentionsAll methods ++ NamedFunction.mentionsAll classMethods))

/-- The names in statements. -/
def Stmt.mentionsAll (isLocal : Bool) : List Stmt → List Mention
  | [] => []
  | first :: others => first.mentions isLocal ++ Stmt.mentionsAll isLocal others

end

/-- The names in a program; no scope is around its statements. -/
def Program.mentions (program : List Stmt) : List Mention :=
  Stmt.mentionsAll false program

end Lox
