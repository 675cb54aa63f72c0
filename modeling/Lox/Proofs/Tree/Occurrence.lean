import Lox.Scope.Basic
import Lox.Tree.Basic

/-!
# Occurrences of variables

The uses of variables in a program, each with the local scopes around it.  A
scope is given by the locals that are declared in it before the use: the parts of
a statement count in the order in which they are visited, and class methods are
visited before instance methods.

`Occurrence.RefersTo` says which local a use means: among the scopes around it the
innermost that declares its name, and there the latest declaration of the name.
-/

namespace Lox

/-! ## Locals and scopes -/

/-- What a slot of a scope is for. -/
inductive Local where
  /-- A variable, function, class or parameter. -/
  | named (name : Name)
  /-- The instance that a method is bound to. -/
  | this
  /-- The class that the class around a method extends. -/
  | super
deriving DecidableEq, Repr

/-- The name under which a local is used. -/
def Local.text : Local → String
  | named name => name.text
  | this => "this"
  | super => "super"

/-- The locals of nested scopes in the order of their declarations, innermost scope first. -/
abbrev Scopes := List (List Local)

namespace Scopes

/-- Declares locals in the innermost scope; without a scope they are global. -/
def declare (locals : List Local) : Scopes → Scopes
  | [] => []
  | innermost :: outer => (innermost ++ locals) :: outer

/-- The names of the locals. -/
def names (scopes : Scopes) : List (List String) :=
  scopes.map (·.map Local.text)

/-- Whether a scope declares a name. -/
def Declares (scopes : Scopes) (name : String) : Prop :=
  ∃ locals ∈ scopes, ∃ declared ∈ locals, declared.text = name

@[simp]
theorem declare_nil (scopes : Scopes) : scopes.declare [] = scopes := by
  cases scopes <;> simp [declare]

@[simp]
theorem declare_declare (scopes : Scopes) (first second : List Local) :
    (scopes.declare first).declare second = scopes.declare (first ++ second) := by
  cases scopes <;> simp [declare]

@[simp]
theorem isEmpty_declare (scopes : Scopes) (locals : List Local) :
    (scopes.declare locals).isEmpty = scopes.isEmpty := by
  cases scopes <;> rfl

@[simp]
theorem length_declare (scopes : Scopes) (locals : List Local) :
    (scopes.declare locals).length = scopes.length := by
  cases scopes <;> simp [declare]

end Scopes

/-! ## The innermost method around a place -/

/-- The innermost method around a place. -/
inductive Surroundings where
  | outside
  | classMethod
  /-- An instance method of a class, which may extend another class. -/
  | method (inherits : Bool)
deriving DecidableEq, Repr

namespace Surroundings

/-- Whether `this` may stand in a place. -/
def allowsThis : Surroundings → Bool
  | method _ => true
  | _ => false

/-- Whether `super` may stand in a place. -/
def allowsSuper : Surroundings → Bool
  | method inherits => inherits
  | _ => false

end Surroundings

/-! ## Occurrences -/

/-- A use of a variable, of `this` or of `super`. -/
structure Occurrence where
  id : Nat
  name : String
  /-- Whether the name may stand there; only `this` and `super` may not stand everywhere. -/
  isLegal : Bool
  /-- The scopes around the use, with what is declared in them before it. -/
  scopes : Scopes
deriving DecidableEq, Repr

namespace Occurrence

/--
An address is that of the local that a use means: it leads to a declaration of
the name, with none later in the same scope and none in a scope further in.
-/
structure RefersTo (occurrence : Occurrence) (address : Address) : Prop where
  declared : ∃ locals, occurrence.scopes[address.depth]? = some locals ∧
    locals[address.slot]?.map Local.text = some occurrence.name ∧
    ∀ later, address.slot < later → locals[later]?.map Local.text ≠ some occurrence.name
  innermost : ∀ depth < address.depth, ∀ locals, occurrence.scopes[depth]? = some locals →
    ∀ declared ∈ locals, declared.text ≠ occurrence.name

/-- The address of the local that a use means, if it means one. -/
def address? (occurrence : Occurrence) : Option Address :=
  if occurrence.isLegal then locate? occurrence.name occurrence.scopes.names else none

end Occurrence

/-- The locals that a statement declares in the scope around it. -/
def Stmt.locals : Stmt → List Local
  | varDecl name _ => [.named name]
  | funDecl function => [.named function.name]
  | classDecl name _ _ _ => [.named name]
  | ifElse _ whenTrue none => whenTrue.locals
  | ifElse _ whenTrue (some whenFalse) => whenTrue.locals ++ whenFalse.locals
  | whileLoop _ body => body.locals
  | _ => []

/-- The locals that statements declare in the scope around them. -/
def Stmt.localsAll (statements : List Stmt) : List Local :=
  statements.flatMap Stmt.locals

/-- The scopes around the methods of a class: one for `super` if it extends a class. -/
def Scopes.ofClass (superclass : Option Reference) (scopes : Scopes) : Scopes :=
  match superclass with
  | some _ => [.super] :: scopes
  | none => scopes

/-- The use of the name of a superclass. -/
def Reference.occurrence (scopes : Scopes) (target : Reference) : Occurrence :=
  ⟨target.id, target.name.text, true, scopes⟩

mutual

/-- The uses in an expression. -/
def Expr.occurrences (around : Surroundings) (scopes : Scopes) : Expr → List Occurrence
  | .literal _ => []
  | .group inner => inner.occurrences around scopes
  | .unary _ _ operand => operand.occurrences around scopes
  | .binary _ _ left right => left.occurrences around scopes ++ right.occurrences around scopes
  | .logical _ _ left right => left.occurrences around scopes ++ right.occurrences around scopes
  | .read target => [target.occurrence scopes]
  | .assign target value => value.occurrences around scopes ++ [target.occurrence scopes]
  | .call callee _ arguments =>
    callee.occurrences around scopes ++ Expr.occurrencesAll around scopes arguments
  | .function definition => definition.occurrences around scopes
  | .get object _ => object.occurrences around scopes
  | .set object _ value => object.occurrences around scopes ++ value.occurrences around scopes
  | .this id _ => [⟨id, "this", around.allowsThis, scopes⟩]
  | .super id _ _ => [⟨id, "super", around.allowsSuper, scopes⟩]

/-- The uses in expressions. -/
def Expr.occurrencesAll (around : Surroundings) (scopes : Scopes) : List Expr → List Occurrence
  | [] => []
  | first :: others =>
    first.occurrences around scopes ++ Expr.occurrencesAll around scopes others

/-- The uses in a function: a scope for its parameters and one for its body are around them. -/
def Function.occurrences (around : Surroundings) (scopes : Scopes) : Function → List Occurrence
  | .mk parameters body =>
    Stmt.occurrencesAll around ([] :: parameters.map Local.named :: scopes) body

/-- The uses in the methods of a class. -/
def NamedFunction.occurrencesAll (around : Surroundings) (scopes : Scopes) :
    List NamedFunction → List Occurrence
  | [] => []
  | .mk _ definition :: others =>
    definition.occurrences around scopes ++ NamedFunction.occurrencesAll around scopes others

/-- The uses in a statement. -/
def Stmt.occurrences (around : Surroundings) (scopes : Scopes) : Stmt → List Occurrence
  | .expression value => value.occurrences around scopes
  | .print value => value.occurrences around scopes
  | .varDecl _ none => []
  | .varDecl name (some initial) => initial.occurrences around (scopes.declare [.named name])
  | .block body => Stmt.occurrencesAll around ([] :: scopes) body
  | .ifElse condition whenTrue none =>
    condition.occurrences around scopes ++ whenTrue.occurrences around scopes
  | .ifElse condition whenTrue (some whenFalse) =>
    condition.occurrences around scopes ++ whenTrue.occurrences around scopes ++
      whenFalse.occurrences around (scopes.declare whenTrue.locals)
  | .whileLoop condition body =>
    condition.occurrences around scopes ++ body.occurrences around scopes
  | .breakLoop _ => []
  | .funDecl (.mk name definition) =>
    definition.occurrences around (scopes.declare [.named name])
  | .returnValue _ none => []
  | .returnValue _ (some value) => value.occurrences around scopes
  | .classDecl name superclass methods classMethods =>
    let inClass := (scopes.declare [.named name]).ofClass superclass
    superclass.toList.map (Reference.occurrence (scopes.declare [.named name])) ++
      NamedFunction.occurrencesAll .classMethod inClass classMethods ++
      NamedFunction.occurrencesAll (.method superclass.isSome) ([.this] :: inClass) methods

/-- The uses in statements, each of which may use what those before it declare. -/
def Stmt.occurrencesAll (around : Surroundings) (scopes : Scopes) : List Stmt → List Occurrence
  | [] => []
  | first :: others =>
    first.occurrences around scopes ++
      Stmt.occurrencesAll around (scopes.declare first.locals) others

end

/-- The uses in a program; no local scope and no method is around its statements. -/
def Program.occurrences (program : List Stmt) : List Occurrence :=
  Stmt.occurrencesAll .outside [] program

end Lox
