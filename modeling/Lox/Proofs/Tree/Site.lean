import Lox.Proofs.Tree.Identity
import Lox.Scope.Walk

/-!
# The rules on scopes

The parts of a program that the rules on names, `return`, `this`, `super` and classes are
about, each with the place where it stands.  `Program.IsWellScoped` says what these rules
ask of a program, without saying how it is found out.
-/

namespace Lox

/-- Where in a program something stands. -/
structure Place where
  /-- The kind of the innermost function around it. -/
  role : FunctionContext
  /-- The innermost method around it. -/
  around : Surroundings
  /-- The local variable in whose initial value it is, with no function between. -/
  initialises : Option String
  /-- The scopes around it, with what is declared in them before it. -/
  scopes : Scopes

namespace Place

/-- Nothing is around the statements of a program. -/
def program : Place := ⟨.outside, .outside, none, []⟩

/-- The place of a statement behind declarations. -/
def declare (locals : List Local) (place : Place) : Place :=
  { place with scopes := place.scopes.declare locals }

/-- The place of the initial value of a variable, which is local if a scope is around it. -/
def initialising (name : Name) (place : Place) : Place :=
  { place.declare [.named name] with
    initialises := if place.scopes.isEmpty then none else some name.text }

/-- The place of the statements of a block. -/
def inBlock (place : Place) : Place :=
  { place with scopes := [] :: place.scopes }

/-- The place of the statements of a function, which has a scope around its own. -/
def inFunction (role : FunctionContext) (parameters : List Name) (place : Place) : Place :=
  { place with
    role := role
    initialises := none
    scopes := [] :: parameters.map Local.named :: place.scopes }

/-- The place of the methods of a class. -/
def inClass (around : Surroundings) (scopes : Scopes) (place : Place) : Place :=
  { place with around := around, scopes := scopes }

/-- The kind of a method: `init` initialises an instance if it is no class method. -/
def roleOf (name : Name) (place : Place) : FunctionContext :=
  if place.around.allowsThis && name.text = "init" then .initializer else .method

end Place

/-- A part of a program that some rule is about. -/
inductive Part where
  | read (name : String)
  | this
  | super
  | returns (hasValue : Bool)
  /-- A class that extends another one. -/
  | subclass (name superclass : String)
  /-- The scope of the parameters of a function. -/
  | parameters (names : List Name)
  /-- The scope of a block or of the body of a function, and the uses of variables in it. -/
  | body (locals : List Local) (uses : List Occurrence)

/-- A part of a program and where it stands. -/
structure Site where
  place : Place
  part : Part

mutual

/-- The sites in an expression. -/
def Expr.sites (place : Place) : Expr → List Site
  | .literal _ => []
  | .group inner => inner.sites place
  | .unary _ _ operand => operand.sites place
  | .binary _ _ left right => left.sites place ++ right.sites place
  | .logical _ _ left right => left.sites place ++ right.sites place
  | .read target => [⟨place, .read target.name.text⟩]
  | .assign _ value => value.sites place
  | .call callee _ arguments => callee.sites place ++ Expr.sitesAll place arguments
  | .function definition => definition.sites .function place
  | .get object _ => object.sites place
  | .set object _ value => object.sites place ++ value.sites place
  | .this _ _ => [⟨place, .this⟩]
  | .super _ _ _ => [⟨place, .super⟩]

/-- The sites in expressions. -/
def Expr.sitesAll (place : Place) : List Expr → List Site
  | [] => []
  | first :: others => first.sites place ++ Expr.sitesAll place others

/-- The sites in a function of some kind. -/
def Function.sites (role : FunctionContext) (place : Place) : Function → List Site
  | .mk parameters body =>
    let inside := place.inFunction role parameters
    ⟨place, .parameters parameters⟩ ::
      ⟨⟨role, place.around, none, parameters.map Local.named :: place.scopes⟩,
        .body (Stmt.localsAll body) (Stmt.occurrencesAll place.around inside.scopes body)⟩ ::
      Stmt.sitesAll inside body

/-- The sites in the methods of a class. -/
def NamedFunction.sitesAll (place : Place) : List NamedFunction → List Site
  | [] => []
  | .mk name definition :: others =>
    definition.sites (place.roleOf name) place ++ NamedFunction.sitesAll place others

/-- The sites in a statement. -/
def Stmt.sites (place : Place) : Stmt → List Site
  | .expression value => value.sites place
  | .print value => value.sites place
  | .varDecl _ none => []
  | .varDecl name (some initial) => initial.sites (place.initialising name)
  | .block body =>
    ⟨place, .body (Stmt.localsAll body)
      (Stmt.occurrencesAll place.around place.inBlock.scopes body)⟩ ::
      Stmt.sitesAll place.inBlock body
  | .ifElse condition whenTrue none => condition.sites place ++ whenTrue.sites place
  | .ifElse condition whenTrue (some whenFalse) =>
    condition.sites place ++ whenTrue.sites place ++
      whenFalse.sites (place.declare whenTrue.locals)
  | .whileLoop condition body => condition.sites place ++ body.sites place
  | .breakLoop _ => []
  | .funDecl (.mk name definition) => definition.sites .function (place.declare [.named name])
  | .returnValue _ none => [⟨place, .returns false⟩]
  | .returnValue _ (some value) => ⟨place, .returns true⟩ :: value.sites place
  | .classDecl name superclass methods classMethods =>
    let declared := place.declare [.named name]
    let scopes := declared.scopes.ofClass superclass
    superclass.toList.flatMap (fun target =>
        [⟨declared, .subclass name.text target.name.text⟩, ⟨declared, .read target.name.text⟩]) ++
      NamedFunction.sitesAll (place.inClass .classMethod scopes) classMethods ++
      NamedFunction.sitesAll
        (place.inClass (.method superclass.isSome) ([.this] :: scopes)) methods

/-- The sites in statements, each of which stands behind the declarations before it. -/
def Stmt.sitesAll (place : Place) : List Stmt → List Site
  | [] => []
  | first :: others => first.sites place ++ Stmt.sitesAll (place.declare first.locals) others

end

/-- The sites in a program. -/
def Program.sites (program : List Stmt) : List Site :=
  Stmt.sitesAll .program program

/-! ## The rules -/

namespace Occurrence

/-- A use is a read of a variable or an assignment, not one of `this` or `super`. -/
def IsOfVariable (occurrence : Occurrence) : Prop :=
  occurrence.name ≠ Local.this.text ∧ occurrence.name ≠ Local.super.text

/-- A use means the local in a slot of the scope that has so many scopes around it. -/
def Means (occurrence : Occurrence) (level slot : Nat) : Prop :=
  occurrence.isLegal ∧ ∃ address, occurrence.RefersTo address ∧ address.slot = slot ∧
    level + address.depth + 1 = occurrence.scopes.length

end Occurrence

/-- A program obeys the rules on scopes. -/
structure Program.IsWellScoped (program : List Stmt) : Prop where
  /-- No two parameters of a function have the same name. -/
  parameters : ∀ place names, ⟨place, .parameters names⟩ ∈ sites program →
    (names.map Name.text).Nodup
  /-- No block and no body of a function declares a name twice. -/
  distinct : ∀ place locals uses, ⟨place, .body locals uses⟩ ∈ sites program →
    (locals.map Local.text).Nodup
  /-- What a block or the body of a function declares is read or assigned to somewhere. -/
  used : ∀ place locals uses, ⟨place, .body locals uses⟩ ∈ sites program →
    ∀ slot declared, locals[slot]? = some declared →
      ∃ use ∈ uses, use.IsOfVariable ∧ use.name = declared.text ∧
        use.Means place.scopes.length slot
  /-- The initial value of a local variable does not read it, unless in a function. -/
  initial : ∀ place name, ⟨place, .read name⟩ ∈ sites program → place.initialises ≠ some name
  /-- A `return` is in a function; one with a value is not in an initializer. -/
  returns : ∀ place (hasValue : Bool), ⟨place, .returns hasValue⟩ ∈ sites program →
    place.role ≠ .outside ∧ (hasValue → place.role ≠ .initializer)
  /-- The innermost method around `this` is an instance method. -/
  this : ∀ place, ⟨place, .this⟩ ∈ sites program → ∃ inherits, place.around = .method inherits
  /-- The innermost method around `super` is an instance method of a subclass. -/
  super : ∀ place, ⟨place, .super⟩ ∈ sites program → place.around = .method true
  /-- No class extends itself. -/
  subclass : ∀ place name superclass, ⟨place, .subclass name superclass⟩ ∈ sites program →
    superclass ≠ name

end Lox
