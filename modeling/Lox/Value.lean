import Std.Data.TreeMap
import Lox.Decimal.Display
import Lox.Frames
import Lox.Tree.Basic

/-!
# Values

What expressions evaluate to.  Functions, classes and instances have an identity,
by which they are compared; what can change about them is kept elsewhere: the
variables of a function in its environment, the fields of an instance under its
identity.  An environment is a frame, unless another type `ε` of environments is
given.
-/

namespace Lox

/-- Definitions by their names. -/
abbrev Table (α : Type) := Std.TreeMap String α

/-- What a function does when it is called. -/
inductive Behaviour where
  /-- Yields the time. -/
  | clock
  /-- Runs a body; an initialiser yields its instance whatever the body does. -/
  | body (definition : Function) (isInitializer : Bool)

/-- A function value. -/
structure Closure (ε : Type := FrameId) where
  id : Nat
  name : String
  behaviour : Behaviour
  /-- The environment that the function was made in. -/
  environment : ε

variable {ε : Type}

namespace Closure

/-- The number of arguments that a function takes. -/
def arity (closure : Closure ε) : Nat :=
  match closure.behaviour with
  | .clock => 0
  | .body definition _ => definition.parameters.length

end Closure

/-- What a class declares itself, without what it inherits. -/
structure ClassBody (ε : Type := FrameId) where
  id : Nat
  name : String
  methods : Table (Closure ε)
  classMethods : Table (Closure ε)

/-- A class: its own declarations and those of its superclasses, the nearest first. -/
structure Class (ε : Type := FrameId) where
  own : ClassBody ε
  inherited : List (ClassBody ε)

namespace Class

/-- The name of a class. -/
def name (type : Class ε) : String :=
  type.own.name

/-- The class that a class extends. -/
def superclass? (type : Class ε) : Option (Class ε) :=
  match type.inherited with
  | [] => none
  | own :: inherited => some ⟨own, inherited⟩

/-- The class that makes these declarations and extends another class. -/
def extending (own : ClassBody ε) : Option (Class ε) → Class ε
  | none => ⟨own, []⟩
  | some superclass => ⟨own, superclass.own :: superclass.inherited⟩

/-- The instance method of a name in the nearest class that declares one. -/
def method? (type : Class ε) (name : String) : Option (Closure ε) :=
  (type.own :: type.inherited).findSome? (·.methods[name]?)

/-- The class method of a name in the nearest class that declares one. -/
def classMethod? (type : Class ε) (name : String) : Option (Closure ε) :=
  (type.own :: type.inherited).findSome? (·.classMethods[name]?)

/-- The method that initialises new instances. -/
def initializer? (type : Class ε) : Option (Closure ε) :=
  type.method? "init"

/-- The number of arguments that a new instance takes. -/
def arity (type : Class ε) : Nat :=
  match type.initializer? with
  | some initializer => initializer.arity
  | none => 0

end Class

/-- An instance of a class; its fields are kept under its identity. -/
structure Instance (ε : Type := FrameId) where
  id : Nat
  ofClass : Class ε

/-- A value. -/
inductive Value (ε : Type := FrameId) where
  | nil
  | bool (value : Bool)
  | number (value : Float)
  | string (value : String)
  | function (value : Closure ε)
  | type (value : Class ε)
  | object (value : Instance ε)

namespace Value

/-- The value of a constant. -/
def ofLiteral : Literal → Value ε
  | .nil => nil
  | .bool value => bool value
  | .number value => number value
  | .string value => string value

/-- Only `nil` and `false` count as false. -/
def isTruthy : Value ε → Bool
  | nil => false
  | bool value => value
  | _ => true

/--
Values of different kinds are never equal.  Numbers compare as numbers, so that
the one that is no number differs from itself; functions, classes and instances
compare by their identity.
-/
def equals : Value ε → Value ε → Bool
  | nil, nil => true
  | bool left, bool right => left == right
  | number left, number right => left == right
  | string left, string right => left == right
  | function left, function right => left.id == right.id
  | type left, type right => left.own.id == right.own.id
  | object left, object right => left.id == right.id
  | _, _ => false

/-- A value as `print` writes it. -/
def display : Value ε → String
  | nil => "nil"
  | bool value => if value then "true" else "false"
  | number value => displayNumber value
  | string value => value
  | function value => "fn <" ++ value.name ++ ">"
  | type value => value.name
  | object value => value.ofClass.name ++ " instance"

/-- A value as the result of a program: a string keeps its quotes. -/
def result : Value ε → String
  | string value => "\"" ++ value ++ "\""
  | other => other.display

end Value

end Lox
