import Lox.Tree.Basic
import Mathlib.Data.List.Basic

/-!
# Functions that a program makes

A program makes functions of the definitions in it; those inside of another definition are made
when this one is called.  `Stmt.Makes` says that all definitions of which a statement makes
functions are among some.
-/

namespace Lox

section

variable (allowed : Function → Prop)

mutual

/-- The functions that an expression makes have these definitions only. -/
def Expr.Makes : Expr → Prop
  | .literal _ => True
  | .group inner => inner.Makes
  | .unary _ _ operand => operand.Makes
  | .binary _ _ left right => left.Makes ∧ right.Makes
  | .logical _ _ left right => left.Makes ∧ right.Makes
  | .read _ => True
  | .assign _ value => value.Makes
  | .call callee _ arguments => callee.Makes ∧ Expr.MakeAll arguments
  | .function definition => allowed definition
  | .get object _ => object.Makes
  | .set object _ value => object.Makes ∧ value.Makes
  | .this _ _ => True
  | .super _ _ _ => True

/-- The functions that expressions make have these definitions only. -/
def Expr.MakeAll : List Expr → Prop
  | [] => True
  | first :: others => first.Makes ∧ Expr.MakeAll others

end

/-- The methods of a class have these definitions only. -/
def NamedFunction.MakeAll (methods : List NamedFunction) : Prop :=
  ∀ method ∈ methods, allowed method.definition

mutual

/-- The functions that a statement makes have these definitions only. -/
def Stmt.Makes : Stmt → Prop
  | .expression value => value.Makes allowed
  | .print value => value.Makes allowed
  | .varDecl _ none => True
  | .varDecl _ (some initial) => initial.Makes allowed
  | .block body => Stmt.MakeAll body
  | .ifElse condition whenTrue none => condition.Makes allowed ∧ whenTrue.Makes
  | .ifElse condition whenTrue (some whenFalse) =>
    condition.Makes allowed ∧ whenTrue.Makes ∧ whenFalse.Makes
  | .whileLoop condition body => condition.Makes allowed ∧ body.Makes
  | .breakLoop _ => True
  | .funDecl (.mk _ definition) => allowed definition
  | .returnValue _ none => True
  | .returnValue _ (some value) => value.Makes allowed
  | .classDecl _ _ methods classMethods =>
    NamedFunction.MakeAll allowed methods ∧ NamedFunction.MakeAll allowed classMethods

/-- The functions that statements make have these definitions only. -/
def Stmt.MakeAll : List Stmt → Prop
  | [] => True
  | first :: others => first.Makes ∧ Stmt.MakeAll others

end

end

/-! ## Definitions of any kind -/

section

variable {allowed : Function → Prop}

mutual

theorem Expr.makes_of_forall (any : ∀ definition, allowed definition) :
    ∀ expression : Expr, expression.Makes allowed
  | .literal _ => trivial
  | .read _ => trivial
  | .this _ _ => trivial
  | .super _ _ _ => trivial
  | .group inner => inner.makes_of_forall any
  | .unary _ _ operand => operand.makes_of_forall any
  | .binary _ _ left right => ⟨left.makes_of_forall any, right.makes_of_forall any⟩
  | .logical _ _ left right => ⟨left.makes_of_forall any, right.makes_of_forall any⟩
  | .assign _ value => value.makes_of_forall any
  | .call callee _ arguments => ⟨callee.makes_of_forall any, Expr.makeAll_of_forall any arguments⟩
  | .function definition => any definition
  | .get object _ => object.makes_of_forall any
  | .set object _ value => ⟨object.makes_of_forall any, value.makes_of_forall any⟩

theorem Expr.makeAll_of_forall (any : ∀ definition, allowed definition) :
    ∀ expressions : List Expr, Expr.MakeAll allowed expressions
  | [] => trivial
  | first :: others => ⟨first.makes_of_forall any, Expr.makeAll_of_forall any others⟩

end

mutual

theorem Stmt.makes_of_forall (any : ∀ definition, allowed definition) :
    ∀ statement : Stmt, statement.Makes allowed
  | .expression value => value.makes_of_forall any
  | .print value => value.makes_of_forall any
  | .varDecl _ none => trivial
  | .varDecl _ (some initial) => initial.makes_of_forall any
  | .block body => Stmt.makeAll_of_forall any body
  | .ifElse condition whenTrue none =>
    ⟨condition.makes_of_forall any, whenTrue.makes_of_forall any⟩
  | .ifElse condition whenTrue (some whenFalse) =>
    ⟨condition.makes_of_forall any, whenTrue.makes_of_forall any, whenFalse.makes_of_forall any⟩
  | .whileLoop condition body => ⟨condition.makes_of_forall any, body.makes_of_forall any⟩
  | .breakLoop _ => trivial
  | .funDecl (.mk _ definition) => any definition
  | .returnValue _ none => trivial
  | .returnValue _ (some value) => value.makes_of_forall any
  | .classDecl _ _ _ _ =>
    ⟨fun method _ => any method.definition, fun method _ => any method.definition⟩

theorem Stmt.makeAll_of_forall (any : ∀ definition, allowed definition) :
    ∀ statements : List Stmt, Stmt.MakeAll allowed statements
  | [] => trivial
  | first :: others => ⟨first.makes_of_forall any, Stmt.makeAll_of_forall any others⟩

end

end

end Lox
