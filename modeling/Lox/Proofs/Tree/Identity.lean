import Lox.Proofs.Tree.Occurrence
import Mathlib.Data.List.Basic

/-!
# Ids and names in a tree

The ids of the uses in a tree do not depend on what surrounds it
(`Stmt.map_id_occurrences`), and `Stmt.IsProper` is what holds of the trees of
programs that could be read: the branches of an `if` and the body of a loop declare
nothing in the scope around them, and names come from the text.
-/

namespace Lox

/-! ## Ids -/

mutual

/-- The ids of the uses in an expression. -/
@[simp]
def Expr.ids : Expr → List Nat
  | .literal _ => []
  | .group inner => inner.ids
  | .unary _ _ operand => operand.ids
  | .binary _ _ left right => left.ids ++ right.ids
  | .logical _ _ left right => left.ids ++ right.ids
  | .read target => [target.id]
  | .assign target value => value.ids ++ [target.id]
  | .call callee _ arguments => callee.ids ++ Expr.idsAll arguments
  | .function definition => definition.ids
  | .get object _ => object.ids
  | .set object _ value => object.ids ++ value.ids
  | .this id _ => [id]
  | .super id _ _ => [id]

@[simp]
def Expr.idsAll : List Expr → List Nat
  | [] => []
  | first :: others => first.ids ++ Expr.idsAll others

@[simp]
def Function.ids : Function → List Nat
  | .mk _ body => Stmt.idsAll body

@[simp]
def NamedFunction.idsAll : List NamedFunction → List Nat
  | [] => []
  | .mk _ definition :: others => definition.ids ++ NamedFunction.idsAll others

/-- The ids of the uses in a statement. -/
@[simp]
def Stmt.ids : Stmt → List Nat
  | .expression value => value.ids
  | .print value => value.ids
  | .varDecl _ none => []
  | .varDecl _ (some initial) => initial.ids
  | .block body => Stmt.idsAll body
  | .ifElse condition whenTrue none => condition.ids ++ whenTrue.ids
  | .ifElse condition whenTrue (some whenFalse) => condition.ids ++ whenTrue.ids ++ whenFalse.ids
  | .whileLoop condition body => condition.ids ++ body.ids
  | .breakLoop _ => []
  | .funDecl (.mk _ definition) => definition.ids
  | .returnValue _ none => []
  | .returnValue _ (some value) => value.ids
  | .classDecl _ superclass methods classMethods =>
    superclass.toList.map Reference.id ++ NamedFunction.idsAll classMethods ++
      NamedFunction.idsAll methods

@[simp]
def Stmt.idsAll : List Stmt → List Nat
  | [] => []
  | first :: others => first.ids ++ Stmt.idsAll others

end

theorem Stmt.idsAll_append (first second : List Stmt) :
    Stmt.idsAll (first ++ second) = Stmt.idsAll first ++ Stmt.idsAll second := by
  induction first with
  | nil => rfl
  | cons statement others induction => simp [induction]

mutual

theorem Expr.map_id_occurrences (around : Surroundings) (scopes : Scopes) :
    ∀ expression : Expr, (expression.occurrences around scopes).map Occurrence.id = expression.ids
  | .literal _ => rfl
  | .read _ => rfl
  | .this _ _ => rfl
  | .super _ _ _ => rfl
  | .group inner => by
    simpa [Expr.occurrences] using Expr.map_id_occurrences around scopes inner
  | .unary _ _ operand => by
    simpa [Expr.occurrences] using Expr.map_id_occurrences around scopes operand
  | .binary _ _ left right => by
    simp [Expr.occurrences, Expr.map_id_occurrences _ _ left,
      Expr.map_id_occurrences _ _ right]
  | .logical _ _ left right => by
    simp [Expr.occurrences, Expr.map_id_occurrences _ _ left,
      Expr.map_id_occurrences _ _ right]
  | .assign target value => by
    simp [Expr.occurrences, Expr.map_id_occurrences _ _ value, Reference.occurrence]
  | .call callee _ arguments => by
    simp [Expr.occurrences, Expr.map_id_occurrences _ _ callee,
      Expr.map_id_occurrencesAll _ _ arguments]
  | .function definition => by
    simp [Expr.occurrences, Function.map_id_occurrences _ _ definition]
  | .get object _ => by
    simpa [Expr.occurrences] using Expr.map_id_occurrences around scopes object
  | .set object _ value => by
    simp [Expr.occurrences, Expr.map_id_occurrences _ _ object,
      Expr.map_id_occurrences _ _ value]

theorem Expr.map_id_occurrencesAll (around : Surroundings) (scopes : Scopes) :
    ∀ expressions : List Expr,
      (Expr.occurrencesAll around scopes expressions).map Occurrence.id = Expr.idsAll expressions
  | [] => rfl
  | first :: others => by
    simp [Expr.occurrencesAll, Expr.map_id_occurrences _ _ first,
      Expr.map_id_occurrencesAll _ _ others]

theorem Function.map_id_occurrences (around : Surroundings) (scopes : Scopes) :
    ∀ definition : Function,
      (definition.occurrences around scopes).map Occurrence.id = definition.ids
  | .mk _ body => by
    simp [Function.occurrences, Stmt.map_id_occurrencesAll _ _ body]

theorem NamedFunction.map_id_occurrencesAll (around : Surroundings) (scopes : Scopes) :
    ∀ methods : List NamedFunction,
      (NamedFunction.occurrencesAll around scopes methods).map Occurrence.id =
        NamedFunction.idsAll methods
  | [] => rfl
  | .mk _ definition :: others => by
    simp [NamedFunction.occurrencesAll,
      Function.map_id_occurrences _ _ definition, NamedFunction.map_id_occurrencesAll _ _ others]

theorem Stmt.map_id_occurrences (around : Surroundings) (scopes : Scopes) :
    ∀ statement : Stmt, (statement.occurrences around scopes).map Occurrence.id = statement.ids
  | .breakLoop _ => rfl
  | .varDecl _ none => rfl
  | .returnValue _ none => rfl
  | .expression value => by
    simp [Stmt.occurrences, Expr.map_id_occurrences _ _ value]
  | .print value => by
    simp [Stmt.occurrences, Expr.map_id_occurrences _ _ value]
  | .varDecl _ (some initial) => by
    simp [Stmt.occurrences, Expr.map_id_occurrences _ _ initial]
  | .block body => by
    simp [Stmt.occurrences, Stmt.map_id_occurrencesAll _ _ body]
  | .ifElse condition whenTrue none => by
    simp [Stmt.occurrences, Expr.map_id_occurrences _ _ condition,
      Stmt.map_id_occurrences _ _ whenTrue]
  | .ifElse condition whenTrue (some whenFalse) => by
    simp [Stmt.occurrences, Expr.map_id_occurrences _ _ condition,
      Stmt.map_id_occurrences _ _ whenTrue, Stmt.map_id_occurrences _ _ whenFalse]
  | .whileLoop condition body => by
    simp [Stmt.occurrences, Expr.map_id_occurrences _ _ condition,
      Stmt.map_id_occurrences _ _ body]
  | .funDecl (.mk _ definition) => by
    simp [Stmt.occurrences, Function.map_id_occurrences _ _ definition]
  | .returnValue _ (some value) => by
    simp [Stmt.occurrences, Expr.map_id_occurrences _ _ value]
  | .classDecl _ superclass methods classMethods => by
    simp [Stmt.occurrences, NamedFunction.map_id_occurrencesAll _ _ methods,
      NamedFunction.map_id_occurrencesAll _ _ classMethods, Reference.occurrence]

theorem Stmt.map_id_occurrencesAll (around : Surroundings) (scopes : Scopes) :
    ∀ statements : List Stmt,
      (Stmt.occurrencesAll around scopes statements).map Occurrence.id = Stmt.idsAll statements
  | [] => rfl
  | first :: others => by
    simp [Stmt.occurrencesAll, Stmt.map_id_occurrences _ _ first,
      Stmt.map_id_occurrencesAll _ _ others]

end

/-! ## Proper trees -/

section

variable (names : String → Prop)

mutual

/-- In an expression all names are among some, and branches and loop bodies declare nothing. -/
def Expr.IsProper : Expr → Prop
  | .literal _ => True
  | .group inner => inner.IsProper
  | .unary _ _ operand => operand.IsProper
  | .binary _ _ left right => left.IsProper ∧ right.IsProper
  | .logical _ _ left right => left.IsProper ∧ right.IsProper
  | .read target => names target.name.text
  | .assign target value => names target.name.text ∧ value.IsProper
  | .call callee _ arguments => callee.IsProper ∧ Expr.AreProper arguments
  | .function definition => definition.IsProper
  | .get object _ => object.IsProper
  | .set object _ value => object.IsProper ∧ value.IsProper
  | .this _ _ => True
  | .super _ _ _ => True

def Expr.AreProper : List Expr → Prop
  | [] => True
  | first :: others => first.IsProper ∧ Expr.AreProper others

def Function.IsProper : Function → Prop
  | .mk parameters body => (∀ parameter ∈ parameters, names parameter.text) ∧ Stmt.AreProper body

def NamedFunction.AreProper : List NamedFunction → Prop
  | [] => True
  | .mk _ definition :: others => definition.IsProper ∧ NamedFunction.AreProper others

/-- In a statement all names are among some, and branches and loop bodies declare nothing. -/
def Stmt.IsProper : Stmt → Prop
  | .expression value => value.IsProper
  | .print value => value.IsProper
  | .varDecl name none => names name.text
  | .varDecl name (some initial) => names name.text ∧ initial.IsProper
  | .block body => Stmt.AreProper body
  | .ifElse condition whenTrue none =>
    condition.IsProper ∧ whenTrue.IsProper ∧ whenTrue.locals = []
  | .ifElse condition whenTrue (some whenFalse) =>
    condition.IsProper ∧ (whenTrue.IsProper ∧ whenTrue.locals = []) ∧
      whenFalse.IsProper ∧ whenFalse.locals = []
  | .whileLoop condition body => condition.IsProper ∧ body.IsProper ∧ body.locals = []
  | .breakLoop _ => True
  | .funDecl (.mk name definition) => names name.text ∧ definition.IsProper
  | .returnValue _ none => True
  | .returnValue _ (some value) => value.IsProper
  | .classDecl name superclass methods classMethods =>
    names name.text ∧ (∀ target ∈ superclass, names target.name.text) ∧
      NamedFunction.AreProper methods ∧ NamedFunction.AreProper classMethods

def Stmt.AreProper : List Stmt → Prop
  | [] => True
  | first :: others => first.IsProper ∧ Stmt.AreProper others

end

theorem Stmt.areProper_append (first second : List Stmt) :
    Stmt.AreProper names (first ++ second) ↔
      Stmt.AreProper names first ∧ Stmt.AreProper names second := by
  induction first with
  | nil => simp [Stmt.AreProper]
  | cons statement others induction => simp [Stmt.AreProper, induction, and_assoc]

end

end Lox
