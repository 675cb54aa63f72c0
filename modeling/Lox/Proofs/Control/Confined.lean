import Lox.Proofs.Grammar.Derivation
import Lox.Proofs.Scope.Rules
import Lox.Proofs.Tree.Made

/-!
# Statements that confine their signals

A statement confines its signals if each `break` in it is in a loop and each `return` in a
function, where what is around the statement counts.  That is said without looking into the
functions in it: these are derived by the grammar, so their bodies confine their signals
themselves (`Derivation.Definition.confined`).
-/

namespace Lox

mutual

/-- The signals of a statement with so many loops, and perhaps a function, around it. -/
def Stmt.IsConfined (loops : Nat) (returnable : Bool) : Stmt → Prop
  | .block body => Stmt.AreConfined loops returnable body
  | .ifElse _ whenTrue none => whenTrue.IsConfined loops returnable
  | .ifElse _ whenTrue (some whenFalse) =>
    whenTrue.IsConfined loops returnable ∧ whenFalse.IsConfined loops returnable
  | .whileLoop _ body => body.IsConfined (loops + 1) returnable
  | .breakLoop _ => loops ≠ 0
  | .returnValue _ _ => returnable
  | _ => True

/-- The signals of statements. -/
def Stmt.AreConfined (loops : Nat) (returnable : Bool) : List Stmt → Prop
  | [] => True
  | first :: others =>
    first.IsConfined loops returnable ∧ Stmt.AreConfined loops returnable others

end

theorem Stmt.areConfined_append {loops : Nat} {returnable : Bool} {first second : List Stmt} :
    Stmt.AreConfined loops returnable (first ++ second) ↔
      Stmt.AreConfined loops returnable first ∧ Stmt.AreConfined loops returnable second := by
  induction first with
  | nil => simp [Stmt.AreConfined]
  | cons statement others induction => simp [Stmt.AreConfined, induction, and_assoc]

/-! ## No `return` outside of functions -/

mutual

/-- A program that obeys the rules on scopes returns in functions only. -/
theorem Stmt.isConfined_of_sites {loops : Nat} : ∀ (statement : Stmt) {place : Place},
    place.role = .outside → statement.IsConfined loops true →
      (∀ site ∈ statement.sites place, site.IsSound) → statement.IsConfined loops false
  | .expression _, _, _, _, _ | .print _, _, _, _, _ | .varDecl _ _, _, _, _, _
  | .funDecl _, _, _, _, _ | .classDecl _ _ _ _, _, _, _, _ => trivial
  | .breakLoop _, _, _, confined, _ => confined
  | .block body, place, outside, confined, sound =>
    have still : place.inBlock.role = .outside := outside
    Stmt.areConfined_of_sites body still confined (List.forall_mem_cons.mp sound).2
  | .ifElse _ whenTrue none, _, outside, confined, sound =>
    whenTrue.isConfined_of_sites outside confined (List.forall_mem_append.mp sound).2
  | .ifElse _ whenTrue (some whenFalse), place, outside, confined, sound =>
    have parts := List.forall_mem_append.mp sound
    have still : (place.declare whenTrue.locals).role = .outside := outside
    ⟨whenTrue.isConfined_of_sites outside confined.1 (List.forall_mem_append.mp parts.1).2,
      whenFalse.isConfined_of_sites still confined.2 parts.2⟩
  | .whileLoop _ body, _, outside, confined, sound =>
    body.isConfined_of_sites outside confined (List.forall_mem_append.mp sound).2
  | .returnValue _ none, _, outside, _, sound =>
    have returns := sound _ List.mem_cons_self
    absurd outside returns.1
  | .returnValue _ (some _), _, outside, _, sound =>
    have returns := sound _ List.mem_cons_self
    absurd outside returns.1

theorem Stmt.areConfined_of_sites {loops : Nat} : ∀ (statements : List Stmt) {place : Place},
    place.role = .outside → Stmt.AreConfined loops true statements →
      (∀ site ∈ Stmt.sitesAll place statements, site.IsSound) →
        Stmt.AreConfined loops false statements
  | [], _, _, _, _ => trivial
  | first :: others, place, outside, confined, sound =>
    have parts := List.forall_mem_append.mp sound
    have still : (place.declare first.locals).role = .outside := outside
    ⟨first.isConfined_of_sites outside confined.1 parts.1,
      Stmt.areConfined_of_sites others still confined.2 parts.2⟩

end

namespace Derivation

open Grammar (forLoop)

/-! ## No `break` outside of loops -/

section

variable {breakable : Bool} {before after : Position} {loops : Nat}

theorem ExpressionStatement.confined {tree : Stmt}
    (derives : ExpressionStatement before tree after) : tree.IsConfined loops true := by
  cases derives <;> trivial

theorem Variable.confined {tree : Stmt} (derives : Variable before tree after) :
    tree.IsConfined loops true := by
  cases derives <;> trivial

theorem ForInitial.confined {start : Option Stmt} (derives : ForInitial before start after) :
    Stmt.AreConfined loops true start.toList := by
  cases derives with
  | none => trivial
  | varDecl inner => exact ⟨inner.confined, trivial⟩
  | expression inner => exact ⟨inner.confined, trivial⟩

/-- A `for` loop confines its signals if its body does in a loop. -/
theorem isConfined_forLoop {initial : Option Stmt} {condition increment : Option Expr}
    {body : Stmt} (initialConfined : Stmt.AreConfined loops true initial.toList)
    (bodyConfined : body.IsConfined (loops + 1) true) :
    (forLoop initial condition increment body).IsConfined loops true := by
  apply Stmt.areConfined_append.mpr
  refine ⟨initialConfined, ?_, trivial⟩
  cases increment with
  | none => exact bodyConfined
  | some => exact ⟨bodyConfined, trivial, trivial⟩

end

mutual

theorem Block.confined {breakable : Bool} {before : Position} {trees : List Stmt}
    {after : Position} : Block breakable before trees after → ∀ {loops : Nat},
      (breakable = true → loops ≠ 0) → Stmt.AreConfined loops true trees
  | .block _ inner _, _, inLoop => inner.confined inLoop

theorem Declarations.confined {breakable : Bool} {before : Position} {trees : List Stmt}
    {after : Position} : Declarations breakable before trees after → ∀ {loops : Nat},
      (breakable = true → loops ≠ 0) → Stmt.AreConfined loops true trees
  | .nil, _, _ => trivial
  | .cons first others, _, inLoop => ⟨first.confined inLoop, others.confined inLoop⟩

theorem Declaration.confined {breakable : Bool} {before : Position} {tree : Stmt}
    {after : Position} : Declaration breakable before tree after → ∀ {loops : Nat},
      (breakable = true → loops ≠ 0) → tree.IsConfined loops true
  | .classDecl _ _ _ _ _ _, _, _ => trivial
  | .funDecl _ _, _, _ => trivial
  | .varDecl inner, _, _ => inner.confined
  | .statement inner, _, inLoop => inner.confined inLoop

theorem Statement.confined {breakable : Bool} {before : Position} {tree : Stmt}
    {after : Position} : Statement breakable before tree after → ∀ {loops : Nat},
      (breakable = true → loops ≠ 0) → tree.IsConfined loops true
  | .expression inner, _, _ => inner.confined
  | .print _ _ _, _, _ => trivial
  | .block inner, _, inLoop => inner.confined inLoop
  | .ifOnly _ _ _ _ whenTrue _, _, inLoop => whenTrue.confined inLoop
  | .ifElse _ _ _ _ whenTrue _ whenFalse, _, inLoop =>
    ⟨whenTrue.confined inLoop, whenFalse.confined inLoop⟩
  | .whileLoop _ _ _ _ body, loops, _ => body.confined fun _ => Nat.succ_ne_zero loops
  | .forLoop _ _ initial _ _ _ _ body, loops, _ =>
    isConfined_forLoop initial.confined (body.confined fun _ => Nat.succ_ne_zero loops)
  | .breakLoop _ _, _, inLoop => inLoop rfl
  | .returnValue _ _ _, _, _ => rfl

end

/-- The body of a function confines its signals. -/
theorem Definition.confined {before after : Position} {definition : Function}
    (derives : Definition before definition after) :
    Stmt.AreConfined 0 true definition.body := by
  cases derives with
  | function _ _ _ body => exact body.confined fun isTrue => absurd isTrue Bool.false_ne_true

end Derivation

/-! ## Functions in derivations -/

/-- The grammar derives a function. -/
def Function.IsDerived (definition : Function) : Prop :=
  ∃ before after, Derivation.Definition before definition after

theorem Expr.makes_join {allowed : Function → Prop} (connective : Grammar.Connective) (line : Nat)
    {left right : Expr} (leftMade : left.Makes allowed) (rightMade : right.Makes allowed) :
    (connective.join line left right).Makes allowed := by
  cases connective <;> exact ⟨leftMade, rightMade⟩

theorem Stmt.makeAll_append {allowed : Function → Prop} {first second : List Stmt}
    (firstMade : Stmt.MakeAll allowed first) (secondMade : Stmt.MakeAll allowed second) :
    Stmt.MakeAll allowed (first ++ second) := by
  induction first with
  | nil => exact secondMade
  | cons statement others induction => exact ⟨firstMade.1, induction firstMade.2⟩

theorem Stmt.makes_forLoop {allowed : Function → Prop} {initial : Option Stmt}
    {condition increment : Option Expr} {body : Stmt}
    (initialMade : Stmt.MakeAll allowed initial.toList)
    (conditionMade : ∀ value ∈ condition, value.Makes allowed)
    (incrementMade : ∀ value ∈ increment, value.Makes allowed) (bodyMade : body.Makes allowed) :
    (Grammar.forLoop initial condition increment body).Makes allowed := by
  apply Stmt.makeAll_append initialMade
  refine ⟨⟨?_, ?_⟩, trivial⟩
  · cases condition with
    | none => trivial
    | some value => exact conditionMade value rfl
  · cases increment with
    | none => exact bodyMade
    | some value => exact ⟨bodyMade, incrementMade value rfl, trivial⟩

namespace Derivation

mutual

theorem Expression.makes {before : Position} {tree : Expr} {after : Position} :
    Expression before tree after → tree.Makes Function.IsDerived
  | .operation inner => inner.makes
  | .assign _ _ value => value.makes
  | .set object _ _ _ value => ⟨object.makes, value.makes⟩

theorem Operation.makes {level : Grammar.Level} {before : Position} {tree : Expr}
    {after : Position} : Operation level before tree after → tree.Makes Function.IsDerived
  | .operand inner => inner.makes
  | .join left _ _ right => Expr.makes_join _ _ left.makes right.makes

theorem Operand.makes {level : Grammar.Level} {before : Position} {tree : Expr}
    {after : Position} : Operand level before tree after → tree.Makes Function.IsDerived
  | .tighter _ inner => inner.makes
  | .unary inner => inner.makes

theorem Unary.makes {before : Position} {tree : Expr} {after : Position} :
    Unary before tree after → tree.Makes Function.IsDerived
  | .operator _ _ operand => operand.makes
  | .call inner => inner.makes

theorem Call.makes {before : Position} {tree : Expr} {after : Position} :
    Call before tree after → tree.Makes Function.IsDerived
  | .primary inner => inner.makes
  | .call callee _ arguments _ => ⟨callee.makes, arguments.makes⟩
  | .get object _ _ => object.makes

theorem Arguments.makes {before : Position} {trees : List Expr} {after : Position} :
    Arguments before trees after → Expr.MakeAll Function.IsDerived trees
  | .none => trivial
  | .some values _ => values.makes

theorem Values.makes {before : Position} {trees : List Expr} {after : Position} :
    Values before trees after → Expr.MakeAll Function.IsDerived trees
  | .last value => ⟨value.makes, trivial⟩
  | .more value _ others => ⟨value.makes, others.makes⟩

theorem Primary.makes {before : Position} {tree : Expr} {after : Position} :
    Primary before tree after → tree.Makes Function.IsDerived
  | .literal _ _ | .read _ | .this _ _ | .super _ _ _ _ => trivial
  | .group _ inner _ => inner.makes
  | .function _ definition => ⟨_, _, definition⟩

end

theorem OptionalExpression.makes {before after : Position} {tree : Option Expr}
    (derives : OptionalExpression before tree after) :
    ∀ value ∈ tree, value.Makes Function.IsDerived := by
  cases derives with
  | none => exact fun value impossible => by cases impossible
  | some value =>
    rintro _ ⟨⟩
    exact value.makes

theorem ExpressionStatement.makes {before after : Position} {tree : Stmt}
    (derives : ExpressionStatement before tree after) : tree.Makes Function.IsDerived := by
  cases derives with
  | closed value _ => exact value.makes
  | last value _ => exact value.makes

theorem Variable.makes {before after : Position} {tree : Stmt}
    (derives : Variable before tree after) : tree.Makes Function.IsDerived := by
  cases derives with
  | bare => trivial
  | initialised _ _ _ value _ => exact value.makes

theorem ForInitial.makes {before after : Position} {tree : Option Stmt}
    (derives : ForInitial before tree after) :
    Stmt.MakeAll Function.IsDerived tree.toList := by
  cases derives with
  | none => trivial
  | varDecl inner => exact ⟨inner.makes, trivial⟩
  | expression inner => exact ⟨inner.makes, trivial⟩

theorem NamedDefinition.isDerived {before after : Position} {tree : NamedFunction}
    (derives : NamedDefinition before tree after) : tree.definition.IsDerived := by
  cases derives with
  | function _ definition => exact ⟨_, _, definition⟩

mutual

theorem Block.makes {breakable : Bool} {before : Position} {trees : List Stmt}
    {after : Position} : Block breakable before trees after → Stmt.MakeAll Function.IsDerived trees
  | .block _ inner _ => inner.makes

theorem Declarations.makes {breakable : Bool} {before : Position} {trees : List Stmt}
    {after : Position} :
    Declarations breakable before trees after → Stmt.MakeAll Function.IsDerived trees
  | .nil => trivial
  | .cons first others => ⟨first.makes, others.makes⟩

theorem Declaration.makes {breakable : Bool} {before : Position} {tree : Stmt}
    {after : Position} : Declaration breakable before tree after → tree.Makes Function.IsDerived
  | .classDecl _ _ _ _ inner _ => inner.makes
  | .funDecl _ (.function _ definition) => ⟨_, _, definition⟩
  | .varDecl inner => inner.makes
  | .statement inner => inner.makes

theorem Methods.makes {before : Position} {methods classMethods : List NamedFunction}
    {after : Position} : Methods before methods classMethods after →
      NamedFunction.MakeAll Function.IsDerived methods ∧
        NamedFunction.MakeAll Function.IsDerived classMethods
  | .nil => ⟨List.forall_mem_nil _, List.forall_mem_nil _⟩
  | .method first others =>
    ⟨List.forall_mem_cons.mpr ⟨first.isDerived, others.makes.1⟩, others.makes.2⟩
  | .classMethod _ definition others =>
    ⟨others.makes.1, List.forall_mem_cons.mpr ⟨definition.isDerived, others.makes.2⟩⟩

theorem Statement.makes {breakable : Bool} {before : Position} {tree : Stmt}
    {after : Position} : Statement breakable before tree after → tree.Makes Function.IsDerived
  | .expression inner => inner.makes
  | .print _ value _ => value.makes
  | .block inner => inner.makes
  | .ifOnly _ _ condition _ whenTrue _ => ⟨condition.makes, whenTrue.makes⟩
  | .ifElse _ _ condition _ whenTrue _ whenFalse =>
    ⟨condition.makes, whenTrue.makes, whenFalse.makes⟩
  | .whileLoop _ _ condition _ body => ⟨condition.makes, body.makes⟩
  | .forLoop _ _ initial condition _ increment _ body =>
    Stmt.makes_forLoop initial.makes condition.makes increment.makes body.makes
  | .breakLoop _ _ => trivial
  | .returnValue _ .none _ => trivial
  | .returnValue _ (.some value) _ => value.makes

end

/-- The functions that a function makes are derived, too. -/
theorem Definition.makes {before after : Position} {definition : Function}
    (derives : Definition before definition after) :
    Stmt.MakeAll Function.IsDerived definition.body := by
  cases derives with
  | function _ _ _ body => exact body.makes

end Derivation

end Lox
