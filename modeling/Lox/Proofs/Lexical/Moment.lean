import Lox.Proofs.Lexical.Fuel
import Lox.Proofs.Lexical.Growth
import Mathlib.Logic.Relation

/-!
# Where an execution comes

To execute a part of a program is to execute parts of it in turn, each in an environment of its
own.  `Moment.Enters` says which part comes next on the way to a function that is made.  What
such a function keeps is the environment at the beginning, with new cells in front of it:
`Moment.Makes.extends`.
-/

namespace Lox

/-- The operand of an expression that is evaluated first. -/
def Expr.first? : Expr → Option Expr
  | group inner => some inner
  | unary _ _ operand => some operand
  | binary _ _ left _ => some left
  | logical _ _ left _ => some left
  | assign _ value => some value
  | call callee _ _ => some callee
  | get object _ => some object
  | set object _ _ => some object
  | _ => none

/-- The expression that a statement evaluates first, before it declares anything. -/
def Stmt.first? : Stmt → Option Expr
  | expression value => some value
  | print value => some value
  | ifElse condition _ _ => some condition
  | returnValue _ value => value
  | _ => none

open Lexical.Step (evaluate evaluateAll execute executeAll introduce)

namespace Lexical

/-- A part of a program. -/
inductive Part where
  | expression (tree : Expr)
  | arguments (trees : List Expr)
  | statement (tree : Stmt)
  | statements (trees : List Stmt)
  /-- The turns of a `while` loop that are left. -/
  | turns (condition : Expr) (body : Stmt)

/-- A part of a program that is executed next. -/
structure Moment where
  part : Part
  environment : Environment
  machine : Machine

namespace Moment

/-- A part of what is executed is executed next, or after others of its parts. -/
inductive Enters : Moment → Moment → Prop where
  | operand {scope : Environment} {before : Machine} {whole first : Expr}
      (isFirst : whole.first? = some first) :
      Enters ⟨.expression whole, scope, before⟩ ⟨.expression first, scope, before⟩
  | right {scope : Environment} {before middle : Machine} {op : BinaryOp} {line : Nat}
      {left right : Expr} {value : Value Environment}
      (evaluated : Finishes (fun fuel => evaluate fuel scope left) before (.ok value middle)) :
      Enters ⟨.expression (.binary op line left right), scope, before⟩
        ⟨.expression right, scope, middle⟩
  | otherwise {scope : Environment} {before middle : Machine} {op : LogicalOp} {line : Nat}
      {left right : Expr} {value : Value Environment}
      (evaluated : Finishes (fun fuel => evaluate fuel scope left) before (.ok value middle))
      (goesOn : op.decides value = false) :
      Enters ⟨.expression (.logical op line left right), scope, before⟩
        ⟨.expression right, scope, middle⟩
  | arguments {scope : Environment} {before middle : Machine} {line : Nat} {callee : Expr}
      {arguments : List Expr} {value : Value Environment}
      (evaluated : Finishes (fun fuel => evaluate fuel scope callee) before (.ok value middle)) :
      Enters ⟨.expression (.call callee line arguments), scope, before⟩
        ⟨.arguments arguments, scope, middle⟩
  | value {scope : Environment} {before middle : Machine} {name : Name} {object value : Expr}
      {target : Instance Environment}
      (evaluated : Finishes (fun fuel => evaluate fuel scope object) before
        (.ok (.object target) middle)) :
      Enters ⟨.expression (.set object name value), scope, before⟩
        ⟨.expression value, scope, middle⟩
  | argument {scope : Environment} {before : Machine} {first : Expr} {others : List Expr} :
      Enters ⟨.arguments (first :: others), scope, before⟩
        ⟨.expression first, scope, before⟩
  | otherArguments {scope : Environment} {before middle : Machine} {first : Expr}
      {others : List Expr} {value : Value Environment}
      (evaluated : Finishes (fun fuel => evaluate fuel scope first) before (.ok value middle)) :
      Enters ⟨.arguments (first :: others), scope, before⟩
        ⟨.arguments others, scope, middle⟩
  | expression {scope : Environment} {before : Machine} {whole : Stmt} {first : Expr}
      (isFirst : whole.first? = some first) :
      Enters ⟨.statement whole, scope, before⟩ ⟨.expression first, scope, before⟩
  | initial {scope inner : Environment} {before middle : Machine} {name : Name} {initial : Expr}
      (introduced : introduce true scope name.text before = .ok inner middle) :
      Enters ⟨.statement (.varDecl name (some initial)), scope, before⟩
        ⟨.expression initial, inner, middle⟩
  | block {scope : Environment} {before : Machine} {body : List Stmt} :
      Enters ⟨.statement (.block body), scope, before⟩
        ⟨.statements body, scope, before⟩
  | whenTrue {scope : Environment} {before middle : Machine} {condition : Expr} {whenTrue : Stmt}
      {whenFalse : Option Stmt} {value : Value Environment}
      (evaluated : Finishes (fun fuel => evaluate fuel scope condition) before (.ok value middle))
      (holds : value.isTruthy) :
      Enters ⟨.statement (.ifElse condition whenTrue whenFalse), scope, before⟩
        ⟨.statement whenTrue, scope, middle⟩
  | whenFalse {scope : Environment} {before middle : Machine} {condition : Expr}
      {whenTrue whenFalse : Stmt} {value : Value Environment}
      (evaluated : Finishes (fun fuel => evaluate fuel scope condition) before (.ok value middle))
      (holdsNot : value.isTruthy = false) :
      Enters ⟨.statement (.ifElse condition whenTrue (some whenFalse)), scope, before⟩
        ⟨.statement whenFalse, scope, middle⟩
  | whileLoop {scope : Environment} {before : Machine} {condition : Expr} {body : Stmt} :
      Enters ⟨.statement (.whileLoop condition body), scope, before⟩
        ⟨.turns condition body, scope, before⟩
  | condition {scope : Environment} {before : Machine} {condition : Expr} {body : Stmt} :
      Enters ⟨.turns condition body, scope, before⟩ ⟨.expression condition, scope, before⟩
  | body {scope : Environment} {before middle : Machine} {condition : Expr} {body : Stmt}
      {value : Value Environment}
      (evaluated : Finishes (fun fuel => evaluate fuel scope condition) before (.ok value middle))
      (holds : value.isTruthy) :
      Enters ⟨.turns condition body, scope, before⟩ ⟨.statement body, scope, middle⟩
  | again {scope inner : Environment} {before middle after : Machine} {condition : Expr}
      {body : Stmt} {value : Value Environment} {result : Option (Value Environment)}
      (evaluated : Finishes (fun fuel => evaluate fuel scope condition) before (.ok value middle))
      (holds : value.isTruthy)
      (executed : Finishes (fun fuel => execute true fuel scope body) middle
        (.ok (.normal result, inner) after)) :
      Enters ⟨.turns condition body, scope, before⟩ ⟨.turns condition body, scope, after⟩
  | statement {scope : Environment} {before : Machine} {first : Stmt} {others : List Stmt} :
      Enters ⟨.statements (first :: others), scope, before⟩
        ⟨.statement first, scope, before⟩
  | otherStatements {scope inner : Environment} {before middle : Machine} {first : Stmt}
      {others : List Stmt} {result : Option (Value Environment)}
      (executed : Finishes (fun fuel => execute true fuel scope first) before
        (.ok (.normal result, inner) middle)) :
      Enters ⟨.statements (first :: others), scope, before⟩
        ⟨.statements others, inner, middle⟩

/-- One part of a program is executed in the course of another one. -/
abbrev Reaches : Moment → Moment → Prop :=
  Relation.ReflTransGen Enters

/-- A function is made. -/
inductive Makes : Moment → Closure Environment → Prop where
  | expression {scope : Environment} {before after : Machine} {definition : Function}
      {closure : Closure Environment}
      (made : Finishes (fun fuel => evaluate fuel scope (.function definition)) before
        (.ok (.function closure) after)) :
      Makes ⟨.expression (.function definition), scope, before⟩ closure
  | declaration {scope outer : Environment} {before after : Machine} {name : Name}
      {definition : Function} {result : Flow Environment} {text : String} {cell : Nat}
      {closure : Closure Environment}
      (made : Finishes (fun fuel => execute true fuel scope (.funDecl (.mk name definition)))
        before (.ok (result, (text, cell) :: outer) after))
      (isThere : after.cells[cell]? = some (.initialised (.function closure))) :
      Makes ⟨.statement (.funDecl (.mk name definition)), scope, before⟩ closure

end Moment

/-! ## Cells -/

/-- How many cells there are in the end. -/
def cellsAfter {α : Type} : EStateM.Result Stop Machine α → Nat
  | .ok _ machine => machine.cells.size
  | .error _ machine => machine.cells.size

/-- A step that finishes when there are at most so many cells. -/
def FinishesBy {α : Type} (step : Nat → Step α) (machine : Machine) (size : Nat) : Prop :=
  ∃ ending, Finishes step machine ending ∧ cellsAfter ending ≤ size

theorem Step.Grows.le {α : Type} {step : Step α} (grows : step.Grows) (machine : Machine) :
    machine.cells.size ≤ cellsAfter (step machine) := by
  have adds := grows machine
  rw [Step.GrowsFrom] at adds
  revert adds
  cases step machine with
  | ok result after => exact fun adds => adds.1
  | error stop after => exact id

namespace FinishesBy

variable {α β : Type} {machine middle : Machine} {size : Nat} {step : Nat → Step α}
  {next : Nat → α → Step β}

theorem le (grows : ∀ fuel, (step fuel).Grows) (ends : FinishesBy step machine size) :
    machine.cells.size ≤ size := by
  obtain ⟨ending, ⟨-, fuel, ends⟩, few⟩ := ends
  have adds := (grows fuel).le machine
  rw [ends] at adds
  exact Nat.le_trans adds few

theorem succ (empty : step 0 = throw .outOfFuel) (ends : FinishesBy step machine size) :
    FinishesBy (fun fuel => step (fuel + 1)) machine size := by
  obtain ⟨ending, ends, few⟩ := ends
  exact ⟨ending, (finishes_succ empty).mp ends, few⟩

/-- Of two steps the first one finishes, and there are not more cells then. -/
theorem first (grows : ∀ fuel result, (next fuel result).Grows)
    (ends : FinishesBy (fun fuel => step fuel >>= next fuel) machine size) :
    FinishesBy step machine size := by
  obtain ⟨ending, ⟨settled, fuel, ends⟩, few⟩ := ends
  rcases exists_of_bind ends settled with ⟨stop, after, fails, rfl, failed⟩ |
    ⟨value, middle, runs, last⟩
  · exact ⟨_, ⟨failed, fuel, fails⟩, few⟩
  · refine ⟨.ok value middle, ⟨trivial, fuel, runs⟩, ?_⟩
    rw [← last] at few
    exact Nat.le_trans ((grows fuel value).le middle) few

/-- Of two steps the second one finishes, if the first one did. -/
theorem rest (steady : IsSteady step) {value : α}
    (ends : FinishesBy (fun fuel => step fuel >>= next fuel) machine size)
    (before : Finishes step machine (.ok value middle)) :
    FinishesBy (fun fuel => next fuel value) middle size := by
  obtain ⟨ending, ⟨settled, fuel, ends⟩, few⟩ := ends
  rcases exists_of_bind ends settled with ⟨stop, after, fails, rfl, failed⟩ |
    ⟨value, middle, runs, last⟩
  · cases steady.unique before ⟨failed, fuel, fails⟩
  · have runs : Finishes step machine (.ok value middle) := ⟨trivial, fuel, runs⟩
    cases steady.unique before runs
    exact ⟨ending, ⟨settled, fuel, last⟩, few⟩

end FinishesBy

/-! ## Parts and their ends -/

namespace Moment

/-- The part is executed to its end, or fails, and there are at most so many cells then. -/
def EndsBy (moment : Moment) : Nat → Prop :=
  match moment.part with
  | .expression tree =>
    FinishesBy (fun fuel => evaluate fuel moment.environment tree) moment.machine
  | .arguments trees =>
    FinishesBy (fun fuel => evaluateAll fuel moment.environment trees) moment.machine
  | .statement tree =>
    FinishesBy (fun fuel => execute true fuel moment.environment tree) moment.machine
  | .statements trees => fun size => ∃ result,
    FinishesBy (fun fuel => executeAll true fuel moment.environment result trees) moment.machine
      size
  | .turns condition body =>
    FinishesBy (fun fuel => Step.loop true fuel moment.environment condition body) moment.machine

variable {environment : Environment} {machine : Machine} {size : Nat}

/-- The operand that is evaluated first, before the rest of an expression. -/
theorem endsBy_operand {whole first : Expr} (isFirst : whole.first? = some first)
    (ends : EndsBy ⟨.expression whole, environment, machine⟩ size) :
    EndsBy ⟨.expression first, environment, machine⟩ size := by
  replace ends := FinishesBy.succ (by rw [evaluate]) ends
  cases whole <;> cases isFirst <;> simp only [evaluate] at ends
  case group => exact ends
  case unary => exact ends.first fun _ _ => Step.grows_ofExcept _
  case binary left =>
    exact ends.first fun fuel _ => ((Step.growsWell fuel).evaluate _ _).bind
      fun _ => Step.grows_ofExcept _
  case logical =>
    apply ends.first
    intro fuel value
    split
    · exact .pure _
    · exact (Step.growsWell fuel).evaluate _ _
  case assign => exact ends.first fun _ _ => (Step.grows_assignVariable _ _ _).bind fun _ => .pure _
  case call =>
    apply ends.first
    intro fuel callee
    exact ((Step.growsWell fuel).evaluateAll _ _).bind fun _ => (Step.growsWell fuel).call _ _ _
  case get => exact ends.first fun _ _ => Step.grows_property _ _
  case set =>
    apply ends.first
    intro fuel target
    split
    · exact ((Step.growsWell fuel).evaluate _ _).bind
        fun _ => (Step.grows_setField _ _ _).bind fun _ => .pure _
    · exact .fail _ _

/-- The expression that a statement evaluates first, before it does anything else. -/
theorem endsBy_expression {whole : Stmt} {first : Expr} (isFirst : whole.first? = some first)
    (ends : EndsBy ⟨.statement whole, environment, machine⟩ size) :
    EndsBy ⟨.expression first, environment, machine⟩ size := by
  replace ends := FinishesBy.succ (by rw [execute]) ends
  cases whole <;> cases isFirst <;> simp only [execute] at ends
  case expression => exact ends.first fun _ _ => .pure _
  case print => exact ends.first fun _ _ => (Step.grows_print _).bind fun _ => .pure _
  case returnValue => exact ends.first fun _ _ => .pure _
  case ifElse whenTrue whenFalse =>
    apply ends.first
    intro fuel value
    split
    · exact (Step.growsWell fuel).statement true environment whenTrue
    · split
      · exact (Step.growsWell fuel).statement true environment _
      · exact .pure _

/-- What is executed next is executed to its end if the whole is. -/
theorem Enters.endsBy {whole part : Moment} (enters : whole.Enters part) (ends : whole.EndsBy size) :
    part.EndsBy size := by
  cases enters with
  | operand isFirst => exact endsBy_operand isFirst ends
  | expression isFirst => exact endsBy_expression isFirst ends
  | right evaluated =>
    replace ends := FinishesBy.succ (by rw [evaluate]) ends
    simp only [evaluate] at ends
    exact (ends.rest (Step.steady_evaluate _ _) evaluated).first fun _ _ => Step.grows_ofExcept _
  | otherwise evaluated goesOn =>
    replace ends := FinishesBy.succ (by rw [evaluate]) ends
    simp only [evaluate] at ends
    replace ends := ends.rest (Step.steady_evaluate _ _) evaluated
    simp only [goesOn, Bool.false_eq_true, if_false] at ends
    exact ends
  | arguments evaluated =>
    replace ends := FinishesBy.succ (by rw [evaluate]) ends
    simp only [evaluate] at ends
    exact (ends.rest (Step.steady_evaluate _ _) evaluated).first
      fun fuel _ => (Step.growsWell fuel).call _ _ _
  | value evaluated =>
    replace ends := FinishesBy.succ (by rw [evaluate]) ends
    simp only [evaluate] at ends
    exact (ends.rest (Step.steady_evaluate _ _) evaluated).first
      fun _ _ => (Step.grows_setField _ _ _).bind fun _ => .pure _
  | argument =>
    replace ends := FinishesBy.succ (by rw [evaluateAll]) ends
    simp only [evaluateAll] at ends
    exact ends.first fun fuel _ => ((Step.growsWell fuel).evaluateAll _ _).bind fun _ => .pure _
  | otherArguments evaluated =>
    replace ends := FinishesBy.succ (by rw [evaluateAll]) ends
    simp only [evaluateAll] at ends
    exact (ends.rest (Step.steady_evaluate _ _) evaluated).first fun _ _ => .pure _
  | initial introduced =>
    replace ends := FinishesBy.succ (by rw [execute]) ends
    simp only [execute, if_true] at ends
    replace ends := ends.rest (.const _) (finishes_const.mpr ⟨trivial, introduced⟩)
    exact ends.first fun _ _ => (Step.grows_initialise _ _ _ _).bind fun _ => .pure _
  | block =>
    replace ends := FinishesBy.succ (by rw [execute]) ends
    simp only [execute] at ends
    exact ⟨none, ends.first fun _ _ => .pure _⟩
  | whenTrue evaluated holds =>
    replace ends := FinishesBy.succ (by rw [execute]) ends
    simp only [execute] at ends
    replace ends := ends.rest (Step.steady_evaluate _ _) evaluated
    simp only [holds, if_true] at ends
    exact ends
  | whenFalse evaluated holdsNot =>
    replace ends := FinishesBy.succ (by rw [execute]) ends
    simp only [execute] at ends
    replace ends := ends.rest (Step.steady_evaluate _ _) evaluated
    simp only [holdsNot, Bool.false_eq_true, if_false] at ends
    exact ends
  | whileLoop =>
    replace ends := FinishesBy.succ (by rw [execute]) ends
    simp only [execute] at ends
    exact ends.first fun _ _ => .pure _
  | condition =>
    replace ends := FinishesBy.succ (by rw [Step.loop]) ends
    simp only [Step.loop] at ends
    apply ends.first
    intro fuel value
    split
    · apply ((Step.growsWell fuel).statement true _ _).bind
      rintro ⟨flow, inner⟩
      cases flow with
      | normal result => exact (Step.growsWell fuel).loop true _ _ _
      | _ => exact .pure _
    · exact .pure _
  | body evaluated holds =>
    replace ends := FinishesBy.succ (by rw [Step.loop]) ends
    simp only [Step.loop] at ends
    replace ends := ends.rest (Step.steady_evaluate _ _) evaluated
    simp only [holds, if_true] at ends
    apply ends.first
    rintro fuel ⟨flow, inner⟩
    cases flow with
    | normal result => exact (Step.growsWell fuel).loop true _ _ _
    | _ => exact .pure _
  | again evaluated holds executed =>
    replace ends := FinishesBy.succ (by rw [Step.loop]) ends
    simp only [Step.loop] at ends
    replace ends := ends.rest (Step.steady_evaluate _ _) evaluated
    simp only [holds, if_true] at ends
    exact ends.rest (Step.steady_execute _ _ _) executed
  | statement =>
    obtain ⟨result, ends⟩ := ends
    replace ends := FinishesBy.succ (by rw [executeAll]) ends
    simp only [executeAll] at ends
    apply ends.first
    rintro fuel ⟨flow, inner⟩
    cases flow with
    | normal result => exact (Step.growsWell fuel).inner _ _ _
    | _ => exact .pure _
  | otherStatements executed =>
    obtain ⟨result, ends⟩ := ends
    replace ends := FinishesBy.succ (by rw [executeAll]) ends
    simp only [executeAll] at ends
    exact ⟨_, ends.rest (Step.steady_execute _ _ _) executed⟩

theorem Reaches.endsBy {whole part : Moment} (reaches : whole.Reaches part)
    (ends : whole.EndsBy size) : part.EndsBy size := by
  induction reaches with
  | refl => exact ends
  | tail _ enters induction => exact enters.endsBy induction

theorem EndsBy.le {moment : Moment} (ends : moment.EndsBy size) :
    moment.machine.cells.size ≤ size := by
  rcases moment with ⟨part, environment, machine⟩
  cases part with
  | expression => exact FinishesBy.le (fun fuel => (Step.growsWell fuel).evaluate _ _) ends
  | arguments => exact FinishesBy.le (fun fuel => (Step.growsWell fuel).evaluateAll _ _) ends
  | statement => exact FinishesBy.le (fun fuel => (Step.growsWell fuel).statement _ _ _) ends
  | statements =>
    obtain ⟨result, ends⟩ := ends
    exact FinishesBy.le (fun fuel => (Step.growsWell fuel).inner _ _ _) ends
  | turns => exact FinishesBy.le (fun fuel => (Step.growsWell fuel).loop _ _ _ _) ends

/-! ## Environments -/

/-- What a step that finishes says of the cells. -/
theorem grows_of_finishes {α : Type} {step : Nat → Step α} {post : α → CellId → Prop} {result : α}
    {after : Machine} (grows : ∀ fuel, (step fuel).GrowsFrom machine post)
    (ends : Finishes step machine (.ok result after)) :
    machine.cells.size ≤ after.cells.size ∧ post result after.cells.size := by
  obtain ⟨-, fuel, ends⟩ := ends
  have adds := grows fuel
  rw [Step.GrowsFrom, ends] at adds
  exact adds

theorem size_le_of_evaluate {tree : Expr} {value : Value Environment} {after : Machine}
    (ends : Finishes (fun fuel => evaluate fuel environment tree) machine (.ok value after)) :
    machine.cells.size ≤ after.cells.size :=
  (grows_of_finishes (fun fuel => (Step.growsWell fuel).evaluate environment tree machine) ends).1

/-- What is executed next runs in the same environment, or in one with new cells in front. -/
theorem Enters.extends {whole part : Moment} (enters : whole.Enters part) :
    whole.machine.cells.size ≤ part.machine.cells.size ∧
      whole.environment.Extends part.environment whole.machine.cells.size
        part.machine.cells.size := by
  cases enters with
  | operand | argument | expression | block | whileLoop | condition | statement =>
    exact ⟨Nat.le_refl _, .refl _ _ _⟩
  | right evaluated | otherwise evaluated | arguments evaluated | value evaluated
  | otherArguments evaluated | whenTrue evaluated | whenFalse evaluated | body evaluated =>
    exact ⟨size_le_of_evaluate evaluated, .refl _ _ _⟩
  | initial introduced =>
    have more := grows_of_finishes (fun _ => Step.introduce_growsFrom true _ _)
      (finishes_const.mpr ⟨trivial, introduced⟩)
    exact more
  | again evaluated _ executed =>
    have more := grows_of_finishes (fun fuel => (Step.growsWell fuel).execute true _ _ _) executed
    exact ⟨Nat.le_trans (size_le_of_evaluate evaluated) more.1, .refl _ _ _⟩
  | otherStatements executed =>
    have more := grows_of_finishes (fun fuel => (Step.growsWell fuel).execute true _ _ _) executed
    exact more

theorem Reaches.extends {whole part : Moment} (reaches : whole.Reaches part) :
    whole.machine.cells.size ≤ part.machine.cells.size ∧
      whole.environment.Extends part.environment whole.machine.cells.size
        part.machine.cells.size := by
  induction reaches with
  | refl => exact ⟨Nat.le_refl _, .refl _ _ _⟩
  | tail _ enters induction =>
    obtain ⟨more, extending⟩ := induction
    obtain ⟨further, extendingThen⟩ := enters.extends
    exact ⟨Nat.le_trans more further, (extending.mono (Nat.le_refl _) further).trans
      (extendingThen.mono more (Nat.le_refl _))⟩

/-- A function that is made keeps the environment, or its own name in front of it. -/
theorem Makes.extends {moment : Moment} {closure : Closure Environment}
    (makes : moment.Makes closure) :
    ∃ last, moment.environment.Extends closure.environment moment.machine.cells.size last ∧
      ∀ size, moment.EndsBy size → last ≤ size := by
  cases makes with
  | expression made =>
    obtain ⟨-, fuel, made⟩ := (finishes_succ (by rw [evaluate])).mp made
    cases made
    exact ⟨_, .refl _ _ _, fun size ends => ends.le⟩
  | @declaration scope outer before after name definition result text cell closure made isThere =>
    have finishes := made
    obtain ⟨-, fuel, same⟩ := (finishes_succ (by rw [execute])).mp made
    cases same
    simp only [Array.getElem?_modify, Array.getElem?_push_size, if_true] at isThere
    cases isThere
    refine ⟨before.cells.size + 1, .cons _ (Nat.le_refl _) (Nat.lt_succ_self _),
      fun size ends => ?_⟩
    obtain ⟨ending, ends, few⟩ := ends
    cases (Step.steady_execute true scope _).unique finishes ends
    simpa [cellsAfter] using few

/-- Functions that are made in the course of an execution keep the environment at its beginning. -/
theorem Reaches.extends_of_makes {whole part : Moment} {closure : Closure Environment}
    (reaches : whole.Reaches part) (makes : part.Makes closure) :
    ∃ last, whole.environment.Extends closure.environment whole.machine.cells.size last ∧
      ∀ size, whole.EndsBy size → last ≤ size := by
  obtain ⟨more, extending⟩ := reaches.extends
  obtain ⟨last, extendingThen, early⟩ := makes.extends
  refine ⟨max part.machine.cells.size last, ?_, fun size ends => ?_⟩
  · exact (extending.mono (Nat.le_refl _) (Nat.le_max_left _ _)).trans
      (extendingThen.mono more (Nat.le_max_right _ _))
  · have ends := reaches.endsBy ends
    exact Nat.max_le.mpr ⟨ends.le, early size ends⟩

end Moment

end Lexical

end Lox
