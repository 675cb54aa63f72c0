import Lox.Proofs.Renaming.Steps

/-!
# Renamed programs do the same

A program and the same one with other ids and lines do the same on machines that vary, if the
same places are recorded for both: by induction on the bound of the evaluation, in all functions
of the evaluator at once (`evaluatorVaries`).
-/

namespace Lox

/-- Within a bound on their depth the evaluators do the same with renamed programs. -/
structure EvaluatorVaries (variation : Variation) (addresses addresses' : AddressTable)
    (fuel : Nat) : Prop where
  evaluate : ∀ expression : Expr, expression.Makes variation.allowed →
    Step.Varies variation (Value.Varies variation) (Step.evaluate addresses fuel expression)
      (Step.evaluate addresses' fuel (expression.rename variation.change))
  evaluateAll : ∀ expressions : List Expr, Expr.MakeAll variation.allowed expressions →
    Step.Varies variation (List.Forall₂ (Value.Varies variation))
      (Step.evaluateAll addresses fuel expressions)
      (Step.evaluateAll addresses' fuel (Expr.renameAll variation.change expressions))
  call : ∀ (line : Nat) {callee callee' arguments arguments'},
    Value.Varies variation callee callee' →
    List.Forall₂ (Value.Varies variation) arguments arguments' →
    Step.Varies variation (Value.Varies variation) (Step.call addresses fuel line callee arguments)
      (Step.call addresses' fuel (variation.change.line line) callee' arguments')
  invoke : ∀ {closure closure' arguments arguments'},
    Closure.Varies variation closure closure' →
    List.Forall₂ (Value.Varies variation) arguments arguments' →
    Step.Varies variation (Value.Varies variation) (Step.invoke addresses fuel closure arguments)
      (Step.invoke addresses' fuel closure' arguments')
  execute : ∀ statement : Stmt, statement.Makes variation.allowed →
    Step.Varies variation (Flow.Varies variation) (Step.execute addresses fuel statement)
      (Step.execute addresses' fuel (statement.rename variation.change))
  executeAll : ∀ (statements : List Stmt) {result result'},
    Stmt.MakeAll variation.allowed statements →
    Option.Rel (Value.Varies variation) result result' →
    Step.Varies variation (Flow.Varies variation)
      (Step.executeAll addresses fuel result statements)
      (Step.executeAll addresses' fuel result' (Stmt.renameAll variation.change statements))
  loop : ∀ (condition : Expr) (body : Stmt), condition.Makes variation.allowed →
    body.Makes variation.allowed →
    Step.Varies variation (Flow.Varies variation) (Step.loop addresses fuel condition body)
      (Step.loop addresses' fuel (condition.rename variation.change)
        (body.rename variation.change))

namespace EvaluatorVaries

variable {variation : Variation} {addresses addresses' : AddressTable} {fuel : Nat}
  (recorded : AddressTable.Renamed variation.change addresses addresses')
  (rules : EvaluatorVaries variation addresses addresses' fuel)

section

include rules

theorem next_evaluateAll (expressions : List Expr)
    (made : Expr.MakeAll variation.allowed expressions) :
    Step.Varies variation (List.Forall₂ (Value.Varies variation))
      (Step.evaluateAll addresses (fuel + 1) expressions)
      (Step.evaluateAll addresses' (fuel + 1)
        (Expr.renameAll variation.change expressions)) := by
  cases expressions with
  | nil => exact .pure .nil
  | cons first others =>
    rw [Expr.renameAll, Step.evaluateAll, Step.evaluateAll]
    apply (rules.evaluate first made.1).bind
    intro value value' same
    apply (rules.evaluateAll others made.2).bind
    intro values values' sameAll
    exact .pure (.cons same sameAll)

theorem next_call (line : Nat) {callee callee' : Value} {arguments arguments' : List Value}
    (same : Value.Varies variation callee callee')
    (sameAll : List.Forall₂ (Value.Varies variation) arguments arguments') :
    Step.Varies variation (Value.Varies variation)
      (Step.call addresses (fuel + 1) line callee arguments)
      (Step.call addresses' (fuel + 1) (variation.change.line line) callee' arguments') := by
  cases same with
  | literal value => cases value <;> exact .fail line .notCallable
  | object => exact .fail line .notCallable
  | function same =>
    rw [Step.call, Step.call, ← same.arity_eq, ← sameAll.length_eq]
    apply (Step.Varies.checkArity line _ arguments.length).bind
    intro _ _ _
    exact rules.invoke same sameAll
  | @type ofClass ofClass' same =>
    rw [Step.call, Step.call, ← same.arity_eq, ← sameAll.length_eq]
    apply (Step.Varies.checkArity line ofClass.arity arguments.length).bind
    intro _ _ _
    apply (Step.Varies.newInstance same).bind
    intro created created' object
    have initializers := same.method? "init"
    rw [Class.initializer?, Class.initializer?]
    revert initializers
    generalize ofClass.method? "init" = found
    generalize ofClass'.method? "init" = found'
    rintro (initializer | _)
    · apply (Step.Varies.bindMethod object initializer).bind
      intro bound bound' boundSame
      apply (rules.invoke boundSame sameAll).bind
      intro _ _ _
      exact .pure object
    · exact .pure object

theorem next_invoke {closure closure' : Closure} {arguments arguments' : List Value}
    (same : Closure.Varies variation closure closure')
    (sameAll : List.Forall₂ (Value.Varies variation) arguments arguments') :
    Step.Varies variation (Value.Varies variation)
      (Step.invoke addresses (fuel + 1) closure arguments)
      (Step.invoke addresses' (fuel + 1) closure' arguments') := by
  rcases closure with ⟨id, name, behaviour, frame⟩
  rcases closure' with ⟨id', name', behaviour', frame'⟩
  rcases same with ⟨rfl, rfl, rfl, allowed, rfl⟩
  rw [Step.invoke, Step.invoke]
  cases behaviour with
  | clock =>
    apply Step.Varies.get.bind
    intro machine machine' varies
    rw [varies.clock]
    exact .pure (.number _)
  | body definition isInitializer =>
    have made : Stmt.MakeAll variation.allowed definition.body :=
      variation.closed definition allowed
    dsimp only [Behaviour.rename]
    rw [Function.body_rename]
    apply (Step.Varies.newFrame frame sameAll).bind
    rintro parameters _ rfl
    apply (Step.Varies.newFrame parameters .nil).bind
    rintro body _ rfl
    apply (Step.Varies.within body (rules.executeAll definition.body made .none)).bind
    intro flow flow' flows
    cases isInitializer with
    | false => exact .pure flows.callResult
    | true =>
      apply Step.Varies.get.bind
      intro machine machine' varies
      have slots := varies.frames.get? frame 0 0
      revert slots
      generalize machine.frames.get? frame 0 0 = slot
      generalize machine'.frames.get? frame 0 0 = slot'
      rintro (slot | _)
      · cases slot with
        | uninitialised => exact .pure .nil
        | initialised this => exact .pure this
      · exact .pure .nil

theorem next_executeAll (statements : List Stmt) {result result' : Option Value}
    (made : Stmt.MakeAll variation.allowed statements)
    (same : Option.Rel (Value.Varies variation) result result') :
    Step.Varies variation (Flow.Varies variation)
      (Step.executeAll addresses (fuel + 1) result statements)
      (Step.executeAll addresses' (fuel + 1) result'
        (Stmt.renameAll variation.change statements)) := by
  cases statements with
  | nil => exact .pure (.normal same)
  | cons first others =>
    rw [Stmt.renameAll, Step.executeAll, Step.executeAll]
    apply (rules.execute first made.1).bind
    intro flow flow' flows
    cases flows with
    | normal result => exact rules.executeAll others made.2 result
    | returned value => exact .pure (.returned value)
    | broken => exact .pure .broken

theorem next_loop (condition : Expr) (body : Stmt)
    (conditionMade : condition.Makes variation.allowed) (bodyMade : body.Makes variation.allowed) :
    Step.Varies variation (Flow.Varies variation) (Step.loop addresses (fuel + 1) condition body)
      (Step.loop addresses' (fuel + 1) (condition.rename variation.change)
        (body.rename variation.change)) := by
  rw [Step.loop, Step.loop]
  apply (rules.evaluate condition conditionMade).bind
  intro value value' same
  rw [same.alike.isTruthy_eq]
  split
  · apply (rules.execute body bodyMade).bind
    intro flow flow' flows
    cases flows with
    | normal => exact rules.loop condition body conditionMade bodyMade
    | returned value => exact .pure (.returned value)
    | broken => exact .pure (.normal .none)
  · exact .pure (.normal .none)

/-- Declaring a variable with an initialiser. -/
theorem next_varDecl (name : Name) (initial : Expr) (made : initial.Makes variation.allowed) :
    Step.Varies variation (Flow.Varies variation)
      (Step.execute addresses (fuel + 1) (.varDecl name (some initial)))
      (Step.execute addresses' (fuel + 1)
        ((Stmt.varDecl name (some initial)).rename variation.change)) := by
  rw [Stmt.rename, Step.execute, Step.execute]
  apply Step.Varies.inRoot.bind
  rintro isGlobal _ rfl
  cases isGlobal with
  | true =>
    apply (rules.evaluate initial made).bind
    intro value value' same
    apply (Step.Varies.setGlobal name.text (.initialised same)).bind
    intro _ _ _
    exact .pure (.normal .none)
  | false =>
    apply (Step.Varies.newSlot .uninitialised).bind
    rintro index _ rfl
    apply (rules.evaluate initial made).bind
    intro value value' same
    apply (Step.Varies.setSlot index same).bind
    intro _ _ _
    exact .pure (.normal .none)

end

section

include recorded rules

theorem next_evaluate (expression : Expr) (made : expression.Makes variation.allowed) :
    Step.Varies variation (Value.Varies variation)
      (Step.evaluate addresses (fuel + 1) expression)
      (Step.evaluate addresses' (fuel + 1) (expression.rename variation.change)) := by
  cases expression with
  | literal value => exact .pure (.literal value)
  | group inner => exact rules.evaluate inner made
  | unary op line operand =>
    rw [Expr.rename, Step.evaluate, Step.evaluate]
    apply (rules.evaluate operand made).bind
    intro value value' same
    exact .ofExcept (.unary op same.alike)
  | binary op line left right =>
    rw [Expr.rename, Step.evaluate, Step.evaluate]
    apply (rules.evaluate left made.1).bind
    intro value value' same
    apply (rules.evaluate right made.2).bind
    intro other other' sameOther
    exact .ofExcept (.binary op same.alike sameOther.alike)
  | logical op line left right =>
    rw [Expr.rename, Step.evaluate, Step.evaluate]
    apply (rules.evaluate left made.1).bind
    intro value value' same
    rw [op.decides_of_alike same.alike]
    split
    · exact .pure same
    · exact rules.evaluate right made.2
  | read target => exact .readVariable recorded target.id target.name
  | assign target value =>
    rw [Expr.rename, Step.evaluate, Step.evaluate]
    apply (rules.evaluate value made).bind
    intro result result' same
    apply (Step.Varies.assignVariable recorded target same).bind
    intro _ _ _
    exact .pure same
  | call callee line arguments =>
    rw [Expr.rename, Step.evaluate, Step.evaluate]
    apply (rules.evaluate callee made.1).bind
    intro value value' same
    apply (rules.evaluateAll arguments made.2).bind
    intro values values' sameAll
    exact rules.call line same sameAll
  | function definition =>
    rw [Expr.rename, Step.evaluate, Step.evaluate]
    apply Step.Varies.get.bind
    intro machine machine' varies
    have behaves : Behaviour.IsAllowed variation.allowed (.body definition false) := made
    rw [varies.current]
    apply (Step.Varies.newClosure machine'.current "anonymous" behaves).bind
    intro closure closure' same
    exact .pure (.function same)
  | get object name =>
    rw [Expr.rename, Step.evaluate, Step.evaluate]
    apply (rules.evaluate object made).bind
    intro value value' same
    exact .property same name
  | set object name value =>
    rw [Expr.rename, Step.evaluate, Step.evaluate]
    apply (rules.evaluate object made.1).bind
    intro target target' same
    cases same with
    | literal value => cases value <;> exact .fail name.line .hasNoFields
    | object id same =>
      apply (rules.evaluate value made.2).bind
      intro result result' sameResult
      apply (Step.Varies.setField rfl name.text sameResult).bind
      intro _ _ _
      exact .pure sameResult
    | _ => exact .fail name.line .hasNoFields
  | this id line => exact .readVariable recorded id ⟨"this", line⟩
  | super id line method => exact .superMethod recorded id line method

theorem next_execute (statement : Stmt) (made : statement.Makes variation.allowed) :
    Step.Varies variation (Flow.Varies variation)
      (Step.execute addresses (fuel + 1) statement)
      (Step.execute addresses' (fuel + 1) (statement.rename variation.change)) := by
  cases statement with
  | expression value =>
    rw [Stmt.rename, Step.execute, Step.execute]
    apply (rules.evaluate value made).bind
    intro result result' same
    exact .pure (.normal (.some same))
  | print value =>
    rw [Stmt.rename, Step.execute, Step.execute]
    apply (rules.evaluate value made).bind
    intro result result' same
    rw [same.alike.display_eq]
    apply (Step.Varies.print result'.display).bind
    intro _ _ _
    exact .pure (.normal .none)
  | varDecl name initial =>
    cases initial with
    | none =>
      rw [Stmt.rename, Step.execute_varDecl_none, Step.execute_varDecl_none]
      apply Step.Varies.inRoot.bind
      rintro isGlobal _ rfl
      apply (Step.Varies.declareName isGlobal name.text).bind
      rintro _ _ _
      exact .pure (.normal .none)
    | some initial => exact rules.next_varDecl name initial made
  | block body =>
    rw [Stmt.rename, Step.execute, Step.execute]
    apply Step.Varies.get.bind
    intro machine machine' varies
    rw [varies.current]
    apply (Step.Varies.newFrame machine'.current .nil).bind
    rintro frame _ rfl
    exact .within frame (rules.executeAll body made .none)
  | ifElse condition whenTrue whenFalse =>
    cases whenFalse with
    | none =>
      rw [Stmt.rename, Step.execute, Step.execute]
      apply (rules.evaluate condition made.1).bind
      intro value value' same
      rw [same.alike.isTruthy_eq]
      split
      · exact rules.execute whenTrue made.2
      · exact .pure (.normal .none)
    | some whenFalse =>
      rw [Stmt.rename, Step.execute, Step.execute]
      apply (rules.evaluate condition made.1).bind
      intro value value' same
      rw [same.alike.isTruthy_eq]
      split
      · exact rules.execute whenTrue made.2.1
      · exact rules.execute whenFalse made.2.2
  | whileLoop condition body => exact rules.loop condition body made.1 made.2
  | breakLoop line => exact .pure .broken
  | funDecl function =>
    rcases function with ⟨name, definition⟩
    have behaves : Behaviour.IsAllowed variation.allowed (.body definition false) := made
    rw [Stmt.rename, Step.execute, Step.execute]
    apply Step.Varies.get.bind
    intro machine machine' varies
    rw [varies.current]
    apply (Step.Varies.newClosure machine'.current name.text behaves).bind
    intro closure closure' same
    apply (Step.Varies.defineVariable name (.function same)).bind
    intro _ _ _
    exact .pure (.normal .none)
  | returnValue line value =>
    cases value with
    | none => exact .pure (.returned .nil)
    | some value =>
      rw [Stmt.rename, Step.execute, Step.execute]
      apply (rules.evaluate value made).bind
      intro result result' same
      exact .pure (.returned same)
  | classDecl name superclass methods classMethods =>
    rw [Stmt.rename, Step.execute, Step.execute]
    apply (Step.Varies.declareClass recorded name superclass made.1 made.2).bind
    intro value value' same
    exact .pure (.normal (.some same))

end

end EvaluatorVaries

section

variable {variation : Variation} {addresses addresses' : AddressTable}
  (recorded : AddressTable.Renamed variation.change addresses addresses')
include recorded

/-- The evaluators do the same for every bound. -/
theorem evaluatorVaries (fuel : Nat) : EvaluatorVaries variation addresses addresses' fuel := by
  induction fuel with
  | zero => constructor <;> intros <;> exact .outOfFuel
  | succ fuel rules =>
    constructor
    · exact rules.next_evaluate recorded
    · exact rules.next_evaluateAll
    · exact fun line _ _ _ _ => rules.next_call line
    · exact rules.next_invoke
    · exact rules.next_execute recorded
    · exact fun statements _ _ => rules.next_executeAll statements
    · exact rules.next_loop

/-- A renamed program does the same. -/
theorem Step.Varies.interpret (fuel : Nat) (program : List Stmt)
    (made : Stmt.MakeAll variation.allowed program) {result result' : Option Value}
    (same : Option.Rel (Value.Varies variation) result result') :
    Step.Varies variation (Option.Rel (Value.Varies variation))
      (Step.interpret addresses fuel result program)
      (Step.interpret addresses' fuel result' (Stmt.renameAll variation.change program)) := by
  induction program generalizing result result' with
  | nil => exact .pure same
  | cons first others induction =>
    rw [Stmt.renameAll, Step.interpret, Step.interpret]
    apply ((evaluatorVaries recorded fuel).execute first made.1).bind
    intro flow flow' flows
    exact induction made.2 flows.programResult

end

end Lox
