import Lox.Proofs.Moves.Growth

/-!
# Evaluations only add to frames

The moves of an evaluation lead from the machine before it to the machine after it, however it
ends, and each of them only adds to frames: by induction on the bound of the evaluation, in all
functions of the evaluator at once (`growsWell`).
-/

namespace Lox

namespace Traced.Grows

/-! ## What programs are made of -/

theorem bindMethod (target : Instance) (method : Closure) :
    (Traced.bindMethod target method).Grows :=
  (newFrame (by decide) _ _).bind fun _ => plain (.newClosure _ _ _)

theorem property (target : Value) (name : Name) : (Traced.property target name).Grows := by
  cases target with
  | object target =>
    apply (plain (.field? target name.text)).bind
    intro found
    cases found with
    | some value => exact pure value
    | none =>
      dsimp only
      cases target.ofClass.method? name.text with
      | some method => exact (bindMethod target method).bind fun _ => pure _
      | none => exact fail name.line _
  | type target =>
    rw [Traced.property.eq_def]
    dsimp only
    cases target.classMethod? name.text with
    | some method => exact pure _
    | none => exact fail name.line _
  | _ => exact fail name.line _

theorem superMethod (addresses : AddressTable) (id line : Nat) (method : Name) :
    (Traced.superMethod addresses id line method).Grows := by
  apply (plain .get).bind
  intro machine
  dsimp only
  cases addresses[id]? with
  | none => exact fail line _
  | some address =>
    dsimp only
    split
    · split
      · next this _ =>
        split
        · next found _ => exact (bindMethod this found).bind fun _ => pure _
        · exact fail method.line _
      · exact fail line _
    · exact fail line _

theorem methodFrame (extended : Option Class) : (Traced.methodFrame extended).Grows := by
  cases extended with
  | none => exact (plain .get).bind fun machine => pure machine.current
  | some superclass => exact (plain .get).bind fun machine => newFrame (by decide) machine.current _

theorem declareVariable (name : Name) {initial : Option (Traced Value)}
    (grows : ∀ traced ∈ initial, traced.Grows) : (Traced.declareVariable name initial).Grows := by
  cases initial with
  | none => exact declareName (plain (.setGlobal name.text _)) fun _ => pure ()
  | some initial =>
    have first := grows initial rfl
    apply declareName
    · exact first.bind fun value => plain (.setGlobal name.text _)
    · exact fun index => first.bind fun value => plain (.setSlot index value)

theorem defineVariable (name : Name) (value : Value) : (Traced.defineVariable name value).Grows :=
  declareName (plain (.setGlobal name.text _)) fun _ => pure ()

theorem newClass (addresses : AddressTable) (name : Name) (superclassName : Option Reference)
    (methods classMethods : List NamedFunction) :
    (Traced.newClass addresses name superclassName methods classMethods).Grows := by
  apply (plain (.superclass addresses superclassName)).bind
  intro superclass
  apply (methodFrame superclass).bind
  intro frame
  apply (plain (.newMethods frame true methods ∅)).bind
  intro table
  apply (plain (.newMethods frame false classMethods ∅)).bind
  intro classTable
  exact (plain .freshId).bind fun _ => pure _

theorem declareClass (addresses : AddressTable) (name : Name) (superclassName : Option Reference)
    (methods classMethods : List NamedFunction) :
    (Traced.declareClass addresses name superclassName methods classMethods).Grows := by
  have made := newClass addresses name superclassName methods classMethods
  apply declareName
  · apply (plain (.setGlobal name.text .uninitialised)).bind
    intro _
    apply made.bind
    intro value
    exact (plain (.setGlobal name.text (.initialised value))).bind fun _ => pure value
  · intro index
    apply made.bind
    intro value
    exact (plain (.setSlot index value)).bind fun _ => pure value

end Traced.Grows

/-! ## The evaluator -/

/-- Within a bound on its depth the evaluator only adds to frames. -/
structure GrowsWell (addresses : AddressTable) (fuel : Nat) : Prop where
  evaluate : ∀ expression, (Traced.evaluate addresses fuel expression).Grows
  evaluateAll : ∀ expressions, (Traced.evaluateAll addresses fuel expressions).Grows
  call : ∀ line callee arguments, (Traced.call addresses fuel line callee arguments).Grows
  invoke : ∀ closure arguments, (Traced.invoke addresses fuel closure arguments).Grows
  execute : ∀ statement, (Traced.execute addresses fuel statement).Grows
  executeAll : ∀ result statements, (Traced.executeAll addresses fuel result statements).Grows
  loop : ∀ condition body, (Traced.loop addresses fuel condition body).Grows

namespace GrowsWell

open Traced.Grows

variable {addresses : AddressTable} {fuel : Nat} (rules : GrowsWell addresses fuel)
include rules

theorem next_evaluate (expression : Expr) :
    (Traced.evaluate addresses (fuel + 1) expression).Grows := by
  rw [Traced.evaluate.eq_def]
  cases expression with
  | literal value => exact pure _
  | group inner => exact rules.evaluate inner
  | unary op line operand => exact (rules.evaluate operand).bind fun _ => plain (.ofExcept _)
  | binary op line left right =>
    apply (rules.evaluate left).bind
    intro leftValue
    exact (rules.evaluate right).bind fun _ => plain (.ofExcept _)
  | logical op line left right =>
    apply (rules.evaluate left).bind
    intro leftValue
    split
    · exact pure leftValue
    · exact rules.evaluate right
  | read target => exact plain (.readVariable addresses target.id target.name)
  | assign target value =>
    apply (rules.evaluate value).bind
    intro value
    exact (plain (.assignVariable addresses target value)).bind fun _ => pure value
  | call callee line arguments =>
    apply (rules.evaluate callee).bind
    intro callee
    exact (rules.evaluateAll arguments).bind fun arguments => rules.call line callee arguments
  | function definition =>
    apply (plain .get).bind
    intro machine
    exact (plain (.newClosure machine.current _ _)).bind fun _ => pure _
  | get object name => exact (rules.evaluate object).bind fun target => property target name
  | set object name value =>
    apply (rules.evaluate object).bind
    intro target
    cases target with
    | object target =>
      apply (rules.evaluate value).bind
      intro value
      exact (plain (.setField target name.text value)).bind fun _ => pure value
    | _ => exact fail name.line _
  | this id line => exact plain (.readVariable addresses id _)
  | super id line method => exact superMethod addresses id line method

theorem next_evaluateAll (expressions : List Expr) :
    (Traced.evaluateAll addresses (fuel + 1) expressions).Grows := by
  cases expressions with
  | nil => exact pure []
  | cons first others =>
    apply (rules.evaluate first).bind
    intro value
    exact (rules.evaluateAll others).bind fun values => pure (value :: values)

theorem next_call (line : Nat) (callee : Value) (arguments : List Value) :
    (Traced.call addresses (fuel + 1) line callee arguments).Grows := by
  rw [Traced.call.eq_def]
  cases callee with
  | function closure =>
    apply (plain (.checkArity line closure.arity _)).bind
    exact fun _ => rules.invoke closure arguments
  | type ofClass =>
    apply (plain (.checkArity line ofClass.arity _)).bind
    intro _
    apply (plain (.newInstance ofClass)).bind
    intro created
    cases ofClass.initializer? with
    | none => exact pure _
    | some initializer =>
      apply (bindMethod created initializer).bind
      intro bound
      exact (rules.invoke bound arguments).bind fun _ => pure _
  | _ => exact fail line _

/-- The parameters of a function stay those of the call: variables are declared in its body. -/
theorem next_invoke (closure : Closure) (arguments : List Value) :
    (Traced.invoke addresses (fuel + 1) closure arguments).Grows := by
  rw [Traced.invoke.eq_def]
  dsimp only
  cases closure.behaviour with
  | clock => exact (plain .get).bind fun _ => pure _
  | body definition isInitializer =>
    apply (newFrame (by decide) closure.environment arguments).bind
    intro parameters
    apply newFrame_bind (by decide)
    intro body roles machine isBody
    have runs := within (rules.executeAll none definition.body) isBody trivial machine
    apply runs.bind
    rintro flow after -
    cases isInitializer with
    | false => exact pure flow.callResult _ after
    | true =>
      refine Traced.Grows.bind (plain .get) (fun machine => ?_) _ after
      split
      · exact pure _
      · exact pure _

theorem next_execute (statement : Stmt) :
    (Traced.execute addresses (fuel + 1) statement).Grows := by
  rw [Traced.execute.eq_def]
  cases statement with
  | expression value => exact (rules.evaluate value).bind fun _ => pure _
  | print value =>
    apply (rules.evaluate value).bind
    intro value
    exact (plain (.print value.display)).bind fun _ => pure _
  | varDecl name initial =>
    cases initial with
    | none => exact (declareVariable name fun _ impossible => by cases impossible).bind fun _ => pure _
    | some initial =>
      refine (declareVariable name ?_).bind fun _ => pure _
      rintro traced ⟨⟩
      exact rules.evaluate initial
  | block body =>
    apply (plain .get).bind
    intro machine
    apply newFrame_bind (by decide)
    exact fun frame roles machine isBlock => within (rules.executeAll none body) isBlock trivial machine
  | ifElse condition whenTrue whenFalse =>
    apply (rules.evaluate condition).bind
    intro value
    split
    · exact rules.execute whenTrue
    · cases whenFalse with
      | none => exact pure _
      | some whenFalse => exact rules.execute whenFalse
  | whileLoop condition body => exact rules.loop condition body
  | breakLoop line => exact pure _
  | funDecl function =>
    rcases function with ⟨name, definition⟩
    apply (plain .get).bind
    intro machine
    apply (plain (.newClosure machine.current name.text _)).bind
    intro closure
    exact (defineVariable name (.function closure)).bind fun _ => pure _
  | returnValue line value =>
    cases value with
    | none => exact pure _
    | some value => exact (rules.evaluate value).bind fun _ => pure _
  | classDecl name superclassName methods classMethods =>
    exact (declareClass addresses name superclassName methods classMethods).bind fun _ => pure _

theorem next_executeAll (result : Option Value) (statements : List Stmt) :
    (Traced.executeAll addresses (fuel + 1) result statements).Grows := by
  cases statements with
  | nil => exact pure _
  | cons first others =>
    apply (rules.execute first).bind
    intro flow
    cases flow with
    | normal result => exact rules.executeAll result others
    | _ => exact pure _

theorem next_loop (condition : Expr) (body : Stmt) :
    (Traced.loop addresses (fuel + 1) condition body).Grows := by
  apply (rules.evaluate condition).bind
  intro value
  split
  · apply (rules.execute body).bind
    intro flow
    cases flow with
    | normal => exact rules.loop condition body
    | _ => exact pure _
  · exact pure _

end GrowsWell

/-- However deep an evaluation is, it only adds to frames. -/
theorem growsWell (addresses : AddressTable) (fuel : Nat) : GrowsWell addresses fuel := by
  induction fuel with
  | zero =>
    constructor
    · exact fun _ => .outOfFuel
    · exact fun _ => .outOfFuel
    · exact fun _ _ _ => .outOfFuel
    · exact fun _ _ => .outOfFuel
    · exact fun _ => .outOfFuel
    · exact fun _ _ => .outOfFuel
    · exact fun _ _ => .outOfFuel
  | succ fuel rules =>
    constructor
    · exact rules.next_evaluate
    · exact rules.next_evaluateAll
    · exact rules.next_call
    · exact rules.next_invoke
    · exact rules.next_execute
    · exact rules.next_executeAll
    · exact rules.next_loop

/-- The statements of a program only add to frames. -/
theorem Traced.Grows.interpret (addresses : AddressTable) (fuel : Nat) (result : Option Value)
    (program : List Stmt) : (Traced.interpret addresses fuel result program).Grows := by
  induction program generalizing result with
  | nil => exact pure result
  | cons first others induction =>
    exact ((growsWell addresses fuel).execute first).bind fun flow => induction _

end Lox
