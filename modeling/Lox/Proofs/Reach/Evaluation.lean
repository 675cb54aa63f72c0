import Lox.Proofs.Machine.Agreement
import Lox.Proofs.Reach.Steps

/-!
# Evaluation in a region

Code that runs in a frame of a closed region, and functions that keep one, only use what is
in the region: by induction on the bound of the evaluation, in all functions of the evaluator
at once (`staysWell`).
-/

namespace Lox

/-- What a statement returns does not lead out of a region. -/
def Region.HoldsReturned (region : Region) (flow : Flow) : Prop :=
  ∀ value, flow = .returned value → region.Holds value

theorem Region.holdsReturned_normal (region : Region) (result : Option Value) :
    region.HoldsReturned (.normal result) := by
  intro value impossible
  cases impossible

/-- Within a bound on its depth the evaluator only uses what is in a region. -/
structure StaysWell (region : Region) (addresses : AddressTable) (fuel : Nat) : Prop where
  evaluate : ∀ expression,
    Step.StaysIn region true region.Holds (Step.evaluate addresses fuel expression)
  evaluateAll : ∀ expressions,
    Step.StaysIn region true (fun values => ∀ value ∈ values, region.Holds value)
      (Step.evaluateAll addresses fuel expressions)
  call : ∀ line callee arguments, region.Holds callee →
    (∀ argument ∈ arguments, region.Holds argument) →
    Step.StaysIn region false region.Holds (Step.call addresses fuel line callee arguments)
  invoke : ∀ closure arguments, region (.frame closure.environment) →
    (∀ argument ∈ arguments, region.Holds argument) →
    Step.StaysIn region false region.Holds (Step.invoke addresses fuel closure arguments)
  execute : ∀ statement,
    Step.StaysIn region true region.HoldsReturned (Step.execute addresses fuel statement)
  executeAll : ∀ result statements,
    Step.StaysIn region true region.HoldsReturned
      (Step.executeAll addresses fuel result statements)
  loop : ∀ condition body,
    Step.StaysIn region true region.HoldsReturned (Step.loop addresses fuel condition body)

namespace StaysWell

open Step.StaysIn

variable {region : Region} {addresses : AddressTable} {fuel : Nat}
  (rules : StaysWell region addresses fuel)
include rules

theorem next_evaluateAll (expressions : List Expr) :
    Step.StaysIn region true (fun values => ∀ value ∈ values, region.Holds value)
      (Step.evaluateAll addresses (fuel + 1) expressions) := by
  cases expressions with
  | nil => exact pure (List.forall_mem_nil _)
  | cons first others =>
    apply (rules.evaluate first).bind
    intro value holds
    apply (rules.evaluateAll others).bind
    intro values hold
    exact pure (List.forall_mem_cons.mpr ⟨holds, hold⟩)

theorem next_call (line : Nat) (callee : Value) (arguments : List Value)
    (holds : region.Holds callee) (hold : ∀ argument ∈ arguments, region.Holds argument) :
    Step.StaysIn region false region.Holds
      (Step.call addresses (fuel + 1) line callee arguments) := by
  rw [Step.call.eq_def]
  cases callee with
  | function closure =>
    apply (checkArity line closure.arity _).bind
    intro _ _
    exact rules.invoke closure arguments (Region.holds_function.mp holds) hold
  | type ofClass =>
    apply (checkArity line ofClass.arity _).bind
    intro _ _
    apply (newInstance holds).bind
    rintro created ⟨isInstance, createdHolds⟩
    cases found : ofClass.initializer? with
    | none => exact pure createdHolds
    | some initializer =>
      apply (bindMethod createdHolds (holds.method? found)).bind
      intro bound isInside
      exact (rules.invoke bound arguments isInside hold).bind fun _ _ => pure createdHolds
  | _ => exact fail line _

theorem next_invoke (closure : Closure) (arguments : List Value)
    (isInside : region (.frame closure.environment))
    (hold : ∀ argument ∈ arguments, region.Holds argument) :
    Step.StaysIn region false region.Holds
      (Step.invoke addresses (fuel + 1) closure arguments) := by
  rw [Step.invoke.eq_def]
  dsimp only
  cases closure.behaviour with
  | clock =>
    refine Step.StaysIn.get ?_
    intro left right fits _
    refine ⟨by rw [fits.alike.clock], pure ?_⟩
    exact Region.holds_ofLiteral (.number _)
  | body definition isInitializer =>
    apply (newFrame isInside hold).bind
    intro parameters parametersInside
    apply (newFrame parametersInside (List.forall_mem_nil _)).bind
    intro body bodyInside
    apply (within bodyInside (rules.executeAll none definition.body)).bind
    intro flow returned
    cases isInitializer with
    | false =>
      refine .pure ?_
      cases flow with
      | returned value => exact returned value rfl
      | _ => exact Region.holds_ofLiteral .nil
    | true =>
      refine Step.StaysIn.get ?_
      intro left right fits _
      refine ⟨by rw [fits.get?_eq isInside], ?_⟩
      split
      · next this here => exact pure (fits.closed.get? isInside here)
      · exact pure (Region.holds_ofLiteral .nil)

theorem next_evaluate (expression : Expr) :
    Step.StaysIn region true region.Holds
      (Step.evaluate addresses (fuel + 1) expression) := by
  rw [Step.evaluate.eq_def]
  cases expression with
  | literal value => exact pure (Region.holds_ofLiteral value)
  | group inner => exact rules.evaluate inner
  | unary op line operand =>
    apply (rules.evaluate operand).bind
    intro value _
    exact ofExcept fun _ applied =>
      Region.holds_of_literal (Watched.exists_literal_of_unary applied)
  | binary op line left right =>
    apply (rules.evaluate left).bind
    intro leftValue _
    apply (rules.evaluate right).bind
    intro rightValue _
    exact ofExcept fun _ applied =>
      Region.holds_of_literal (Watched.exists_literal_of_binary applied)
  | logical op line left right =>
    apply (rules.evaluate left).bind
    intro leftValue holds
    split
    · exact pure holds
    · exact rules.evaluate right
  | read target => exact readVariable addresses target.id target.name
  | assign target value =>
    apply (rules.evaluate value).bind
    intro value holds
    exact (assignVariable addresses target holds).bind fun _ _ => pure holds
  | call callee line arguments =>
    apply (rules.evaluate callee).bind
    intro callee holds
    apply (rules.evaluateAll arguments).bind
    intro arguments hold
    exact (rules.call line callee arguments holds hold).anywhere
  | function definition =>
    refine getCurrent (fun _ _ same => by rw [same]) ?_
    intro machine isInside
    apply (newClosure isInside _ _).bind
    intro closure kept
    exact pure (Region.holds_function.mpr kept)
  | get object name =>
    apply (rules.evaluate object).bind
    intro target holds
    exact property holds name
  | set object name value =>
    apply (rules.evaluate object).bind
    intro target holdsTarget
    cases target with
    | object target =>
      apply (rules.evaluate value).bind
      intro value holds
      exact (setField holdsTarget name.text holds).bind fun _ _ => pure holds
    | _ => exact fail name.line _
  | this id line => exact readVariable addresses id _
  | super id line method => exact superMethod addresses id line method

theorem next_executeAll (result : Option Value) (statements : List Stmt) :
    Step.StaysIn region true region.HoldsReturned
      (Step.executeAll addresses (fuel + 1) result statements) := by
  cases statements with
  | nil => exact pure (region.holdsReturned_normal result)
  | cons first others =>
    apply (rules.execute first).bind
    intro flow returned
    cases flow with
    | normal result => exact rules.executeAll result others
    | _ => exact pure returned

theorem next_loop (condition : Expr) (body : Stmt) :
    Step.StaysIn region true region.HoldsReturned
      (Step.loop addresses (fuel + 1) condition body) := by
  apply (rules.evaluate condition).bind
  intro value _
  split
  · apply (rules.execute body).bind
    intro flow returned
    cases flow with
    | normal => exact rules.loop condition body
    | broken => exact pure (region.holdsReturned_normal none)
    | returned value => exact pure returned
  · exact pure (region.holdsReturned_normal none)

theorem next_execute (statement : Stmt) :
    Step.StaysIn region true region.HoldsReturned
      (Step.execute addresses (fuel + 1) statement) := by
  have noResult := region.holdsReturned_normal none
  cases statement with
  | expression value =>
    exact (rules.evaluate value).bind fun value _ => pure (region.holdsReturned_normal value)
  | print value =>
    apply (rules.evaluate value).bind
    intro value _
    exact (print value.display).bind fun _ _ => pure noResult
  | varDecl name initial =>
    rw [Step.execute_varDecl_eq]
    refine (declareVariable name ?_).bind fun _ _ => pure noResult
    intro step isInitial
    cases initial with
    | none => cases isInitial
    | some initial =>
      cases isInitial
      exact rules.evaluate initial
  | block body =>
    refine getCurrent (fun _ _ same => by rw [same]) ?_
    intro machine isInside
    apply (newFrame isInside (List.forall_mem_nil _)).bind
    intro frame frameInside
    exact within frameInside (rules.executeAll none body)
  | ifElse condition whenTrue whenFalse =>
    apply (rules.evaluate condition).bind
    intro value _
    split
    · exact rules.execute whenTrue
    · cases whenFalse with
      | none => exact pure noResult
      | some whenFalse => exact rules.execute whenFalse
  | whileLoop condition body => exact rules.loop condition body
  | breakLoop line =>
    refine .pure ?_
    intro value impossible
    cases impossible
  | funDecl function =>
    rcases function with ⟨name, definition⟩
    have declared : Step.StaysIn region true (fun _ => True) (do
        let machine ← get
        let closure ← Step.newClosure machine.current name.text (.body definition false)
        Step.defineVariable name (.function closure)) := by
      refine getCurrent (fun _ _ same => by rw [same]) ?_
      intro machine isInside
      apply (newClosure isInside name.text _).bind
      intro closure kept
      exact defineVariable name (Region.holds_function.mpr kept)
    rw [Step.execute_funDecl]
    exact declared.bind fun _ _ => pure noResult
  | returnValue line value =>
    cases value with
    | none =>
      refine .pure ?_
      rintro value ⟨⟩
      exact Region.holds_ofLiteral .nil
    | some value =>
      apply (rules.evaluate value).bind
      intro value holds
      refine .pure ?_
      rintro other ⟨⟩
      exact holds
  | classDecl name superclassName methods classMethods =>
    apply (declareClass addresses name superclassName methods classMethods).bind
    intro value _
    exact pure (region.holdsReturned_normal value)

end StaysWell

/-- However deep an evaluation is, it only uses what is in a region. -/
theorem staysWell (region : Region) (addresses : AddressTable) (fuel : Nat) :
    StaysWell region addresses fuel := by
  induction fuel with
  | zero =>
    constructor
    · exact fun _ => .outOfFuel
    · exact fun _ => .outOfFuel
    · exact fun _ _ _ _ _ => .outOfFuel
    · exact fun _ _ _ _ => .outOfFuel
    · exact fun _ => .outOfFuel
    · exact fun _ _ => .outOfFuel
    · exact fun _ _ => .outOfFuel
  | succ fuel rules =>
    constructor
    · exact rules.next_evaluate
    · exact rules.next_evaluateAll
    · exact rules.next_call
    · exact rules.next_invoke
    · exact rules.next_execute
    · exact rules.next_executeAll
    · exact rules.next_loop

end Lox
