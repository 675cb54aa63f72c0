import Lox.Proofs.History.Steps

/-!
# Evaluations keep invariants

However an evaluation ends, an invariant that held before it holds afterwards, given what has
been done meanwhile: by induction on the bound of the evaluation, in all functions of the
evaluator at once (`keepsWell`).  Statements keep it where the code may declare variables.
-/

namespace Lox

/-- Within a bound on its depth the evaluator keeps an invariant. -/
structure KeepsWell (invariant : Invariant) (addresses : AddressTable) (fuel : Nat) : Prop where
  evaluate : ∀ isReady past expression, (Recorded.evaluate addresses fuel expression).Keeps
    invariant isReady past invariant.Knows
  evaluateAll : ∀ isReady past expressions,
    (Recorded.evaluateAll addresses fuel expressions).Keeps invariant isReady past
      invariant.KnowsAll
  call : ∀ isReady past line callee arguments, invariant.Knows past callee →
    invariant.KnowsAll past arguments →
      (Recorded.call addresses fuel line callee arguments).Keeps invariant isReady past
        invariant.Knows
  invoke : ∀ isReady past closure arguments, invariant.KnowsAll past arguments →
    (Recorded.invoke addresses fuel closure arguments).Keeps invariant isReady past
      invariant.Knows
  execute : ∀ past statement, (Recorded.execute addresses fuel statement).Keeps invariant
    invariant.MayDeclare past invariant.KnowsFlow
  executeAll : ∀ past result statements, (Recorded.executeAll addresses fuel result
    statements).Keeps invariant invariant.MayDeclare past invariant.KnowsFlow
  loop : ∀ past condition body, (Recorded.loop addresses fuel condition body).Keeps invariant
    invariant.MayDeclare past invariant.KnowsFlow

namespace KeepsWell

open Recorded.Keeps

variable {invariant : Invariant} {isReady : FrameId → Prop} {addresses : AddressTable}
  {fuel : Nat} (rules : KeepsWell invariant addresses fuel)
include rules

theorem next_evaluateAll (past : History) (expressions : List Expr) :
    (Recorded.evaluateAll addresses (fuel + 1) expressions).Keeps invariant isReady past
      invariant.KnowsAll := by
  cases expressions with
  | nil => exact pure fun _ _ _ impossible => by cases impossible
  | cons first others =>
    apply (rules.evaluate isReady past first).bind
    intro now value _ known
    apply (rules.evaluateAll isReady now others).bind
    intro now values later knownValues
    refine pure fun now later' => List.forall_mem_cons.mpr ⟨?_, ?_⟩
    · exact invariant.grows (later.trans later') known
    · exact fun value member => invariant.grows later' (knownValues value member)

theorem next_call (past : History) (line : Nat) {callee : Value} {arguments : List Value}
    (known : invariant.Knows past callee) (knownAll : invariant.KnowsAll past arguments) :
    (Recorded.call addresses (fuel + 1) line callee arguments).Keeps invariant isReady past
      invariant.Knows := by
  rw [Recorded.call.eq_def]
  cases callee with
  | function closure =>
    apply (checkArity line closure.arity _).bind
    intro now _ later _
    exact rules.invoke isReady now closure arguments fun value member =>
      invariant.grows later (knownAll value member)
  | type ofClass =>
    apply (checkArity line ofClass.arity _).bind
    intro now _ later _
    apply (newInstance (invariant.grows later known)).bind
    intro now created later' isKnown
    cases ofClass.initializer? with
    | none => exact pure fun _ later => invariant.grows later isKnown
    | some initializer =>
      apply (bindMethod isKnown initializer).bind
      intro now bound later'' _
      have argumentsNow : invariant.KnowsAll now arguments := fun value member =>
        invariant.grows ((later.trans later').trans later'') (knownAll value member)
      apply (rules.invoke isReady now bound arguments argumentsNow).bind
      intro now _ later _
      exact pure fun _ later' => invariant.grows ((later''.trans later).trans later') isKnown
  | _ => exact fail line _

theorem next_invoke (past : History) (closure : Closure) {arguments : List Value}
    (knownAll : invariant.KnowsAll past arguments) :
    (Recorded.invoke addresses (fuel + 1) closure arguments).Keeps invariant isReady past
      invariant.Knows := by
  rw [Recorded.invoke.eq_def]
  dsimp only
  cases closure.behaviour with
  | clock => exact get.bind fun _ _ _ _ => pure fun _ _ => invariant.plain trivial
  | body definition isInitializer =>
    apply (newFrame closure.environment knownAll).bind
    intro now parameters _ _
    apply (newFrame parameters fun _ impossible => by cases impossible).bind
    intro now body _ inner
    -- The body is in a frame that is not the root: it declares no globals.
    have inside : invariant.MayDeclare body := fun isRoot => absurd isRoot inner
    apply (within (rules.executeAll now none definition.body) inside).bind
    intro now flow _ known
    cases isInitializer with
    | false => exact pure fun _ later => invariant.grows later (Invariant.knows_callResult known)
    | true =>
      apply get.bind
      intro now machine _ values
      split
      · next found => exact pure fun _ later => invariant.grows later (values.get? found)
      · exact pure fun _ _ => invariant.plain trivial

theorem next_evaluate (past : History) (expression : Expr) :
    (Recorded.evaluate addresses (fuel + 1) expression).Keeps invariant isReady past
      invariant.Knows := by
  rw [Recorded.evaluate.eq_def]
  cases expression with
  | literal value => exact pure fun _ _ => invariant.plain (Value.isPlain_ofLiteral value)
  | group inner => exact rules.evaluate isReady past inner
  | unary op line operand =>
    apply (rules.evaluate isReady past operand).bind
    exact fun _ _ _ _ => ofExcept fun _ => Watched.exists_literal_of_unary
  | binary op line left right =>
    apply (rules.evaluate isReady past left).bind
    intro now leftValue _ _
    apply (rules.evaluate isReady now right).bind
    exact fun _ _ _ _ => ofExcept fun _ => Watched.exists_literal_of_binary
  | logical op line left right =>
    apply (rules.evaluate isReady past left).bind
    intro now leftValue _ known
    split
    · exact pure fun _ later => invariant.grows later known
    · exact rules.evaluate isReady now right
  | read target => exact readVariable addresses target.id target.name
  | assign target value =>
    apply (rules.evaluate isReady past value).bind
    intro now value _ known
    apply (assignVariable addresses target known).bind
    intro now _ later _
    exact pure fun _ later' => invariant.grows (later.trans later') known
  | call callee line arguments =>
    apply (rules.evaluate isReady past callee).bind
    intro now callee _ known
    apply (rules.evaluateAll isReady now arguments).bind
    intro now arguments later knownAll
    exact rules.call isReady now line callee arguments (invariant.grows later known) knownAll
  | function definition =>
    apply get.bind
    intro now machine _ _
    exact (newClosure machine.current _ _).bind fun _ _ _ _ =>
      pure fun _ _ => invariant.plain trivial
  | get object name =>
    apply (rules.evaluate isReady past object).bind
    intro now target _ known
    exact property known name
  | set object name value =>
    apply (rules.evaluate isReady past object).bind
    intro now target _ known
    cases target with
    | object target =>
      apply (rules.evaluate isReady now value).bind
      intro now value later knownValue
      apply (setField (invariant.grows later known) name.text knownValue).bind
      intro now _ later _
      exact pure fun _ later' => invariant.grows (later.trans later') knownValue
    | _ => exact fail name.line _
  | this id line => exact readVariable addresses id _
  | super id line method => exact superMethod addresses id line method

theorem next_executeAll (past : History) (result : Option Value) (statements : List Stmt) :
    (Recorded.executeAll addresses (fuel + 1) result statements).Keeps invariant
      invariant.MayDeclare past invariant.KnowsFlow := by
  cases statements with
  | nil => exact pure fun _ _ => trivial
  | cons first others =>
    apply (rules.execute past first).bind
    intro now flow _ known
    cases flow with
    | normal result => exact rules.executeAll now result others
    | returned value => exact pure fun _ later => invariant.grows later known
    | broken => exact pure fun _ _ => trivial

theorem next_loop (past : History) (condition : Expr) (body : Stmt) :
    (Recorded.loop addresses (fuel + 1) condition body).Keeps invariant invariant.MayDeclare past
      invariant.KnowsFlow := by
  apply (rules.evaluate _ past condition).bind
  intro now value _ _
  split
  · apply (rules.execute now body).bind
    intro now flow _ known
    cases flow with
    | normal => exact rules.loop now condition body
    | returned value => exact pure fun _ later => invariant.grows later known
    | broken => exact pure fun _ _ => trivial
  · exact pure fun _ _ => trivial

theorem next_execute (past : History) (statement : Stmt) :
    (Recorded.execute addresses (fuel + 1) statement).Keeps invariant invariant.MayDeclare past
      invariant.KnowsFlow := by
  rw [Recorded.execute.eq_def]
  cases statement with
  | expression value =>
    exact (rules.evaluate _ past value).bind fun _ _ _ _ => pure fun _ _ => trivial
  | print value =>
    apply (rules.evaluate _ past value).bind
    intro now value _ _
    exact (print value.display).bind fun _ _ _ _ => pure fun _ _ => trivial
  | varDecl name initial =>
    cases initial with
    | none =>
      refine (declareVariable name ?_).bind fun _ _ _ _ => pure fun _ _ => trivial
      exact fun _ impossible => by cases impossible
    | some initial =>
      refine (declareVariable name ?_).bind fun _ _ _ _ => pure fun _ _ => trivial
      rintro recorded ⟨⟩ isReady past
      exact rules.evaluate isReady past initial
  | block body =>
    apply get.bind
    intro now machine _ _
    apply (newFrame machine.current fun _ impossible => by cases impossible).bind
    intro now frame _ inner
    exact within (rules.executeAll now none body) fun isRoot => absurd isRoot inner
  | ifElse condition whenTrue whenFalse =>
    apply (rules.evaluate _ past condition).bind
    intro now value _ _
    split
    · exact rules.execute now whenTrue
    · cases whenFalse with
      | none => exact pure fun _ _ => trivial
      | some whenFalse => exact rules.execute now whenFalse
  | whileLoop condition body => exact rules.loop past condition body
  | breakLoop line => exact pure fun _ _ => trivial
  | funDecl function =>
    rcases function with ⟨name, definition⟩
    apply get.bind
    intro now machine _ _
    apply (newClosure machine.current name.text _).bind
    intro now closure _ _
    have known : invariant.Knows now (.function closure) := invariant.plain trivial
    exact (defineVariable name known).bind fun _ _ _ _ => pure fun _ _ => trivial
  | returnValue line value =>
    cases value with
    | none => exact pure fun now _ => (invariant.plain trivial : invariant.Knows now .nil)
    | some value =>
      apply (rules.evaluate _ past value).bind
      exact fun _ _ _ known => pure fun _ later => invariant.grows later known
  | classDecl name superclassName methods classMethods =>
    apply (declareClass addresses name superclassName methods classMethods).bind
    exact fun _ _ _ _ => pure fun _ _ => trivial

end KeepsWell

/-- However deep an evaluation is, it keeps an invariant. -/
theorem keepsWell (invariant : Invariant) (addresses : AddressTable) (fuel : Nat) :
    KeepsWell invariant addresses fuel := by
  induction fuel with
  | zero =>
    constructor
    · exact fun _ _ _ => .outOfFuel
    · exact fun _ _ _ => .outOfFuel
    · exact fun _ _ _ _ _ _ _ => .outOfFuel
    · exact fun _ _ _ _ _ => .outOfFuel
    · exact fun _ _ => .outOfFuel
    · exact fun _ _ _ => .outOfFuel
    · exact fun _ _ _ => .outOfFuel
  | succ fuel rules =>
    constructor
    · exact fun _ => rules.next_evaluate
    · exact fun _ => rules.next_evaluateAll
    · exact fun _ past line _ _ => rules.next_call past line
    · exact fun _ past closure _ => rules.next_invoke past closure
    · exact rules.next_execute
    · exact rules.next_executeAll
    · exact rules.next_loop

/-- The statements of a program keep an invariant that allows to declare globals. -/
theorem Recorded.Keeps.interpret {invariant : Invariant} (may : invariant.DeclaresGlobals)
    (addresses : AddressTable) (fuel : Nat) (past : History) (result : Option Value)
    (program : List Stmt) :
    (Recorded.interpret addresses fuel result program).Keeps invariant (fun _ => True) past
      fun _ _ => True := by
  have weaken : ∀ {past : History} {statement : Stmt},
      (Recorded.execute addresses fuel statement).Keeps invariant (fun _ => True) past
        invariant.KnowsFlow := by
    intro past statement now machine later hasRoot _ covers
    exact (keepsWell invariant addresses fuel).execute past statement now machine later hasRoot
      (fun _ => may) covers
  induction program generalizing result past with
  | nil => exact pure fun _ _ => trivial
  | cons first others induction => exact weaken.bind fun now flow _ _ => induction now _

end Lox
