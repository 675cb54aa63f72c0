import Lox.Proofs.Control.Confined
import Lox.Proofs.Control.Strict
import Lox.Proofs.Renaming.Evaluation

/-!
# Strict evaluation of derived programs

Programs that confine their signals are evaluated strictly as they are otherwise, on machines all
of whose functions are derived by the grammar: by induction on the bound of the evaluation, in
all functions of the evaluator at once (`evaluatorFollows`).  The machines stay such machines.
-/

namespace Lox

/-- The functions in a machine are derived, and they stay as they are. -/
def Variation.derived : Variation where
  change := .refl
  allowed := Function.IsDerived
  closed := fun _ ⟨_, _, derives⟩ => derives.makes

/-- The functions in a value are derived. -/
abbrev Value.IsDerived (value : Value) : Prop :=
  Value.Varies .derived value value

/-- The functions in a machine are derived. -/
abbrev Machine.IsDerived (machine : Machine) : Prop :=
  machine.Varies .derived machine

/-- The same places are recorded under the same ids. -/
theorem AddressTable.renamed_derived (addresses : AddressTable) :
    AddressTable.Renamed Variation.derived.change addresses addresses :=
  fun _ => rfl

namespace Strict

variable {α β γ δ : Type}

/-- The strict evaluator ends as the other one, without a violation. -/
inductive EndsAlike (post : α → β → Prop) :
    EStateM.Result Lox.Stop Machine α → EStateM.Result Stop Machine β → Prop where
  | ok {result result' machine} (holds : post result result') (derived : machine.IsDerived) :
      EndsAlike post (.ok result machine) (.ok result' machine)
  | error (stop : Lox.Stop) {machine} (derived : machine.IsDerived) :
      EndsAlike post (.error stop machine) (.error (.ordinary stop) machine)

/-- Two results are the same, and it has a property. -/
def Same (holds : α → Prop) (result result' : α) : Prop :=
  result = result' ∧ holds result

/-- Statements end alike that have so many loops, and perhaps a function, around them. -/
inductive Signal.Agrees (loops : Nat) (returnable : Bool) : Flow → Signal → Prop where
  | normal {result : Option Value} (derived : ∀ value ∈ result, value.IsDerived) :
      Agrees loops returnable (.normal result) (.normal result)
  | returned {value : Value} (derived : value.IsDerived) (inFunction : returnable = true) :
      Agrees loops returnable (.returned value) (.returned value)
  | broken {innermost : Nat} (inLoop : loops = innermost + 1) :
      Agrees loops returnable .broken (.broken innermost)

theorem Signal.Agrees.silent (loops : Nat) (returnable : Bool) :
    Agrees loops returnable (.normal none) (.normal none) :=
  .normal fun _ impossible => nomatch impossible

theorem Signal.Agrees.value (loops : Nat) (returnable : Bool) {value : Value}
    (derived : value.IsDerived) : Agrees loops returnable (.normal value) (.normal value) :=
  .normal fun _ same => Option.some.inj same ▸ derived

/-- A strict step ends as the other one on all machines whose functions are derived. -/
def Step.Follows (post : α → β → Prop) (step : Lox.Step α) (strict : Step β) : Prop :=
  ∀ machine : Machine, machine.IsDerived → EndsAlike post (step machine) (strict machine)

namespace Step.Follows

variable {post : α → β → Prop} {step : Lox.Step α} {strict : Step β}

/-! ## Laws -/

theorem pure {result : α} {result' : β} (holds : post result result') :
    Step.Follows post (Pure.pure result) (Pure.pure result') :=
  fun _ derived => .ok holds derived

theorem bind {next : α → Lox.Step γ} {next' : β → Step δ} {last : γ → δ → Prop}
    (follows : Step.Follows post step strict)
    (rest : ∀ result result', post result result' →
      Step.Follows last (next result) (next' result')) :
    Step.Follows last (step >>= next) (strict >>= next') := by
  intro machine derived
  show EndsAlike last (EStateM.bind step next machine) (EStateM.bind strict next' machine)
  rw [EStateM.bind, EStateM.bind]
  have ends := follows machine derived
  revert ends
  generalize step machine = first
  generalize strict machine = second
  intro ends
  cases ends with
  | ok holds derived => exact rest _ _ holds _ derived
  | error stop derived => exact .error stop derived

theorem outOfFuel :
    Step.Follows post (throw .outOfFuel) (ordinary (throw .outOfFuel) : Step β) :=
  fun _ derived => .error .outOfFuel derived

/-- Steps that send no signals keep the functions of a machine derived. -/
theorem ordinary {post : α → α → Prop} (itself : Step.Varies .derived post step step) :
    Step.Follows (Same fun result => post result result) step (Step.ordinary step) := by
  intro machine derived
  have ends := itself machine machine derived
  rw [Step.ordinary]
  revert ends
  generalize step machine = ended
  intro ends
  cases ends with
  | ok holds derived => exact .ok ⟨rfl, holds⟩ derived
  | fault line fault derived => exact .error _ derived
  | outOfFuel derived => exact .error _ derived

theorem within (frame : FrameId) (follows : Step.Follows post step strict) :
    Step.Follows post (Lox.Step.within frame step) (Step.within frame strict) := by
  intro machine derived
  have inside : Machine.IsDerived { machine with current := frame } :=
    { derived with current := rfl }
  have ends := follows _ inside
  rw [Lox.Step.within, Step.within]
  revert ends
  generalize step _ = first
  generalize strict _ = second
  intro ends
  cases ends with
  | ok holds after => exact .ok holds { after with current := rfl }
  | error stop after => exact .error stop { after with current := rfl }

/-! ## Operators -/

theorem applyBinary (op : BinaryOp) (line : Nat) {left right : Value} (alike : left.Alike left)
    (alike' : right.Alike right) :
    Step.Follows (Same Value.IsDerived) (Lox.Step.ofExcept (op.apply line left right))
      (Step.applyBinary op.symbol line left right) := by
  have known : binaryOp? op.symbol = some op := by
    cases op <;> rfl
  have same : SameResult line (Variation.derived.change.line line) (op.apply line left right)
      (op.apply line left right) := .binary op alike alike'
  have follows := ordinary (Step.Varies.ofExcept same)
  rw [Step.applyBinary, known]
  exact follows

/-! ## Declarations and calls -/

theorem newClosure (frame : FrameId) (name : String) {behaviour : Behaviour}
    (allowed : behaviour.IsAllowed Function.IsDerived) :
    Step.Follows (Same fun closure => Closure.Varies .derived closure closure)
      (Lox.Step.newClosure frame name behaviour)
      (Step.ordinary (Lox.Step.newClosure frame name behaviour)) := by
  have same : behaviour.rename Variation.derived.change = behaviour := by
    cases behaviour with
    | clock => rfl
    | body definition isInitializer =>
      exact congrArg (Behaviour.body · isInitializer) definition.rename_refl
  have itself : Step.Varies .derived (Closure.Varies .derived)
      (Lox.Step.newClosure frame name behaviour)
      (Lox.Step.newClosure frame name (behaviour.rename Variation.derived.change)) :=
    .newClosure frame name allowed
  rw [same] at itself
  exact ordinary itself

theorem declareClass (addresses : AddressTable) (name : Name) (superclass : Option Reference)
    {methods classMethods : List NamedFunction}
    (made : NamedFunction.MakeAll Function.IsDerived methods)
    (madeInClass : NamedFunction.MakeAll Function.IsDerived classMethods) :
    Step.Follows (Same Value.IsDerived)
      (Lox.Step.declareClass addresses name superclass methods classMethods)
      (Step.ordinary
        (Lox.Step.declareClass addresses name superclass methods classMethods)) := by
  have itself : Step.Varies .derived (Value.Varies .derived)
      (Lox.Step.declareClass addresses name superclass methods classMethods)
      (Lox.Step.declareClass addresses name
        (superclass.map (Reference.rename Variation.derived.change))
        (NamedFunction.renameAll Variation.derived.change methods)
        (NamedFunction.renameAll Variation.derived.change classMethods)) :=
    .declareClass (AddressTable.renamed_derived addresses) name superclass made madeInClass
  have sameTarget : superclass.map (Reference.rename Variation.derived.change) = superclass :=
    by cases superclass <;> rfl
  have sameMethods : ∀ methods : List NamedFunction,
      NamedFunction.renameAll Variation.derived.change methods = methods :=
    NamedFunction.renameAll_refl
  rw [sameTarget, sameMethods, sameMethods] at itself
  have follows := ordinary itself
  exact follows

/-- Declaring a variable without an initialiser. -/
theorem varDecl_none (addresses : AddressTable) {loops : Nat} {returnable : Bool} (fuel : Nat)
    (name : Name) :
    Step.Follows (Signal.Agrees loops returnable)
      (Lox.Step.execute addresses (fuel + 1) (.varDecl name none))
      (Step.execute addresses loops (fuel + 1) (.varDecl name none)) := by
  rw [Lox.Step.execute, Step.execute]
  apply (ordinary .inRoot).bind
  rintro isGlobal _ ⟨rfl, _⟩
  cases isGlobal with
  | true =>
    apply (ordinary (.setGlobal name.text .uninitialised)).bind
    intro _ _ _
    exact .pure (.silent loops returnable)
  | false =>
    apply (ordinary (.newSlot .uninitialised)).bind
    intro _ _ _
    exact .pure (.silent loops returnable)

/-- What a body that is in no loop makes of a call. -/
theorem bodyResult (isInitializer : Bool) (environment : FrameId) {flow : Flow}
    {signal : Signal} (agrees : Signal.Agrees 0 true flow signal) :
    Step.Follows (Same Value.IsDerived)
      (if isInitializer then do
        match (← get).frames.get? environment 0 0 with
        | some (.initialised this) => return this
        | _ => return .nil
      else return flow.callResult : Lox.Step Value)
      (Step.bodyResult isInitializer environment signal) := by
  have this : Step.Follows (Same Value.IsDerived)
      (do
        match (← get).frames.get? environment 0 0 with
        | some (.initialised this) => return this
        | _ => return .nil : Lox.Step Value)
      (Step.bodyResult.this environment) := by
    apply (ordinary .get).bind
    rintro machine _ ⟨rfl, derived⟩
    have slot := derived.frames.get? environment 0 0
    revert slot
    generalize machine.frames.get? environment 0 0 = found
    rintro slot
    rcases found with _ | _ | value
    · exact .pure ⟨rfl, .nil⟩
    · exact .pure ⟨rfl, .nil⟩
    · cases slot with
      | some slot =>
        cases slot with
        | initialised derived => exact .pure ⟨rfl, derived⟩
  cases agrees with
  | normal =>
    cases isInitializer with
    | true => exact this
    | false => exact .pure ⟨rfl, .nil⟩
  | returned derived =>
    cases isInitializer with
    | true => exact this
    | false => exact .pure ⟨rfl, derived⟩
  | broken inLoop => exact absurd inLoop (Nat.succ_ne_zero _).symm

end Step.Follows

/-! ## The evaluator -/

/-- Within a bound on their depth the strict evaluators end as the other ones. -/
structure EvaluatorFollows (addresses : AddressTable) (fuel : Nat) : Prop where
  evaluate : ∀ expression : Expr, expression.Makes Function.IsDerived →
    Step.Follows (Same Value.IsDerived) (Lox.Step.evaluate addresses fuel expression)
      (Step.evaluate addresses fuel expression)
  evaluateAll : ∀ expressions : List Expr, Expr.MakeAll Function.IsDerived expressions →
    Step.Follows (Same fun values => List.Forall₂ (Value.Varies .derived) values values)
      (Lox.Step.evaluateAll addresses fuel expressions)
      (Step.evaluateAll addresses fuel expressions)
  call : ∀ (line : Nat) {callee : Value} {arguments : List Value}, callee.IsDerived →
    List.Forall₂ (Value.Varies .derived) arguments arguments →
    Step.Follows (Same Value.IsDerived) (Lox.Step.call addresses fuel line callee arguments)
      (Step.call addresses fuel line callee arguments)
  invoke : ∀ {closure : Closure} {arguments : List Value}, closure.Varies .derived closure →
    List.Forall₂ (Value.Varies .derived) arguments arguments →
    Step.Follows (Same Value.IsDerived) (Lox.Step.invoke addresses fuel closure arguments)
      (Step.invoke addresses fuel closure arguments)
  execute : ∀ {loops : Nat} {returnable : Bool} (statement : Stmt),
    statement.Makes Function.IsDerived → statement.IsConfined loops returnable →
    Step.Follows (Signal.Agrees loops returnable) (Lox.Step.execute addresses fuel statement)
      (Step.execute addresses loops fuel statement)
  executeAll : ∀ {loops : Nat} {returnable : Bool} (statements : List Stmt)
    {result : Option Value}, Stmt.MakeAll Function.IsDerived statements →
    Stmt.AreConfined loops returnable statements → (∀ value ∈ result, value.IsDerived) →
    Step.Follows (Signal.Agrees loops returnable)
      (Lox.Step.executeAll addresses fuel result statements)
      (Step.executeAll addresses loops fuel result statements)
  loop : ∀ {loops : Nat} {returnable : Bool} (condition : Expr) (body : Stmt),
    condition.Makes Function.IsDerived → body.Makes Function.IsDerived →
    body.IsConfined (loops + 1) returnable →
    Step.Follows (Signal.Agrees loops returnable) (Lox.Step.loop addresses fuel condition body)
      (Step.loop addresses loops fuel condition body)

namespace EvaluatorFollows

variable {addresses : AddressTable} {fuel : Nat} (rules : EvaluatorFollows addresses fuel)
include rules

theorem next_evaluateAll (expressions : List Expr)
    (made : Expr.MakeAll Function.IsDerived expressions) :
    Step.Follows (Same fun values => List.Forall₂ (Value.Varies .derived) values values)
      (Lox.Step.evaluateAll addresses (fuel + 1) expressions)
      (Step.evaluateAll addresses (fuel + 1) expressions) := by
  cases expressions with
  | nil => exact .pure ⟨rfl, .nil⟩
  | cons first others =>
    rw [Lox.Step.evaluateAll, Step.evaluateAll]
    apply (rules.evaluate first made.1).bind
    rintro value _ ⟨rfl, derived⟩
    apply (rules.evaluateAll others made.2).bind
    rintro values _ ⟨rfl, allDerived⟩
    exact .pure ⟨rfl, .cons derived allDerived⟩

theorem next_call (line : Nat) {callee : Value} {arguments : List Value}
    (derived : callee.IsDerived)
    (allDerived : List.Forall₂ (Value.Varies .derived) arguments arguments) :
    Step.Follows (Same Value.IsDerived) (Lox.Step.call addresses (fuel + 1) line callee arguments)
      (Step.call addresses (fuel + 1) line callee arguments) := by
  cases derived with
  | literal value => cases value <;> exact .ordinary (.fail line .notCallable)
  | object => exact .ordinary (.fail line .notCallable)
  | @function closure _ derived =>
    rw [Lox.Step.call, Step.call]
    apply (Step.Follows.ordinary (.checkArity line closure.arity arguments.length)).bind
    intro _ _ _
    exact rules.invoke derived allDerived
  | @type ofClass _ derived =>
    rw [Lox.Step.call, Step.call]
    apply (Step.Follows.ordinary (.checkArity line ofClass.arity arguments.length)).bind
    intro _ _ _
    apply (Step.Follows.ordinary (.newInstance derived)).bind
    rintro created _ ⟨rfl, object⟩
    have initializer := derived.method? "init"
    rw [Class.initializer?]
    revert initializer
    generalize ofClass.method? "init" = found
    intro initializer
    cases initializer with
    | none => exact .pure ⟨rfl, object⟩
    | some initializer =>
      apply (Step.Follows.ordinary (.bindMethod object initializer)).bind
      rintro bound _ ⟨rfl, boundDerived⟩
      apply (rules.invoke boundDerived allDerived).bind
      intro _ _ _
      exact .pure ⟨rfl, object⟩

theorem next_invoke {closure : Closure} {arguments : List Value}
    (derived : closure.Varies .derived closure)
    (allDerived : List.Forall₂ (Value.Varies .derived) arguments arguments) :
    Step.Follows (Same Value.IsDerived) (Lox.Step.invoke addresses (fuel + 1) closure arguments)
      (Step.invoke addresses (fuel + 1) closure arguments) := by
  rcases closure with ⟨id, name, behaviour, frame⟩
  rw [Lox.Step.invoke, Step.invoke]
  cases behaviour with
  | clock =>
    apply (Step.Follows.ordinary .get).bind
    rintro machine _ ⟨rfl, _⟩
    exact .pure ⟨rfl, .number _⟩
  | body definition isInitializer =>
    have allowed : definition.IsDerived := derived.allowed
    rcases allowed with ⟨before, after, derives⟩
    apply (Step.Follows.ordinary (.newFrame frame allDerived)).bind
    rintro parameters _ ⟨rfl, _⟩
    apply (Step.Follows.ordinary (.newFrame parameters .nil)).bind
    rintro body _ ⟨rfl, _⟩
    have noResult : ∀ value ∈ (none : Option Value), value.IsDerived :=
      fun value impossible => by cases impossible
    have runs := rules.executeAll definition.body derives.makes derives.confined noResult
    apply (Step.Follows.within body runs).bind
    intro flow signal agrees
    exact .bodyResult isInitializer frame agrees

theorem next_executeAll {loops : Nat} {returnable : Bool} (statements : List Stmt)
    {result : Option Value} (made : Stmt.MakeAll Function.IsDerived statements)
    (confined : Stmt.AreConfined loops returnable statements)
    (derived : ∀ value ∈ result, value.IsDerived) :
    Step.Follows (Signal.Agrees loops returnable)
      (Lox.Step.executeAll addresses (fuel + 1) result statements)
      (Step.executeAll addresses loops (fuel + 1) result statements) := by
  cases statements with
  | nil => exact .pure (.normal derived)
  | cons first others =>
    rw [Lox.Step.executeAll, Step.executeAll]
    apply (rules.execute first made.1 confined.1).bind
    intro flow signal agrees
    cases agrees with
    | normal derived => exact rules.executeAll others made.2 confined.2 derived
    | returned derived inFunction => exact .pure (.returned derived inFunction)
    | broken inLoop => exact .pure (.broken inLoop)

theorem next_loop {loops : Nat} {returnable : Bool} (condition : Expr) (body : Stmt)
    (conditionMade : condition.Makes Function.IsDerived)
    (bodyMade : body.Makes Function.IsDerived)
    (confined : body.IsConfined (loops + 1) returnable) :
    Step.Follows (Signal.Agrees loops returnable)
      (Lox.Step.loop addresses (fuel + 1) condition body)
      (Step.loop addresses loops (fuel + 1) condition body) := by
  rw [Lox.Step.loop, Step.loop]
  apply (rules.evaluate condition conditionMade).bind
  rintro value _ ⟨rfl, _⟩
  split
  · apply (rules.execute body bodyMade confined).bind
    intro flow signal agrees
    cases agrees with
    | normal => exact rules.loop condition body conditionMade bodyMade confined
    | returned derived inFunction => exact .pure (.returned derived inFunction)
    | broken inLoop =>
      -- The signal names this loop, which is the innermost one.
      have this := Nat.succ.inj inLoop
      dsimp only
      rw [if_pos this.symm]
      exact .pure (.silent loops returnable)
  · exact .pure (.silent loops returnable)

theorem next_evaluate (expression : Expr) (made : expression.Makes Function.IsDerived) :
    Step.Follows (Same Value.IsDerived) (Lox.Step.evaluate addresses (fuel + 1) expression)
      (Step.evaluate addresses (fuel + 1) expression) := by
  have recorded := AddressTable.renamed_derived addresses
  cases expression with
  | literal value => exact .pure ⟨rfl, .literal value⟩
  | group inner => exact rules.evaluate inner made
  | unary op line operand =>
    rw [Lox.Step.evaluate, Step.evaluate]
    apply (rules.evaluate operand made).bind
    rintro value _ ⟨rfl, derived⟩
    have same : SameResult line (Variation.derived.change.line line) (op.apply line value)
        (op.apply line value) := .unary op derived.alike
    have follows := Step.Follows.ordinary (Step.Varies.ofExcept same)
    exact follows
  | binary op line left right =>
    rw [Lox.Step.evaluate, Step.evaluate]
    apply (rules.evaluate left made.1).bind
    rintro value _ ⟨rfl, derived⟩
    apply (rules.evaluate right made.2).bind
    rintro other _ ⟨rfl, otherDerived⟩
    exact .applyBinary op line derived.alike otherDerived.alike
  | logical op line left right =>
    rw [Lox.Step.evaluate, Step.evaluate]
    apply (rules.evaluate left made.1).bind
    rintro value _ ⟨rfl, derived⟩
    split
    · exact .pure ⟨rfl, derived⟩
    · exact rules.evaluate right made.2
  | read target =>
    have follows := Step.Follows.ordinary (.readVariable recorded target.id target.name)
    exact follows
  | assign target value =>
    rw [Lox.Step.evaluate, Step.evaluate]
    apply (rules.evaluate value made).bind
    rintro result _ ⟨rfl, derived⟩
    apply (Step.Follows.ordinary (.assignVariable recorded target derived)).bind
    intro _ _ _
    exact .pure ⟨rfl, derived⟩
  | call callee line arguments =>
    rw [Lox.Step.evaluate, Step.evaluate]
    apply (rules.evaluate callee made.1).bind
    rintro value _ ⟨rfl, derived⟩
    apply (rules.evaluateAll arguments made.2).bind
    rintro values _ ⟨rfl, allDerived⟩
    exact rules.call line derived allDerived
  | function definition =>
    have behaves : Behaviour.IsAllowed Function.IsDerived (.body definition false) := made
    rw [Lox.Step.evaluate, Step.evaluate]
    apply (Step.Follows.ordinary .get).bind
    rintro machine _ ⟨rfl, _⟩
    apply (Step.Follows.newClosure machine.current "anonymous" behaves).bind
    rintro closure _ ⟨rfl, derived⟩
    exact .pure ⟨rfl, .function derived⟩
  | get object name =>
    rw [Lox.Step.evaluate, Step.evaluate]
    apply (rules.evaluate object made).bind
    rintro value _ ⟨rfl, derived⟩
    have follows := Step.Follows.ordinary (.property derived name)
    exact follows
  | set object name value =>
    rw [Lox.Step.evaluate, Step.evaluate]
    apply (rules.evaluate object made.1).bind
    rintro target _ ⟨rfl, derived⟩
    cases derived with
    | literal value => cases value <;> exact .ordinary (.fail name.line .hasNoFields)
    | object id same =>
      apply (rules.evaluate value made.2).bind
      rintro result _ ⟨rfl, resultDerived⟩
      apply (Step.Follows.ordinary (.setField rfl name.text resultDerived)).bind
      intro _ _ _
      exact .pure ⟨rfl, resultDerived⟩
    | _ => exact .ordinary (.fail name.line .hasNoFields)
  | this id line =>
    have follows := Step.Follows.ordinary (.readVariable recorded id ⟨"this", line⟩)
    exact follows
  | super id line method =>
    have follows := Step.Follows.ordinary (.superMethod recorded id line method)
    exact follows

/-- Declaring a variable with an initialiser. -/
theorem next_varDecl {loops : Nat} {returnable : Bool} (name : Name) (initial : Expr)
    (made : initial.Makes Function.IsDerived) :
    Step.Follows (Signal.Agrees loops returnable)
      (Lox.Step.execute addresses (fuel + 1) (.varDecl name (some initial)))
      (Step.execute addresses loops (fuel + 1) (.varDecl name (some initial))) := by
  rw [Lox.Step.execute, Step.execute]
  apply (Step.Follows.ordinary .inRoot).bind
  rintro isGlobal _ ⟨rfl, _⟩
  cases isGlobal with
  | true =>
    apply (rules.evaluate initial made).bind
    rintro value _ ⟨rfl, derived⟩
    apply (Step.Follows.ordinary (.setGlobal name.text (.initialised derived))).bind
    intro _ _ _
    exact .pure (.silent loops returnable)
  | false =>
    apply (Step.Follows.ordinary (.newSlot .uninitialised)).bind
    rintro index _ ⟨rfl, _⟩
    apply (rules.evaluate initial made).bind
    rintro value _ ⟨rfl, derived⟩
    apply (Step.Follows.ordinary (.setSlot index derived)).bind
    intro _ _ _
    exact .pure (.silent loops returnable)

theorem next_execute {loops : Nat} {returnable : Bool} (statement : Stmt)
    (made : statement.Makes Function.IsDerived)
    (confined : statement.IsConfined loops returnable) :
    Step.Follows (Signal.Agrees loops returnable)
      (Lox.Step.execute addresses (fuel + 1) statement)
      (Step.execute addresses loops (fuel + 1) statement) := by
  have noResult : ∀ value ∈ (none : Option Value), value.IsDerived :=
    fun value impossible => by cases impossible
  cases statement with
  | expression value =>
    rw [Lox.Step.execute, Step.execute]
    apply (rules.evaluate value made).bind
    rintro result _ ⟨rfl, derived⟩
    exact .pure (.value loops returnable derived)
  | print value =>
    rw [Lox.Step.execute, Step.execute]
    apply (rules.evaluate value made).bind
    rintro result _ ⟨rfl, _⟩
    apply (Step.Follows.ordinary (.print result.display)).bind
    intro _ _ _
    exact .pure (.silent loops returnable)
  | varDecl name initial =>
    cases initial with
    | none => exact .varDecl_none addresses fuel name
    | some initial => exact rules.next_varDecl name initial made
  | block body =>
    rw [Lox.Step.execute, Step.execute]
    apply (Step.Follows.ordinary .get).bind
    rintro machine _ ⟨rfl, _⟩
    apply (Step.Follows.ordinary (.newFrame machine.current .nil)).bind
    rintro frame _ ⟨rfl, _⟩
    exact .within frame (rules.executeAll body made confined noResult)
  | ifElse condition whenTrue whenFalse =>
    cases whenFalse with
    | none =>
      rw [Lox.Step.execute, Step.execute]
      apply (rules.evaluate condition made.1).bind
      rintro value _ ⟨rfl, _⟩
      split
      · exact rules.execute whenTrue made.2 confined
      · exact .pure (.silent loops returnable)
    | some whenFalse =>
      rw [Lox.Step.execute, Step.execute]
      apply (rules.evaluate condition made.1).bind
      rintro value _ ⟨rfl, _⟩
      split
      · exact rules.execute whenTrue made.2.1 confined.1
      · exact rules.execute whenFalse made.2.2 confined.2
  | whileLoop condition body => exact rules.loop condition body made.1 made.2 confined
  | breakLoop line =>
    cases loops with
    | zero => exact absurd rfl confined
    | succ innermost => exact .pure (.broken rfl)
  | funDecl function =>
    rcases function with ⟨name, definition⟩
    have behaves : Behaviour.IsAllowed Function.IsDerived (.body definition false) := made
    rw [Lox.Step.execute, Step.execute]
    apply (Step.Follows.ordinary .get).bind
    rintro machine _ ⟨rfl, _⟩
    apply (Step.Follows.newClosure machine.current name.text behaves).bind
    rintro closure _ ⟨rfl, derived⟩
    apply (Step.Follows.ordinary (.defineVariable name (.function derived))).bind
    intro _ _ _
    exact .pure (.silent loops returnable)
  | returnValue line value =>
    cases value with
    | none => exact .pure (.returned .nil confined)
    | some value =>
      rw [Lox.Step.execute, Step.execute]
      apply (rules.evaluate value made).bind
      rintro result _ ⟨rfl, derived⟩
      exact .pure (.returned derived confined)
  | classDecl name superclass methods classMethods =>
    rw [Lox.Step.execute, Step.execute]
    apply (Step.Follows.declareClass addresses name superclass made.1 made.2).bind
    rintro value _ ⟨rfl, derived⟩
    exact .pure (.value loops returnable derived)

end EvaluatorFollows

variable (addresses : AddressTable) (fuel : Nat)

/-- The strict evaluators end as the other ones for every bound. -/
theorem evaluatorFollows : EvaluatorFollows addresses fuel := by
  induction fuel with
  | zero => constructor <;> intros <;> exact .outOfFuel
  | succ fuel rules =>
    constructor
    · exact rules.next_evaluate
    · exact rules.next_evaluateAll
    · exact fun line _ _ => rules.next_call line
    · exact rules.next_invoke
    · exact fun statement => rules.next_execute statement
    · exact fun statements _ => rules.next_executeAll statements
    · exact fun condition body => rules.next_loop condition body

/-- A program without `break` outside of loops and `return` outside of functions. -/
theorem Step.Follows.interpret (program : List Stmt)
    (made : Stmt.MakeAll Function.IsDerived program) (confined : Stmt.AreConfined 0 false program)
    {result : Option Value} (derived : ∀ value ∈ result, value.IsDerived) :
    Step.Follows (Same fun result => ∀ value ∈ result, value.IsDerived)
      (Lox.Step.interpret addresses fuel result program)
      (Step.interpret addresses fuel result program) := by
  induction program generalizing result with
  | nil => exact .pure ⟨rfl, derived⟩
  | cons first others induction =>
    rw [Lox.Step.interpret, Step.interpret]
    apply ((evaluatorFollows addresses fuel).execute first made.1 confined.1).bind
    intro flow signal agrees
    cases agrees with
    | normal derived => exact induction made.2 confined.2 derived
    | returned _ inFunction => exact absurd inFunction Bool.false_ne_true
    | broken inLoop => exact absurd inLoop (Nat.succ_ne_zero _).symm

end Strict

end Lox
