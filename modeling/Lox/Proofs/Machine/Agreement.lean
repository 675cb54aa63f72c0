import Lox.Proofs.Machine.Variables

/-!
# Frames agree with scopes

Whatever a program does, its code runs in frames that are those of the scopes around
it: by induction on the bound of the evaluation, in all functions of the evaluator
at once (`runsWell`).  An expression adds no slots to frames that exist, a statement
only those of its own declarations to the current frame.
-/

namespace Lox

/-- The value that a statement returns fits. -/
def Flow.Fits (setting : Setting) (layout : Layout Local) (flow : Flow) : Prop :=
  ∀ value, flow = .returned value → value.Fits setting layout

namespace Watched

variable {setting : Setting} {around : Surroundings} {scopes : Scopes} {start : Moment}

/-! ## Laws that the evaluator needs -/

/-- A step after one that adds no slots. -/
theorem Yields.after {middle finish : Moment} {value : Value} (follows : Follows setting start middle)
    (still : start.layout.Still middle.layout) (yields : Yields setting middle value finish) :
    Yields setting start value finish :=
  ⟨yields.1, still.trans follows.ordered yields.2⟩

theorem Declares.after {locals : List Local} {middle finish : Moment}
    (follows : Follows setting start middle) (still : start.layout.Still middle.layout)
    (declares : Declares middle scopes locals finish) : Declares start scopes locals finish := by
  rcases declares with ⟨others, row⟩
  rw [follows.current] at others row
  exact ⟨(still.stillBut _).trans follows.ordered others, row⟩

/-- One declaration after the other. -/
theorem Declares.trans {first second : List Local} {middle finish : Moment}
    (before : Declares start scopes first middle) (follows : Follows setting start middle)
    (after : Declares middle (scopes.declare first) second finish) :
    Declares start scopes (first ++ second) finish := by
  rcases after with ⟨others, row⟩
  rw [follows.current] at others row
  rw [Scopes.declare_declare] at row
  exact ⟨before.still.trans follows.ordered others, row⟩

/-- Code is noted to start, which changes nothing. -/
theorem Runs.started {β : Type} {next : Unit → Watched β} {post : β → Moment → Prop}
    (fits : start.Fits setting) (stands : start.Stands setting around scopes)
    (rest : ∀ middle, Follows setting start middle → middle.Stands setting around scopes →
      start.layout.Still middle.layout → (next ()).Runs setting middle post) :
    (Watched.note (.runs (!scopes.isEmpty)) >>= next).Runs setting start post := by
  apply Runs.note fits stands.sound_runs fun _ => rfl
  intro middle follows _ layout
  have still : start.layout.Still middle.layout := by
    rw [layout]
    exact .refl _
  exact rest middle follows (stands.follow follows still) still

/-- In a frame, a step does what it does elsewhere. -/
theorem Runs.within {α : Type} {watched : Watched α} {frame : FrameId}
    {post post' : α → Moment → Prop}
    (runs : watched.Runs setting ⟨start.history, { start.machine with current := frame }⟩ post)
    (back : ∀ result history machine, post result ⟨history, machine⟩ →
      post' result ⟨history, { machine with current := start.machine.current }⟩) :
    (Watched.within frame watched).Runs setting start post' := by
  have returns : ∀ history machine,
      Follows setting ⟨start.history, { start.machine with current := frame }⟩ ⟨history, machine⟩ →
        Follows setting start ⟨history, { machine with current := start.machine.current }⟩ := by
    intro history machine follows
    exact ⟨follows.fits.congr rfl rfl rfl,
      ⟨follows.ordered.size, follows.ordered.enclosing, follows.ordered.row⟩, rfl⟩
  rcases runs with ⟨sound, ends⟩
  dsimp only at ends
  rw [Runs, Watched.step_within, Step.within]
  refine ⟨sound, ?_⟩
  cases taken : watched.step { start.machine with current := frame } with
  | ok result machine =>
    rw [taken] at ends
    exact ⟨returns _ _ ends.1, back _ _ _ ends.2⟩
  | error stop machine =>
    rw [taken] at ends
    exact returns _ _ ends

theorem forall₂_named {layout : Layout Local} {names : List Name} {values : List Value}
    (same : names.length = values.length) (fit : ∀ value ∈ values, value.Fits setting layout) :
    List.Forall₂ (fun declared value => Slot.Fits setting layout declared (.initialised value))
      (names.map Local.named) values := by
  induction names generalizing values with
  | nil =>
    cases values with
    | nil => exact .nil
    | cons => cases same
  | cons name others induction =>
    cases values with
    | nil => cases same
    | cons value values =>
      rw [List.forall_mem_cons] at fit
      exact .cons (.named name fit.1) (induction (Nat.succ.inj same) fit.2)

/-- An initialiser takes as many arguments as its class, also when it is bound. -/
theorem arity_of_initializer? {ofClass : Class} {initializer bound : Closure}
    (found : ofClass.initializer? = some initializer)
    (behaviour : bound.behaviour = initializer.behaviour) : bound.arity = ofClass.arity := by
  rw [Class.arity, found]
  simp only [Closure.arity, behaviour]

theorem arity_of_body {closure : Closure} {definition : Function} {isInitializer : Bool}
    (behaves : closure.behaviour = .body definition isInitializer) :
    closure.arity = definition.parameters.length := by
  simp only [Closure.arity, behaves]

/-! ## Operators -/

/-- The results of operators are constants. -/
theorem exists_literal_of_unary {op : UnaryOp} {line : Nat} {operand value : Value}
    (applied : op.apply line operand = .ok value) : ∃ literal, value = .ofLiteral literal := by
  cases op with
  | negate =>
    cases operand <;> cases applied
    exact ⟨.number _, rfl⟩
  | not =>
    cases applied
    exact ⟨.bool _, rfl⟩

theorem exists_literal_of_applyNumbers {line : Nat} {operation : Float → Float → Value}
    {left right value : Value}
    (constant : ∀ left right, ∃ literal, operation left right = .ofLiteral literal)
    (applied : BinaryOp.applyNumbers line operation left right = .ok value) :
    ∃ literal, value = .ofLiteral literal := by
  cases left <;> cases right <;> cases applied
  exact constant _ _

theorem exists_literal_of_binary {op : BinaryOp} {line : Nat} {left right value : Value}
    (applied : op.apply line left right = .ok value) : ∃ literal, value = .ofLiteral literal := by
  cases op with
  | add =>
    cases left <;> cases right <;> cases applied
    case add.number.number.refl => exact ⟨.number _, rfl⟩
    all_goals exact ⟨.string _, rfl⟩
  | divide =>
    cases left <;> cases right <;> try cases applied
    next left right =>
      replace applied : (if right == 0 then .error (⟨line, .divisionByZero⟩ : RuntimeError) else
        .ok (Value.number (left / right))) = Except.ok value := applied
      split at applied <;> cases applied
      exact ⟨.number _, rfl⟩
  | equal | notEqual =>
    cases applied
    exact ⟨.bool _, rfl⟩
  | subtract | multiply =>
    refine exists_literal_of_applyNumbers ?_ applied
    exact fun _ _ => ⟨.number _, rfl⟩
  | _ =>
    refine exists_literal_of_applyNumbers ?_ applied
    exact fun _ _ => ⟨.bool _, rfl⟩

/-- A constant has no functions. -/
theorem fits_of_literal {layout : Layout Local} {value : Value}
    (constant : ∃ literal, value = .ofLiteral literal) : value.Fits setting layout := by
  rcases constant with ⟨literal, rfl⟩
  exact Value.fits_ofLiteral literal

/-! ## The evaluator -/

/-- Expressions yield values of their own number that fit. -/
def YieldsAll (setting : Setting) (start : Moment) (count : Nat) (values : List Value)
    (finish : Moment) : Prop :=
  (∀ value ∈ values, value.Fits setting finish.layout) ∧ values.length = count ∧
    start.layout.Still finish.layout

/-- Statements add slots to the current frame only. -/
def Ends (setting : Setting) (start : Moment) (flow : Flow) (finish : Moment) : Prop :=
  flow.Fits setting finish.layout ∧
    start.layout.StillBut start.machine.current finish.layout

/-- A statement adds the slots of its own declarations to the current frame. -/
def EndsWith (setting : Setting) (start : Moment) (scopes : Scopes) (locals : List Local)
    (flow : Flow) (finish : Moment) : Prop :=
  flow.Fits setting finish.layout ∧ Declares start scopes locals finish

/-- Within a bound on its depth the evaluator keeps machines fit. -/
structure RunsWell (setting : Setting) (fuel : Nat) : Prop where
  evaluate : ∀ (expression : Expr) {around scopes start}, start.Fits setting →
    start.Stands setting around scopes →
    expression.occurrences around scopes ⊆ setting.occurrences →
    expression.IsProper setting.names →
    (Watched.evaluate setting.addresses (!scopes.isEmpty) fuel expression).Runs setting start
      (Yields setting start)
  evaluateAll : ∀ (expressions : List Expr) {around scopes start}, start.Fits setting →
    start.Stands setting around scopes →
    Expr.occurrencesAll around scopes expressions ⊆ setting.occurrences →
    Expr.AreProper setting.names expressions →
    (Watched.evaluateAll setting.addresses (!scopes.isEmpty) fuel expressions).Runs setting start
      (YieldsAll setting start expressions.length)
  call : ∀ (line : Nat) (callee : Value) (arguments : List Value) {start}, start.Fits setting →
    callee.Fits setting start.layout →
    (∀ argument ∈ arguments, argument.Fits setting start.layout) →
    (Watched.call setting.addresses fuel line callee arguments).Runs setting start
      (Yields setting start)
  invoke : ∀ (closure : Closure) (arguments : List Value) {start}, start.Fits setting →
    closure.Fits setting start.layout [] →
    (∀ argument ∈ arguments, argument.Fits setting start.layout) →
    closure.arity = arguments.length →
    (Watched.invoke setting.addresses fuel closure arguments).Runs setting start
      (Yields setting start)
  execute : ∀ (statement : Stmt) {around scopes start}, start.Fits setting →
    start.Stands setting around scopes →
    statement.occurrences around scopes ⊆ setting.occurrences →
    statement.IsProper setting.names →
    (Watched.execute setting.addresses (!scopes.isEmpty) fuel statement).Runs setting start
      (EndsWith setting start scopes statement.locals)
  executeAll : ∀ (statements : List Stmt) (result : Option Value) {around scopes start},
    start.Fits setting → start.Stands setting around scopes →
    Stmt.occurrencesAll around scopes statements ⊆ setting.occurrences →
    Stmt.AreProper setting.names statements →
    (Watched.executeAll setting.addresses (!scopes.isEmpty) fuel result statements).Runs setting
      start (Ends setting start)
  loop : ∀ (condition : Expr) (body : Stmt) {around scopes start}, start.Fits setting →
    start.Stands setting around scopes →
    condition.occurrences around scopes ⊆ setting.occurrences →
    body.occurrences around scopes ⊆ setting.occurrences →
    condition.IsProper setting.names → body.IsProper setting.names → body.locals = [] →
    (Watched.loop setting.addresses (!scopes.isEmpty) fuel condition body).Runs setting start
      (EndsWith setting start scopes [])

variable {fuel : Nat} (sound : setting.Sound) (rules : RunsWell setting fuel)
include rules

theorem runs_evaluateAll (expressions : List Expr) (fits : start.Fits setting)
    (stands : start.Stands setting around scopes)
    (known : Expr.occurrencesAll around scopes expressions ⊆ setting.occurrences)
    (proper : Expr.AreProper setting.names expressions) :
    (evaluateAll setting.addresses (!scopes.isEmpty) (fuel + 1) expressions).Runs setting start
      (YieldsAll setting start expressions.length) := by
  cases expressions with
  | nil => exact .pure fits ⟨by simp, rfl, .refl _⟩
  | cons first others =>
    rw [Expr.occurrencesAll, List.append_subset] at known
    rw [evaluateAll]
    apply (rules.evaluate first fits stands known.1 proper.1).bind
    rintro value middle follows ⟨valueFits, still⟩
    apply (rules.evaluateAll others follows.fits (stands.follow follows still) known.2
      proper.2).bind
    rintro values finish further ⟨valuesFit, length, stillThen⟩
    apply Runs.pure further.fits
    refine ⟨?_, congrArg Nat.succ length, still.trans follows.ordered stillThen⟩
    exact List.forall_mem_cons.mpr ⟨valueFits.mono (.refl _) further.ordered, valuesFit⟩

theorem runs_call (line : Nat) (callee : Value) (arguments : List Value)
    (fits : start.Fits setting) (calleeFits : callee.Fits setting start.layout)
    (argumentsFit : ∀ argument ∈ arguments, argument.Fits setting start.layout) :
    (call setting.addresses (fuel + 1) line callee arguments).Runs setting start
      (Yields setting start) := by
  cases callee with
  | function closure =>
    rw [call]
    apply (runs_checkArity fits line closure.arity arguments.length).bind
    rintro _ middle - ⟨rfl, arity⟩
    exact rules.invoke closure arguments fits calleeFits argumentsFit arity
  | type ofClass =>
    rw [call]
    apply (runs_checkArity fits line ofClass.arity arguments.length).bind
    rintro _ middle - ⟨rfl, arity⟩
    apply (runs_newInstance fits ofClass).bind
    rintro created first follows ⟨isInstance, firstLayout⟩
    have classFits : created.ofClass.Fits setting first.layout := by
      rw [isInstance, firstLayout]
      exact calleeFits
    have still : middle.layout.Still first.layout := by
      rw [firstLayout]
      exact .refl _
    cases found : ofClass.initializer? with
    | none => exact .pure follows.fits ⟨classFits, still⟩
    | some initializer =>
      have initializerFits : initializer.Fits setting first.layout [[.this]] := by
        rw [← isInstance] at found
        exact classFits.method? found
      apply (runs_bindMethod follows.fits classFits initializerFits).bind
      rintro bound second further ⟨boundFits, stillThen, behaviour⟩
      have sameArity := (arity_of_initializer? found behaviour).trans arity
      have argumentsStill : ∀ argument ∈ arguments, argument.Fits setting second.layout := by
        intro argument member
        exact ((argumentsFit argument member).mono (.refl _) follows.ordered).mono (.refl _)
          further.ordered
      apply (rules.invoke bound arguments further.fits boundFits argumentsStill sameArity).bind
      rintro result third last ⟨-, stillLast⟩
      have grown := further.ordered.trans last.ordered
      apply Runs.pure last.fits
      refine ⟨Class.Fits.mono (.refl _) grown classFits, ?_⟩
      exact still.trans follows.ordered (stillThen.trans further.ordered stillLast)
  | _ => exact .fail fits

/-- The statements of a block or function run in a frame of their own, which is new. -/
theorem runs_inside (body : List Stmt) {inner : FrameId} (fits : start.Fits setting)
    (surrounds : around.Fits setting.names scopes)
    (chain : start.layout.Chain ([] :: scopes) inner) (row : start.layout.row inner = [])
    (known : Stmt.occurrencesAll around ([] :: scopes) body ⊆ setting.occurrences)
    (proper : Stmt.AreProper setting.names body) :
    (within inner (executeAll setting.addresses true fuel none body)).Runs setting start
      fun flow finish => flow.Fits setting finish.layout ∧
        start.layout.StillBut inner finish.layout := by
  have fitsInside : Moment.Fits setting
      ⟨start.history, { start.machine with current := inner }⟩ := fits.congr rfl rfl rfl
  have standsInside := Moment.Stands.enter surrounds chain row
  have runs := rules.executeAll body none fitsInside standsInside known proper
  exact Runs.within runs fun _ _ _ ends => ends

theorem runs_invoke (closure : Closure) (arguments : List Value) (fits : start.Fits setting)
    (closureFits : closure.Fits setting start.layout [])
    (argumentsFit : ∀ argument ∈ arguments, argument.Fits setting start.layout)
    (arity : closure.arity = arguments.length) :
    (invoke setting.addresses (fuel + 1) closure arguments).Runs setting start
      (Yields setting start) := by
  rw [invoke]
  cases behaves : closure.behaviour with
  | clock =>
    apply Runs.get
    exact .pure fits ⟨trivial, .refl _⟩
  | body definition isInitializer =>
    rcases closureFits with ⟨around, scopes, chain, body⟩
    rcases body definition isInitializer behaves with ⟨known, proper, surrounds⟩
    rcases definition with ⟨parameters, statements⟩
    have sameLength : parameters.length = arguments.length := (arity_of_body behaves).symm.trans arity
    have areNamed := Local.areNamed_parameters proper.1
    apply (runs_newFrame fits chain (forall₂_named sameLength argumentsFit)).bind
    rintro frame first follows ⟨-, firstLayout, inParameters⟩
    apply (runs_newFrame follows.fits inParameters .nil).bind
    rintro inner second further ⟨innerIs, secondLayout, inBody⟩
    have row := Layout.row_of_add secondLayout innerIs
    apply (runs_inside rules statements further.fits (surrounds.cons areNamed) inBody row known
      proper.2).bind
    rintro flow third last ⟨flowFits, stillBut⟩
    have stillLast : start.layout.Still third.layout := (Layout.Still.of_add firstLayout).trans
      follows.ordered (.of_inside secondLayout innerIs stillBut)
    cases isInitializer with
    | false =>
      refine .pure last.fits ⟨?_, stillLast⟩
      cases flow with
      | returned value => exact flowFits value rfl
      | _ => trivial
    | true =>
      apply Runs.get
      split
      · next this here => exact .pure last.fits ⟨last.fits.get? here, stillLast⟩
      · exact .pure last.fits ⟨trivial, stillLast⟩

include sound

/-- The value of an assignment is evaluated before its variable is looked up. -/
theorem runs_assignment (target : Reference) (value : Expr) (fits : start.Fits setting)
    (stands : start.Stands setting around scopes)
    (valueKnown : value.occurrences around scopes ⊆ setting.occurrences)
    (isKnown : target.occurrence scopes ∈ setting.occurrences)
    (isName : setting.names target.name.text) (proper : value.IsProper setting.names) :
    (do
      note (.reaches target.id)
      let value ← evaluate setting.addresses (!scopes.isEmpty) fuel value
      use setting.addresses (.assign target value)).Runs setting start (Yields setting start) := by
  have isSound := stands.sound_reaches sound fits isKnown rfl
  apply Runs.note fits isSound fun _ => rfl
  intro first follows machine layout
  have still : start.layout.Still first.layout := by
    rw [layout]
    exact .refl _
  have standsStill := stands.follow follows still
  apply (rules.evaluate value follows.fits standsStill valueKnown proper).bind
  rintro result second further yields
  have standsThen := standsStill.follow further yields.2
  apply (runs_assign sound further.fits standsThen isKnown isName yields.1).imp
  intro _ _ _ found
  exact (found.yields.after further yields.2).after follows still

omit sound rules in
/-- An anonymous function is made where code stands. -/
theorem runs_function (definition : Function) (fits : start.Fits setting)
    (stands : start.Stands setting around scopes)
    (known : definition.occurrences around scopes ⊆ setting.occurrences)
    (proper : definition.IsProper setting.names) :
    (do
      let machine ← quiet get
      return Value.function (← quiet
        (Step.newClosure machine.current "anonymous" (.body definition false)))).Runs setting start
      (Yields setting start) := by
  apply Runs.get
  apply (runs_newClosure fits start.machine.current "anonymous" _).bind
  rintro closure finish follows ⟨environment, behaviour, layout⟩
  refine .pure follows.fits ⟨⟨around, scopes, ?_, ?_⟩, ?_⟩
  · rw [environment, layout]
    exact stands.chain
  · intro found isInitializer behaves
    rw [behaviour] at behaves
    cases behaves
    exact ⟨known, proper, stands.around⟩
  · rw [layout]
    exact .refl _

theorem runs_evaluate (expression : Expr) (fits : start.Fits setting)
    (stands : start.Stands setting around scopes)
    (known : expression.occurrences around scopes ⊆ setting.occurrences)
    (proper : expression.IsProper setting.names) :
    (evaluate setting.addresses (!scopes.isEmpty) (fuel + 1) expression).Runs setting start
      (Yields setting start) := by
  rw [evaluate.eq_def]
  apply Runs.started fits stands
  intro middle follows stands still
  have fits := follows.fits
  have back : ∀ {watched : Watched Value}, watched.Runs setting middle (Yields setting middle) →
      watched.Runs setting middle (Yields setting start) :=
    fun runs => runs.imp fun _ _ _ yields => yields.after follows still
  apply back
  clear back follows still
  cases expression with
  | literal value => exact .pure fits ⟨Value.fits_ofLiteral value, .refl _⟩
  | group inner =>
    rw [Expr.occurrences] at known
    exact rules.evaluate inner fits stands known proper
  | unary op line operand =>
    rw [Expr.occurrences] at known
    apply (rules.evaluate operand fits stands known proper).bind
    rintro value finish follows ⟨-, still⟩
    exact runs_ofExcept follows.fits fun _ applied => ⟨fits_of_literal (exists_literal_of_unary applied), still⟩
  | binary op line left right =>
    rw [Expr.occurrences, List.append_subset] at known
    apply (rules.evaluate left fits stands known.1 proper.1).bind
    rintro leftValue second follows ⟨-, still⟩
    apply (rules.evaluate right follows.fits (stands.follow follows still) known.2 proper.2).bind
    rintro rightValue third further ⟨-, stillThen⟩
    exact runs_ofExcept further.fits fun _ applied =>
      ⟨fits_of_literal (exists_literal_of_binary applied), still.trans follows.ordered stillThen⟩
  | logical op line left right =>
    rw [Expr.occurrences, List.append_subset] at known
    apply (rules.evaluate left fits stands known.1 proper.1).bind
    rintro leftValue second follows ⟨valueFits, still⟩
    split
    · exact .pure follows.fits ⟨valueFits, still⟩
    · apply (rules.evaluate right follows.fits (stands.follow follows still) known.2 proper.2).imp
      exact fun _ _ _ yields => yields.after follows still
  | read target =>
    rw [Expr.occurrences, List.cons_subset] at known
    exact (runs_read sound fits stands known.1 rfl rfl target.name).imp
      fun _ _ _ found => found.yields
  | assign target value =>
    rw [Expr.occurrences, List.append_subset, List.cons_subset] at known
    exact runs_assignment sound rules target value fits stands known.1 known.2.1 proper.1 proper.2
  | call callee line arguments =>
    rw [Expr.occurrences, List.append_subset] at known
    apply (rules.evaluate callee fits stands known.1 proper.1).bind
    rintro calleeValue second follows ⟨calleeFits, still⟩
    apply (rules.evaluateAll arguments follows.fits (stands.follow follows still) known.2
      proper.2).bind
    rintro values third further ⟨valuesFit, -, stillThen⟩
    apply (rules.call line calleeValue values further.fits
      (calleeFits.mono (.refl _) further.ordered) valuesFit).imp
    intro _ _ _ yields
    exact (yields.after further stillThen).after follows still
  | function definition =>
    rw [Expr.occurrences] at known
    exact runs_function definition fits stands known proper
  | get object name =>
    rw [Expr.occurrences] at known
    apply (rules.evaluate object fits stands known proper).bind
    rintro target second follows ⟨targetFits, still⟩
    apply (runs_property follows.fits targetFits name).imp
    exact fun _ _ _ yields => yields.after follows still
  | set object name value =>
    rw [Expr.occurrences, List.append_subset] at known
    apply (rules.evaluate object fits stands known.1 proper.1).bind
    rintro target second follows ⟨targetFits, still⟩
    cases target with
    | object target =>
      apply (rules.evaluate value follows.fits (stands.follow follows still) known.2
        proper.2).bind
      rintro result third further ⟨resultFits, stillThen⟩
      apply (runs_setField further.fits target name.text resultFits).bind
      intro _ fourth last same
      have layout : fourth.layout = third.layout := same
      refine .pure last.fits ⟨?_, ?_⟩
      · rw [layout]
        exact resultFits
      · rw [layout]
        exact still.trans follows.ordered stillThen
    | _ => exact .fail follows.fits
  | this id line =>
    rw [Expr.occurrences, List.cons_subset] at known
    exact (runs_read sound fits stands known.1 rfl rfl ⟨"this", line⟩).imp
      fun _ _ _ found => found.yields
  | super id line method =>
    rw [Expr.occurrences, List.cons_subset] at known
    exact runs_super sound fits stands known.1 line method

omit sound in
theorem runs_executeAll (statements : List Stmt) (result : Option Value)
    (fits : start.Fits setting) (stands : start.Stands setting around scopes)
    (known : Stmt.occurrencesAll around scopes statements ⊆ setting.occurrences)
    (proper : Stmt.AreProper setting.names statements) :
    (executeAll setting.addresses (!scopes.isEmpty) (fuel + 1) result statements).Runs setting
      start (Ends setting start) := by
  cases statements with
  | nil =>
    refine .pure fits ⟨?_, (Layout.Still.refl _).stillBut _⟩
    intro value impossible
    cases impossible
  | cons first others =>
    rw [Stmt.occurrencesAll, List.append_subset] at known
    rw [executeAll]
    apply (rules.execute first fits stands known.1 proper.1).bind
    rintro flow middle follows ⟨flowFits, declares⟩
    cases flow with
    | normal result =>
      have named := first.areNamed_locals proper.1
      have standsThen := stands.declare follows named declares.row
      have rest := rules.executeAll others result follows.fits standsThen known.2 proper.2
      rw [Scopes.isEmpty_declare] at rest
      apply rest.imp
      rintro last finish - ⟨lastFits, still⟩
      refine ⟨lastFits, ?_⟩
      rw [follows.current] at still
      exact declares.still.trans follows.ordered still
    | _ => exact .pure follows.fits ⟨flowFits, declares.still⟩

omit sound in
theorem runs_loop (condition : Expr) (body : Stmt) (fits : start.Fits setting)
    (stands : start.Stands setting around scopes)
    (conditionKnown : condition.occurrences around scopes ⊆ setting.occurrences)
    (bodyKnown : body.occurrences around scopes ⊆ setting.occurrences)
    (conditionProper : condition.IsProper setting.names) (bodyProper : body.IsProper setting.names)
    (noLocals : body.locals = []) :
    (loop setting.addresses (!scopes.isEmpty) (fuel + 1) condition body).Runs setting start
      (EndsWith setting start scopes []) := by
  have noValue : ∀ (result : Option Value) layout, (Flow.normal result).Fits setting layout := by
    intro result layout value impossible
    cases impossible
  rw [loop]
  apply (rules.evaluate condition fits stands conditionKnown conditionProper).bind
  rintro value middle follows ⟨-, still⟩
  have standsStill := stands.follow follows still
  split
  · apply (rules.execute body follows.fits standsStill bodyKnown bodyProper).bind
    rintro flow finish further ⟨flowFits, declares⟩
    rw [noLocals] at declares
    have declaresAll := declares.after follows still
    cases flow with
    | normal result =>
      have standsThen := standsStill.declare further Local.areNamed_nil declares.row
      rw [Scopes.declare_nil] at standsThen
      have rest := rules.loop condition body further.fits standsThen conditionKnown bodyKnown
        conditionProper bodyProper noLocals
      apply rest.imp
      rintro last finish' - ⟨lastFits, declaresRest⟩
      rw [← Scopes.declare_nil scopes] at declaresRest
      exact ⟨lastFits, (declares.trans further declaresRest).after follows still⟩
    | broken => exact .pure further.fits ⟨noValue _ _, declaresAll⟩
    | returned value =>
      exact .pure further.fits ⟨flowFits, declaresAll⟩
  · exact .pure follows.fits ⟨noValue _ _, .none stands still⟩

omit sound in
/-- The initial value of a variable is evaluated where the variable is declared. -/
theorem runs_varDecl (name : Name) (initial : Option Expr) (fits : start.Fits setting)
    (stands : start.Stands setting around scopes)
    (known : (Stmt.varDecl name initial).occurrences around scopes ⊆ setting.occurrences)
    (proper : (Stmt.varDecl name initial).IsProper setting.names) :
    (declareVariable name
      (initial.map (evaluate setting.addresses (!scopes.isEmpty) fuel))).Runs setting start
      fun _ finish => Declares start scopes [.named name] finish := by
  have isName : setting.names name.text := by
    cases initial with
    | none => exact proper
    | some => exact proper.1
  apply runs_declareVariable fits stands isName
  intro watched member first firstFits firstStands
  rcases Option.map_eq_some_iff.mp member with ⟨expression, rfl, rfl⟩
  rw [Stmt.occurrences] at known
  have runs := rules.evaluate expression firstFits firstStands known proper.2
  rwa [Scopes.isEmpty_declare] at runs

omit sound in
/-- A block runs in a frame of its own and leaves those around it as they are. -/
theorem runs_block (body : List Stmt) (fits : start.Fits setting)
    (stands : start.Stands setting around scopes)
    (known : Stmt.occurrencesAll around ([] :: scopes) body ⊆ setting.occurrences)
    (proper : Stmt.AreProper setting.names body) :
    (do
      let machine ← quiet get
      let frame ← newFrame machine.current [] []
      within frame (executeAll setting.addresses true fuel none body)).Runs setting start
      (EndsWith setting start scopes []) := by
  apply Runs.get
  apply (runs_newFrame fits stands.chain .nil).bind
  rintro inner second follows ⟨innerIs, layout, inBlock⟩
  have row := Layout.row_of_add layout innerIs
  apply (runs_inside rules body follows.fits stands.around inBlock row known proper).imp
  rintro flow finish - ⟨flowFits, stillBut⟩
  exact ⟨flowFits, .none stands (.of_inside layout innerIs stillBut)⟩

omit sound in
/-- One of two branches runs after the condition; neither declares anything. -/
theorem runs_branches (condition : Expr) {whenTrue whenFalse : Watched Flow}
    (fits : start.Fits setting) (stands : start.Stands setting around scopes)
    (known : condition.occurrences around scopes ⊆ setting.occurrences)
    (proper : condition.IsProper setting.names)
    (runsTrue : ∀ middle, middle.Fits setting → middle.Stands setting around scopes →
      whenTrue.Runs setting middle (EndsWith setting middle scopes []))
    (runsFalse : ∀ middle, middle.Fits setting → middle.Stands setting around scopes →
      whenFalse.Runs setting middle (EndsWith setting middle scopes [])) :
    (do
      let value ← evaluate setting.addresses (!scopes.isEmpty) fuel condition
      if value.isTruthy then whenTrue else whenFalse).Runs setting start
      (EndsWith setting start scopes []) := by
  apply (rules.evaluate condition fits stands known proper).bind
  rintro value middle follows ⟨-, still⟩
  have standsStill := stands.follow follows still
  have goesOn : ∀ branch : Watched Flow,
      branch.Runs setting middle (EndsWith setting middle scopes []) →
        branch.Runs setting middle (EndsWith setting start scopes []) :=
    fun _ runs => runs.imp fun _ _ _ ends => ⟨ends.1, ends.2.after follows still⟩
  split
  · exact goesOn _ (runsTrue middle follows.fits standsStill)
  · exact goesOn _ (runsFalse middle follows.fits standsStill)

theorem runs_execute (statement : Stmt) (fits : start.Fits setting)
    (stands : start.Stands setting around scopes)
    (known : statement.occurrences around scopes ⊆ setting.occurrences)
    (proper : statement.IsProper setting.names) :
    (execute setting.addresses (!scopes.isEmpty) (fuel + 1) statement).Runs setting start
      (EndsWith setting start scopes statement.locals) := by
  have noValue : ∀ (result : Option Value) layout, (Flow.normal result).Fits setting layout := by
    intro result layout value impossible
    cases impossible
  rw [execute.eq_def]
  apply Runs.started fits stands
  intro middle follows stands still
  have fits := follows.fits
  have back : ∀ {watched : Watched Flow} {locals : List Local},
      watched.Runs setting middle (EndsWith setting middle scopes locals) →
      watched.Runs setting middle (EndsWith setting start scopes locals) :=
    fun runs => runs.imp fun _ _ _ ends => ⟨ends.1, ends.2.after follows still⟩
  apply back
  clear back follows still
  cases statement with
  | expression value =>
    rw [Stmt.occurrences] at known
    apply (rules.evaluate value fits stands known proper).bind
    rintro result finish follows ⟨-, still⟩
    exact .pure follows.fits ⟨noValue _ _, .none stands still⟩
  | print value =>
    rw [Stmt.occurrences] at known
    apply (rules.evaluate value fits stands known proper).bind
    rintro result second follows ⟨-, still⟩
    apply (runs_print follows.fits result.display).bind
    intro _ third further same
    have layout : third.layout = second.layout := same
    rw [← layout] at still
    exact .pure further.fits ⟨noValue _ _, .none stands still⟩
  | varDecl name initial =>
    apply (runs_varDecl rules name initial fits stands known proper).bind
    intro _ finish follows declares
    exact .pure follows.fits ⟨noValue _ _, declares⟩
  | block body =>
    rw [Stmt.occurrences] at known
    exact runs_block rules body fits stands known proper
  | ifElse condition whenTrue whenFalse =>
    cases whenFalse with
    | none =>
      rw [Stmt.occurrences, List.append_subset] at known
      rw [Stmt.locals, proper.2.2]
      apply runs_branches rules condition fits stands known.1 proper.1
      · intro middle fits stands
        have runs := rules.execute whenTrue fits stands known.2 proper.2.1
        rwa [proper.2.2] at runs
      · exact fun middle fits stands => .pure fits ⟨noValue _ _, .none stands (.refl _)⟩
    | some whenFalse =>
      rw [Stmt.occurrences, List.append_subset, List.append_subset, proper.2.1.2,
        Scopes.declare_nil] at known
      rw [Stmt.locals, proper.2.1.2, proper.2.2.2]
      apply runs_branches rules condition fits stands known.1.1 proper.1
      · intro middle fits stands
        have runs := rules.execute whenTrue fits stands known.1.2 proper.2.1.1
        rwa [proper.2.1.2] at runs
      · intro middle fits stands
        have runs := rules.execute whenFalse fits stands known.2 proper.2.2.1
        rwa [proper.2.2.2] at runs
  | whileLoop condition body =>
    rw [Stmt.occurrences, List.append_subset] at known
    rw [Stmt.locals, proper.2.2]
    exact rules.loop condition body fits stands known.1 known.2 proper.1 proper.2.1 proper.2.2
  | breakLoop line =>
    refine .pure fits ⟨?_, .none stands (.refl _)⟩
    intro value impossible
    cases impossible
  | funDecl function =>
    rcases function with ⟨name, definition⟩
    rw [Stmt.occurrences] at known
    apply (runs_funDecl fits stands proper.1 known proper.2).imp
    rintro _ finish - ⟨rfl, declares⟩
    exact ⟨noValue _ _, declares⟩
  | returnValue line value =>
    cases value with
    | none =>
      refine .pure fits ⟨?_, .none stands (.refl _)⟩
      rintro value ⟨⟩
      trivial
    | some value =>
      rw [Stmt.occurrences] at known
      apply (rules.evaluate value fits stands known proper).bind
      rintro result finish follows ⟨resultFits, still⟩
      refine .pure follows.fits ⟨?_, .none stands still⟩
      rintro other ⟨⟩
      exact resultFits
  | classDecl name superclass methods classMethods =>
    apply (runs_declareClass sound fits stands name superclass methods classMethods known
      proper).bind
    rintro value finish follows ⟨-, declares⟩
    exact .pure follows.fits ⟨noValue _ _, declares⟩

omit rules

/-- The evaluator keeps machines fit. -/
theorem runsWell (fuel : Nat) : RunsWell setting fuel := by
  induction fuel with
  | zero => constructor <;> intros <;> exact .outOfFuel ‹_›
  | succ fuel rules =>
    constructor
    · exact fun expression _ _ _ => runs_evaluate sound rules expression
    · exact fun expressions _ _ _ => runs_evaluateAll rules expressions
    · exact fun line callee arguments _ => runs_call rules line callee arguments
    · exact fun closure arguments _ => runs_invoke rules closure arguments
    · exact fun statement _ _ _ => runs_execute sound rules statement
    · exact fun statements result _ _ _ => runs_executeAll rules statements result
    · exact fun condition body _ _ _ => runs_loop rules condition body

/-- A program that was read keeps the machine fit. -/
theorem runs_interpret (fuel : Nat) (program : List Stmt) (result : Option Value)
    (fits : start.Fits setting) (stands : start.Stands setting around [])
    (known : Stmt.occurrencesAll around [] program ⊆ setting.occurrences)
    (proper : Stmt.AreProper setting.names program) :
    (interpret setting.addresses fuel result program).Runs setting start fun _ _ => True := by
  induction program generalizing result start with
  | nil => exact .pure fits trivial
  | cons first others induction =>
    rw [Stmt.occurrencesAll, List.append_subset] at known
    rw [interpret]
    apply ((runsWell sound fuel).execute first fits stands known.1 proper.1).bind
    rintro flow middle follows ⟨-, declares⟩
    have named := first.areNamed_locals proper.1
    exact induction _ follows.fits (stands.declare follows named declares.row) known.2 proper.2

end Watched

end Lox
