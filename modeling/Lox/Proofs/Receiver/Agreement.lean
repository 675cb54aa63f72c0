import Lox.Proofs.Machine.Agreement
import Lox.Proofs.Receiver.Declarations

/-!
# Evaluation with a ledger does the same

The evaluator for which `this` and `super` are what the ledger notes does what the evaluator
does that looks them up in frames: by induction on the bound of the evaluation, in all
functions of the evaluator at once (`tellsWell`).
-/

namespace Lox.Tied

/-! ## Laws that the evaluator needs -/

namespace Code

variable {setting : Setting} {around : Surroundings} {scopes : Scopes} {tie : Option Tie}
  {start : Moment} {ledger : Ledger}

/-- Something is noted that creates no slot; code goes on. -/
theorem noted {β : Type} {event : Machine → Event} {next : Unit → Watched β} {next' : Step β}
    {last : β → Moment → Ledger → Prop} (code : Code setting around scopes tie start ledger)
    (created : ∀ frame, (event start.machine).created? frame = none)
    (rest : ∀ middle, Code setting around scopes tie middle ledger →
      middle.layout = start.layout → Tells setting (next ()) next' middle ledger last) :
    Tells setting (Watched.note event >>= next) next' start ledger last := by
  apply Tells.note code.fits code.knows created
  intro middle follows _ layout knows
  refine rest middle (code.follow follows ?_ (.refl _) knows) layout
  rw [layout]
  exact .refl _

/-- A block or a body is entered: its frame is new, and enclosed in that of the scopes. -/
theorem enter (plain : setting.Plain) {inner outer : FrameId} (fits : start.Fits setting)
    (knows : Knows setting ledger start) (surrounds : around.Fits setting.names scopes)
    (chain : start.layout.Chain ([] :: scopes) inner) (row : start.layout.row inner = [])
    (enclosed : start.layout.enclosing inner = some outer)
    (leads : around.allowsThis → ∃ found, tie = some found ∧
      found.Leads ledger start.layout around.allowsSuper scopes outer) :
    Code setting around ([] :: scopes) tie
      ⟨start.history, { start.machine with current := inner }⟩ ledger := by
  constructor
  · exact fits.congr rfl rfl rfl
  · exact .enter surrounds chain row
  · exact ⟨knows.functions.congr rfl rfl rfl, knows.fresh, knows.holders⟩
  · intro allowed
    rcases leads allowed with ⟨found, same, leads⟩
    exact ⟨found, same, leads.enter plain Local.areNamed_nil chain.lt_size enclosed⟩

end Code

/-- A constant has no functions. -/
theorem known_of_literal {setting : Setting} {value : Value} {finish : Moment} {after : Ledger}
    (constant : ∃ literal, value = .ofLiteral literal) : Known setting value finish after := by
  rcases constant with ⟨literal, rfl⟩
  exact Value.all_ofLiteral literal

/-! ## The evaluator -/

/-- The value that a statement returns is known. -/
def Ends (setting : Setting) (flow : Flow) (finish : Moment) (after : Ledger) : Prop :=
  ∀ value, flow = .returned value → Known setting value finish after

theorem Ends.normal {setting : Setting} {result : Option Value} {finish : Moment}
    {after : Ledger} : Ends setting (.normal result) finish after := by
  intro value impossible
  cases impossible

/-- Within a bound on its depth the evaluator with a ledger does what the other one does. -/
structure TellsWell (setting : Setting) (fuel : Nat) : Prop where
  evaluate : ∀ (expression : Expr) {around scopes tie start ledger},
    Code setting around scopes tie start ledger →
    expression.occurrences around scopes ⊆ setting.occurrences →
    expression.IsProper setting.names →
    Tells setting (Watched.evaluate setting.addresses (!scopes.isEmpty) fuel expression)
      (Step.evaluate setting.addresses tie fuel expression) start ledger (Known setting)
  evaluateAll : ∀ (expressions : List Expr) {around scopes tie start ledger},
    Code setting around scopes tie start ledger →
    Expr.occurrencesAll around scopes expressions ⊆ setting.occurrences →
    Expr.AreProper setting.names expressions →
    Tells setting (Watched.evaluateAll setting.addresses (!scopes.isEmpty) fuel expressions)
      (Step.evaluateAll setting.addresses tie fuel expressions) start ledger
      fun values finish after => ∀ value ∈ values, Known setting value finish after
  call : ∀ (line : Nat) (callee : Value) (arguments : List Value) {start ledger},
    start.Fits setting → Knows setting ledger start →
    IsKnown setting ledger start.layout callee →
    (∀ argument ∈ arguments, IsKnown setting ledger start.layout argument) →
    Tells setting (Watched.call setting.addresses fuel line callee arguments)
      (Step.call setting.addresses fuel line callee arguments) start ledger (Known setting)
  invoke : ∀ (closure : Closure) (arguments : List Value) {start ledger},
    start.Fits setting → Knows setting ledger start →
    IsTied setting ledger start.layout closure →
    (∀ argument ∈ arguments, IsKnown setting ledger start.layout argument) →
    closure.arity = arguments.length →
    Tells setting (Watched.invoke setting.addresses fuel closure arguments)
      (Step.invoke setting.addresses fuel closure arguments) start ledger (Known setting)
  execute : ∀ (statement : Stmt) {around scopes tie start ledger},
    Code setting around scopes tie start ledger →
    statement.occurrences around scopes ⊆ setting.occurrences →
    statement.IsProper setting.names →
    Tells setting (Watched.execute setting.addresses (!scopes.isEmpty) fuel statement)
      (Step.execute setting.addresses tie fuel statement) start ledger (Ends setting)
  executeAll : ∀ (statements : List Stmt) (result : Option Value) {around scopes tie start ledger},
    Code setting around scopes tie start ledger →
    Stmt.occurrencesAll around scopes statements ⊆ setting.occurrences →
    Stmt.AreProper setting.names statements →
    Tells setting (Watched.executeAll setting.addresses (!scopes.isEmpty) fuel result statements)
      (Step.executeAll setting.addresses tie fuel result statements) start ledger (Ends setting)
  loop : ∀ (condition : Expr) (body : Stmt) {around scopes tie start ledger},
    Code setting around scopes tie start ledger →
    condition.occurrences around scopes ⊆ setting.occurrences →
    body.occurrences around scopes ⊆ setting.occurrences →
    condition.IsProper setting.names → body.IsProper setting.names → body.locals = [] →
    Tells setting (Watched.loop setting.addresses (!scopes.isEmpty) fuel condition body)
      (Step.loop setting.addresses tie fuel condition body) start ledger (Ends setting)

variable {setting : Setting} {around : Surroundings} {scopes : Scopes} {tie : Option Tie}
  {start : Moment} {ledger : Ledger} {fuel : Nat} (sound : setting.Sound) (exact : setting.Exact)
  (rules : TellsWell setting fuel)
include sound rules

/-- Code goes on after an expression, where it stood before. -/
theorem tells_evaluated {β : Type} (expression : Expr) {next : Value → Watched β}
    {next' : Value → Step β} {last : β → Moment → Ledger → Prop}
    (code : Code setting around scopes tie start ledger)
    (isKnown : expression.occurrences around scopes ⊆ setting.occurrences)
    (proper : expression.IsProper setting.names)
    (rest : ∀ value middle after, Code setting around scopes tie middle after →
      Known setting value middle after → start.layout.Le middle.layout → ledger.Le after →
        Tells setting (next value) (next' value) middle after last) :
    Tells setting
      (Watched.evaluate setting.addresses (!scopes.isEmpty) fuel expression >>= next)
      (Step.evaluate setting.addresses tie fuel expression >>= next') start ledger last := by
  apply (rules.evaluate expression code isKnown proper).bind
    ((Watched.runsWell sound fuel).evaluate expression code.fits code.stands isKnown proper)
  rintro value middle after follows ⟨-, still⟩ noted knows known
  exact rest value middle after (code.follow follows still noted knows) known follows.ordered noted

theorem tells_evaluateAll (expressions : List Expr)
    (code : Code setting around scopes tie start ledger)
    (isKnown : Expr.occurrencesAll around scopes expressions ⊆ setting.occurrences)
    (proper : Expr.AreProper setting.names expressions) :
    Tells setting
      (Watched.evaluateAll setting.addresses (!scopes.isEmpty) (fuel + 1) expressions)
      (Step.evaluateAll setting.addresses tie (fuel + 1) expressions) start ledger
      fun values finish after => ∀ value ∈ values, Known setting value finish after := by
  have runs := Watched.runsWell sound fuel
  cases expressions with
  | nil => exact .pure code.knows fun _ impossible => by cases impossible
  | cons first others =>
    rw [Expr.occurrencesAll, List.append_subset] at isKnown
    rw [Watched.evaluateAll, Step.evaluateAll]
    apply tells_evaluated sound rules first code isKnown.1 proper.1
    intro value middle after code known _ _
    apply (rules.evaluateAll others code isKnown.2 proper.2).bind
      (runs.evaluateAll others code.fits code.stands isKnown.2 proper.2)
    intro values finish last further _ notedThen knows allKnown
    apply Tells.pure knows
    exact List.forall_mem_cons.mpr ⟨known.mono (.refl _) notedThen further.ordered, allKnown⟩

theorem tells_call (line : Nat) (callee : Value) (arguments : List Value)
    (fits : start.Fits setting) (knows : Knows setting ledger start)
    (known : IsKnown setting ledger start.layout callee)
    (allKnown : ∀ argument ∈ arguments, IsKnown setting ledger start.layout argument) :
    Tells setting (Watched.call setting.addresses (fuel + 1) line callee arguments)
      (Step.call setting.addresses (fuel + 1) line callee arguments) start ledger
      (Known setting) := by
  have runs := Watched.runsWell sound fuel
  rw [Watched.call.eq_def, Step.call.eq_def]
  cases callee with
  | function closure =>
    apply (tells_checkArity knows line closure.arity arguments.length).bind
      (Watched.runs_checkArity fits line closure.arity arguments.length)
    rintro _ middle after - ⟨rfl, arity⟩ noted knows -
    have stillKnown := fun argument member =>
      (allKnown argument member).mono (.refl _) noted (.refl _)
    exact rules.invoke closure arguments fits knows
      (IsTied.mono (.refl _) noted (.refl _) known) stillKnown arity
  | type ofClass =>
    apply (tells_checkArity knows line ofClass.arity arguments.length).bind
      (Watched.runs_checkArity fits line ofClass.arity arguments.length)
    rintro _ middle after - ⟨rfl, arity⟩ noted knows -
    apply (tells_newInstance knows ofClass).bind (Watched.runs_newInstance fits ofClass)
    rintro created first after' follows ⟨isInstance, firstLayout⟩ notedThen knows -
    have grown := noted.trans notedThen
    have objectKnown : IsKnown setting after' first.layout (.object created) := by
      have classKnown := known.mono (.refl _) grown follows.ordered
      show created.ofClass.All _ _
      rw [isInstance]
      exact classKnown
    cases found : ofClass.initializer? with
    | none => exact .pure knows objectKnown
    | some initializer =>
      have homed : IsHomed setting after' first.layout initializer := by
        rw [← isInstance] at found
        exact Class.All.method? objectKnown found
      apply (tells_bindMethod knows follows.fits objectKnown homed).bind
        (Watched.runs_bindMethod follows.fits (classFits objectKnown) homed.fits)
      rintro bound second last further ⟨boundFits, -, behaviour⟩ notedLast knows tied
      have sameArity := (Watched.arity_of_initializer? found behaviour).trans arity
      have stillKnown : ∀ argument ∈ arguments, IsKnown setting last second.layout argument :=
        fun argument member => (allKnown argument member).mono (.refl _) (grown.trans notedLast)
          (follows.ordered.trans further.ordered)
      apply (rules.invoke bound arguments further.fits knows tied stillKnown sameArity).bind
        (runs.invoke bound arguments further.fits tied.fits
          (fun argument member => (stillKnown argument member).fits) sameArity)
      intro _ third final finally_ _ notedFinal knows _
      exact .pure knows (objectKnown.mono (.refl _) (notedLast.trans notedFinal)
        (further.ordered.trans finally_.ordered))
  | _ => exact .fail knows line _

/-- The body of a function runs in new frames for itself and its parameters, tied as it is told. -/
theorem tells_body {β : Type} (plain : setting.Plain) {environment : FrameId}
    (parameters : List Name) (statements : List Stmt) (arguments : List Value)
    {next : Flow → Watched β} {next' : Flow → Step β} {last : β → Moment → Ledger → Prop}
    (fits : start.Fits setting) (knows : Knows setting ledger start)
    (surrounds : around.Fits setting.names scopes)
    (chain : start.layout.Chain scopes environment)
    (ties : around.allowsThis → ∃ found, tie = some found ∧
      found.Leads ledger start.layout around.allowsSuper scopes environment)
    (isKnown : (Function.mk parameters statements).occurrences around scopes ⊆ setting.occurrences)
    (proper : (Function.mk parameters statements).IsProper setting.names)
    (sameLength : parameters.length = arguments.length)
    (allKnown : ∀ argument ∈ arguments, IsKnown setting ledger start.layout argument)
    (rest : ∀ flow finish after, Knows setting after finish → Ends setting flow finish after →
      Tells setting (next flow) (next' flow) finish after last) :
    Tells setting
      (do
        let frame ← Watched.newFrame environment (parameters.map Local.named) arguments
        let body ← Watched.newFrame frame [] []
        let flow ← Watched.within body
          (Watched.executeAll setting.addresses true fuel none statements)
        next flow)
      (do
        let frame ← Step.ordinary (.newFrame environment arguments)
        let body ← Step.ordinary (.newFrame frame [])
        let flow ← Step.within body (Step.executeAll setting.addresses tie fuel none statements)
        next' flow) start ledger last := by
  have areNamed := Local.areNamed_parameters proper.1
  have hold := Watched.forall₂_named sameLength
    fun argument member => (allKnown argument member).fits
  apply (tells_newFrame knows fits chain hold allKnown).bind
    (Watched.runs_newFrame fits chain hold)
  rintro frame first after follows ⟨frameIs, firstLayout, inParameters⟩ noted knows -
  have noValues : ∀ value ∈ ([] : List Value), IsKnown setting after first.layout value :=
    List.forall_mem_nil _
  apply (tells_newFrame knows follows.fits inParameters .nil noValues).bind
    (Watched.runs_newFrame follows.fits inParameters .nil)
  rintro inner second last further ⟨innerIs, secondLayout, inBody⟩ notedThen knows -
  have firstEnclosed := Layout.enclosing_of_add firstLayout frameIs
  have secondEnclosed := Layout.enclosing_of_add secondLayout innerIs
  have row := Layout.row_of_add secondLayout innerIs
  have standsIn := surrounds.cons areNamed
  have leads : around.allowsThis → ∃ found, tie = some found ∧
      found.Leads last second.layout around.allowsSuper
        (parameters.map Local.named :: scopes) frame := by
    intro allowed
    rcases ties allowed with ⟨found, same, leads⟩
    have inFirst := (leads.mono noted follows.ordered).enter plain areNamed
      inParameters.lt_size firstEnclosed
    exact ⟨found, same, inFirst.mono notedThen further.ordered⟩
  have code := Code.enter plain further.fits knows standsIn inBody row secondEnclosed leads
  have told := rules.executeAll statements none code isKnown proper.2
  have toldInside : Tells setting
      (.within inner (Watched.executeAll setting.addresses true fuel none statements))
      (Step.within inner (Step.executeAll setting.addresses tie fuel none statements)) second last
      (Ends setting) := told.within fun _ _ _ _ ends => ends
  apply toldInside.bind (Watched.runs_inside (Watched.runsWell sound fuel) statements further.fits
    standsIn inBody row isKnown proper.2)
  exact fun flow finish after _ _ _ knows ends => rest flow finish after knows ends

theorem tells_invoke (plain : setting.Plain) (closure : Closure) (arguments : List Value)
    (fits : start.Fits setting) (knows : Knows setting ledger start)
    (tied : IsTied setting ledger start.layout closure)
    (allKnown : ∀ argument ∈ arguments, IsKnown setting ledger start.layout argument)
    (arity : closure.arity = arguments.length) :
    Tells setting (Watched.invoke setting.addresses (fuel + 1) closure arguments)
      (Step.invoke setting.addresses (fuel + 1) closure arguments) start ledger
      (Known setting) := by
  rw [Watched.invoke.eq_def, Step.invoke.eq_def]
  dsimp only
  cases behaves : closure.behaviour with
  | clock =>
    apply Tells.get
    exact .pure knows trivial
  | body definition isInitializer =>
    rcases tied with ⟨around, scopes, chain, body, ties⟩
    rcases body definition isInitializer behaves with ⟨isKnown, proper, surrounds⟩
    rcases definition with ⟨parameters, statements⟩
    have sameLength : parameters.length = arguments.length :=
      (Watched.arity_of_body behaves).symm.trans arity
    apply Tells.noted
    apply tells_body sound rules plain parameters statements arguments fits knows surrounds chain
      ties isKnown proper sameLength allKnown
    intro flow finish after knows ends
    cases isInitializer with
    | false =>
      apply Tells.pure knows
      cases flow with
      | returned value => exact ends value rfl
      | _ => trivial
    | true =>
      have known : ∀ value,
          finish.machine.frames.get? closure.environment 0 0 = some (.initialised value) →
            Known setting value finish after := fun _ here => knows.functions.get? here
      have noFunctions : Known setting .nil finish after := trivial
      apply Tells.get
      revert known
      generalize finish.machine.frames.get? closure.environment 0 0 = found
      intro known
      rcases found with _ | (_ | this)
      · exact .pure knows noFunctions
      · exact .pure knows noFunctions
      · exact .pure knows (known this rfl)

include exact

/-- The value of an assignment is evaluated before its variable is looked up. -/
theorem tells_assignment (target : Reference) (value : Expr)
    (code : Code setting around scopes tie start ledger)
    (valueKnown : value.occurrences around scopes ⊆ setting.occurrences)
    (isKnown : target.occurrence scopes ∈ setting.occurrences)
    (isName : setting.names target.name.text) (proper : value.IsProper setting.names) :
    Tells setting
      (do
        Watched.note (.reaches target.id)
        let value ← Watched.evaluate setting.addresses (!scopes.isEmpty) fuel value
        Watched.use setting.addresses (.assign target value))
      (do
        let value ← Step.evaluate setting.addresses tie fuel value
        Step.assignVariable setting.addresses target value
        return value) start ledger (Known setting) := by
  apply code.noted fun _ => rfl
  clear code
  intro first code _
  apply tells_evaluated sound rules value code valueKnown proper
  intro result second after code known _ _
  apply code.noted fun _ => rfl
  clear code
  intro third code layout
  have knownThen : IsKnown setting after third.layout result := layout ▸ known
  apply (tells_assignVariable code.knows sound exact.plain code.fits code.stands isKnown isName
    knownThen).bind
    (Watched.runs_assignVariable sound code.fits code.stands isKnown isName knownThen.fits)
  intro _ fourth last further _ notedThen knows _
  exact .pure knows (knownThen.mono (.refl _) notedThen further.ordered)

omit sound rules exact in
/-- An anonymous function is made where code stands, and is tied to what code is tied to. -/
theorem tells_function (definition : Function)
    (code : Code setting around scopes tie start ledger)
    (isKnown : definition.occurrences around scopes ⊆ setting.occurrences)
    (proper : definition.IsProper setting.names) :
    Tells setting
      (do
        let machine ← Watched.quiet get
        return Value.function (← Watched.quiet
          (Lox.Step.newClosure machine.current "anonymous" (.body definition false))))
      (do
        let machine ← Step.ordinary get
        return Value.function (← Step.newClosure tie machine.current "anonymous"
          (.body definition false))) start ledger (Known setting) := by
  apply Tells.get
  apply (tells_newClosure code.knows code.fits tie start.machine.current "anonymous" _).bind
    (Watched.runs_newClosure code.fits start.machine.current "anonymous" _)
  rintro closure finish after follows ⟨environment, behaviour, layout⟩ noted knows ⟨isTie, -⟩
  apply Tells.pure knows
  refine ⟨around, scopes, ?_, ?_, ?_⟩
  · rw [environment, layout]
    exact code.stands.chain
  · rw [behaviour]
    rintro found isInitializer ⟨⟩
    exact ⟨isKnown, proper, code.stands.around⟩
  · intro allowed
    rcases code.leads allowed with ⟨found, rfl, leads⟩
    refine ⟨found, isTie, ?_⟩
    rw [environment]
    exact leads.mono noted follows.ordered

theorem tells_evaluate (expression : Expr) (code : Code setting around scopes tie start ledger)
    (isKnown : expression.occurrences around scopes ⊆ setting.occurrences)
    (proper : expression.IsProper setting.names) :
    Tells setting (Watched.evaluate setting.addresses (!scopes.isEmpty) (fuel + 1) expression)
      (Step.evaluate setting.addresses tie (fuel + 1) expression) start ledger
      (Known setting) := by
  have runs := Watched.runsWell sound fuel
  rw [Watched.evaluate.eq_def, Step.evaluate.eq_def]
  apply code.noted fun _ => rfl
  clear code
  intro middle code _
  cases expression with
  | literal value => exact .pure code.knows (Value.all_ofLiteral value)
  | group inner =>
    rw [Expr.occurrences] at isKnown
    exact rules.evaluate inner code isKnown proper
  | unary op line operand =>
    rw [Expr.occurrences] at isKnown
    apply tells_evaluated sound rules operand code isKnown proper
    intro value finish after code _ _ _
    exact tells_ofExcept code.knows fun _ applied =>
      known_of_literal (Watched.exists_literal_of_unary applied)
  | binary op line left right =>
    rw [Expr.occurrences, List.append_subset] at isKnown
    apply tells_evaluated sound rules left code isKnown.1 proper.1
    intro leftValue second after code _ _ _
    apply tells_evaluated sound rules right code isKnown.2 proper.2
    intro rightValue third last code _ _ _
    exact tells_ofExcept code.knows fun _ applied =>
      known_of_literal (Watched.exists_literal_of_binary applied)
  | logical op line left right =>
    rw [Expr.occurrences, List.append_subset] at isKnown
    apply tells_evaluated sound rules left code isKnown.1 proper.1
    intro leftValue second after code known _ _
    split
    · exact .pure code.knows known
    · exact rules.evaluate right code isKnown.2 proper.2
  | read target =>
    apply Tells.note code.fits code.knows fun _ => rfl
    intro _ _ _ _ knows
    exact tells_readVariable knows setting.addresses target.id target.name
  | assign target value =>
    rw [Expr.occurrences, List.append_subset, List.cons_subset] at isKnown
    exact tells_assignment sound exact rules target value code isKnown.1 isKnown.2.1 proper.1 proper.2
  | call callee line arguments =>
    rw [Expr.occurrences, List.append_subset] at isKnown
    apply tells_evaluated sound rules callee code isKnown.1 proper.1
    intro calleeValue second after code known _ _
    apply (rules.evaluateAll arguments code isKnown.2 proper.2).bind
      (runs.evaluateAll arguments code.fits code.stands isKnown.2 proper.2)
    rintro values third last further - notedThen knows allKnown
    exact rules.call line calleeValue values further.fits knows
      (known.mono (.refl _) notedThen further.ordered) allKnown
  | function definition =>
    rw [Expr.occurrences] at isKnown
    exact tells_function definition code isKnown proper
  | get object name =>
    rw [Expr.occurrences] at isKnown
    apply tells_evaluated sound rules object code isKnown proper
    intro target second after code known _ _
    exact tells_property code.knows code.fits known name
  | set object name value =>
    rw [Expr.occurrences, List.append_subset] at isKnown
    apply tells_evaluated sound rules object code isKnown.1 proper.1
    intro target second after code _ _ _
    cases target with
    | object target =>
      apply tells_evaluated sound rules value code isKnown.2 proper.2
      intro result third last code known _ _
      apply (tells_setField code.knows target name.text known).bind
        (Watched.runs_setField code.fits target name.text known.fits)
      intro _ fourth final follows same notedThen knows _
      exact .pure knows (known.mono (.refl _) notedThen follows.ordered)
    | _ => exact .fail code.knows name.line _
  | this id line =>
    rw [Expr.occurrences, List.cons_subset] at isKnown
    exact code.tells_this exact isKnown.1 line
  | super id line method =>
    rw [Expr.occurrences, List.cons_subset] at isKnown
    exact code.tells_super exact isKnown.1 line method

omit exact in
theorem tells_executeAll (plain : setting.Plain) (statements : List Stmt) (result : Option Value)
    (code : Code setting around scopes tie start ledger)
    (isKnown : Stmt.occurrencesAll around scopes statements ⊆ setting.occurrences)
    (proper : Stmt.AreProper setting.names statements) :
    Tells setting
      (Watched.executeAll setting.addresses (!scopes.isEmpty) (fuel + 1) result statements)
      (Step.executeAll setting.addresses tie (fuel + 1) result statements) start ledger
      (Ends setting) := by
  have runs := Watched.runsWell sound fuel
  cases statements with
  | nil => exact .pure code.knows .normal
  | cons first others =>
    rw [Stmt.occurrencesAll, List.append_subset] at isKnown
    rw [Watched.executeAll, Step.executeAll]
    apply (rules.execute first code isKnown.1 proper.1).bind
      (runs.execute first code.fits code.stands isKnown.1 proper.1)
    rintro flow middle after follows ⟨-, declares⟩ noted knows ends
    cases flow with
    | normal result =>
      have named := first.areNamed_locals proper.1
      have codeThen := code.declare plain follows named declares.row noted knows
      have rest := rules.executeAll others result codeThen isKnown.2 proper.2
      rwa [Scopes.isEmpty_declare] at rest
    | _ => exact .pure knows ends

omit exact in
theorem tells_loop (plain : setting.Plain) (condition : Expr) (body : Stmt)
    (code : Code setting around scopes tie start ledger)
    (conditionKnown : condition.occurrences around scopes ⊆ setting.occurrences)
    (bodyKnown : body.occurrences around scopes ⊆ setting.occurrences)
    (conditionProper : condition.IsProper setting.names) (bodyProper : body.IsProper setting.names)
    (noLocals : body.locals = []) :
    Tells setting
      (Watched.loop setting.addresses (!scopes.isEmpty) (fuel + 1) condition body)
      (Step.loop setting.addresses tie (fuel + 1) condition body) start ledger (Ends setting) := by
  have runs := Watched.runsWell sound fuel
  rw [Watched.loop, Step.loop]
  apply tells_evaluated sound rules condition code conditionKnown conditionProper
  intro value middle after codeThen _ _ _
  split
  · apply (rules.execute body codeThen bodyKnown bodyProper).bind
      (runs.execute body codeThen.fits codeThen.stands bodyKnown bodyProper)
    rintro flow finish last further ⟨-, declares⟩ notedThen knows ends
    rw [noLocals] at declares
    cases flow with
    | normal result =>
      have codeLast := codeThen.declare plain further Local.areNamed_nil declares.row notedThen
        knows
      rw [Scopes.declare_nil] at codeLast
      exact rules.loop condition body codeLast conditionKnown bodyKnown conditionProper
        bodyProper noLocals
    | broken => exact .pure knows .normal
    | returned value => exact .pure knows ends
  · exact .pure codeThen.knows .normal

/-- A variable is declared before its initial value is evaluated. -/
theorem tells_varDecl (name : Name) (initial : Expr)
    (code : Code setting around scopes tie start ledger) (isName : setting.names name.text)
    (isKnown : initial.occurrences around (scopes.declare [.named name]) ⊆ setting.occurrences)
    (proper : initial.IsProper setting.names) :
    Tells setting
      (do
        Watched.declareVariable name
          (some (Watched.evaluate setting.addresses (!scopes.isEmpty) fuel initial))
        return Flow.normal none)
      (do
        Step.declareVariable name (some (Step.evaluate setting.addresses tie fuel initial))
        return Flow.normal none) start ledger (Ends setting) := by
  have initialRuns : ∀ watched ∈ some
      (Watched.evaluate setting.addresses (!scopes.isEmpty) fuel initial), ∀ first : Moment,
      first.Fits setting → first.Stands setting around (scopes.declare [.named name]) →
        watched.Runs setting first (Watched.Yields setting first) := by
    rintro watched ⟨⟩ first firstFits firstStands
    have ran := (Watched.runsWell sound fuel).evaluate initial firstFits firstStands isKnown proper
    rwa [Scopes.isEmpty_declare] at ran
  have told : Option.Rel (fun watched tied => ∀ first after,
      Code setting around (scopes.declare [.named name]) tie first after →
        watched.Runs setting first (Watched.Yields setting first) ∧
          Tells setting watched tied first after (Known setting))
      (some (Watched.evaluate setting.addresses (!scopes.isEmpty) fuel initial))
      (some (Step.evaluate setting.addresses tie fuel initial)) := by
    apply Option.Rel.some
    intro first after codeThen
    have told := rules.evaluate initial codeThen isKnown proper
    rw [Scopes.isEmpty_declare] at told
    exact ⟨initialRuns _ rfl first codeThen.fits codeThen.stands, told⟩
  apply (code.tells_declareVariable exact.plain isName told).bind
    (Watched.runs_declareVariable code.fits code.stands isName initialRuns)
  intro _ _ _ _ _ _ knows _
  exact .pure knows .normal

omit sound in
/-- A block runs in a frame of its own, tied to what is around it. -/
theorem tells_block (body : List Stmt) (code : Code setting around scopes tie start ledger)
    (isKnown : Stmt.occurrencesAll around ([] :: scopes) body ⊆ setting.occurrences)
    (proper : Stmt.AreProper setting.names body) :
    Tells setting
      (do
        let machine ← Watched.quiet get
        let frame ← Watched.newFrame machine.current [] []
        .within frame (Watched.executeAll setting.addresses true fuel none body))
      (do
        let machine ← Step.ordinary get
        let frame ← Step.ordinary (.newFrame machine.current [])
        Step.within frame (Step.executeAll setting.addresses tie fuel none body)) start ledger
      (Ends setting) := by
  apply Tells.get
  have noValues : ∀ value ∈ ([] : List Value), IsKnown setting ledger start.layout value :=
    List.forall_mem_nil _
  apply (tells_newFrame code.knows code.fits code.stands.chain .nil noValues).bind
    (Watched.runs_newFrame code.fits code.stands.chain .nil)
  rintro inner second after follows ⟨innerIs, layout, inBlock⟩ noted knows -
  have row := Layout.row_of_add layout innerIs
  have enclosed := Layout.enclosing_of_add layout innerIs
  have leads : around.allowsThis → ∃ found, tie = some found ∧
      found.Leads after second.layout around.allowsSuper scopes start.machine.current := by
    intro allowed
    rcases code.leads allowed with ⟨found, same, leads⟩
    exact ⟨found, same, leads.mono noted follows.ordered⟩
  have codeInside := Code.enter exact.plain follows.fits knows code.stands.around inBlock row
    enclosed leads
  have told := rules.executeAll body none codeInside isKnown proper
  exact told.within fun _ _ _ _ ends => ends

theorem tells_execute (statement : Stmt) (code : Code setting around scopes tie start ledger)
    (isKnown : statement.occurrences around scopes ⊆ setting.occurrences)
    (proper : statement.IsProper setting.names) :
    Tells setting (Watched.execute setting.addresses (!scopes.isEmpty) (fuel + 1) statement)
      (Step.execute setting.addresses tie (fuel + 1) statement) start ledger (Ends setting) := by
  have runs := Watched.runsWell sound fuel
  have plain := exact.plain
  rw [Watched.execute.eq_def, Step.execute.eq_def]
  apply code.noted fun _ => rfl
  clear code
  intro middle code _
  cases statement with
  | expression value =>
    rw [Stmt.occurrences] at isKnown
    apply tells_evaluated sound rules value code isKnown proper
    intro result finish after code _ _ _
    exact .pure code.knows .normal
  | print value =>
    rw [Stmt.occurrences] at isKnown
    apply tells_evaluated sound rules value code isKnown proper
    intro result second after code _ _ _
    apply (tells_print code.knows result.display).bind
      (Watched.runs_print code.fits result.display)
    intro _ _ _ _ _ _ knows _
    exact .pure knows .normal
  | varDecl name initial =>
    cases initial with
    | none =>
      have noRuns : ∀ watched ∈ (none : Option (Watched Value)), ∀ first : Moment,
          first.Fits setting → first.Stands setting around (scopes.declare [.named name]) →
            watched.Runs setting first (Watched.Yields setting first) := by
        intro watched impossible
        cases impossible
      apply (code.tells_declareVariable plain proper .none).bind
        (Watched.runs_declareVariable code.fits code.stands proper noRuns)
      intro _ _ _ _ _ _ knows _
      exact .pure knows .normal
    | some initial =>
      rw [Stmt.occurrences] at isKnown
      exact tells_varDecl sound exact rules name initial code proper.1 isKnown proper.2
  | block body =>
    rw [Stmt.occurrences] at isKnown
    exact tells_block exact rules body code isKnown proper
  | ifElse condition whenTrue whenFalse =>
    cases whenFalse with
    | none =>
      rw [Stmt.occurrences, List.append_subset] at isKnown
      apply tells_evaluated sound rules condition code isKnown.1 proper.1
      intro value second after code _ _ _
      split
      · exact rules.execute whenTrue code isKnown.2 proper.2.1
      · exact .pure code.knows .normal
    | some whenFalse =>
      rw [Stmt.occurrences, List.append_subset, List.append_subset, proper.2.1.2,
        Scopes.declare_nil] at isKnown
      apply tells_evaluated sound rules condition code isKnown.1.1 proper.1
      intro value second after code _ _ _
      split
      · exact rules.execute whenTrue code isKnown.1.2 proper.2.1.1
      · exact rules.execute whenFalse code isKnown.2 proper.2.2.1
  | whileLoop condition body =>
    rw [Stmt.occurrences, List.append_subset] at isKnown
    exact rules.loop condition body code isKnown.1 isKnown.2 proper.1 proper.2.1 proper.2.2
  | breakLoop line =>
    refine .pure code.knows ?_
    intro value impossible
    cases impossible
  | funDecl function =>
    rcases function with ⟨name, definition⟩
    rw [Stmt.occurrences] at isKnown
    apply (code.tells_funDecl plain proper.1 isKnown proper.2).imp
    rintro _ finish after _ rfl
    exact .normal
  | returnValue line value =>
    cases value with
    | none =>
      refine .pure code.knows ?_
      rintro value ⟨⟩
      trivial
    | some value =>
      rw [Stmt.occurrences] at isKnown
      apply tells_evaluated sound rules value code isKnown proper
      intro result finish after code known _ _
      refine .pure code.knows ?_
      rintro other ⟨⟩
      exact known
  | classDecl name superclass methods classMethods =>
    apply (code.tells_declareClass plain sound name superclass methods classMethods isKnown
      proper).bind
      (Watched.runs_declareClass sound code.fits code.stands name superclass methods classMethods
        isKnown proper)
    intro value finish after _ _ _ knows _
    exact .pure knows .normal

omit rules

/-- The evaluator with a ledger does what the other one does. -/
theorem tellsWell (fuel : Nat) : TellsWell setting fuel := by
  have plain := exact.plain
  induction fuel with
  | zero =>
    constructor
    · exact fun _ _ _ _ _ _ code _ _ => .outOfFuel code.knows
    · exact fun _ _ _ _ _ _ code _ _ => .outOfFuel code.knows
    · exact fun _ _ _ _ _ _ knows _ _ => .outOfFuel knows
    · exact fun _ _ _ _ _ knows _ _ _ => .outOfFuel knows
    · exact fun _ _ _ _ _ _ code _ _ => .outOfFuel code.knows
    · exact fun _ _ _ _ _ _ _ code _ _ => .outOfFuel code.knows
    · exact fun _ _ _ _ _ _ _ code _ _ _ _ _ => .outOfFuel code.knows
  | succ fuel rules =>
    constructor
    · exact fun expression _ _ _ _ _ => tells_evaluate sound exact rules expression
    · exact fun expressions _ _ _ _ _ => tells_evaluateAll sound rules expressions
    · exact fun line callee arguments _ _ => tells_call sound rules line callee arguments
    · exact fun closure arguments _ _ => tells_invoke sound rules plain closure arguments
    · exact fun statement _ _ _ _ _ => tells_execute sound exact rules statement
    · exact fun statements result _ _ _ _ _ => tells_executeAll sound rules plain statements result
    · exact fun condition body _ _ _ _ _ => tells_loop sound rules plain condition body

/-- A program that was read runs with a ledger as it does without one. -/
theorem tells_interpret (fuel : Nat) (program : List Stmt) (result : Option Value)
    (code : Code setting .outside [] none start ledger)
    (isKnown : Stmt.occurrencesAll .outside [] program ⊆ setting.occurrences)
    (proper : Stmt.AreProper setting.names program) :
    Tells setting (Watched.interpret setting.addresses fuel result program)
      (Step.interpret setting.addresses fuel result program) start ledger Anything := by
  induction program generalizing result start ledger with
  | nil => exact .pure code.knows trivial
  | cons first others induction =>
    rw [Stmt.occurrencesAll, List.append_subset] at isKnown
    rw [Watched.interpret, Step.interpret]
    apply ((tellsWell sound exact fuel).execute first code isKnown.1 proper.1).bind
      ((Watched.runsWell sound fuel).execute first code.fits code.stands isKnown.1 proper.1)
    rintro flow middle after follows ⟨-, declares⟩ noted knows -
    have named := first.areNamed_locals proper.1
    have codeThen := code.declare exact.plain follows named declares.row noted knows
    exact induction _ codeThen isKnown.2 proper.2

end Lox.Tied
