import Lox.Proofs.Journal.Declarations

/-!
# Evaluation with a journal does the same

The evaluator that keeps a journal does what the evaluator does that keeps none, and its journal
is right: by induction on the bound of the evaluation, in all functions of the evaluator at once
(`notesWell`).
-/

namespace Lox.Noted

/-! ## Laws that the evaluator needs -/

section

variable {setting : Setting} {place : Place} {entered : Option Nat} {start finish : Moment}
  {journal after : Journal}

/-- A statement that adds no slots. -/
theorem Code.settles (code : Code setting place entered start journal)
    (knowsThen : Knows setting after finish) (still : start.layout.Still finish.layout) :
    Settles start finish after :=
  .of_row code.knows knowsThen (still _ code.stands.chain.lt_size)

/-- A statement that declares nothing. -/
theorem Code.settles_of_declares (code : Code setting place entered start journal)
    (knowsThen : Knows setting after finish)
    (declares : Watched.Declares start place.scopes [] finish) : Settles start finish after := by
  apply Settles.of_row code.knows knowsThen
  rw [declares.row, Scopes.declare_nil, code.stands.row]

/-- Only the watch notes something, and it creates no slot; code goes on. -/
theorem Code.noted {β : Type} {event : Machine → Event} {next : Unit → Watched β} {next' : Step β}
    {last : β → Moment → Journal → Prop} (code : Code setting place entered start journal)
    (created : ∀ frame, (event start.machine).created? frame = none)
    (rest : ∀ middle, Code setting place entered middle journal →
      middle.machine = start.machine → Notes setting (next ()) next' middle journal last) :
    Notes setting (Watched.note event >>= next) next' start journal last := by
  apply Notes.note code.knows created
  intro middle continues machine layout
  refine rest middle (code.follow continues ?_) machine
  rw [layout]
  exact .refl _

/-- A function is entered, and it is known when. -/
theorem Notes.enter {α : Type} {watched : Watched α} {next' : Nat → Step α}
    {post : α → Moment → Journal → Prop} {closure : Closure}
    (continues : Continues setting start journal start (journal ++ [.enters closure]))
    (rest : Notes setting watched (next' journal.length) start (journal ++ [.enters closure])
      post) :
    Notes setting watched (Step.enter closure >>= next') start journal post :=
  (Notes.jot continues rest).congr rfl rfl rfl

/-- Where a function is entered, all variables that wait were declared before. -/
theorem Unset.atEntry {scopes : Scopes} {frame : FrameId} {excused : Nat → Bool → Local → Prop}
    (unset : Unset journal start excused scopes frame) (own : Option String) :
    Unset journal start (Excused (some journal.length) own) scopes frame := by
  intro found index declared shown waits
  rcases unset found index declared shown waits with ⟨begun, hasInitial, pending, -⟩
  exact ⟨begun, hasInitial, pending, fun _ => .inr ⟨journal.length, rfl, pending.begun_lt⟩⟩

/-- A function is entered; nothing has been cut short since. -/
theorem since_enters (journal : Journal) (closure : Closure) :
    Since (some journal.length) (journal ++ [.enters closure]) := by
  rintro time ⟨⟩
  refine ⟨⟨closure, by simp⟩, ?_⟩
  intro cut frame slot here
  have calm : ∀ frame slot, .abandons frame slot ∉ [Note.enters closure] := by simp
  exact (List.getElem?_eq_some_iff.mp (calm_append calm cut frame slot here)).1

/-- An initialiser yields what the frame around its parameters holds. -/
theorem callResult_of_this {closure : Closure} {flow : Flow} {state : State} {this : Value}
    (here : state.machine.frames.get? closure.environment 0 0 = some (.initialised this)) :
    Step.callResult closure true flow state = .ok this state := by
  have looks : Step.ordinary EStateM.get state = .ok state.machine state := rfl
  rw [Step.callResult, if_pos rfl]
  simp only [Bind.bind, EStateM.bind]
  rw [show Step.ordinary get state = _ from looks]
  dsimp only
  rw [here]
  rfl

/-- The frame around the parameters of a bound method holds the instance. -/
theorem Knows.get?_of_binds (knows : Knows setting journal start) {closure : Closure}
    {target : Instance} (noted : .binds closure target ∈ journal) :
    start.machine.frames.get? closure.environment 0 0 =
      some (.initialised (.object target)) := by
  have holds := (knows.binds closure target noted).1
  simp [Frames.get?, Frames.ancestor?, holds]

/-- It is noted rightly what a function yields that is no initialiser. -/
theorem notes_yields_of_function {closure : Closure} {definition : Function} {flow : Flow}
    (knows : Knows setting journal start) (behaves : closure.behaviour = .body definition false)
    (known : Known setting flow.callResult start journal) :
    Notes setting (pure flow.callResult)
      (do
        let value ← Step.callResult closure false flow
        Step.note [.yields closure flow value]
        return value) start journal (Known setting) := by
  have right : (Note.yields closure flow flow.callResult).IsRight journal := by
    intro definition isInitializer behaves'
    cases behaves.symm.trans behaves'
    exact rfl
  have yields := continues_note knows right (by simp) (by simp)
  have told : Notes setting (pure flow.callResult)
      (Step.note [.yields closure flow flow.callResult] >>= fun _ => pure flow.callResult)
      start journal (Known setting) := .jot yields (.pure yields.knows (known.mono yields.grows))
  exact told

/-- It is noted rightly that an initialiser yields the instance that it is bound to. -/
theorem notes_yields_of_initializer {closure : Closure} {definition : Function} {flow : Flow}
    {target : Instance} (knows : Knows setting journal start)
    (behaves : closure.behaviour = .body definition true)
    (noted : .binds closure target ∈ journal) :
    Notes setting (pure (.object target))
      (do
        let value ← Step.callResult closure true flow
        Step.note [.yields closure flow value]
        return value) start journal (Known setting) := by
  have here := knows.get?_of_binds noted
  have known : Known setting (.object target) start journal := knows.functions.get? here
  have right : (Note.yields closure flow (.object target)).IsRight journal := by
    intro definition isInitializer behaves'
    cases behaves.symm.trans behaves'
    refine ⟨⟨target, noted⟩, ?_⟩
    intro other otherNoted
    have same := here.symm.trans (knows.get?_of_binds otherNoted)
    cases same
    rfl
  have yields := continues_note knows right (by simp) (by simp)
  have told : Notes setting (pure (.object target))
      (Step.note [.yields closure flow (.object target)] >>= fun _ => pure (.object target))
      start journal (Known setting) := .jot yields (.pure yields.knows (known.mono yields.grows))
  refine told.congr rfl rfl ?_
  have yielded : Step.callResult closure true flow ⟨start.machine, journal⟩ =
      .ok (.object target) ⟨start.machine, journal⟩ := callResult_of_this here
  show EStateM.bind (Step.callResult closure true flow) _ _ = _
  rw [EStateM.bind, yielded]

/-- A constant has no functions. -/
theorem known_of_literal {value : Value} (constant : ∃ literal, value = .ofLiteral literal) :
    Known setting value finish after := by
  rcases constant with ⟨literal, rfl⟩
  exact Value.all_ofLiteral literal

/-! ## Faults of operators -/

theorem explains_unary {op : UnaryOp} {line : Nat} {operand : Value} {error : RuntimeError}
    (applied : op.apply line operand = .error error) : Explains journal (.fault error) := by
  cases op with
  | negate => cases operand <;> cases applied <;> exact .of_other rfl
  | not => cases applied

theorem explains_applyNumbers {line : Nat} {operation : Float → Float → Value}
    {left right : Value} {error : RuntimeError}
    (applied : BinaryOp.applyNumbers line operation left right = .error error) :
    Explains journal (.fault error) := by
  cases left <;> cases right <;> cases applied <;> exact .of_other rfl

theorem explains_binary {op : BinaryOp} {line : Nat} {left right : Value} {error : RuntimeError}
    (applied : op.apply line left right = .error error) : Explains journal (.fault error) := by
  cases op with
  | add => cases left <;> cases right <;> cases applied <;> exact .of_other rfl
  | divide =>
    cases left <;> cases right <;> try (cases applied; exact .of_other rfl)
    next left right =>
      replace applied : (if right == 0 then .error (⟨line, .divisionByZero⟩ : RuntimeError) else
        .ok (Value.number (left / right))) = Except.error error := applied
      split at applied <;> cases applied
      exact .of_other rfl
  | equal | notEqual => cases applied
  | _ => exact explains_applyNumbers applied

end

/-! ## The evaluator -/

/-- The value that a statement returns is known. -/
def Returns (setting : Setting) (flow : Flow) (finish : Moment) (after : Journal) : Prop :=
  ∀ value, flow = .returned value → Known setting value finish after

theorem Returns.normal {setting : Setting} {result : Option Value} {finish : Moment}
    {after : Journal} : Returns setting (.normal result) finish after := by
  intro value impossible
  cases impossible

/-- Within a bound on its depth the evaluator with a journal does what the other one does. -/
structure NotesWell (setting : Setting) (fuel : Nat) : Prop where
  evaluate : ∀ (expression : Expr) {place entered start journal},
    Code setting place entered start journal →
    expression.occurrences place.around place.scopes ⊆ setting.occurrences →
    expression.IsProper setting.names → (∀ site ∈ expression.sites place, site.IsSound) →
    Notes setting (Watched.evaluate setting.addresses (!place.scopes.isEmpty) fuel expression)
      (Step.evaluate setting.addresses entered fuel expression) start journal
      fun value finish after => Watched.Yields setting start value finish ∧
        Known setting value finish after
  evaluateAll : ∀ (expressions : List Expr) {place entered start journal},
    Code setting place entered start journal →
    Expr.occurrencesAll place.around place.scopes expressions ⊆ setting.occurrences →
    Expr.AreProper setting.names expressions →
    (∀ site ∈ Expr.sitesAll place expressions, site.IsSound) →
    Notes setting (Watched.evaluateAll setting.addresses (!place.scopes.isEmpty) fuel expressions)
      (Step.evaluateAll setting.addresses entered fuel expressions) start journal
      fun values finish after => Watched.YieldsAll setting start expressions.length values finish ∧
        ∀ value ∈ values, Known setting value finish after
  call : ∀ (line : Nat) (callee : Value) (arguments : List Value) {start journal},
    Knows setting journal start → IsKnown setting journal start callee →
    (∀ argument ∈ arguments, IsKnown setting journal start argument) →
    Notes setting (Watched.call setting.addresses fuel line callee arguments)
      (Step.call setting.addresses fuel line callee arguments) start journal
      fun value finish after => Watched.Yields setting start value finish ∧
        Known setting value finish after
  invoke : ∀ (closure : Closure) (arguments : List Value) {start journal},
    Knows setting journal start → IsCallable setting journal start closure →
    (∀ argument ∈ arguments, IsKnown setting journal start argument) →
    closure.arity = arguments.length →
    Notes setting (Watched.invoke setting.addresses fuel closure arguments)
      (Step.invoke setting.addresses fuel closure arguments) start journal
      fun value finish after => Watched.Yields setting start value finish ∧
        Known setting value finish after
  execute : ∀ (statement : Stmt) {place entered start journal},
    Code setting place entered start journal → place.initialises = none →
    statement.occurrences place.around place.scopes ⊆ setting.occurrences →
    statement.IsProper setting.names → (∀ site ∈ statement.sites place, site.IsSound) →
    Notes setting (Watched.execute setting.addresses (!place.scopes.isEmpty) fuel statement)
      (Step.execute setting.addresses entered fuel statement) start journal
      fun flow finish after =>
        Watched.EndsWith setting start place.scopes statement.locals flow finish ∧
          Returns setting flow finish after ∧ Settles start finish after
  executeAll : ∀ (statements : List Stmt) (result : Option Value) {place entered start journal},
    Code setting place entered start journal → place.initialises = none →
    Stmt.occurrencesAll place.around place.scopes statements ⊆ setting.occurrences →
    Stmt.AreProper setting.names statements →
    (∀ site ∈ Stmt.sitesAll place statements, site.IsSound) →
    Notes setting
      (Watched.executeAll setting.addresses (!place.scopes.isEmpty) fuel result statements)
      (Step.executeAll setting.addresses entered fuel result statements) start journal
      fun flow finish after => Watched.Ends setting start flow finish ∧
        Returns setting flow finish after
  loop : ∀ (condition : Expr) (body : Stmt) {place entered start journal},
    Code setting place entered start journal → place.initialises = none →
    condition.occurrences place.around place.scopes ⊆ setting.occurrences →
    body.occurrences place.around place.scopes ⊆ setting.occurrences →
    condition.IsProper setting.names → body.IsProper setting.names → body.locals = [] →
    (∀ site ∈ condition.sites place, site.IsSound) → (∀ site ∈ body.sites place, site.IsSound) →
    Notes setting
      (Watched.loop setting.addresses (!place.scopes.isEmpty) fuel condition body)
      (Step.loop setting.addresses entered fuel condition body) start journal
      fun flow finish after => Watched.EndsWith setting start place.scopes [] flow finish ∧
        Returns setting flow finish after

variable {setting : Setting} {place : Place} {entered : Option Nat} {start : Moment}
  {journal : Journal} {fuel : Nat} (rules : NotesWell setting fuel)
include rules

/-- Code goes on after an expression, where it stood before. -/
theorem notes_evaluated {β : Type} (expression : Expr) {next : Value → Watched β}
    {next' : Value → Step β} {last : β → Moment → Journal → Prop}
    (code : Code setting place entered start journal)
    (isKnown : expression.occurrences place.around place.scopes ⊆ setting.occurrences)
    (proper : expression.IsProper setting.names)
    (sites : ∀ site ∈ expression.sites place, site.IsSound)
    (rest : ∀ value middle between, Continues setting start journal middle between →
      start.layout.Still middle.layout → Code setting place entered middle between →
        Known setting value middle between →
          Notes setting (next value) (next' value) middle between last) :
    Notes setting
      (Watched.evaluate setting.addresses (!place.scopes.isEmpty) fuel expression >>= next)
      (Step.evaluate setting.addresses entered fuel expression >>= next') start journal last := by
  apply (rules.evaluate expression code isKnown proper sites).bind
  rintro value middle between continues ⟨⟨-, still⟩, known⟩
  exact rest value middle between continues still (code.follow continues still) known

theorem notes_evaluateAll (expressions : List Expr)
    (code : Code setting place entered start journal)
    (isKnown : Expr.occurrencesAll place.around place.scopes expressions ⊆ setting.occurrences)
    (proper : Expr.AreProper setting.names expressions)
    (sites : ∀ site ∈ Expr.sitesAll place expressions, site.IsSound) :
    Notes setting
      (Watched.evaluateAll setting.addresses (!place.scopes.isEmpty) (fuel + 1) expressions)
      (Step.evaluateAll setting.addresses entered (fuel + 1) expressions) start journal
      fun values finish after => ∀ value ∈ values, Known setting value finish after := by
  cases expressions with
  | nil => exact .pure code.knows fun _ impossible => by cases impossible
  | cons first others =>
    rw [Expr.occurrencesAll, List.append_subset] at isKnown
    rw [Expr.sitesAll, List.forall_mem_append] at sites
    rw [Watched.evaluateAll, Step.evaluateAll]
    apply notes_evaluated rules first code isKnown.1 proper.1 sites.1
    intro value middle between _ _ code known
    apply (rules.evaluateAll others code isKnown.2 proper.2 sites.2).bind
    rintro values finish after continuesThen ⟨-, allKnown⟩
    apply Notes.pure continuesThen.knows
    exact List.forall_mem_cons.mpr ⟨known.mono continuesThen.grows, allKnown⟩

theorem notes_call (line : Nat) (callee : Value) (arguments : List Value)
    (knows : Knows setting journal start) (known : IsKnown setting journal start callee)
    (allKnown : ∀ argument ∈ arguments, IsKnown setting journal start argument) :
    Notes setting (Watched.call setting.addresses (fuel + 1) line callee arguments)
      (Step.call setting.addresses (fuel + 1) line callee arguments) start journal
      (Known setting) := by
  rw [Watched.call.eq_def, Step.call.eq_def]
  cases callee with
  | function closure =>
    apply (notes_checkArity knows line closure.arity arguments.length).bind
    rintro _ _ _ - ⟨rfl, rfl, arity⟩
    apply (rules.invoke closure arguments knows known allKnown arity).imp
    exact fun _ _ _ _ ends => ends.2
  | type ofClass =>
    apply (notes_checkArity knows line ofClass.arity arguments.length).bind
    rintro _ _ _ - ⟨rfl, rfl, arity⟩
    apply (notes_newInstance knows ofClass).bind
    intro created first between continues isInstance
    have objectKnown : IsKnown setting between first (.object created) := by
      have classKnown := IsKnown.mono continues.grows known
      show created.ofClass.All _ _
      rw [isInstance]
      exact classKnown
    cases found : ofClass.initializer? with
    | none => exact .pure continues.knows objectKnown
    | some initializer =>
      have ready : IsReady setting between first [[.this]] initializer := by
        rw [← isInstance] at found
        exact Class.All.method? objectKnown found
      apply (notes_bindMethod continues.knows objectKnown ready).bind
      rintro bound second last continuesThen ⟨callable, behaviour⟩
      have sameArity := (Watched.arity_of_initializer? found behaviour).trans arity
      have stillKnown : ∀ argument ∈ arguments, IsKnown setting last second argument :=
        fun argument member => (allKnown argument member).mono
          (continues.grows.trans continuesThen.grows)
      apply (rules.invoke bound arguments continuesThen.knows callable stillKnown sameArity).bind
      intro _ third final continuesLast _
      exact .pure continuesLast.knows
        (objectKnown.mono (continuesThen.grows.trans continuesLast.grows))
  | _ => exact .fail knows line rfl

/-- The statements of a block or of a function run in a frame of their own. -/
theorem notes_inside (body : List Stmt) {inner : FrameId} (settled : place.initialises = none)
    (knows : Knows setting journal start) (since : Since entered journal)
    (surrounds : place.around.Fits setting.names place.scopes)
    (chain : start.layout.Chain ([] :: place.scopes) inner) (row : start.layout.row inner = [])
    (unset : Unset journal start (Excused entered none) ([] :: place.scopes) inner)
    (isKnown : Stmt.occurrencesAll place.around ([] :: place.scopes) body ⊆ setting.occurrences)
    (proper : Stmt.AreProper setting.names body)
    (sites : ∀ site ∈ Stmt.sitesAll place.inBlock body, site.IsSound) :
    Notes setting (.within inner (Watched.executeAll setting.addresses true fuel none body))
      (Step.within inner (Step.executeAll setting.addresses entered fuel none body)) start journal
      (Returns setting) := by
  have stands := Moment.Stands.enter surrounds chain row
  have code : Code setting place.inBlock entered
      ⟨start.history, { start.machine with current := inner }⟩ journal := by
    refine ⟨stands, knows.goTo inner, ?_, since, ?_⟩
    · intro name impossible
      rw [Place.inBlock, settled] at impossible
      cases impossible
    · rw [Place.inBlock, settled]
      exact unset
  apply (rules.executeAll body none code settled isKnown proper sites).within
  rintro flow history machine after ⟨-, returns⟩ value same
  exact (returns value same).mono (Grows.goTo _ after _)

/-- The body of a function runs in new frames for itself and its parameters. -/
theorem notes_body {β : Type} {environment : FrameId} (parameters : List Name)
    (statements : List Stmt) (arguments : List Value) {next : Flow → Watched β}
    {next' : Flow → Step β} {last : β → Moment → Journal → Prop} {role : FunctionContext}
    {around : Surroundings} {scopes : Scopes}
    (knows : Knows setting journal start) (since : Since entered journal)
    (surrounds : around.Fits setting.names scopes)
    (chain : start.layout.Chain scopes environment)
    (unset : Unset journal start (Excused entered none) scopes environment)
    (isKnown : (Function.mk parameters statements).occurrences around scopes ⊆ setting.occurrences)
    (proper : (Function.mk parameters statements).IsProper setting.names)
    (sites : ∀ site ∈ Stmt.sitesAll
      (Place.mk role around none (parameters.map Local.named :: scopes)).inBlock statements,
        site.IsSound)
    (sameLength : parameters.length = arguments.length)
    (allKnown : ∀ argument ∈ arguments, IsKnown setting journal start argument)
    (rest : ∀ flow finish after, Continues setting start journal finish after →
      Returns setting flow finish after →
        Notes setting (next flow) (next' flow) finish after last) :
    Notes setting
      (do
        let frame ← Watched.newFrame environment (parameters.map Local.named) arguments
        let body ← Watched.newFrame frame [] []
        let flow ← Watched.within body
          (Watched.executeAll setting.addresses true fuel none statements)
        next flow)
      (do
        let frame ← Step.newFrame environment (parameters.map fun _ => .parameter) arguments
        let body ← Step.newFrame frame [] []
        let flow ← Step.within body
          (Step.executeAll setting.addresses entered fuel none statements)
        next' flow) start journal last := by
  have areNamed := Local.areNamed_parameters proper.1
  have hold := Watched.forall₂_named sameLength fun argument member =>
    IsKnown.fits (allKnown argument member)
  apply (notes_newFrame knows chain
    (parameters.map fun _ => .parameter) (by simpa using sameLength) hold allKnown).bind
  rintro frame first between continues ⟨frameIs, firstLayout, inParameters, slots⟩
  have noValues : ∀ value ∈ ([] : List Value), IsKnown setting between first value :=
    List.forall_mem_nil _
  apply (notes_newFrame continues.knows inParameters [] rfl .nil noValues).bind
  rintro inner second final continuesThen ⟨innerIs, secondLayout, inBody, -⟩
  have row := Layout.row_of_add secondLayout innerIs
  have unsetParameters : Unset between first (Excused entered none)
      (parameters.map Local.named :: scopes) frame := by
    apply (unset.mono chain continues.grows).cons (Layout.enclosing_of_add firstLayout frameIs)
    intro index _ waits
    rw [← Array.getElem?_toList, slots, List.getElem?_map] at waits
    rcases Option.map_eq_some_iff.mp waits with ⟨_, -, impossible⟩
    cases impossible
  have unsetBody : Unset final second (Excused entered none)
      ([] :: parameters.map Local.named :: scopes) inner := by
    apply (unsetParameters.mono inParameters continuesThen.grows).cons
      (Layout.enclosing_of_add secondLayout innerIs)
    intro index impossible
    cases impossible
  have settled : Place.initialises ⟨role, around, none, parameters.map Local.named :: scopes⟩ =
    none := rfl
  apply (notes_inside rules statements settled continuesThen.knows
    (since.mono (continues.trans continuesThen)) (surrounds.cons areNamed) inBody row unsetBody
    isKnown proper.2 sites).bind
  intro flow third after continuesLast returns
  exact rest flow third after ((continues.trans continuesThen).trans continuesLast) returns

theorem notes_invoke (closure : Closure) (arguments : List Value)
    (knows : Knows setting journal start) (callable : IsCallable setting journal start closure)
    (allKnown : ∀ argument ∈ arguments, IsKnown setting journal start argument)
    (arity : closure.arity = arguments.length) :
    Notes setting (Watched.invoke setting.addresses (fuel + 1) closure arguments)
      (Step.invoke setting.addresses (fuel + 1) closure arguments) start journal
      (Known setting) := by
  rw [Watched.invoke.eq_def, Step.invoke.eq_def]
  dsimp only
  cases behaves : closure.behaviour with
  | clock =>
    apply Notes.get
    exact .pure knows trivial
  | body definition isInitializer =>
    rcases callable with ⟨⟨place, chain, unset, body⟩, bound⟩
    rcases body definition isInitializer behaves with ⟨⟨isKnown, proper, surrounds⟩, role, sites⟩
    rcases definition with ⟨parameters, statements⟩
    have sameLength : parameters.length = arguments.length :=
      (Watched.arity_of_body behaves).symm.trans arity
    have right : (Note.enters closure).IsRight journal := trivial
    have enters := continues_note knows right (by simp) (by simp)
    have knownThen : ∀ argument ∈ arguments,
        IsKnown setting (journal ++ [.enters closure]) start argument :=
      fun argument member => (allKnown argument member).mono enters.grows
    have inBlock := List.forall_mem_cons.mp (List.forall_mem_cons.mp sites).2
    apply Notes.enter enters
    apply notes_body rules parameters statements arguments enters.knows
      (since_enters journal closure) surrounds chain ((unset.atEntry none).mono chain enters.grows)
      isKnown proper inBlock.2 sameLength knownThen
    intro flow finish after continues returns
    cases isInitializer with
    | false =>
      apply notes_yields_of_function continues.knows behaves
      cases flow with
      | returned value => exact returns value rfl
      | _ => trivial
    | true =>
      rcases bound _ behaves with ⟨target, noted⟩
      have notedThen := (enters.trans continues).grows.begins.subset noted
      rw [if_pos rfl]
      apply Notes.lookThere
      rw [continues.knows.get?_of_binds notedThen]
      exact notes_yields_of_initializer continues.knows behaves notedThen

/-- The value of an assignment is evaluated before its variable is looked up. -/
theorem notes_assignment (sound : setting.Sound) (plain : setting.Plain) (target : Reference)
    (value : Expr) (code : Code setting place entered start journal)
    (valueKnown : value.occurrences place.around place.scopes ⊆ setting.occurrences)
    (isKnown : target.occurrence place.scopes ∈ setting.occurrences)
    (isName : setting.names target.name.text) (proper : value.IsProper setting.names)
    (sites : ∀ site ∈ value.sites place, site.IsSound) :
    Notes setting
      (do
        Watched.note (.reaches target.id)
        let value ← Watched.evaluate setting.addresses (!place.scopes.isEmpty) fuel value
        Watched.use setting.addresses (.assign target value))
      (do
        let value ← Step.evaluate setting.addresses entered fuel value
        Step.assignVariable setting.addresses target value
        return value) start journal (Known setting) := by
  apply code.noted fun _ => rfl
  clear code
  intro first code _
  apply notes_evaluated rules value code valueKnown proper sites
  intro result second after _ _ codeThen known
  apply Notes.note codeThen.knows fun _ => rfl
  intro third continuesThen _ layout
  have knownThen := known.mono continuesThen.grows
  have standsThen : third.Stands setting place.around place.scopes := by
    apply codeThen.stands.follow continuesThen.follows
    rw [layout]
    exact .refl _
  apply (notes_assignVariable continuesThen.knows sound plain standsThen isKnown isName
    knownThen).bind
  intro _ fourth last continuesLast _
  exact .pure continuesLast.knows (knownThen.mono continuesLast.grows)

omit rules in
/-- An anonymous function is made where code stands. -/
theorem notes_function (definition : Function) (code : Code setting place entered start journal)
    (isKnown : definition.occurrences place.around place.scopes ⊆ setting.occurrences)
    (proper : definition.IsProper setting.names)
    (sites : ∀ site ∈ definition.sites .function place, site.IsSound) :
    Notes setting
      (do
        let machine ← Watched.quiet get
        return Value.function (← Watched.quiet
          (Lox.Step.newClosure machine.current "anonymous" (.body definition false))))
      (do
        let machine ← Step.ordinary get
        return Value.function (← Step.ordinary
          (.newClosure machine.current "anonymous" (.body definition false)))) start journal
      (Known setting) := by
  apply Notes.get
  apply (notes_newClosure code.knows start.machine.current "anonymous" _).bind
  rintro closure finish _ continues ⟨environment, behaviour, -, layout, rfl⟩
  refine .pure continues.knows ⟨⟨place, ?_, ?_, ?_⟩, ?_⟩
  · rw [environment, layout]
    exact code.stands.chain
  · rw [environment]
    exact (code.unset.mono code.stands.chain continues.grows).imp fun _ _ _ _ => trivial
  · rw [behaviour]
    rintro found isInitializer ⟨⟩
    exact ⟨⟨isKnown, proper, code.stands.around⟩, .function, sites⟩
  · rw [behaviour]
    rintro found ⟨⟩

/-- An expression is evaluated: it is known what it yields, and its variables are read rightly. -/
theorem notes_evaluate (sound : setting.Sound) (plain : setting.Plain) (expression : Expr)
    (code : Code setting place entered start journal)
    (isKnown : expression.occurrences place.around place.scopes ⊆ setting.occurrences)
    (proper : expression.IsProper setting.names)
    (sites : ∀ site ∈ expression.sites place, site.IsSound) :
    Notes setting
      (Watched.evaluate setting.addresses (!place.scopes.isEmpty) (fuel + 1) expression)
      (Step.evaluate setting.addresses entered (fuel + 1) expression) start journal
      (Known setting) := by
  rw [Watched.evaluate.eq_def, Step.evaluate.eq_def]
  apply code.noted fun _ => rfl
  clear code
  intro middle code _
  cases expression with
  | literal value => exact .pure code.knows (Value.all_ofLiteral value)
  | group inner =>
    rw [Expr.occurrences] at isKnown
    rw [Expr.sites] at sites
    exact (rules.evaluate inner code isKnown proper sites).imp fun _ _ _ _ ends => ends.2
  | unary op line operand =>
    rw [Expr.occurrences] at isKnown
    rw [Expr.sites] at sites
    apply notes_evaluated rules operand code isKnown proper sites
    intro value finish after _ _ code _
    exact notes_ofExcept code.knows
      (fun _ applied => known_of_literal (Watched.exists_literal_of_unary applied))
      fun _ applied => explains_unary applied
  | binary op line left right =>
    rw [Expr.occurrences, List.append_subset] at isKnown
    rw [Expr.sites, List.forall_mem_append] at sites
    apply notes_evaluated rules left code isKnown.1 proper.1 sites.1
    intro leftValue second after _ _ code _
    apply notes_evaluated rules right code isKnown.2 proper.2 sites.2
    intro rightValue third last _ _ code _
    exact notes_ofExcept code.knows
      (fun _ applied => known_of_literal (Watched.exists_literal_of_binary applied))
      fun _ applied => explains_binary applied
  | logical op line left right =>
    rw [Expr.occurrences, List.append_subset] at isKnown
    rw [Expr.sites, List.forall_mem_append] at sites
    apply notes_evaluated rules left code isKnown.1 proper.1 sites.1
    intro leftValue second after _ _ code known
    split
    · exact .pure code.knows known
    · exact (rules.evaluate right code isKnown.2 proper.2 sites.2).imp fun _ _ _ _ ends => ends.2
  | read target =>
    rw [Expr.occurrences, List.cons_subset] at isKnown
    rw [Expr.sites, List.forall_mem_singleton] at sites
    apply (notes_read code.knows sound code.stands isKnown.1 rfl ?_ target.name).imp
    · exact fun _ _ _ _ ends => ends.2
    · intro found index declared shown text waits
      apply code.unset.rightly code.since shown _ waits
      rw [text]
      exact sites
  | assign target value =>
    rw [Expr.occurrences, List.append_subset, List.cons_subset] at isKnown
    rw [Expr.sites] at sites
    exact notes_assignment rules sound plain target value code isKnown.1 isKnown.2.1 proper.1
      proper.2 sites
  | call callee line arguments =>
    rw [Expr.occurrences, List.append_subset] at isKnown
    rw [Expr.sites, List.forall_mem_append] at sites
    apply notes_evaluated rules callee code isKnown.1 proper.1 sites.1
    intro calleeValue second after _ _ code known
    apply (rules.evaluateAll arguments code isKnown.2 proper.2 sites.2).bind
    rintro values third last continuesThen ⟨-, allKnown⟩
    apply (rules.call line calleeValue values continuesThen.knows
      (known.mono continuesThen.grows) allKnown).imp
    exact fun _ _ _ _ ends => ends.2
  | function definition =>
    rw [Expr.occurrences] at isKnown
    rw [Expr.sites] at sites
    exact notes_function definition code isKnown proper sites
  | get object name =>
    rw [Expr.occurrences] at isKnown
    rw [Expr.sites] at sites
    apply notes_evaluated rules object code isKnown proper sites
    intro target second after _ _ code known
    exact notes_property code.knows known name
  | set object name value =>
    rw [Expr.occurrences, List.append_subset] at isKnown
    rw [Expr.sites, List.forall_mem_append] at sites
    apply notes_evaluated rules object code isKnown.1 proper.1 sites.1
    intro target second after _ _ code _
    cases target with
    | object target =>
      apply notes_evaluated rules value code isKnown.2 proper.2 sites.2
      intro result third last _ _ code known
      apply (notes_setField code.knows target name.text known).bind
      intro _ fourth final continuesLast _
      exact .pure continuesLast.knows (known.mono continuesLast.grows)
    | _ => exact .fail code.knows name.line rfl
  | this id line =>
    rw [Expr.occurrences, List.cons_subset] at isKnown
    apply (notes_read code.knows sound code.stands isKnown.1 rfl ?_ ⟨"this", line⟩).imp
    · exact fun _ _ _ _ ends => ends.2
    · intro found index declared shown text waits
      apply code.unset.rightly code.since shown _ waits
      intro own
      -- The initial value of a variable called `this` cannot be meant: no name is spelt so.
      exact (plain _ (code.initialises _ own)).1 text
  | super id line method =>
    rw [Expr.occurrences, List.cons_subset] at isKnown
    apply Notes.note code.knows fun _ => rfl
    intro finish continues _ _
    exact notes_superMethod continues.knows id line method

theorem notes_executeAll (statements : List Stmt) (result : Option Value)
    (code : Code setting place entered start journal) (settled : place.initialises = none)
    (isKnown : Stmt.occurrencesAll place.around place.scopes statements ⊆ setting.occurrences)
    (proper : Stmt.AreProper setting.names statements)
    (sites : ∀ site ∈ Stmt.sitesAll place statements, site.IsSound) :
    Notes setting
      (Watched.executeAll setting.addresses (!place.scopes.isEmpty) (fuel + 1) result statements)
      (Step.executeAll setting.addresses entered (fuel + 1) result statements) start journal
      (Returns setting) := by
  cases statements with
  | nil => exact .pure code.knows .normal
  | cons first others =>
    rw [Stmt.occurrencesAll, List.append_subset] at isKnown
    rw [Stmt.sitesAll, List.forall_mem_append] at sites
    rw [Watched.executeAll, Step.executeAll]
    apply (rules.execute first code settled isKnown.1 proper.1 sites.1).bind
    rintro flow middle between continues ⟨⟨-, declares⟩, returns, settles⟩
    cases flow with
    | normal result =>
      have named := first.areNamed_locals proper.1
      have codeThen := code.next settled continues named declares settles
      have rest := rules.executeAll others result codeThen settled isKnown.2 proper.2 sites.2
      rw [Place.declare, Scopes.isEmpty_declare] at rest
      exact rest.imp fun _ _ _ _ ends => ends.2
    | _ => exact .pure continues.knows returns

theorem notes_loop (condition : Expr) (body : Stmt)
    (code : Code setting place entered start journal) (settled : place.initialises = none)
    (conditionKnown : condition.occurrences place.around place.scopes ⊆ setting.occurrences)
    (bodyKnown : body.occurrences place.around place.scopes ⊆ setting.occurrences)
    (conditionProper : condition.IsProper setting.names) (bodyProper : body.IsProper setting.names)
    (noLocals : body.locals = []) (conditionSites : ∀ site ∈ condition.sites place, site.IsSound)
    (bodySites : ∀ site ∈ body.sites place, site.IsSound) :
    Notes setting
      (Watched.loop setting.addresses (!place.scopes.isEmpty) (fuel + 1) condition body)
      (Step.loop setting.addresses entered (fuel + 1) condition body) start journal
      (Returns setting) := by
  rw [Watched.loop, Step.loop]
  apply notes_evaluated rules condition code conditionKnown conditionProper conditionSites
  intro value middle between _ _ codeThen _
  split
  · apply (rules.execute body codeThen settled bodyKnown bodyProper bodySites).bind
    rintro flow finish after continuesThen ⟨⟨-, declares⟩, returns, settles⟩
    rw [noLocals] at declares
    cases flow with
    | normal result =>
      have codeLast := codeThen.next settled continuesThen Local.areNamed_nil declares settles
      rw [Place.declare, Scopes.declare_nil] at codeLast
      apply (rules.loop condition body codeLast settled conditionKnown bodyKnown conditionProper
        bodyProper noLocals conditionSites bodySites).imp
      exact fun _ _ _ _ ends => ends.2
    | broken => exact .pure continuesThen.knows .normal
    | returned value => exact .pure continuesThen.knows returns
  · exact .pure codeThen.knows .normal

/-- A variable is declared before its initial value is evaluated, and waits until then. -/
theorem notes_varDecl (name : Name) (initial : Expr)
    (code : Code setting place entered start journal) (settled : place.initialises = none)
    (isName : setting.names name.text)
    (isKnown : initial.occurrences place.around (place.scopes.declare [.named name]) ⊆
      setting.occurrences)
    (proper : initial.IsProper setting.names)
    (sites : ∀ site ∈ initial.sites (place.initialising name), site.IsSound) :
    Notes setting
      (do
        Watched.declareVariable name
          (some (Watched.evaluate setting.addresses (!place.scopes.isEmpty) fuel initial))
        return Flow.normal none)
      (do
        Step.declareVariable name (some (Step.evaluate setting.addresses entered fuel initial))
        return Flow.normal none) start journal
      fun flow finish after => Returns setting flow finish after ∧ Settles start finish after := by
  have told : Option.Rel (fun watched noted => ∀ first between,
      Code setting (place.initialising name) entered first between →
        Notes setting watched noted first between fun value finish after =>
          Watched.Yields setting first value finish ∧ Known setting value finish after)
      (some (Watched.evaluate setting.addresses (!place.scopes.isEmpty) fuel initial))
      (some (Step.evaluate setting.addresses entered fuel initial)) := by
    apply Option.Rel.some
    intro first between inside
    have told := rules.evaluate initial inside isKnown proper sites
    rwa [Place.initialising, Place.declare, Scopes.isEmpty_declare] at told
  apply (code.notes_declareVariable settled isName told).bind
  intro _ finish after continues settles
  exact .pure continues.knows ⟨.normal, settles⟩

/-- A block runs in a frame of its own, so that nothing of it waits in the frames around it. -/
theorem notes_block (sound : setting.Sound) (body : List Stmt)
    (code : Code setting place entered start journal) (settled : place.initialises = none)
    (isKnown : Stmt.occurrencesAll place.around ([] :: place.scopes) body ⊆ setting.occurrences)
    (proper : Stmt.AreProper setting.names body)
    (sites : ∀ site ∈ Stmt.sitesAll place.inBlock body, site.IsSound) :
    Notes setting
      (do
        let machine ← Watched.quiet get
        let frame ← Watched.newFrame machine.current [] []
        .within frame (Watched.executeAll setting.addresses true fuel none body))
      (do
        let machine ← Step.ordinary get
        let frame ← Step.newFrame machine.current [] []
        Step.within frame (Step.executeAll setting.addresses entered fuel none body)) start journal
      fun flow finish after => Returns setting flow finish after ∧ Settles start finish after := by
  apply Notes.get
  have noValues : ∀ value ∈ ([] : List Value), IsKnown setting journal start value :=
    List.forall_mem_nil _
  apply (notes_newFrame code.knows code.stands.chain [] rfl .nil noValues).bind
  rintro inner second after continues ⟨innerIs, layout, inBlock, -⟩
  have row := Layout.row_of_add layout innerIs
  have unset : Unset after second (Excused entered none) ([] :: place.scopes) inner := by
    have around := code.unset.mono code.stands.chain continues.grows
    rw [settled] at around
    apply around.cons (Layout.enclosing_of_add layout innerIs)
    intro index impossible
    cases impossible
  have runs := Watched.runs_inside (Watched.runsWell sound fuel) body continues.knows.fits
    code.stands.around inBlock row isKnown proper
  apply ((notes_inside rules body settled continues.knows (code.since.mono continues)
    code.stands.around inBlock row unset isKnown proper sites).and runs).imp
  rintro flow finish last continuesThen ⟨⟨-, stillBut⟩, returns⟩
  exact ⟨returns, code.settles continuesThen.knows (.of_inside layout innerIs stillBut)⟩

/-- After the condition a branch goes on, and only what it declares may wait. -/
theorem notes_branches (condition : Expr) {whenTrue whenFalse : Watched Flow}
    {whenTrue' whenFalse' : Step Flow} (code : Code setting place entered start journal)
    (isKnown : condition.occurrences place.around place.scopes ⊆ setting.occurrences)
    (proper : condition.IsProper setting.names)
    (sites : ∀ site ∈ condition.sites place, site.IsSound)
    (toldTrue : ∀ middle between, Code setting place entered middle between →
      Notes setting whenTrue whenTrue' middle between fun flow finish after =>
        Returns setting flow finish after ∧ Settles middle finish after)
    (toldFalse : ∀ middle between, Code setting place entered middle between →
      Notes setting whenFalse whenFalse' middle between fun flow finish after =>
        Returns setting flow finish after ∧ Settles middle finish after) :
    Notes setting
      (do
        let value ← Watched.evaluate setting.addresses (!place.scopes.isEmpty) fuel condition
        if value.isTruthy then whenTrue else whenFalse)
      (do
        let value ← Step.evaluate setting.addresses entered fuel condition
        if value.isTruthy then whenTrue' else whenFalse') start journal
      fun flow finish after => Returns setting flow finish after ∧ Settles start finish after := by
  apply notes_evaluated rules condition code isKnown proper sites
  intro value middle between continues still codeThen _
  have behind : ∀ {flow finish after},
      Returns setting flow finish after ∧ Settles middle finish after →
        Returns setting flow finish after ∧ Settles start finish after := by
    rintro flow finish after ⟨returns, settles⟩
    exact ⟨returns, settles.behind code.knows continues still code.stands.chain.lt_size⟩
  split
  · exact (toldTrue middle between codeThen).imp fun _ _ _ _ ends => behind ends
  · exact (toldFalse middle between codeThen).imp fun _ _ _ _ ends => behind ends

/-- A statement is executed: only variables of `var` without a value wait after it. -/
theorem notes_execute (sound : setting.Sound) (statement : Stmt)
    (code : Code setting place entered start journal) (settled : place.initialises = none)
    (isKnown : statement.occurrences place.around place.scopes ⊆ setting.occurrences)
    (proper : statement.IsProper setting.names)
    (sites : ∀ site ∈ statement.sites place, site.IsSound) :
    Notes setting (Watched.execute setting.addresses (!place.scopes.isEmpty) (fuel + 1) statement)
      (Step.execute setting.addresses entered (fuel + 1) statement) start journal
      fun flow finish after => Returns setting flow finish after ∧ Settles start finish after := by
  rw [Watched.execute.eq_def, Step.execute.eq_def]
  apply code.noted fun _ => rfl
  clear code
  intro middle code machine
  have back : Settles middle = Settles start := by
    funext finish after
    rw [Settles, Settles, machine]
  rw [← back]
  clear back machine
  cases statement with
  | expression value =>
    rw [Stmt.occurrences] at isKnown
    rw [Stmt.sites] at sites
    apply notes_evaluated rules value code isKnown proper sites
    intro result finish after continues still _ _
    exact .pure continues.knows ⟨.normal, code.settles continues.knows still⟩
  | print value =>
    rw [Stmt.occurrences] at isKnown
    rw [Stmt.sites] at sites
    apply notes_evaluated rules value code isKnown proper sites
    intro result second after continues still _ _
    apply ((notes_print continues.knows result.display).and
      (Watched.runs_print continues.knows.fits result.display)).bind
    rintro _ third last continuesThen ⟨same, -⟩
    refine .pure continuesThen.knows ⟨.normal, code.settles continuesThen.knows ?_⟩
    have layout : third.layout = second.layout := same
    rw [layout]
    exact still
  | varDecl name initial =>
    cases initial with
    | none =>
      apply (code.notes_declareVariable settled proper .none).bind
      intro _ finish after continues settles
      exact .pure continues.knows ⟨.normal, settles⟩
    | some initial =>
      rw [Stmt.occurrences] at isKnown
      rw [Stmt.sites] at sites
      exact notes_varDecl rules name initial code settled proper.1 isKnown proper.2 sites
  | block body =>
    rw [Stmt.occurrences] at isKnown
    rw [Stmt.sites, List.forall_mem_cons] at sites
    exact notes_block rules sound body code settled isKnown proper sites.2
  | ifElse condition whenTrue whenFalse =>
    cases whenFalse with
    | none =>
      rw [Stmt.occurrences, List.append_subset] at isKnown
      rw [Stmt.sites, List.forall_mem_append] at sites
      apply notes_branches rules condition code isKnown.1 proper.1 sites.1
      · intro middle between code
        exact (rules.execute whenTrue code settled isKnown.2 proper.2.1 sites.2).imp
          fun _ _ _ _ ends => ends.2
      · exact fun middle between code =>
          .pure code.knows ⟨.normal, code.settles code.knows (.refl _)⟩
    | some whenFalse =>
      rw [Stmt.occurrences, List.append_subset, List.append_subset, proper.2.1.2,
        Scopes.declare_nil] at isKnown
      rw [Stmt.sites, List.forall_mem_append, List.forall_mem_append, proper.2.1.2, Place.declare,
        Scopes.declare_nil] at sites
      apply notes_branches rules condition code isKnown.1.1 proper.1 sites.1.1
      · intro middle between code
        exact (rules.execute whenTrue code settled isKnown.1.2 proper.2.1.1 sites.1.2).imp
          fun _ _ _ _ ends => ends.2
      · intro middle between code
        exact (rules.execute whenFalse code settled isKnown.2 proper.2.2.1 sites.2).imp
          fun _ _ _ _ ends => ends.2
  | whileLoop condition body =>
    rw [Stmt.occurrences, List.append_subset] at isKnown
    rw [Stmt.sites, List.forall_mem_append] at sites
    apply (rules.loop condition body code settled isKnown.1 isKnown.2 proper.1 proper.2.1
      proper.2.2 sites.1 sites.2).imp
    rintro flow finish after continues ⟨⟨-, declares⟩, returns⟩
    exact ⟨returns, code.settles_of_declares continues.knows declares⟩
  | breakLoop line =>
    refine .pure code.knows ⟨?_, code.settles code.knows (.refl _)⟩
    intro value impossible
    cases impossible
  | funDecl function =>
    rcases function with ⟨name, definition⟩
    rw [Stmt.occurrences] at isKnown
    rw [Stmt.sites] at sites
    apply (code.notes_funDecl settled proper.1 isKnown proper.2 sites).imp
    rintro _ finish after _ ⟨rfl, settles⟩
    exact ⟨.normal, settles⟩
  | returnValue line value =>
    cases value with
    | none =>
      refine .pure code.knows ⟨?_, code.settles code.knows (.refl _)⟩
      rintro value ⟨⟩
      trivial
    | some value =>
      rw [Stmt.occurrences] at isKnown
      rw [Stmt.sites, List.forall_mem_cons] at sites
      apply notes_evaluated rules value code isKnown proper sites.2
      intro result finish after continues still _ known
      refine .pure continues.knows ⟨?_, code.settles continues.knows still⟩
      rintro other ⟨⟩
      exact known
  | classDecl name superclass methods classMethods =>
    apply (code.notes_declareClass settled sound name superclass methods classMethods isKnown
      proper sites).bind
    intro value finish after continues settles
    exact .pure continues.knows ⟨.normal, settles⟩

omit rules

/-- The evaluator with a journal does what the other one does. -/
theorem notesWell (sound : setting.Sound) (plain : setting.Plain) (fuel : Nat) :
    NotesWell setting fuel := by
  induction fuel with
  | zero =>
    constructor
    · exact fun _ _ _ _ _ code _ _ _ => .outOfFuel code.knows
    · exact fun _ _ _ _ _ code _ _ _ => .outOfFuel code.knows
    · exact fun _ _ _ _ _ knows _ _ => .outOfFuel knows
    · exact fun _ _ _ _ knows _ _ _ => .outOfFuel knows
    · exact fun _ _ _ _ _ code _ _ _ _ => .outOfFuel code.knows
    · exact fun _ _ _ _ _ _ code _ _ _ _ => .outOfFuel code.knows
    · exact fun _ _ _ _ _ _ code _ _ _ _ _ _ _ _ => .outOfFuel code.knows
  | succ fuel rules =>
    have runs := Watched.runsWell sound (fuel + 1)
    constructor
    · intro expression _ _ _ _ code isKnown proper sites
      exact (notes_evaluate rules sound plain expression code isKnown proper sites).and
        (runs.evaluate expression code.knows.fits code.stands isKnown proper)
    · intro expressions _ _ _ _ code isKnown proper sites
      exact (notes_evaluateAll rules expressions code isKnown proper sites).and
        (runs.evaluateAll expressions code.knows.fits code.stands isKnown proper)
    · intro line callee arguments _ _ knows known allKnown
      exact (notes_call rules line callee arguments knows known allKnown).and
        (runs.call line callee arguments knows.fits (IsKnown.fits known)
          fun argument member => IsKnown.fits (allKnown argument member))
    · intro closure arguments _ _ knows callable allKnown arity
      exact (notes_invoke rules closure arguments knows callable allKnown arity).and
        (runs.invoke closure arguments knows.fits callable.ready.fits
          (fun argument member => IsKnown.fits (allKnown argument member)) arity)
    · intro statement _ _ _ _ code settled isKnown proper sites
      exact (notes_execute rules sound statement code settled isKnown proper sites).and
        (runs.execute statement code.knows.fits code.stands isKnown proper)
    · intro statements result _ _ _ _ code settled isKnown proper sites
      exact (notes_executeAll rules statements result code settled isKnown proper sites).and
        (runs.executeAll statements result code.knows.fits code.stands isKnown proper)
    · intro condition body _ _ _ _ code settled conditionKnown bodyKnown conditionProper bodyProper
        noLocals conditionSites bodySites
      exact (notes_loop rules condition body code settled conditionKnown bodyKnown conditionProper
        bodyProper noLocals conditionSites bodySites).and
        (runs.loop condition body code.knows.fits code.stands conditionKnown bodyKnown
          conditionProper bodyProper noLocals)

/-- A program that obeys the rules on scopes runs with a journal as it does without one. -/
theorem notes_interpret (sound : setting.Sound) (plain : setting.Plain) (fuel : Nat)
    (program : List Stmt) (result : Option Value)
    (code : Code setting .program none start journal)
    (isKnown : Stmt.occurrencesAll .outside [] program ⊆ setting.occurrences)
    (proper : Stmt.AreProper setting.names program)
    (sites : ∀ site ∈ Program.sites program, site.IsSound) :
    Notes setting (Watched.interpret setting.addresses fuel result program)
      (Step.interpret setting.addresses fuel result program) start journal Anything := by
  induction program generalizing result start journal with
  | nil => exact .pure code.knows trivial
  | cons first others induction =>
    rw [Stmt.occurrencesAll, List.append_subset] at isKnown
    rw [Program.sites, Stmt.sitesAll, List.forall_mem_append] at sites
    rw [Watched.interpret, Step.interpret]
    apply ((notesWell sound plain fuel).execute first code rfl isKnown.1 proper.1 sites.1).bind
    rintro flow middle between continues ⟨⟨-, declares⟩, -, settles⟩
    have codeThen := code.next rfl continues (first.areNamed_locals proper.1) declares settles
    exact induction _ codeThen isKnown.2 proper.2 sites.2

end Lox.Noted
