import Lox.Proofs.Lexical.Declarations

/-!
# Addresses agree with environments

Programs without faults do the same on both machines: by induction on the bound of the
evaluation, in all functions of the evaluators at once (`sameMeaning`).
-/

namespace Lox

open Lexical (Environment)

namespace Simulates

variable {setting : Setting} {around : Surroundings} {places : Places} {start : Pairing}

/-! ## Laws that the evaluators need -/

/-- A step after one that adds no slots. -/
theorem Yields.after {middle finish : Pairing} {value : Value} {value' : Value Environment}
    (leads : Leads setting start middle) (still : start.layout.Still middle.layout)
    (yields : Yields setting middle value value' finish) :
    Yields setting start value value' finish :=
  ⟨yields.1, still.trans leads.ordered yields.2⟩

theorem Declares.after {placed : List Placed} {environment : Environment}
    {middle finish : Pairing} (leads : Leads setting start middle)
    (still : start.layout.Still middle.layout)
    (declares : Declares middle places placed environment finish) :
    Declares start places placed environment finish := by
  rcases declares with ⟨same, others, row⟩
  rw [leads.current] at others row
  exact ⟨same, (still.stillBut _).trans leads.ordered others, row⟩

/-- Values of expressions match, and no slot was added. -/
def YieldsAll (setting : Setting) (start : Pairing) (count : Nat) (values : List Value)
    (values' : List (Value Environment)) (finish : Pairing) : Prop :=
  List.Forall₂ (Value.Matches setting finish.layout) values values' ∧ values.length = count ∧
    start.layout.Still finish.layout

/-- Statements end alike and add slots to the current frame only. -/
def Ends (setting : Setting) (start : Pairing) (flow : Flow)
    (result : Flow Environment × Environment) (finish : Pairing) : Prop :=
  flow.Matches setting finish.layout result.1 ∧
    start.layout.StillBut start.machine.current finish.layout

/-- A statement ends alike and adds the slots of its own declarations. -/
def EndsWith (setting : Setting) (start : Pairing) (places : Places) (locals : List Local)
    (flow : Flow) (result : Flow Environment × Environment) (finish : Pairing) : Prop :=
  flow.Matches setting finish.layout result.1 ∧
    ∃ placed, placed.map Prod.fst = locals ∧ Declares start places placed result.2 finish

/-- A statement without declarations. -/
theorem EndsWith.none {flow : Flow} {flow' : Flow Environment} {finish : Pairing}
    (stands : start.Stands setting around places) (still : start.layout.Still finish.layout)
    (matched : flow.Matches setting finish.layout flow') :
    EndsWith setting start places [] flow (flow', places.environment) finish :=
  ⟨matched, [], rfl, .none stands still⟩

theorem EndsWith.after {locals : List Local} {flow : Flow}
    {result : Flow Environment × Environment} {middle finish : Pairing}
    (leads : Leads setting start middle) (still : start.layout.Still middle.layout)
    (ends : EndsWith setting middle places locals flow result finish) :
    EndsWith setting start places locals flow result finish := by
  rcases ends with ⟨matched, placed, same, declares⟩
  exact ⟨matched, placed, same, declares.after leads still⟩

/-! ## The evaluators -/

/-- Within a bound on their depth the evaluators do the same. -/
structure SameMeaning (setting : Setting) (fuel : Nat) : Prop where
  evaluate : ∀ (expression : Expr) {around places start}, start.Fits setting →
    start.Stands setting around places →
    expression.occurrences around places.scopes ⊆ setting.occurrences →
    expression.IsProper setting.names →
    Simulates setting (Step.evaluate setting.addresses fuel expression)
      (Lexical.Step.evaluate fuel places.environment expression) start (Yields setting start)
  evaluateAll : ∀ (expressions : List Expr) {around places start}, start.Fits setting →
    start.Stands setting around places →
    Expr.occurrencesAll around places.scopes expressions ⊆ setting.occurrences →
    Expr.AreProper setting.names expressions →
    Simulates setting (Step.evaluateAll setting.addresses fuel expressions)
      (Lexical.Step.evaluateAll fuel places.environment expressions) start
      (YieldsAll setting start expressions.length)
  call : ∀ (line : Nat) {callee callee' arguments arguments' start}, start.Fits setting →
    Value.Matches setting start.layout callee callee' →
    List.Forall₂ (Value.Matches setting start.layout) arguments arguments' →
    Simulates setting (Step.call setting.addresses fuel line callee arguments)
      (Lexical.Step.call fuel line callee' arguments') start (Yields setting start)
  invoke : ∀ {closure closure' arguments arguments' start}, start.Fits setting →
    Closure.Matches setting start.layout [] closure closure' →
    List.Forall₂ (Value.Matches setting start.layout) arguments arguments' →
    closure.arity = arguments.length →
    Simulates setting (Step.invoke setting.addresses fuel closure arguments)
      (Lexical.Step.invoke fuel closure' arguments') start (Yields setting start)
  execute : ∀ (statement : Stmt) {around places start}, start.Fits setting →
    start.Stands setting around places →
    statement.occurrences around places.scopes ⊆ setting.occurrences →
    statement.IsProper setting.names →
    Simulates setting (Step.execute setting.addresses fuel statement)
      (Lexical.Step.execute (!places.isEmpty) fuel places.environment statement) start
      (EndsWith setting start places statement.locals)
  executeAll : ∀ (statements : List Stmt) {result result' around places start},
    start.Fits setting → start.Stands setting around places →
    Stmt.occurrencesAll around places.scopes statements ⊆ setting.occurrences →
    Stmt.AreProper setting.names statements →
    Option.Rel (Value.Matches setting start.layout) result result' →
    Simulates setting (Step.executeAll setting.addresses fuel result statements)
      (Lexical.Step.executeAll (!places.isEmpty) fuel places.environment result' statements) start
      (Ends setting start)
  loop : ∀ (condition : Expr) (body : Stmt) {around places start}, start.Fits setting →
    start.Stands setting around places →
    condition.occurrences around places.scopes ⊆ setting.occurrences →
    body.occurrences around places.scopes ⊆ setting.occurrences →
    condition.IsProper setting.names → body.IsProper setting.names → body.locals = [] →
    Simulates setting (Step.loop setting.addresses fuel condition body)
      (Lexical.Step.loop (!places.isEmpty) fuel places.environment condition body) start
      fun flow flow' finish => flow.Matches setting finish.layout flow' ∧
        start.layout.Still finish.layout

variable {fuel : Nat} (exact : setting.Exact) (rules : SameMeaning setting fuel)
include rules

theorem evaluateAll (expressions : List Expr) (fits : start.Fits setting)
    (stands : start.Stands setting around places)
    (known : Expr.occurrencesAll around places.scopes expressions ⊆ setting.occurrences)
    (proper : Expr.AreProper setting.names expressions) :
    Simulates setting (Step.evaluateAll setting.addresses (fuel + 1) expressions)
      (Lexical.Step.evaluateAll (fuel + 1) places.environment expressions) start
      (YieldsAll setting start expressions.length) := by
  cases expressions with
  | nil => exact .pure fits ⟨.nil, rfl, .refl _⟩
  | cons first others =>
    rw [Expr.occurrencesAll, List.append_subset] at known
    rw [Step.evaluateAll, Lexical.Step.evaluateAll]
    apply (rules.evaluate first fits stands known.1 proper.1).bind
    rintro value value' middle leads ⟨same, still⟩
    apply (rules.evaluateAll others leads.fits (stands.follow leads still) known.2 proper.2).bind
    rintro values values' finish further ⟨sameAll, length, stillThen⟩
    apply Simulates.pure further.fits
    refine ⟨.cons (Value.Matches.mono (.refl _) further.ordered same) sameAll, ?_,
      still.trans leads.ordered stillThen⟩
    exact congrArg Nat.succ length

theorem call (line : Nat) {callee : Value} {callee' : Value Environment} {arguments : List Value}
    {arguments' : List (Value Environment)} (fits : start.Fits setting)
    (same : Value.Matches setting start.layout callee callee')
    (sameAll : List.Forall₂ (Value.Matches setting start.layout) arguments arguments') :
    Simulates setting (Step.call setting.addresses (fuel + 1) line callee arguments)
      (Lexical.Step.call (fuel + 1) line callee' arguments') start (Yields setting start) := by
  cases same with
  | @function closure closure' same =>
    rw [Step.call, Lexical.Step.call, ← same.arity_eq, ← sameAll.length_eq]
    apply (checkArity fits line closure.arity arguments.length).bind
    rintro _ _ _ - ⟨rfl, arity⟩
    exact rules.invoke fits same sameAll arity
  | @type ofClass ofClass' same =>
    rw [Step.call, Lexical.Step.call, ← same.arity_eq, ← sameAll.length_eq]
    apply (checkArity fits line ofClass.arity arguments.length).bind
    rintro _ _ start - ⟨rfl, arity⟩
    apply (newInstance fits ofClass ofClass').bind
    rintro ⟨id, type⟩ ⟨id', type'⟩ first leads ⟨sameId, sameType, sameType', layout⟩
    cases sameId
    cases sameType
    cases sameType'
    have still : start.layout.Still first.layout := by
      rw [layout]
      exact .refl _
    have types := Class.Matches.mono (.refl setting) leads.ordered same
    have initializers := types.method? "init"
    rw [Class.arity] at arity
    rw [Class.initializer?] at arity ⊢
    rw [Class.initializer?]
    revert initializers arity
    generalize type.method? "init" = found
    generalize type'.method? "init" = found'
    rintro arity (initializer | _)
    · apply (bindMethod leads.fits (.object id types) initializer).bind
      rintro bound bound' second further ⟨boundSame, behaves, stillThen⟩
      have sameArity : bound.arity = arguments.length := by
        rw [← arity, Closure.arity, behaves]
        rfl
      have grown := leads.ordered.trans further.ordered
      have argumentsSame := sameAll.imp fun _ _ matched =>
        Value.Matches.mono (.refl setting) grown matched
      apply (rules.invoke further.fits boundSame argumentsSame sameArity).bind
      rintro result result' third last ⟨-, stillLast⟩
      have object : Value.Matches setting third.layout (.object ⟨id, type⟩) (.object ⟨id, type'⟩) :=
        .object id (Class.Matches.mono (.refl setting) (further.ordered.trans last.ordered) types)
      exact .pure last.fits ⟨object,
        still.trans leads.ordered (stillThen.trans further.ordered stillLast)⟩
    · exact .pure leads.fits ⟨.object id types, still⟩
  | _ => exact .fail line _ fits

/-- The statements of a block or function run in a frame of their own, which is new. -/
theorem inside (body : List Stmt) {inner : FrameId} (fits : start.Fits setting)
    (surrounds : around.Fits setting.names places.scopes)
    (chain : start.layout.Chain ([] :: places) inner) (row : start.layout.row inner = [])
    (known : Stmt.occurrencesAll around ([] :: places.scopes) body ⊆ setting.occurrences)
    (proper : Stmt.AreProper setting.names body) :
    Simulates setting (Step.within inner (Step.executeAll setting.addresses fuel none body))
      (Lexical.Step.executeAll true fuel places.environment none body) start
      fun flow result finish => flow.Matches setting finish.layout result.1 ∧
        start.layout.StillBut inner finish.layout := by
  have fitsInside : Pairing.Fits setting
      ⟨start.layout, { start.machine with current := inner }, start.reference⟩ := by
    rcases fits with ⟨frames, ⟨globals, size, fields, nextId, printed, clock⟩⟩
    exact ⟨frames, globals, size, fields, nextId, printed, clock⟩
  have standsInside : Pairing.Stands setting around ([] :: places)
      ⟨start.layout, { start.machine with current := inner }, start.reference⟩ :=
    ⟨surrounds.cons Local.areNamed_nil, Local.areNamed_nil, chain, row⟩
  have same := rules.executeAll body fitsInside standsInside known proper .none
  exact .within same fun _ _ _ ends => ends

theorem invoke {closure : Closure} {closure' : Closure Environment} {arguments : List Value}
    {arguments' : List (Value Environment)} (fits : start.Fits setting)
    (same : Closure.Matches setting start.layout [] closure closure')
    (sameAll : List.Forall₂ (Value.Matches setting start.layout) arguments arguments')
    (arity : closure.arity = arguments.length) :
    Simulates setting (Step.invoke setting.addresses (fuel + 1) closure arguments)
      (Lexical.Step.invoke (fuel + 1) closure' arguments') start (Yields setting start) := by
  rcases closure with ⟨id, name, behaviour, frame⟩
  rcases closure' with ⟨id', name', behaviour', environment⟩
  rcases same with ⟨rfl, rfl, rfl, around, places, chain, rfl, body⟩
  rw [Step.invoke, Lexical.Step.invoke]
  cases behaviour with
  | clock =>
    apply Simulates.of_ok start rfl rfl (.refl fits)
    rw [fits.agrees.clock]
    exact ⟨.number _, .refl _⟩
  | body definition isInitializer =>
    rcases body definition isInitializer rfl with ⟨⟨known, proper, surrounds⟩, begins⟩
    rw [List.nil_append] at known surrounds begins
    rcases definition with ⟨parameters, statements⟩
    have sameLength : parameters.length = arguments.length := arity
    have areNamed := Local.areNamed_parameters proper.1
    apply (newParameters fits chain sameLength sameAll).bind
    rintro outer _ first leads ⟨row, isRow, -, firstLayout, rfl, inParameters⟩
    apply newEmpty leads.fits inParameters
    intro second further _ secondLayout inBody
    have empty := Layout.row_of_add secondLayout rfl
    have scopes : Places.scopes (row :: places) = parameters.map Local.named :: places.scopes := by
      rw [← isRow]
      rfl
    have surroundsBody : around.Fits setting.names (Places.scopes (row :: places)) := by
      rw [scopes]
      exact surrounds.cons areNamed
    rw [Function.occurrences, ← scopes] at known
    apply (inside rules statements further.fits surroundsBody inBody empty known proper.2).bind
    rintro flow ⟨flow', environment⟩ third last ⟨flowSame, stillBut⟩
    have stillLast : start.layout.Still third.layout := (Layout.Still.of_add firstLayout).trans
      leads.ordered (.of_inside secondLayout rfl stillBut)
    cases isInitializer with
    | false => exact .pure last.fits ⟨flowSame.callResult, stillLast⟩
    | true =>
      rcases begins rfl with ⟨outerScopes, inThis⟩
      have grown := leads.ordered.trans (further.ordered.trans last.ordered)
      have here : places.scopes[0]? = some [.this] := by rw [inThis]; rfl
      have means : locate? Local.this.text places.scopes.names = some ⟨0, 0⟩ := by
        rw [inThis]
        exact locate?_behind Local.this.text [] _ (by simp)
      rcases exists_implicit last.fits (chain.mono grown) here means with
        ⟨_, slot', found, found', slotSame, ⟨target, rfl⟩⟩
      cases slotSame with
      | @initialised _ value' slotSame =>
        rw [if_pos rfl]
        dsimp only
        rw [if_pos rfl, Simulates, Step.get_bind, Step.get_bind]
        rw [found, show Lexical.Machine.slotOf? places.environment "this" third.reference = _ from
          found']
        exact .ok third.layout (.refl last.fits) ⟨slotSame, stillLast⟩

include exact

theorem evaluate (expression : Expr) (fits : start.Fits setting)
    (stands : start.Stands setting around places)
    (known : expression.occurrences around places.scopes ⊆ setting.occurrences)
    (proper : expression.IsProper setting.names) :
    Simulates setting (Step.evaluate setting.addresses (fuel + 1) expression)
      (Lexical.Step.evaluate (fuel + 1) places.environment expression) start
      (Yields setting start) := by
  cases expression with
  | literal value =>
    rw [Step.evaluate, Lexical.Step.evaluate]
    exact .pure fits ⟨.ofLiteral value, .refl _⟩
  | group inner =>
    rw [Expr.occurrences] at known
    rw [Step.evaluate, Lexical.Step.evaluate]
    exact rules.evaluate inner fits stands known proper
  | unary op line operand =>
    rw [Expr.occurrences] at known
    rw [Step.evaluate, Lexical.Step.evaluate]
    apply (rules.evaluate operand fits stands known proper).bind
    rintro value value' finish leads ⟨same, still⟩
    exact .ofExcept leads.fits (op.apply_related line same) fun _ _ matched => ⟨matched, still⟩
  | binary op line left right =>
    rw [Expr.occurrences, List.append_subset] at known
    rw [Step.evaluate, Lexical.Step.evaluate]
    apply (rules.evaluate left fits stands known.1 proper.1).bind
    rintro first first' second leads ⟨same, still⟩
    apply (rules.evaluate right leads.fits (stands.follow leads still) known.2 proper.2).bind
    rintro other other' third further ⟨sameThen, stillThen⟩
    have sameStill := Value.Matches.mono (.refl setting) further.ordered same
    exact .ofExcept further.fits (op.apply_related line sameStill sameThen)
      fun _ _ matched => ⟨matched, still.trans leads.ordered stillThen⟩
  | logical op line left right =>
    rw [Expr.occurrences, List.append_subset] at known
    rw [Step.evaluate, Lexical.Step.evaluate]
    apply (rules.evaluate left fits stands known.1 proper.1).bind
    rintro value value' second leads ⟨same, still⟩
    rw [op.decides_eq same]
    split
    · exact .pure leads.fits ⟨same, still⟩
    · apply (rules.evaluate right leads.fits (stands.follow leads still) known.2 proper.2).imp
      exact fun _ _ _ _ yields => yields.after leads still
  | read target =>
    rw [Expr.occurrences, List.cons_subset] at known
    rw [Step.evaluate, Lexical.Step.evaluate]
    apply (read exact fits stands known.1 rfl rfl rfl).imp
    rintro value value' _ - ⟨rfl, same⟩
    exact ⟨same, .refl _⟩
  | assign target value =>
    rw [Expr.occurrences, List.append_subset, List.cons_subset] at known
    rw [Step.evaluate, Lexical.Step.evaluate]
    apply (rules.evaluate value fits stands known.1 proper.2).bind
    rintro result result' second leads ⟨same, still⟩
    have standsThen := stands.follow leads still
    apply (assign exact leads.fits standsThen known.2.1 rfl rfl rfl proper.1 same).bind
    intro _ _ third further sameLayout
    have layout : third.layout = second.layout := sameLayout
    rw [← layout] at same still
    exact .pure further.fits ⟨same, still⟩
  | call callee line arguments =>
    rw [Expr.occurrences, List.append_subset] at known
    rw [Step.evaluate, Lexical.Step.evaluate]
    apply (rules.evaluate callee fits stands known.1 proper.1).bind
    rintro value value' second leads ⟨same, still⟩
    apply (rules.evaluateAll arguments leads.fits (stands.follow leads still) known.2
      proper.2).bind
    rintro values values' third further ⟨sameAll, -, stillThen⟩
    apply (rules.call line further.fits (Value.Matches.mono (.refl setting) further.ordered same)
      sameAll).imp
    intro _ _ _ _ yields
    exact (yields.after further stillThen).after leads still
  | function definition =>
    rw [Expr.occurrences] at known
    rw [Step.evaluate, Lexical.Step.evaluate]
    have keeps : Keeps setting start.layout [] (.body definition false) start.machine.current
        places.environment := by
      refine ⟨around, places, stands.chain, rfl, ?_⟩
      rintro _ _ ⟨⟩
      exact ⟨⟨known, proper, stands.around⟩, fun impossible => by cases impossible⟩
    apply Simulates.look_left fits rfl
    apply (newClosure fits "anonymous" keeps).bind
    rintro closure closure' finish leads ⟨matched, -, layout⟩
    refine .pure leads.fits ⟨.function matched, ?_⟩
    rw [layout]
    exact .refl _
  | get object name =>
    rw [Expr.occurrences] at known
    rw [Step.evaluate, Lexical.Step.evaluate]
    apply (rules.evaluate object fits stands known proper).bind
    rintro target target' second leads ⟨same, still⟩
    apply (property leads.fits same name).imp
    exact fun _ _ _ _ yields => yields.after leads still
  | set object name value =>
    rw [Expr.occurrences, List.append_subset] at known
    rw [Step.evaluate, Lexical.Step.evaluate]
    apply (rules.evaluate object fits stands known.1 proper.1).bind
    rintro target target' second leads ⟨same, still⟩
    cases same with
    | object id same =>
      apply (rules.evaluate value leads.fits (stands.follow leads still) known.2 proper.2).bind
      rintro result result' third further ⟨resultSame, stillThen⟩
      apply (setField further.fits rfl name.text resultSame).bind
      intro _ _ fourth last sameLayout
      have layout : fourth.layout = third.layout := sameLayout
      rw [← layout] at resultSame stillThen
      exact .pure last.fits ⟨resultSame, still.trans leads.ordered stillThen⟩
    | _ => exact .fail name.line _ leads.fits
  | this id line =>
    rw [Expr.occurrences, List.cons_subset] at known
    rw [Step.evaluate, Lexical.Step.evaluate]
    apply (read exact fits stands known.1 rfl rfl rfl).imp
    rintro value value' _ - ⟨rfl, same⟩
    exact ⟨same, .refl _⟩
  | super id line method =>
    rw [Expr.occurrences, List.cons_subset] at known
    rw [Step.evaluate, Lexical.Step.evaluate]
    exact superMethod exact fits stands known.1 line method

omit exact in
theorem executeAll (statements : List Stmt) {result : Option Value}
    {result' : Option (Value Environment)} (fits : start.Fits setting)
    (stands : start.Stands setting around places)
    (known : Stmt.occurrencesAll around places.scopes statements ⊆ setting.occurrences)
    (proper : Stmt.AreProper setting.names statements)
    (same : Option.Rel (Value.Matches setting start.layout) result result') :
    Simulates setting (Step.executeAll setting.addresses (fuel + 1) result statements)
      (Lexical.Step.executeAll (!places.isEmpty) (fuel + 1) places.environment result' statements)
      start (Ends setting start) := by
  cases statements with
  | nil =>
    rw [Step.executeAll, Lexical.Step.executeAll]
    exact .pure fits ⟨.normal same, (Layout.Still.refl _).stillBut _⟩
  | cons first others =>
    rw [Stmt.occurrencesAll, List.append_subset] at known
    rw [Step.executeAll, Lexical.Step.executeAll]
    apply (rules.execute first fits stands known.1 proper.1).bind
    rintro flow ⟨flow', environment⟩ middle leads ⟨matched, placed, isPlaced, declares⟩
    dsimp only at matched declares ⊢
    cases matched with
    | normal result =>
      have named : Local.AreNamed setting.names (placed.map Prod.fst) := by
        rw [isPlaced]
        exact first.areNamed_locals proper.1
      have standsThen := stands.declare leads named declares.row
      have later := known.2
      rw [← isPlaced, ← Places.scopes_declare] at later
      have rest := rules.executeAll others leads.fits standsThen later proper.2 result
      rw [Places.isEmpty_declare, ← declares.environment] at rest
      apply rest.imp
      rintro last last' finish - ⟨lastSame, still⟩
      rw [leads.current] at still
      exact ⟨lastSame, declares.still.trans leads.ordered still⟩
    | returned value => exact .pure leads.fits ⟨.returned value, declares.still⟩
    | broken => exact .pure leads.fits ⟨.broken, declares.still⟩

omit exact in
theorem loop (condition : Expr) (body : Stmt) (fits : start.Fits setting)
    (stands : start.Stands setting around places)
    (conditionKnown : condition.occurrences around places.scopes ⊆ setting.occurrences)
    (bodyKnown : body.occurrences around places.scopes ⊆ setting.occurrences)
    (conditionProper : condition.IsProper setting.names) (bodyProper : body.IsProper setting.names)
    (noLocals : body.locals = []) :
    Simulates setting (Step.loop setting.addresses (fuel + 1) condition body)
      (Lexical.Step.loop (!places.isEmpty) (fuel + 1) places.environment condition body) start
      fun flow flow' finish => flow.Matches setting finish.layout flow' ∧
        start.layout.Still finish.layout := by
  rw [Step.loop, Lexical.Step.loop]
  apply (rules.evaluate condition fits stands conditionKnown conditionProper).bind
  rintro value value' middle leads ⟨same, still⟩
  have standsStill := stands.follow leads still
  rw [same.isTruthy_eq]
  split
  · apply (rules.execute body leads.fits standsStill bodyKnown bodyProper).bind
    rintro flow ⟨flow', environment⟩ finish further ⟨matched, placed, isPlaced, declares⟩
    have nothing : placed = [] := by
      rw [noLocals] at isPlaced
      exact List.map_eq_nil_iff.mp isPlaced
    subst nothing
    have stillThen : middle.layout.Still finish.layout := by
      intro frame isFrame
      by_cases here : frame = middle.machine.current
      · rw [here, declares.row, Places.declare_nil]
        exact standsStill.row.symm
      · exact declares.still frame isFrame here
    have stillAll := still.trans leads.ordered stillThen
    dsimp only at matched ⊢
    cases matched with
    | normal result =>
      have standsThen := standsStill.follow further stillThen
      apply (rules.loop condition body further.fits standsThen conditionKnown bodyKnown
        conditionProper bodyProper noLocals).imp
      rintro last last' finish' - ⟨lastSame, stillRest⟩
      exact ⟨lastSame, stillAll.trans (leads.ordered.trans further.ordered) stillRest⟩
    | broken => exact .pure further.fits ⟨.normal .none, stillAll⟩
    | returned value => exact .pure further.fits ⟨.returned value, stillAll⟩
  · exact .pure leads.fits ⟨.normal .none, still⟩

omit exact in
/-- A variable is declared before its value is evaluated, but for a global one. -/
theorem varDecl {name : Name} {initial : Expr} (fits : start.Fits setting)
    (stands : start.Stands setting around places) (isName : setting.names name.text)
    (known : initial.occurrences around (places.scopes.declare [.named name]) ⊆
      setting.occurrences)
    (proper : initial.IsProper setting.names) :
    Simulates setting (Step.execute setting.addresses (fuel + 1) (.varDecl name (some initial)))
      (Lexical.Step.execute (!places.isEmpty) (fuel + 1) places.environment
        (.varDecl name (some initial))) start (EndsWith setting start places [.named name]) := by
  rw [Step.execute, Lexical.Step.execute]
  apply Simulates.look_left fits stands.inRoot
  cases places with
  | nil =>
    show Simulates setting
      (do
        let value ← Step.evaluate setting.addresses fuel initial
        Step.setGlobal name.text (.initialised value)
        return Flow.normal none)
      (do
        let value ← Lexical.Step.evaluate fuel (Places.environment []) initial
        Lexical.Step.setGlobal name.text (.initialised value)
        return (Flow.normal none, Places.environment [])) start _
    apply (rules.evaluate initial fits stands known proper).bind
    rintro value value' second leads ⟨same, still⟩
    apply (setGlobal leads.fits name.text (.initialised same)).bind
    intro _ _ third further sameLayout
    have layout : third.layout = second.layout := sameLayout
    rw [← layout] at still
    exact .pure further.fits
      ⟨.normal .none, [(.named name, 0)], rfl, .global _ stands still⟩
  | cons innermost outer =>
    have inner : innermost :: outer ≠ [] := List.cons_ne_nil _ _
    show Simulates setting
      (do
        let index ← Step.newSlot .uninitialised
        let value ← Step.evaluate setting.addresses fuel initial
        Step.setSlot index value
        return Flow.normal none)
      (do
        let environment ← Lexical.Step.declare (Places.environment (innermost :: outer)) name.text
          .uninitialised
        let value ← Lexical.Step.evaluate fuel environment initial
        Lexical.Step.initialise true environment name.text value
        return (Flow.normal none, environment)) start _
    apply (newSlot fits stands inner name).bind
    rintro index _ first leads ⟨cell, added, rfl⟩
    have declares := added.declares stands inner
    have named : Local.AreNamed setting.names ([(.named name, cell)].map Prod.fst) :=
      Local.areNamed_singleton isName
    have standsInside := stands.declare leads named declares.row
    have known : initial.occurrences around
        (Places.declare [(.named name, cell)] (innermost :: outer)).scopes ⊆
          setting.occurrences := by
      rw [Places.scopes_declare]
      exact known
    apply (rules.evaluate initial leads.fits standsInside known proper).bind
    rintro value value' second further ⟨same, still⟩
    have here : (second.layout.row second.machine.current)[index]? = some (.named name, cell) := by
      have row := further.ordered.row _
        (Nat.lt_of_lt_of_le stands.chain.lt_size leads.ordered.size)
      rw [(leads.trans further).current]
      exact Layout.getElem?_of_prefix row added.here
    rw [Places.environment_declare_singleton]
    apply (setSlot further.fits here same).bind
    intro _ _ third last sameLayout
    have layout : third.layout = second.layout := sameLayout
    rw [← layout] at still
    rw [← Places.environment_declare_singleton]
    exact .pure last.fits ⟨.normal .none, [(.named name, cell)], rfl,
      declares.then stands.chain.lt_size leads.ordered still⟩

omit exact in
/-- A block runs in an environment of its own and leaves those around it as they are. -/
theorem block (body : List Stmt) (fits : start.Fits setting)
    (stands : start.Stands setting around places)
    (known : Stmt.occurrencesAll around ([] :: places.scopes) body ⊆ setting.occurrences)
    (proper : Stmt.AreProper setting.names body) :
    Simulates setting (Step.execute setting.addresses (fuel + 1) (.block body))
      (Lexical.Step.execute (!places.isEmpty) (fuel + 1) places.environment (.block body)) start
      (EndsWith setting start places []) := by
  rw [Step.execute, Lexical.Step.execute]
  apply Simulates.look_left fits rfl
  apply newEmpty fits stands.chain
  intro second leads _ layout inBlock
  have row := Layout.row_of_add layout rfl
  apply (inside rules body leads.fits stands.around inBlock row known proper).bind_right
  rintro flow ⟨flow', environment⟩ finish further ⟨matched, stillBut⟩
  exact .pure further.fits (.none stands (.of_inside layout rfl stillBut) matched)

omit exact in
/-- Of two branches the same one runs on both machines; neither declares anything. -/
theorem branches (condition : Expr) {whenTrue whenFalse : Step Flow}
    {whenTrue' whenFalse' : Lexical.Step (Flow Environment × Environment)}
    (fits : start.Fits setting) (stands : start.Stands setting around places)
    (known : condition.occurrences around places.scopes ⊆ setting.occurrences)
    (proper : condition.IsProper setting.names)
    (sameTrue : ∀ middle, middle.Fits setting → middle.Stands setting around places →
      Simulates setting whenTrue whenTrue' middle (EndsWith setting middle places []))
    (sameFalse : ∀ middle, middle.Fits setting → middle.Stands setting around places →
      Simulates setting whenFalse whenFalse' middle (EndsWith setting middle places [])) :
    Simulates setting
      (do
        let value ← Step.evaluate setting.addresses fuel condition
        if value.isTruthy then whenTrue else whenFalse)
      (do
        let value ← Lexical.Step.evaluate fuel places.environment condition
        if value.isTruthy then whenTrue' else whenFalse') start
      (EndsWith setting start places []) := by
  apply (rules.evaluate condition fits stands known proper).bind
  rintro value value' middle leads ⟨same, still⟩
  have standsStill := stands.follow leads still
  rw [same.isTruthy_eq]
  split
  · exact (sameTrue middle leads.fits standsStill).imp fun _ _ _ _ ends => ends.after leads still
  · exact (sameFalse middle leads.fits standsStill).imp fun _ _ _ _ ends => ends.after leads still

theorem execute (statement : Stmt) (fits : start.Fits setting)
    (stands : start.Stands setting around places)
    (known : statement.occurrences around places.scopes ⊆ setting.occurrences)
    (proper : statement.IsProper setting.names) :
    Simulates setting (Step.execute setting.addresses (fuel + 1) statement)
      (Lexical.Step.execute (!places.isEmpty) (fuel + 1) places.environment statement) start
      (EndsWith setting start places statement.locals) := by
  cases statement with
  | expression value =>
    rw [Stmt.occurrences] at known
    rw [Step.execute, Lexical.Step.execute]
    apply (rules.evaluate value fits stands known proper).bind
    rintro result result' finish leads ⟨same, still⟩
    exact .pure leads.fits (.none stands still (.normal (.some same)))
  | print value =>
    rw [Stmt.occurrences] at known
    rw [Step.execute, Lexical.Step.execute]
    apply (rules.evaluate value fits stands known proper).bind
    rintro result result' second leads ⟨same, still⟩
    rw [same.display_eq]
    apply (print leads.fits result'.display).bind
    intro _ _ third further sameLayout
    have layout : third.layout = second.layout := sameLayout
    rw [← layout] at still
    exact .pure further.fits (.none stands still (.normal .none))
  | varDecl name initial =>
    cases initial with
    | none =>
      rw [Step.execute_varDecl_none, Lexical.Step.execute]
      apply Simulates.look_left fits stands.inRoot
      apply (introduce fits stands name).bind
      rintro _ environment finish leads ⟨placed, introduces⟩
      exact .pure leads.fits ⟨.normal .none, placed, introduces.locals, introduces.declares⟩
    | some initial =>
      rw [Stmt.occurrences] at known
      exact varDecl rules fits stands proper.1 known proper.2
  | block body =>
    rw [Stmt.occurrences] at known
    exact block rules body fits stands known proper
  | ifElse condition whenTrue whenFalse =>
    cases whenFalse with
    | none =>
      rw [Stmt.occurrences, List.append_subset] at known
      rw [Stmt.locals, proper.2.2, Step.execute, Lexical.Step.execute]
      apply branches rules condition fits stands known.1 proper.1
      · intro middle fits stands
        have same := rules.execute whenTrue fits stands known.2 proper.2.1
        rwa [proper.2.2] at same
      · exact fun middle fits stands => .pure fits (.none stands (.refl _) (.normal .none))
    | some whenFalse =>
      rw [Stmt.occurrences, List.append_subset, List.append_subset, proper.2.1.2,
        Scopes.declare_nil] at known
      rw [Stmt.locals, proper.2.1.2, proper.2.2.2, Step.execute, Lexical.Step.execute]
      apply branches rules condition fits stands known.1.1 proper.1
      · intro middle fits stands
        have same := rules.execute whenTrue fits stands known.1.2 proper.2.1.1
        rwa [proper.2.1.2] at same
      · intro middle fits stands
        have same := rules.execute whenFalse fits stands known.2 proper.2.2.1
        rwa [proper.2.2.2] at same
  | whileLoop condition body =>
    rw [Stmt.occurrences, List.append_subset] at known
    rw [Stmt.locals, proper.2.2, Step.execute, Lexical.Step.execute]
    apply (rules.loop condition body fits stands known.1 known.2 proper.1 proper.2.1
      proper.2.2).bind_right
    rintro flow flow' finish leads ⟨matched, still⟩
    exact .pure leads.fits (.none stands still matched)
  | breakLoop line =>
    rw [Step.execute, Lexical.Step.execute]
    exact .pure fits (.none stands (.refl _) .broken)
  | funDecl function =>
    rcases function with ⟨name, definition⟩
    rw [Stmt.occurrences] at known
    rw [Step.execute_funDecl, Lexical.Step.execute]
    apply (declareFunction fits stands proper.1 known proper.2).bind
    rintro _ environment finish leads ⟨placed, isPlaced, declares⟩
    exact .pure leads.fits ⟨.normal .none, placed, isPlaced, declares⟩
  | returnValue line value =>
    cases value with
    | none =>
      rw [Step.execute, Lexical.Step.execute]
      exact .pure fits (.none stands (.refl _) (.returned .nil))
    | some value =>
      rw [Stmt.occurrences] at known
      rw [Step.execute, Lexical.Step.execute]
      apply (rules.evaluate value fits stands known proper).bind
      rintro result result' finish leads ⟨same, still⟩
      exact .pure leads.fits (.none stands still (.returned same))
  | classDecl name superclass methods classMethods =>
    rw [Step.execute, Lexical.Step.execute]
    apply (declareClass exact fits stands name superclass methods classMethods known proper).bind
    rintro value ⟨value', environment⟩ finish leads ⟨same, placed, isPlaced, declares⟩
    exact .pure leads.fits ⟨.normal (.some same), placed, isPlaced, declares⟩

omit rules

/-- The evaluators do the same for every bound. -/
theorem sameMeaning (fuel : Nat) : SameMeaning setting fuel := by
  induction fuel with
  | zero => constructor <;> intros <;> exact .outOfFuel ‹_›
  | succ fuel rules =>
    constructor
    · exact fun expression _ _ _ => evaluate exact rules expression
    · exact fun expressions _ _ _ => evaluateAll rules expressions
    · exact fun line _ _ _ _ _ => call rules line
    · exact fun fits => invoke rules fits
    · exact fun statement _ _ _ => execute exact rules statement
    · exact fun statements _ _ _ _ _ => executeAll rules statements
    · exact fun condition body _ _ _ => loop rules condition body

/-- A program without faults does the same on both machines. -/
theorem interpret (fuel : Nat) (program : List Stmt) {result : Option Value}
    {result' : Option (Value Environment)} (fits : start.Fits setting)
    (stands : start.Stands setting around [])
    (known : Stmt.occurrencesAll around [] program ⊆ setting.occurrences)
    (proper : Stmt.AreProper setting.names program)
    (same : Option.Rel (Value.Matches setting start.layout) result result') :
    Simulates setting (Step.interpret setting.addresses fuel result program)
      (Lexical.Step.interpret fuel [] result' program) start
      fun last last' finish => Option.Rel (Value.Matches setting finish.layout) last last' := by
  induction program generalizing result result' start with
  | nil => exact .pure fits same
  | cons first others induction =>
    rw [Stmt.occurrencesAll, List.append_subset] at known
    rw [Step.interpret, Lexical.Step.interpret]
    apply ((sameMeaning exact fuel).execute first fits stands known.1 proper.1).bind
    rintro flow ⟨flow', environment⟩ middle leads ⟨matched, placed, isPlaced, declares⟩
    have named : Local.AreNamed setting.names (placed.map Prod.fst) := by
      rw [isPlaced]
      exact first.areNamed_locals proper.1
    have sameEnvironment : environment = [] := declares.environment
    subst sameEnvironment
    exact induction leads.fits (stands.declare leads named declares.row) known.2 proper.2
      matched.programResult

end Simulates

end Lox
