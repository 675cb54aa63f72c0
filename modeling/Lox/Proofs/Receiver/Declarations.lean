import Lox.Proofs.Receiver.Methods

/-!
# Declarations that a ledger knows

The steps that declare variables, functions and classes.  When a class is made, it is noted
as that of its instance methods; their frame holds its superclass.
-/

namespace Lox

/-! ## Making methods -/

/-- A method is made from one of some definitions, and gets one of some identities. -/
structure Closure.IsMadeFrom (method : Closure) (methods : List NamedFunction) (frame : FrameId)
    (first last : Nat) : Prop where
  environment : method.environment = frame
  first_le : first ≤ method.id
  lt_last : method.id < last
  behaviour : ∃ named ∈ methods, ∃ isInitializer,
    method.behaviour = .body named.definition isInitializer

/-- Methods get identities one after the other. -/
theorem Step.newMethods_eq (frame : FrameId) (allowInitializer : Bool)
    (methods : List NamedFunction) (table : Table Closure) (machine : Machine) :
    ∃ made : Table Closure, Step.newMethods frame allowInitializer methods table machine =
        .ok made { machine with nextId := machine.nextId + methods.length } ∧
      ∀ (name : String) (method : Closure), made[name]? = some method →
        table[name]? = some method ∨ method.IsMadeFrom methods frame machine.nextId
          (machine.nextId + methods.length) := by
  induction methods generalizing table machine with
  | nil => exact ⟨table, rfl, fun _ _ found => .inl found⟩
  | cons first others induction =>
    rcases first with ⟨name, definition⟩
    let isInitializer := allowInitializer && name.text == "init"
    let method : Closure := ⟨machine.nextId, name.text, .body definition isInitializer, frame⟩
    rcases induction (table.insert name.text method)
      { machine with nextId := machine.nextId + 1 } with ⟨made, taken, madeFrom⟩
    refine ⟨made, ?_, ?_⟩
    · rw [List.length_cons, ← Nat.add_assoc, Nat.add_right_comm]
      exact taken
    · intro other found here
      rcases madeFrom other found here with before | ⟨environment, first_le, lt_last, behaviour⟩
      · rw [Std.TreeMap.getElem?_insert] at before
        split at before
        · cases before
          refine .inr ⟨rfl, Nat.le_refl _, ?_, .mk name definition, List.mem_cons_self,
            isInitializer, rfl⟩
          exact Nat.lt_add_of_pos_right (Nat.succ_pos _)
        · exact .inl before
      · dsimp only at first_le lt_last
        rcases behaviour with ⟨named, member, same⟩
        refine .inr ⟨environment, Nat.le_of_succ_le first_le, ?_, named,
          List.mem_cons_of_mem _ member, same⟩
        rw [List.length_cons]
        omega

/-- Each of the methods of a class stands in its scopes. -/
theorem NamedFunction.fits_of_mem {setting : Setting} {around : Surroundings} {scopes : Scopes}
    (surrounds : around.Fits setting.names scopes) {methods : List NamedFunction}
    (known : NamedFunction.occurrencesAll around scopes methods ⊆ setting.occurrences)
    (proper : NamedFunction.AreProper setting.names methods) {named : NamedFunction}
    (member : named ∈ methods) : named.definition.Fits setting around scopes := by
  induction methods with
  | nil => cases member
  | cons first others induction =>
    rcases first with ⟨name, definition⟩
    rw [NamedFunction.occurrencesAll, List.append_subset] at known
    rcases List.mem_cons.mp member with rfl | isOther
    · exact ⟨known.1, proper.1, surrounds⟩
    · exact induction known.2 proper.2 isOther

namespace Tied

section

variable {setting : Setting} {around : Surroundings} {scopes : Scopes} {tie : Option Tie}
  {start : Moment} {ledger : Ledger}

/-! ## Variables -/

/-- The initial value of a variable is evaluated where the variable is declared. -/
theorem Code.tells_declareVariable (plain : setting.Plain)
    (code : Code setting around scopes tie start ledger) {name : Name}
    (isName : setting.names name.text) {initial : Option (Watched Value)}
    {initial' : Option (Step Value)}
    (told : Option.Rel (fun watched tied => ∀ middle after,
      Code setting around (scopes.declare [.named name]) tie middle after →
        watched.Runs setting middle (Watched.Yields setting middle) ∧
          Tells setting watched tied middle after (Known setting)) initial initial') :
    Tells setting (Watched.declareVariable name initial) (Step.declareVariable name initial')
      start ledger Anything := by
  have fits := code.fits
  have stands := code.stands
  apply Tells.inRoot
  rw [stands.inRoot]
  cases scopes with
  | nil =>
    cases told with
    | none => exact tells_setGlobal code.knows name.text .uninitialised trivial
    | some told =>
      rcases told start ledger code with ⟨runs, told⟩
      apply told.bind runs
      intro value middle after follows _ _ knows known
      exact tells_setGlobal knows name.text (.initialised value) known
  | cons innermost outer =>
    have inner : innermost :: outer ≠ [] := List.cons_ne_nil _ _
    have noFunctions : ∀ layout, layout = start.layout.extend start.machine.current
        (.named name) → Slot.uninitialised.All (IsTied setting ledger layout)
          (IsHomed setting ledger layout) := fun _ _ => trivial
    apply (tells_newSlot code.knows fits stands inner (fun _ _ => .uninitialised name)
      noFunctions).bind (Watched.runs_newSlot fits stands inner fun _ _ => .uninitialised name)
    rintro index middle after follows ⟨-, layout⟩ noted knows -
    cases told with
    | none => exact .pure knows trivial
    | some told =>
      have declares := Watched.declares_extend stands inner layout
      have inside := code.declare plain follows (Local.areNamed_singleton isName) declares.row
        noted knows
      rcases told middle after inside with ⟨runs, told⟩
      apply told.bind runs
      rintro value finish last further ⟨-, still⟩ notedThen knows known
      have codeThen := inside.follow further still notedThen knows
      exact tells_setSlot knows codeThen.stands index known

/-- A variable gets a value that is known once the variable is declared. -/
theorem tells_defineVariable (knows : Knows setting ledger start) (fits : start.Fits setting)
    (stands : start.Stands setting around scopes) (name : Name) {value : Value}
    (known : ∀ layout, start.layout.Le layout →
      layout.Chain (scopes.declare [.named name]) start.machine.current →
        IsKnown setting ledger layout value) :
    Tells setting (Watched.defineVariable name value) (Step.defineVariable name value) start ledger
      Anything := by
  apply Tells.inRoot
  rw [stands.inRoot]
  cases scopes with
  | nil =>
    exact tells_setGlobal knows name.text (.initialised value)
      (known start.layout (.refl _) stands.chain)
  | cons innermost outer =>
    have inner : innermost :: outer ≠ [] := List.cons_ne_nil _ _
    have slotKnown : ∀ layout, layout = start.layout.extend start.machine.current (.named name) →
        IsKnown setting ledger layout value := by
      rintro layout rfl
      have ordered := start.layout.le_extend start.machine.current (.named name)
      apply known _ ordered
      apply (stands.chain.mono ordered).extend
      rw [Layout.row_extend_self, stands.row]
      exact List.prefix_refl _
    have slotFits : ∀ layout, layout = start.layout.extend start.machine.current (.named name) →
        Slot.Fits setting layout (.named name) (.initialised value) :=
      fun layout same => .named name (slotKnown layout same).fits
    apply (tells_newSlot knows fits stands inner slotFits slotKnown).bind
      (Watched.runs_newSlot fits stands inner slotFits)
    intro _ _ _ _ _ _ knows _
    exact .pure knows trivial

/-- A function takes over the tie of the code that declares it. -/
theorem Code.tells_funDecl (plain : setting.Plain)
    (code : Code setting around scopes tie start ledger) {name : Name} {definition : Function}
    (isName : setting.names name.text)
    (isKnown : definition.occurrences around (scopes.declare [.named name]) ⊆ setting.occurrences)
    (proper : definition.IsProper setting.names) :
    Tells setting (do
      let machine ← .quiet EStateM.get
      let closure ← .quiet (Lox.Step.newClosure machine.current name.text (.body definition false))
      Watched.defineVariable name (.function closure)
      return Flow.normal none : Watched Flow) (do
      let machine ← Step.ordinary EStateM.get
      let closure ← Step.newClosure tie machine.current name.text (.body definition false)
      Step.defineVariable name (.function closure)
      return Flow.normal none : Step Flow) start ledger fun flow _ _ => flow = .normal none := by
  have fits := code.fits
  have stands := code.stands
  have areNamed : Local.AreNamed setting.names [.named name] := Local.areNamed_singleton isName
  have surrounds : around.Fits setting.names (scopes.declare [.named name]) := by
    cases scopes with
    | nil => exact stands.around
    | cons => exact stands.around.declare stands.named areNamed
  apply Tells.get
  apply (tells_newClosure code.knows fits tie start.machine.current name.text _).bind
    (Watched.runs_newClosure fits start.machine.current name.text _)
  rintro closure middle after follows ⟨environment, behaviour, layout⟩ noted knows ⟨isTie, -⟩
  have still : start.layout.Still middle.layout := by
    rw [layout]
    exact .refl _
  have standsThen := stands.follow follows still
  have tied : ∀ layout, middle.layout.Le layout →
      layout.Chain (scopes.declare [.named name]) middle.machine.current →
        IsKnown setting after layout (.function closure) := by
    intro layout ordered chain
    rw [← follows.current] at environment
    refine ⟨around, scopes.declare [.named name], ?_, ?_, ?_⟩
    · rw [environment]
      exact chain
    · rw [behaviour]
      rintro found isInitializer ⟨⟩
      exact ⟨isKnown, proper, surrounds⟩
    · intro allowed
      rcases code.leads allowed with ⟨found, rfl, leads⟩
      refine ⟨found, isTie, ?_⟩
      rw [environment, follows.current]
      exact (leads.declare plain stands.named areNamed).mono noted (follows.ordered.trans ordered)
  have fitsThen : ∀ layout, middle.layout.Le layout →
      layout.Chain (scopes.declare [.named name]) middle.machine.current →
        (Value.function closure).Fits setting layout :=
    fun layout ordered chain => (tied layout ordered chain).fits
  apply (tells_defineVariable knows follows.fits standsThen name tied).bind
    (Watched.runs_defineVariable follows.fits standsThen name fitsThen)
  intro _ _ _ _ _ _ knows _
  exact .pure knows rfl

/-! ## Classes -/

theorem tells_newMethods (knows : Knows setting ledger start) (frame : FrameId)
    (allowInitializer : Bool) (methods : List NamedFunction) :
    Tells setting (.quiet (.newMethods frame allowInitializer methods ∅))
      (Step.ordinary (.newMethods frame allowInitializer methods ∅)) start ledger
      fun table finish after => ledger = after ∧
        finish.machine.nextId = start.machine.nextId + methods.length ∧
        ∀ (name : String) (method : Closure), table[name]? = some method →
          method.IsMadeFrom methods frame start.machine.nextId
            (start.machine.nextId + methods.length) := by
  rcases Step.newMethods_eq frame allowInitializer methods ∅ start.machine with
    ⟨made, taken, madeFrom⟩
  apply Tells.ordinary
  · intro table machine ends
    rw [taken] at ends
    cases ends
    refine ⟨?_, rfl, rfl, ?_⟩
    · exact knows.quiet rfl (Nat.le_add_right _ _) (knows.functions.congr rfl rfl rfl)
    · intro name method found
      rcases madeFrom name method found with impossible | isMade
      · simp at impossible
      · exact isMade
  · intro stop machine ends
    rw [taken] at ends
    cases ends

theorem tells_superclass (knows : Knows setting ledger start) (sound : setting.Sound)
    (fits : start.Fits setting) (stands : start.Stands setting around scopes)
    (target : Option Reference)
    (isKnown : target.toList.map (Reference.occurrence scopes) ⊆ setting.occurrences) :
    Tells setting (Watched.superclass setting.addresses target)
      (Step.superclass setting.addresses target) start ledger fun superclass? finish after =>
        ∀ type ∈ superclass?, Known setting (.type type) finish after := by
  cases target with
  | none => exact .pure knows fun _ impossible => by cases impossible
  | some target =>
    have isUse : target.occurrence scopes ∈ setting.occurrences := by
      simpa using isKnown
    have told : Tells setting
        (Watched.use setting.addresses (.read target.id target.name))
        (Step.ordinary (.readVariable setting.addresses target.id target.name)) start ledger
        (Known setting) := by
      apply Tells.note fits knows fun _ => rfl
      intro middle _ _ _ knows
      exact tells_readVariable knows setting.addresses target.id target.name
    apply told.bind (Watched.runs_read sound fits stands isUse rfl rfl target.name)
    intro value middle after _ _ _ knows known
    cases value with
    | type superclass =>
      apply Tells.pure knows
      rintro type ⟨⟩
      exact known
    | _ => exact .fail knows target.name.line _

/-- The frame that methods keep holds the superclass, if there is one. -/
theorem tells_methodFrame (knows : Knows setting ledger start) (fits : start.Fits setting)
    (chain : start.layout.Chain scopes start.machine.current) {superclass? : Option Class}
    (known : ∀ type ∈ superclass?, IsKnown setting ledger start.layout (.type type)) :
    Tells setting (Watched.methodFrame superclass?) (Step.methodFrame superclass?) start ledger
      fun frame _ after => ∀ type ∈ superclass?, after.holders frame = some (.type type) := by
  cases superclass? with
  | none =>
    apply Tells.get
    exact .pure knows fun _ impossible => by cases impossible
  | some superclass =>
    have isKnown := known superclass rfl
    have hold : Slot.Fits setting start.layout .super (.initialised (.type superclass)) := by
      constructor
      · rintro value ⟨⟩
        exact isKnown.fits
      · exact fun _ => ⟨superclass, rfl⟩
    apply Tells.get
    apply (tells_newHolder knows fits chain (.inr rfl) hold isKnown).imp
    rintro frame finish after _ ⟨holds, -⟩ type ⟨⟩
    exact holds

/-- Noting the class of methods that are new. -/
theorem Ledger.le_noteHome {first : Nat} (fresh : ∀ id, first ≤ id → ledger.homes id = none)
    (last : Nat) (home : Class) : ledger.Le (ledger.noteHome first last home) := by
  refine ⟨fun _ _ noted => noted, ?_, fun _ _ noted => noted⟩
  intro id found noted
  have isOld : ¬ (first ≤ id ∧ id < last) := by
    rintro ⟨isNew, -⟩
    rw [fresh id isNew] at noted
    cases noted
  exact (if_neg isOld).trans noted

/-- The class that was made is noted as that of its methods. -/
theorem tells_noteHome (knows : Knows setting ledger start) {first last : Nat}
    (fresh : ∀ id, first ≤ id → ledger.homes id = none) (given : last ≤ start.machine.nextId)
    {type : Class}
    (known : IsKnown setting (ledger.noteHome first last type) start.layout (.type type)) :
    Tells setting (pure (Value.type type)) (do
      Step.note (.noteHome first last type)
      return .type type) start ledger (Known setting) := by
  have noted := Ledger.le_noteHome fresh last type
  have same : start.next [] start.machine = start := Moment.next_nil _ _
  show ∃ after, _ = EStateM.Result.ok (Value.type type) _ ∧ _ ∧
    Knows setting after (start.next [] start.machine) ∧ IsKnown setting after
      (start.next [] start.machine).layout (.type type)
  rw [same]
  refine ⟨ledger.noteHome first last type, rfl, noted, ?_, known⟩
  constructor
  · exact knows.functions.imp (fun _ tied => tied.mono (.refl _) noted (.refl _))
      (fun _ homed => homed.mono (.refl _) noted (.refl _))
  · intro id isNew
    have beyond : ¬ (first ≤ id ∧ id < last) := by omega
    rw [Ledger.noteHome]
    dsimp only
    rw [if_neg beyond]
    exact knows.fresh id isNew
  · exact knows.holders

/-- Instance methods are homed in the class that they are made for. -/
theorem isHomed_of_isMadeFrom {target : Option Reference} {methods : List NamedFunction}
    (isKnown : NamedFunction.occurrencesAll (.method target.isSome)
      ([.this] :: scopes.ofClass target) methods ⊆ setting.occurrences)
    (proper : NamedFunction.AreProper setting.names methods) {layout : Layout Local}
    {frame : FrameId} (chain : layout.Chain (scopes.ofClass target) frame) {first last : Nat}
    {own : ClassBody} {superclass? : Option Class} (same : superclass?.isSome = target.isSome)
    (holds : ∀ type ∈ superclass?, ledger.holders frame = some (.type type)) {method : Closure}
    (isMade : method.IsMadeFrom methods frame first last) :
    IsHomed setting (ledger.noteHome first last (.extending own superclass?)) layout method := by
  rcases isMade with ⟨environment, first_le, lt_last, named, member, isInitializer, behaves⟩
  refine ⟨.method target.isSome, scopes.ofClass target, environment ▸ chain, ?_,
    .extending own superclass?, if_pos ⟨first_le, lt_last⟩, ?_⟩
  · rw [behaves]
    rintro definition _ ⟨⟩
    exact NamedFunction.fits_of_mem (Watched.surrounds_ofClass target) isKnown proper member
  · intro inherits
    cases target with
    | none => cases inherits
    | some target =>
      cases superclass? with
      | none => cases same
      | some superclass =>
        refine ⟨superclass, scopes, Class.superclass?_extending own _, rfl, ?_⟩
        rw [environment]
        exact holds superclass rfl

/-- Class methods have no `this`. -/
theorem isTied_of_isMadeFrom {target : Option Reference} {methods : List NamedFunction}
    (isKnown : NamedFunction.occurrencesAll .classMethod (scopes.ofClass target) methods ⊆
      setting.occurrences)
    (proper : NamedFunction.AreProper setting.names methods) {layout : Layout Local}
    {frame : FrameId} (chain : layout.Chain (scopes.ofClass target) frame) {first last : Nat}
    {method : Closure} (isMade : method.IsMadeFrom methods frame first last) :
    IsTied setting ledger layout method := by
  rcases isMade with ⟨environment, -, -, named, member, isInitializer, behaves⟩
  refine ⟨.classMethod, scopes.ofClass target, environment ▸ chain, ?_, ?_⟩
  · rw [behaves]
    rintro definition _ ⟨⟩
    refine NamedFunction.fits_of_mem ?_ isKnown proper member
    intro impossible
    cases impossible
  · intro impossible
    cases impossible

/-- A class is made, and noted as that of its methods. -/
theorem tells_newClass (knows : Knows setting ledger start) (sound : setting.Sound)
    (fits : start.Fits setting) (stands : start.Stands setting around scopes) (name : Name)
    (target : Option Reference) (methods classMethods : List NamedFunction)
    (isKnown : target.toList.map (Reference.occurrence scopes) ++
      NamedFunction.occurrencesAll .classMethod (scopes.ofClass target) classMethods ++
      NamedFunction.occurrencesAll (.method target.isSome) ([.this] :: scopes.ofClass target)
        methods ⊆ setting.occurrences)
    (methodsProper : NamedFunction.AreProper setting.names methods)
    (classMethodsProper : NamedFunction.AreProper setting.names classMethods) :
    Tells setting (Watched.newClass setting.addresses name target methods classMethods)
      (Step.newClass setting.addresses name target methods classMethods) start ledger
      (Known setting) := by
  rw [List.append_subset, List.append_subset] at isKnown
  rcases isKnown with ⟨⟨targetKnown, classMethodsKnown⟩, methodsKnown⟩
  have noMethods : ∀ layout added, Watched.TableFits setting layout added ∅ := by
    intro layout added name method found
    simp at found
  have noSuper : Surroundings.classMethod.Fits setting.names (scopes.ofClass target) := by
    intro impossible
    cases impossible
  apply (tells_superclass knows sound fits stands target targetKnown).bind
    (Watched.runs_superclass sound fits stands target targetKnown)
  rintro superclass? first noted follows ⟨superclassFits, isSome, firstLayout⟩ - knows
    superclassKnown
  have chain := stands.chain
  rw [← firstLayout, ← follows.current] at chain
  apply (tells_methodFrame knows follows.fits chain superclassKnown).bind
    (Watched.runs_methodFrame follows.fits chain superclassFits isSome)
  clear knows
  rintro frame second after further ⟨inFrame, -⟩ grown knows holds
  have inherited : ∀ type ∈ superclass?, IsKnown setting after second.layout (.type type) :=
    fun type member => (superclassKnown type member).mono (.refl _) grown further.ordered
  have fresh : ∀ id, second.machine.nextId ≤ id → after.homes id = none :=
    fun id isNew => (knows.fresh id isNew).2
  apply Tells.look
  apply (tells_newMethods knows frame true methods).bind
    (Watched.runs_newMethods [[.this]] true (Watched.surrounds_ofClass target) methods methodsKnown
      methodsProper further.fits inFrame (noMethods _ _))
  clear knows
  rintro table third _ follows ⟨-, thirdLayout⟩ - knows ⟨rfl, thirdId, isMade⟩
  rw [← thirdLayout] at inFrame inherited
  rw [← thirdId] at isMade
  apply Tells.look
  apply (tells_newMethods knows frame false classMethods).bind
    (Watched.runs_newMethods [] false noSuper classMethods classMethodsKnown classMethodsProper
      follows.fits inFrame (noMethods _ _))
  clear knows
  rintro classTable fourth _ last ⟨-, fourthLayout⟩ - knows ⟨rfl, fourthId, isMadeInClass⟩
  rw [← fourthLayout] at inFrame inherited
  apply (tells_freshId knows).bind (Watched.runs_freshId last.fits)
  clear knows
  rintro id fifth _ final same - knows ⟨rfl, fifthId⟩
  have fifthLayout : fifth.layout = fourth.layout := same
  rw [← fifthLayout] at inFrame inherited
  have given : third.machine.nextId ≤ fifth.machine.nextId := by omega
  apply tells_noteHome knows fresh given
  have later := Ledger.le_noteHome fresh third.machine.nextId
    (Class.extending ⟨id, name.text, table, classTable⟩ superclass?)
  apply Class.all_extending
  · constructor
    · intro other method found
      exact isHomed_of_isMadeFrom methodsKnown methodsProper inFrame isSome holds
        (isMade other method found)
    · intro other method found
      exact isTied_of_isMadeFrom classMethodsKnown classMethodsProper inFrame
        (isMadeInClass other method found)
  · exact fun type member => (inherited type member).mono (.refl _) later (.refl _)

/-- A class is declared. -/
theorem Code.tells_declareClass (plain : setting.Plain) (sound : setting.Sound)
    (code : Code setting around scopes tie start ledger) (name : Name)
    (target : Option Reference) (methods classMethods : List NamedFunction)
    (isKnown : (Stmt.classDecl name target methods classMethods).occurrences around scopes ⊆
      setting.occurrences)
    (proper : (Stmt.classDecl name target methods classMethods).IsProper setting.names) :
    Tells setting (Watched.declareClass setting.addresses name target methods classMethods)
      (Step.declareClass setting.addresses name target methods classMethods) start ledger
      Anything := by
  have fits := code.fits
  have stands := code.stands
  rw [Stmt.occurrences] at isKnown
  rw [Stmt.IsProper] at proper
  rcases proper with ⟨isName, -, methodsProper, classMethodsProper⟩
  apply Tells.inRoot
  rw [stands.inRoot]
  cases scopes with
  | nil =>
    have noValue : ∀ value : Value, Slot.uninitialised = .initialised value →
        value.Fits setting start.layout := by
      intro value impossible
      cases impossible
    apply (tells_setGlobal code.knows name.text .uninitialised trivial).bind
      (Watched.runs_setGlobal fits name.text noValue)
    intro _ first after follows same noted knows _
    have still : start.layout.Still first.layout := by
      rw [(same : first.layout = start.layout)]
      exact .refl _
    have standsThen := stands.follow follows still
    apply (tells_newClass knows sound follows.fits standsThen name target methods classMethods
      isKnown methodsProper classMethodsProper).bind
      (Watched.runs_newClass sound follows.fits standsThen name target methods classMethods isKnown
        methodsProper classMethodsProper)
    rintro value second last further ⟨valueFits, -⟩ - knows known
    have holds : ∀ other, Slot.initialised value = .initialised other →
        other.Fits setting second.layout := by
      rintro other ⟨⟩
      exact valueFits
    apply (tells_setGlobal knows name.text (.initialised value) known).bind
      (Watched.runs_setGlobal further.fits name.text holds)
    intro _ _ _ _ _ _ knows _
    exact .pure knows trivial
  | cons innermost outer =>
    have inner : innermost :: outer ≠ [] := List.cons_ne_nil _ _
    have noFunctions : ∀ layout, layout = start.layout.extend start.machine.current
        (.named name) → Slot.uninitialised.All (IsTied setting ledger layout)
          (IsHomed setting ledger layout) := fun _ _ => trivial
    apply (tells_newSlot code.knows fits stands inner (fun _ _ => .uninitialised name)
      noFunctions).bind (Watched.runs_newSlot fits stands inner fun _ _ => .uninitialised name)
    rintro index first after follows ⟨-, layout⟩ noted knows -
    have declares := Watched.declares_extend stands inner layout
    have inside := code.declare plain follows (Local.areNamed_singleton isName) declares.row
      noted knows
    apply (tells_newClass knows sound follows.fits inside.stands name target methods classMethods
      isKnown methodsProper classMethodsProper).bind
      (Watched.runs_newClass sound follows.fits inside.stands name target methods classMethods
        isKnown methodsProper classMethodsProper)
    rintro value second last further ⟨valueFits, still⟩ notedThen knows known
    have codeThen := inside.follow further still notedThen knows
    apply (tells_setSlot knows codeThen.stands index known).bind
      (Watched.runs_setSlot_of_stands further.fits codeThen.stands valueFits)
    intro _ _ _ _ _ _ knows _
    exact .pure knows trivial

end

end Tied

end Lox
