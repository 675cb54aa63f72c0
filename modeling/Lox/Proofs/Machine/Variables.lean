import Lox.Proofs.Machine.Operations

/-!
# Variables, methods and classes of fitting machines

The steps that look up or declare something, in code that stands in the scopes of a
program.  A variable whose place is recorded is always there.
-/

namespace Lox

/-- Slots for names take any value. -/
theorem Local.admits_of_text {declared : Local} (slot : Slot Value)
    (isName : declared.text ≠ Local.this.text ∧ declared.text ≠ Local.super.text) :
    declared.Admits slot := by
  cases declared with
  | named => trivial
  | this => exact absurd rfl isName.1
  | super => exact absurd rfl isName.2

namespace Step

/-- The class in the slot of a use of `super`. -/
def superclass? (addresses : AddressTable) (id : Nat) (machine : Machine) : Option Class :=
  match addresses[id]? with
  | none => none
  | some ⟨depth, slot⟩ =>
    match machine.frames.get? machine.current depth slot with
    | some (.initialised (.type superclass)) => some superclass
    | _ => none

/-- The instance in the first slot of the frame before that of `super`. -/
def receiver? (addresses : AddressTable) (id : Nat) (machine : Machine) : Option Instance :=
  match addresses[id]? with
  | some ⟨depth + 1, _⟩ =>
    match machine.frames.get? machine.current depth 0 with
    | some (.initialised (.object target)) => some target
    | _ => none
  | _ => none

theorem superMethod_eq (addresses : AddressTable) (id line : Nat) (method : Name)
    (machine : Machine) :
    superMethod addresses id line method machine =
      match superclass? addresses id machine with
      | none => .error (.fault ⟨line, .undefinedVariable "super"⟩) machine
      | some superclass =>
        match receiver? addresses id machine with
        | none => .error (.fault ⟨line, .undefinedVariable "this"⟩) machine
        | some target =>
          match superclass.method? method.text with
          | none => .error (.fault ⟨method.line, .undefinedProperty method.text⟩) machine
          | some found => (do return .function (← bindMethod target found) : Step Value) machine := by
  rw [superMethod, get_bind, superclass?, receiver?]
  cases addresses[id]? with
  | none => rfl
  | some address =>
    rcases address with ⟨depth, slot⟩
    dsimp only
    rcases machine.frames.get? machine.current depth slot with
      _ | (_ | (_ | _ | _ | _ | _ | superclass | _))
    case some.initialised.type =>
      cases depth with
      | zero => rfl
      | succ depth =>
        dsimp only
        rcases machine.frames.get? machine.current depth 0 with
          _ | (_ | (_ | _ | _ | _ | _ | _ | target))
        case some.initialised.object =>
          dsimp only
          cases superclass.method? method.text <;> rfl
        all_goals rfl
    all_goals rfl

end Step

namespace Watched

section

variable {setting : Setting} {around : Surroundings} {scopes : Scopes} {start : Moment}

/-- A value that fits, and no slot is added to a frame that exists. -/
def Yields (setting : Setting) (start : Moment) (value : Value) (finish : Moment) : Prop :=
  value.Fits setting finish.layout ∧ start.layout.Still finish.layout

/-- A value that fits, and the layout is the same. -/
def Finds (setting : Setting) (start : Moment) (value : Value) (finish : Moment) : Prop :=
  value.Fits setting finish.layout ∧ finish.layout = start.layout

theorem Finds.yields {value : Value} {finish : Moment} (found : Finds setting start value finish) :
    Yields setting start value finish := by
  refine ⟨found.1, ?_⟩
  rw [found.2]
  exact .refl _

/-! ## Variables -/

section

variable (sound : setting.Sound) (fits : start.Fits setting)
  (stands : start.Stands setting around scopes) {occurrence : Occurrence}
  (known : occurrence ∈ setting.occurrences) (inScopes : occurrence.scopes = scopes)
include sound fits stands known inScopes

/-- The slot at the recorded place of a variable is there. -/
theorem exists_slot? {id : Nat} (same : id = occurrence.id) {address : Address}
    (recorded : setting.addresses[id]? = some address) (name : String) :
    ∃ slot, Step.slot? setting.addresses id name start.machine = some slot := by
  have found := sound.recorded occurrence known address (same ▸ recorded)
  rcases stands.slot_at_address fits inScopes found with
    ⟨frame, declared, slot, further, -, -, here, -⟩
  refine ⟨slot, ?_⟩
  simp only [Step.slot?, recorded, Frames.get?, further]
  exact here

theorem runs_read {id : Nat} (same : id = occurrence.id) (name : Name) :
    (use setting.addresses (.read id name)).Runs setting start (Finds setting start) := by
  have defined : ∀ address, occurrence.address? = some address →
      setting.addresses[occurrence.id]? = some address →
        ¬ (Use.read id name).IsUndefined setting.addresses start.machine := by
    intro address _ recorded
    rcases exists_slot? sound fits stands known inScopes same (same ▸ recorded) name.text with
      ⟨slot, here⟩
    rintro ⟨line, missing, after, failed⟩
    rw [Use.step, Step.readVariable_eq, here] at failed
    cases slot <;> cases failed
  have isSound := stands.sound_uses sound fits known inScopes
    (show (Use.read id name).id = occurrence.id from same) fun _ => defined
  apply Runs.note fits isSound fun _ => rfl
  intro middle follows _ layout
  have read : ∀ value, Step.slot? setting.addresses id name.text middle.machine =
      some (.initialised value) → value.Fits setting middle.layout := by
    intro value here
    rw [Step.slot?] at here
    split at here
    · exact follows.fits.get? here
    · exact follows.fits.globals name.text value here
  apply Runs.quiet
  · intro value after taken
    rw [Step.readVariable_eq] at taken
    split at taken
    · next here =>
      cases taken
      exact ⟨.refl follows.fits, read _ here, layout⟩
    · cases taken
    · cases taken
  · intro stop after taken
    rw [Step.readVariable_eq] at taken
    split at taken
    · cases taken
    · cases taken
      exact .refl follows.fits
    · cases taken
      exact .refl follows.fits

/-- The frame of an assigned variable is there, and its slot is for that name. -/
theorem exists_holder? {address : Address}
    (recorded : setting.addresses[occurrence.id]? = some address) :
    ∃ frame declared,
      start.machine.frames.holder? start.machine.current address.depth address.slot = some frame ∧
        (start.layout.row frame)[address.slot]? = some declared ∧
        declared.text = occurrence.name := by
  have found := sound.recorded _ known address recorded
  rcases stands.slot_at_address fits inScopes found with
    ⟨frame, declared, slot, further, inRow, text, here, -⟩
  refine ⟨frame, declared, ?_, inRow, text⟩
  rw [Frames.holder?_eq_some_iff]
  exact ⟨further, (Array.getElem?_eq_some_iff.mp here).1⟩

end

theorem runs_assignVariable (sound : setting.Sound) (fits : start.Fits setting)
    (stands : start.Stands setting around scopes) {target : Reference}
    (known : target.occurrence scopes ∈ setting.occurrences)
    (isName : setting.names target.name.text) {value : Value}
    (valueFits : value.Fits setting start.layout) :
    (quiet (Step.assignVariable setting.addresses target value)).Runs setting start
      (SameLayout start) := by
  apply Runs.quiet
  · intro _ after taken
    rw [Step.assignVariable_eq] at taken
    split at taken
    · next address recorded =>
      rcases exists_holder? sound fits stands known rfl recorded with
        ⟨frame, declared, found, inRow, text⟩
      have admitted : ∀ other, (start.layout.row frame)[address.slot]? = some other →
          setting.Plain → other.Admits (.initialised value) := by
        intro other here plain
        rw [inRow] at here
        cases here
        apply Local.admits_of_text
        rw [text]
        exact plain _ isName
      simp only [found] at taken
      cases taken
      exact follows_write _ fits valueFits admitted rfl rfl rfl rfl rfl
    · split at taken
      · cases taken
        apply follows_setGlobal fits target.name.text
        rintro other ⟨⟩
        exact valueFits
      · cases taken
  · intro stop after taken
    rw [Step.assignVariable_eq] at taken
    split at taken
    · split at taken
      · cases taken
      · cases taken
        exact .refl fits
    · split at taken
      · cases taken
      · cases taken
        exact .refl fits

theorem runs_assign (sound : setting.Sound) (fits : start.Fits setting)
    (stands : start.Stands setting around scopes) {target : Reference}
    (known : target.occurrence scopes ∈ setting.occurrences)
    (isName : setting.names target.name.text) {value : Value}
    (valueFits : value.Fits setting start.layout) :
    (use setting.addresses (.assign target value)).Runs setting start (Finds setting start) := by
  have defined : ∀ address, (target.occurrence scopes).address? = some address →
      setting.addresses[(target.occurrence scopes).id]? = some address →
        ¬ (Use.assign target value).IsUndefined setting.addresses start.machine := by
    intro address _ recorded
    rcases exists_holder? sound fits stands known rfl recorded with ⟨frame, declared, found, -, -⟩
    rintro ⟨line, missing, after, failed⟩
    have recorded' : setting.addresses[target.id]? = some address := recorded
    have assigned : Step.assignVariable setting.addresses target value start.machine =
        .ok () { start.machine with
          frames := start.machine.frames.write frame address.slot value } := by
      rw [Step.assignVariable_eq, recorded']
      simp only [found]
    have taken : (Use.assign target value).step setting.addresses start.machine =
        .ok value { start.machine with
          frames := start.machine.frames.write frame address.slot value } := by
      show EStateM.bind _ _ start.machine = _
      rw [EStateM.bind, assigned]
      rfl
    rw [taken] at failed
    cases failed
  have isSound := stands.sound_uses sound fits known rfl
    (show (Use.assign target value).id = (target.occurrence scopes).id from rfl) fun _ => defined
  apply Runs.note fits isSound fun _ => rfl
  intro middle follows _ layout
  have still : start.layout.Still middle.layout := by
    rw [layout]
    exact .refl _
  rw [← layout] at valueFits
  apply (runs_assignVariable sound follows.fits (stands.follow follows still) known isName
    valueFits).bind
  intro _ finish assigned same
  apply Runs.pure assigned.fits
  have layouts : finish.layout = middle.layout := same
  exact ⟨layouts ▸ valueFits, layouts.trans layout⟩

/-! ## Methods -/

/-- An instance method that is bound to an instance stands inside a scope for `this`. -/
theorem runs_bindMethod (fits : start.Fits setting) {target : Instance} {method : Closure}
    (targetFits : target.ofClass.Fits setting start.layout)
    (methodFits : method.Fits setting start.layout [[.this]]) :
    (bindMethod target method).Runs setting start fun closure finish =>
      closure.Fits setting finish.layout [] ∧ start.layout.Still finish.layout ∧
        closure.behaviour = method.behaviour := by
  rcases methodFits with ⟨around, scopes, chain, body⟩
  have holds : List.Forall₂ (fun declared value =>
      Slot.Fits setting start.layout declared (.initialised value)) [.this] [.object target] := by
    constructor
    · constructor
      · rintro value ⟨⟩
        exact targetFits
      · exact fun _ => ⟨target, rfl⟩
    · exact .nil
  apply (runs_newFrame fits chain holds).bind
  rintro frame middle follows ⟨-, layout, inFrame⟩
  apply (runs_newClosure follows.fits frame method.name method.behaviour).imp
  rintro closure finish after ⟨environment, behaviour, same⟩
  refine ⟨⟨around, [.this] :: scopes, ?_, ?_⟩, ?_, behaviour⟩
  · rw [environment, same]
    exact inFrame
  · intro definition isInitializer behaves
    exact body definition isInitializer (behaviour ▸ behaves)
  · rw [same, layout]
    exact start.layout.still_add _ _

/-- A function value whose function fits. -/
theorem runs_bindMethod_function (fits : start.Fits setting) {target : Instance}
    {method : Closure} (targetFits : target.ofClass.Fits setting start.layout)
    (methodFits : method.Fits setting start.layout [[.this]]) :
    (do return Value.function (← bindMethod target method)).Runs setting start
      (Yields setting start) := by
  apply (runs_bindMethod fits targetFits methodFits).bind
  rintro closure finish follows ⟨closureFits, still, -⟩
  exact .pure follows.fits ⟨closureFits, still⟩

theorem runs_property (fits : start.Fits setting) {target : Value}
    (targetFits : target.Fits setting start.layout) (name : Name) :
    (property target name).Runs setting start (Yields setting start) := by
  cases target with
  | object target =>
    apply (runs_field? fits target name.text).bind
    rintro value? middle _ ⟨rfl, valueFits⟩
    cases value? with
    | some value => exact .pure fits ⟨valueFits value rfl, .refl _⟩
    | none =>
      dsimp only
      cases found : target.ofClass.method? name.text with
      | none => exact .fail fits
      | some method =>
        exact runs_bindMethod_function fits targetFits (Class.Fits.method? targetFits found)
  | type target =>
    rw [property]
    cases found : target.classMethod? name.text with
    | none => exact .fail fits
    | some method => exact .pure fits ⟨Class.Fits.classMethod? targetFits found, .refl _⟩
  | _ => exact .fail fits

/-- The class in the slot of a use of `super` fits. -/
theorem fits_superclass? (fits : start.Fits setting) {id : Nat} {superclass : Class}
    (found : Step.superclass? setting.addresses id start.machine = some superclass) :
    superclass.Fits setting start.layout := by
  rw [Step.superclass?] at found
  split at found
  · cases found
  · split at found
    · next here =>
      cases found
      exact fits.get? here
    · cases found

/-- The instance for a use of `super` fits. -/
theorem fits_receiver? (fits : start.Fits setting) {id : Nat} {target : Instance}
    (found : Step.receiver? setting.addresses id start.machine = some target) :
    target.ofClass.Fits setting start.layout := by
  rw [Step.receiver?] at found
  split at found
  · split at found
    · next here =>
      cases found
      exact fits.get? here
    · cases found
  · cases found

theorem events_superMethod {id line : Nat} {method : Name} {machine : Machine} {stop : Stop}
    (failed : Step.superMethod setting.addresses id line method machine = .error stop machine) :
    (superMethod setting.addresses id line method).events machine = [] := by
  simp only [superMethod, failed]

theorem runs_superMethod (fits : start.Fits setting) (id line : Nat) (method : Name) :
    (superMethod setting.addresses id line method).Runs setting start (Yields setting start) := by
  have taken := Step.superMethod_eq setting.addresses id line method start.machine
  cases superclassHere : Step.superclass? setting.addresses id start.machine with
  | none =>
    simp only [superclassHere] at taken
    exact .failing fits taken (events_superMethod taken)
  | some superclass =>
    cases receiverHere : Step.receiver? setting.addresses id start.machine with
    | none =>
      simp only [superclassHere, receiverHere] at taken
      exact .failing fits taken (events_superMethod taken)
    | some target =>
      cases found : superclass.method? method.text with
      | none =>
        simp only [superclassHere, receiverHere, found] at taken
        exact .failing fits taken (events_superMethod taken)
      | some bound =>
        simp only [superclassHere, receiverHere, found] at taken
        have methodFits := (fits_superclass? fits superclassHere).method? found
        apply (runs_bindMethod_function fits (fits_receiver? fits receiverHere) methodFits).congr
          taken
        simp only [superMethod, taken]
        rfl

/-- Where `super` means something, the class and the instance are there. -/
theorem exists_superclass? (sound : setting.Sound) (fits : start.Fits setting)
    (stands : start.Stands setting around scopes) (plain : setting.Plain) {id : Nat}
    (known : ⟨id, "super", around.allowsSuper, scopes⟩ ∈ setting.occurrences) {address : Address}
    (recorded : setting.addresses[id]? = some address) :
    ∃ superclass target, Step.superclass? setting.addresses id start.machine = some superclass ∧
      Step.receiver? setting.addresses id start.machine = some target := by
  have found := sound.recorded _ known address recorded
  have allowed : around.allowsSuper := by
    by_contra illegal
    simp [Occurrence.address?, illegal] at found
  rcases stands.around.exists_locate? allowed plain with ⟨depth, thisHere, superHere, -, means⟩
  have isAddress : address = ⟨depth + 1, 0⟩ := by
    rw [Occurrence.address?, if_pos allowed] at found
    exact Option.some.inj (found.symm.trans means)
  have first : ∀ declared : Local, [declared][0]? = some declared := fun _ => rfl
  rcases stands.exists_slot fits superHere (first _) with
    ⟨superFrame, superSlot, superFurther, -, superIs, superHolds⟩
  rcases stands.exists_slot fits thisHere (first _) with
    ⟨thisFrame, thisSlot, thisFurther, -, thisIs, thisHolds⟩
  rcases superHolds.admitted plain with ⟨superclass, rfl⟩
  rcases thisHolds.admitted plain with ⟨target, rfl⟩
  refine ⟨superclass, target, ?_, ?_⟩
  · simp only [Step.superclass?, recorded, isAddress, Frames.get?, superFurther, superIs]
  · simp only [Step.receiver?, recorded, isAddress, Frames.get?, thisFurther, thisIs]

theorem runs_super (sound : setting.Sound) (fits : start.Fits setting)
    (stands : start.Stands setting around scopes) {id : Nat}
    (known : ⟨id, "super", around.allowsSuper, scopes⟩ ∈ setting.occurrences) (line : Nat)
    (method : Name) :
    (use setting.addresses (.super id line method)).Runs setting start (Yields setting start) := by
  have defined : ((Use.super id line method).IsSuper → setting.Plain) →
      ∀ address, (⟨id, "super", around.allowsSuper, scopes⟩ : Occurrence).address? = some address →
        setting.addresses[id]? = some address →
          ¬ (Use.super id line method).IsUndefined setting.addresses start.machine := by
    intro plain address _ recorded
    rcases exists_superclass? sound fits stands (plain ⟨id, line, method, rfl⟩) known recorded with
      ⟨superclass, target, superclassHere, receiverHere⟩
    rintro ⟨place, missing, after, failed⟩
    rw [Use.step, Step.superMethod_eq] at failed
    simp only [superclassHere, receiverHere] at failed
    cases found : superclass.method? method.text with
    | none =>
      rw [found] at failed
      cases failed
    | some bound =>
      rw [found] at failed
      cases failed
  have isSound := stands.sound_uses sound fits known rfl
    (show (Use.super id line method).id = id from rfl) defined
  apply Runs.note fits isSound fun _ => rfl
  intro middle follows _ layout
  apply (runs_superMethod follows.fits id line method).imp
  rintro value finish - ⟨valueFits, still⟩
  rw [layout] at still
  exact ⟨valueFits, still⟩

/-! ## Declarations -/

/-- The methods in a table fit. -/
def TableFits (setting : Setting) (layout : Layout Local) (added : Scopes)
    (table : Table Closure) : Prop :=
  ∀ (name : String) (method : Closure), table[name]? = some method →
    method.Fits setting layout added

theorem runs_newMethods (added : Scopes) {frame : FrameId} (allowInitializer : Bool)
    (surrounds : around.Fits setting.names (added ++ scopes)) (methods : List NamedFunction)
    (known : NamedFunction.occurrencesAll around (added ++ scopes) methods ⊆ setting.occurrences)
    (proper : NamedFunction.AreProper setting.names methods) (fits : start.Fits setting)
    (chain : start.layout.Chain scopes frame) {table : Table Closure}
    (tableFits : TableFits setting start.layout added table) :
    (quiet (Step.newMethods frame allowInitializer methods table)).Runs setting start
      fun table finish => TableFits setting finish.layout added table ∧
        finish.layout = start.layout := by
  induction methods generalizing start table with
  | nil => exact Runs.congr (.pure fits ⟨tableFits, rfl⟩) rfl rfl
  | cons first others induction =>
    rcases first with ⟨name, definition⟩
    rw [NamedFunction.occurrencesAll, List.append_subset] at known
    apply Runs.quiet_bind
    apply (runs_newClosure fits frame name.text _).bind
    rintro method middle follows ⟨environment, behaviour, layout⟩
    have methodFits : method.Fits setting middle.layout added := by
      refine ⟨around, scopes, ?_, ?_⟩
      · rw [environment, layout]
        exact chain
      · intro found isInitializer behaves
        rw [behaviour] at behaves
        cases behaves
        exact ⟨known.1, proper.1, surrounds⟩
    have inserted : TableFits setting middle.layout added (table.insert name.text method) := by
      intro other found here
      rw [Std.TreeMap.getElem?_insert] at here
      split at here
      · cases here
        exact methodFits
      · rw [layout]
        exact tableFits other found here
    rw [← layout] at chain
    apply (induction known.2 proper.2 follows.fits chain inserted).imp
    rintro table finish - ⟨fits, same⟩
    exact ⟨fits, same.trans layout⟩

theorem runs_superclass (sound : setting.Sound) (fits : start.Fits setting)
    (stands : start.Stands setting around scopes) (target : Option Reference)
    (known : target.toList.map (Reference.occurrence scopes) ⊆ setting.occurrences) :
    (superclass setting.addresses target).Runs setting start fun superclass? finish =>
      (∀ type ∈ superclass?, type.Fits setting finish.layout) ∧
        superclass?.isSome = target.isSome ∧ finish.layout = start.layout := by
  cases target with
  | none => exact .pure fits ⟨by simp, rfl, rfl⟩
  | some target =>
    have isKnown : target.occurrence scopes ∈ setting.occurrences := by
      simpa using known
    apply (runs_read sound fits stands isKnown rfl rfl target.name).bind
    rintro value middle follows ⟨valueFits, layout⟩
    cases value with
    | type superclass =>
      apply Runs.pure follows.fits
      refine ⟨?_, rfl, layout⟩
      rintro type ⟨⟩
      exact valueFits
    | _ => exact .fail follows.fits

/-- The frame that methods keep is that of the scopes around them. -/
theorem runs_methodFrame (fits : start.Fits setting)
    (chain : start.layout.Chain scopes start.machine.current) {superclass? : Option Class}
    (classFits : ∀ type ∈ superclass?, type.Fits setting start.layout)
    {target : Option Reference} (same : superclass?.isSome = target.isSome) :
    (methodFrame superclass?).Runs setting start fun frame finish =>
      finish.layout.Chain (scopes.ofClass target) frame ∧ start.layout.Still finish.layout := by
  cases superclass? with
  | none =>
    cases target with
    | none =>
      apply Runs.get
      exact .pure fits ⟨chain, .refl _⟩
    | some => cases same
  | some superclass =>
    cases target with
    | none => cases same
    | some =>
      have holds : List.Forall₂ (fun declared value =>
          Slot.Fits setting start.layout declared (.initialised value))
          [.super] [.type superclass] := by
        constructor
        · constructor
          · rintro value ⟨⟩
            exact classFits superclass rfl
          · exact fun _ => ⟨superclass, rfl⟩
        · exact .nil
      apply Runs.get
      apply (runs_newFrame fits chain holds).imp
      rintro frame finish - ⟨-, layout, inFrame⟩
      refine ⟨inFrame, ?_⟩
      rw [layout]
      exact start.layout.still_add _ _

/-- The methods of a class stand in its scopes. -/
theorem surrounds_ofClass (target : Option Reference) :
    (Surroundings.method target.isSome).Fits setting.names
      ([.this] :: scopes.ofClass target) := by
  cases target with
  | none =>
    intro impossible
    cases impossible
  | some target => exact fun _ => ⟨[], scopes, rfl, fun _ impossible => by cases impossible⟩

theorem runs_newClass (sound : setting.Sound) (fits : start.Fits setting)
    (stands : start.Stands setting around scopes) (name : Name) (target : Option Reference)
    (methods classMethods : List NamedFunction)
    (known : target.toList.map (Reference.occurrence scopes) ++
      NamedFunction.occurrencesAll .classMethod (scopes.ofClass target) classMethods ++
      NamedFunction.occurrencesAll (.method target.isSome) ([.this] :: scopes.ofClass target)
        methods ⊆ setting.occurrences)
    (methodsProper : NamedFunction.AreProper setting.names methods)
    (classMethodsProper : NamedFunction.AreProper setting.names classMethods) :
    (newClass setting.addresses name target methods classMethods).Runs setting start
      (Yields setting start) := by
  rw [List.append_subset, List.append_subset] at known
  rcases known with ⟨⟨targetKnown, classMethodsKnown⟩, methodsKnown⟩
  have read := Setting.Le.refl setting
  have empty : ∀ layout added, TableFits setting layout added ∅ := by
    intro layout added name method found
    simp at found
  apply (runs_superclass sound fits stands target targetKnown).bind
  rintro superclass? first follows ⟨superclassFits, isSome, firstLayout⟩
  have chain := stands.chain
  rw [← firstLayout, ← follows.current] at chain
  apply (runs_methodFrame follows.fits chain superclassFits isSome).bind
  rintro frame second follows ⟨inFrame, still⟩
  have inherited : ∀ type ∈ superclass?, type.Fits setting second.layout :=
    fun type member => (superclassFits type member).mono read follows.ordered
  apply (runs_newMethods [[.this]] true (surrounds_ofClass target) methods methodsKnown
    methodsProper follows.fits inFrame (empty _ _)).bind
  rintro table third follows ⟨tableFits, thirdLayout⟩
  rw [← thirdLayout] at inFrame inherited still
  have noSuper : Surroundings.classMethod.Fits setting.names (scopes.ofClass target) := by
    intro impossible
    cases impossible
  apply (runs_newMethods [] false noSuper classMethods classMethodsKnown
    classMethodsProper follows.fits inFrame (empty _ _)).bind
  rintro classTable fourth follows ⟨classTableFits, fourthLayout⟩
  rw [← fourthLayout] at tableFits inherited still
  apply (runs_freshId follows.fits).bind
  intro id fifth follows fifthLayout
  have sameLayout : fifth.layout = fourth.layout := fifthLayout
  rw [← sameLayout] at tableFits classTableFits inherited still
  have own : ClassBody.Fits setting fifth.layout ⟨id, name.text, table, classTable⟩ :=
    ⟨tableFits, classTableFits⟩
  apply Runs.pure follows.fits
  refine ⟨Class.fits_extending own inherited, ?_⟩
  rw [← firstLayout]
  exact still

/-- The current frame has a slot for each of these locals more, and no other frame has. -/
structure Declares (start : Moment) (scopes : Scopes) (locals : List Local)
    (finish : Moment) : Prop where
  still : start.layout.StillBut start.machine.current finish.layout
  row : finish.layout.row start.machine.current = (scopes.declare locals).headD []

theorem Declares.none {finish : Moment} (stands : start.Stands setting around scopes)
    (still : start.layout.Still finish.layout) : Declares start scopes [] finish := by
  constructor
  · exact still.stillBut _
  · rw [still _ stands.chain.lt_size, Scopes.declare_nil]
    exact stands.row

/-- Without a scope, declarations make no slots. -/
theorem Declares.global {locals : List Local} {finish : Moment}
    (stands : start.Stands setting around []) (still : start.layout.Still finish.layout) :
    Declares start [] locals finish := by
  constructor
  · exact still.stillBut _
  · rw [still _ stands.chain.lt_size]
    exact stands.row

/-- Declaring a local makes a slot for it. -/
theorem declares_extend (stands : start.Stands setting around scopes) (inner : scopes ≠ [])
    {declared : Local} {finish : Moment}
    (layout : finish.layout = start.layout.extend start.machine.current declared) :
    Declares start scopes [declared] finish := by
  constructor
  · rw [layout]
    exact start.layout.stillBut_extend _ _
  · rw [layout, Layout.row_extend_self, stands.row]
    cases scopes with
    | nil => exact absurd rfl inner
    | cons => rfl

/-- What a step after a declaration leaves still. -/
theorem Declares.then {locals : List Local} {middle finish : Moment}
    (declares : Declares start scopes locals middle) (isFrame : start.machine.current < start.layout.size)
    (ordered : start.layout.Le middle.layout) (still : middle.layout.Still finish.layout) :
    Declares start scopes locals finish := by
  constructor
  · exact declares.still.trans ordered (still.stillBut _)
  · rw [still _ (Nat.lt_of_lt_of_le isFrame ordered.size)]
    exact declares.row

/-- Variables of the innermost scope have names. -/
theorem runs_setSlot_of_stands (fits : start.Fits setting)
    (stands : start.Stands setting around scopes) {index : Nat} {value : Value}
    (valueFits : value.Fits setting start.layout) :
    (quiet (Step.setSlot index value)).Runs setting start (SameLayout start) := by
  apply runs_setSlot fits valueFits
  intro declared here
  rw [stands.row] at here
  rcases stands.named declared (List.mem_of_getElem? here) with ⟨name, same, -⟩
  exact ⟨name, same⟩

theorem runs_declareClass (sound : setting.Sound) (fits : start.Fits setting)
    (stands : start.Stands setting around scopes) (name : Name) (target : Option Reference)
    (methods classMethods : List NamedFunction)
    (known : (Stmt.classDecl name target methods classMethods).occurrences around scopes ⊆
      setting.occurrences)
    (proper : (Stmt.classDecl name target methods classMethods).IsProper setting.names) :
    (declareClass setting.addresses name target methods classMethods).Runs setting start
      fun value finish => value.Fits setting finish.layout ∧
        Declares start scopes [.named name] finish := by
  rw [Stmt.occurrences] at known
  rw [Stmt.IsProper] at proper
  rcases proper with ⟨isName, -, methodsProper, classMethodsProper⟩
  have noValue : ∀ (layout : Layout Local) (value : Value),
      Slot.uninitialised = .initialised value → value.Fits setting layout := by
    intro layout value impossible
    cases impossible
  apply Runs.inRoot
  rw [stands.inRoot]
  cases scopes with
  | nil =>
    apply (runs_setGlobal fits name.text (noValue _)).bind
    intro _ first follows same
    have firstLayout : first.layout = start.layout := same
    have still : start.layout.Still first.layout := by
      rw [firstLayout]
      exact .refl _
    apply (runs_newClass sound follows.fits (stands.follow follows still) name target methods
      classMethods known methodsProper classMethodsProper).bind
    rintro value second follows ⟨valueFits, still⟩
    have holds : ∀ other, Slot.initialised value = .initialised other →
        other.Fits setting second.layout := by
      rintro other ⟨⟩
      exact valueFits
    apply (runs_setGlobal follows.fits name.text holds).bind
    intro _ third follows same
    have thirdLayout : third.layout = second.layout := same
    rw [firstLayout, ← thirdLayout] at still
    rw [← thirdLayout] at valueFits
    exact .pure follows.fits ⟨valueFits, .global stands still⟩
  | cons innermost outer =>
    have inner : innermost :: outer ≠ [] := List.cons_ne_nil _ _
    apply (runs_newSlot fits stands inner fun _ _ => .uninitialised name).bind
    rintro index first follows ⟨-, layout⟩
    have declares := declares_extend stands inner layout
    have standsInside := stands.declare follows (Local.areNamed_singleton isName) declares.row
    apply (runs_newClass sound follows.fits standsInside name target methods classMethods known
      methodsProper classMethodsProper).bind
    rintro value second further ⟨valueFits, still⟩
    have standsStill := standsInside.follow further still
    apply (runs_setSlot_of_stands further.fits standsStill valueFits).bind
    intro _ third last same
    have thirdLayout : third.layout = second.layout := same
    rw [← thirdLayout] at still valueFits
    exact .pure last.fits
      ⟨valueFits, declares.then stands.chain.lt_size follows.ordered still⟩

/-- The initial value of a variable is evaluated where the variable is declared. -/
theorem runs_declareVariable (fits : start.Fits setting)
    (stands : start.Stands setting around scopes) {name : Name} (isName : setting.names name.text)
    {initial : Option (Watched Value)}
    (runs : ∀ watched ∈ initial, ∀ middle, middle.Fits setting →
      middle.Stands setting around (scopes.declare [.named name]) →
        watched.Runs setting middle (Yields setting middle)) :
    (declareVariable name initial).Runs setting start
      fun _ finish => Declares start scopes [.named name] finish := by
  apply Runs.inRoot
  rw [stands.inRoot]
  cases scopes with
  | nil =>
    cases initial with
    | none =>
      apply (runs_setGlobal fits name.text (by simp)).imp
      intro _ finish _ same
      have layout : finish.layout = start.layout := same
      apply Declares.global stands
      rw [layout]
      exact .refl _
    | some initial =>
      apply (runs initial rfl start fits stands).bind
      rintro value second follows ⟨valueFits, still⟩
      have holds : ∀ other, Slot.initialised value = .initialised other →
          other.Fits setting second.layout := by
        rintro other ⟨⟩
        exact valueFits
      apply (runs_setGlobal follows.fits name.text holds).imp
      intro _ third _ same
      have layout : third.layout = second.layout := same
      rw [← layout] at still
      exact .global stands still
  | cons innermost outer =>
    have inner : innermost :: outer ≠ [] := List.cons_ne_nil _ _
    apply (runs_newSlot fits stands inner fun _ _ => .uninitialised name).bind
    rintro index first follows ⟨-, layout⟩
    have declares := declares_extend stands inner layout
    cases initial with
    | none => exact .pure follows.fits declares
    | some initial =>
      have standsInside :=
        stands.declare follows (Local.areNamed_singleton isName) declares.row
      apply (runs initial rfl first follows.fits standsInside).bind
      rintro value second further ⟨valueFits, still⟩
      have standsStill := standsInside.follow further still
      apply (runs_setSlot_of_stands further.fits standsStill valueFits).imp
      intro _ third _ same
      have thirdLayout : third.layout = second.layout := same
      rw [← thirdLayout] at still
      exact declares.then stands.chain.lt_size follows.ordered still

/-- A variable gets a value that fits once the variable is declared. -/
theorem runs_defineVariable (fits : start.Fits setting)
    (stands : start.Stands setting around scopes) (name : Name) {value : Value}
    (holds : ∀ layout, start.layout.Le layout →
      layout.Chain (scopes.declare [.named name]) start.machine.current →
        value.Fits setting layout) :
    (defineVariable name value).Runs setting start
      fun _ finish => Declares start scopes [.named name] finish := by
  apply Runs.inRoot
  rw [stands.inRoot]
  cases scopes with
  | nil =>
    have valueFits : ∀ other, Slot.initialised value = .initialised other →
        other.Fits setting start.layout := by
      rintro other ⟨⟩
      exact holds start.layout (.refl _) stands.chain
    apply (runs_setGlobal fits name.text valueFits).imp
    intro _ finish _ same
    have layout : finish.layout = start.layout := same
    apply Declares.global stands
    rw [layout]
    exact .refl _
  | cons innermost outer =>
    have inner : innermost :: outer ≠ [] := List.cons_ne_nil _ _
    have slotFits : ∀ layout, layout = start.layout.extend start.machine.current (.named name) →
        Slot.Fits setting layout (.named name) (.initialised value) := by
      rintro layout rfl
      have ordered := start.layout.le_extend start.machine.current (.named name)
      apply Slot.Fits.named
      apply holds _ ordered
      apply (stands.chain.mono ordered).extend
      rw [Layout.row_extend_self, stands.row]
      exact List.prefix_refl _
    apply (runs_newSlot fits stands inner slotFits).bind
    rintro index finish follows ⟨-, layout⟩
    exact .pure follows.fits (declares_extend stands inner layout)

/-- A function stands in the scope that it is declared in. -/
theorem runs_funDecl (fits : start.Fits setting) (stands : start.Stands setting around scopes)
    {name : Name} {definition : Function} (isName : setting.names name.text)
    (known : definition.occurrences around (scopes.declare [.named name]) ⊆ setting.occurrences)
    (proper : definition.IsProper setting.names) :
    (do
      let machine ← quiet EStateM.get
      let closure ← quiet (Step.newClosure machine.current name.text (.body definition false))
      defineVariable name (.function closure)
      return Flow.normal none : Watched Flow).Runs setting start
      fun flow finish => flow = .normal none ∧ Declares start scopes [.named name] finish := by
  have surrounds : around.Fits setting.names (scopes.declare [.named name]) := by
    cases scopes with
    | nil => exact stands.around
    | cons => exact stands.around.declare stands.named (Local.areNamed_singleton isName)
  apply Runs.get
  apply (runs_newClosure fits start.machine.current name.text _).bind
  rintro closure first follows ⟨environment, behaviour, layout⟩
  have still : start.layout.Still first.layout := by
    rw [layout]
    exact .refl _
  have holds : ∀ layout, first.layout.Le layout →
      layout.Chain (scopes.declare [.named name]) first.machine.current →
        (Value.function closure).Fits setting layout := by
    intro layout _ chain
    refine ⟨around, scopes.declare [.named name], ?_, ?_⟩
    · rw [environment, ← follows.current]
      exact chain
    · intro found isInitializer behaves
      rw [behaviour] at behaves
      cases behaves
      exact ⟨known, proper, surrounds⟩
  apply (runs_defineVariable follows.fits (stands.follow follows still) name holds).bind
  intro _ finish further declares
  refine .pure further.fits ⟨rfl, ?_, ?_⟩
  · have before := still.stillBut start.machine.current
    rw [← follows.current] at before ⊢
    exact before.trans follows.ordered declares.still
  · rw [← follows.current]
    exact declares.row

end

end Watched

end Lox
