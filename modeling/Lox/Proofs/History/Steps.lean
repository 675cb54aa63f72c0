import Lox.Proofs.History.Invariant

/-!
# Steps that keep an invariant

What the steps do that programs are made of, one statement for each: the invariant holds again,
and the values that they yield are known.
-/

namespace Lox

/-- Looking a variable up changes nothing. -/
theorem Step.after_readVariable (addresses : AddressTable) (id : Nat) (name : Name)
    (machine : Machine) : (readVariable addresses id name).after machine = machine := by
  rw [after, readVariable_eq]
  cases slot? addresses id name.text machine with
  | none => rfl
  | some slot => cases slot <;> rfl

namespace Recorded

variable {α β : Type}

/-- Nothing is recorded of a sequence if nothing is recorded of its parts. -/
theorem quiet_bind (first : Step α) (next : α → Step β) :
    quiet (first >>= next) = quiet first >>= fun result => quiet (next result) := by
  have none : ∀ machine, ((quiet first >>= fun result => quiet (next result)).deeds machine) =
      [] := by
    intro machine
    cases ends : first machine with
    | ok result after =>
      have quietly : (quiet first).step machine = .ok result after := ends
      exact deeds_bind_ok quietly
    | error stop after =>
      have quietly : (quiet first).step machine = .error stop after := ends
      exact deeds_bind_error quietly
  show (⟨first >>= next, fun _ => []⟩ : Recorded β) = ⟨first >>= next, _⟩
  congr 1
  funext machine
  exact (none machine).symm

namespace Keeps

variable {invariant : Invariant} {isReady : FrameId → Prop} {past : History}

/-! ## Frames -/

/-- A frame is added, which is not the root. -/
theorem newFrame (enclosing : FrameId) {values : List Value}
    (known : invariant.KnowsAll past values) :
    (Recorded.quiet (Step.newFrame enclosing values)).Keeps invariant isReady past
      fun _ frame => frame ≠ Machine.root := by
  apply quiet (Step.Restores.newFrame enclosing values)
  intro now machine later hasRoot covers
  refine ⟨⟨invariant.congr covers.holds rfl rfl (Nat.le_refl _), ?_⟩, ?_⟩
  · refine covers.values.addFrame enclosing ?_ rfl rfl rfl
    exact fun value member => invariant.grows later (known value member)
  · intro frame after ends
    cases ends
    exact Nat.ne_of_gt hasRoot.isFrame

theorem setSlot (index : Nat) {value : Value} (known : invariant.Knows past value) :
    (Recorded.quiet (Step.setSlot index value)).Keeps invariant isReady past
      fun _ _ => True := by
  apply quiet (Step.Restores.setSlot index value)
  intro now machine later _ covers
  refine ⟨⟨invariant.congr covers.holds rfl rfl (Nat.le_refl _), ?_⟩, fun _ _ _ => trivial⟩
  exact covers.values.write machine.current index (invariant.grows later known)

theorem freshId : (Recorded.quiet Step.freshId).Keeps invariant isReady past
    fun _ _ => True := by
  apply quiet Step.Restores.freshId
  intro now machine later _ covers
  exact ⟨covers.congr rfl rfl rfl (Nat.le_succ _), fun _ _ _ => trivial⟩

theorem print (text : String) :
    (Recorded.quiet (Step.print text)).Keeps invariant isReady past fun _ _ => True := by
  apply quiet (Step.Restores.print text)
  intro now machine later _ covers
  exact ⟨covers.congr rfl rfl rfl (Nat.le_refl _), fun _ _ _ => trivial⟩

theorem checkArity (line expected given : Nat) :
    (Recorded.quiet (Step.checkArity line expected given)).Keeps invariant isReady past
      fun _ _ => True := by
  refine still ?_ fun _ _ _ _ _ _ _ => trivial
  intro machine
  rw [Step.checkArity]
  split <;> rfl

/-! ## Variables -/

/-- The value of a variable is known. -/
theorem readVariable (addresses : AddressTable) (id : Nat) (name : Name) :
    (Recorded.quiet (Step.readVariable addresses id name)).Keeps invariant isReady past
      invariant.Knows := by
  apply still (Step.after_readVariable addresses id name)
  intro now machine _ covers value after ends
  rw [Step.readVariable_eq, Step.slot?] at ends
  split at ends <;> cases ends
  next found =>
    split at found
    · exact covers.values.get? found
    · exact covers.values.globals name.text value found

theorem assignVariable (addresses : AddressTable) (target : Reference) {value : Value}
    (known : invariant.Knows past value) :
    (Recorded.assignVariable addresses target value).Keeps invariant isReady past
      fun _ _ => True := by
  apply single (Step.Restores.assignVariable addresses target value)
  intro now machine later _ covers
  refine ⟨?_, fun _ _ _ => trivial⟩
  have knownNow := invariant.grows later known
  show invariant.Covers (now ++ assigned addresses target value machine)
    ((Step.assignVariable addresses target value).after machine)
  rw [Step.after, Step.assignVariable_eq, assigned]
  cases addresses[target.id]? with
  | some address =>
    rw [List.append_nil]
    dsimp only
    cases machine.frames.holder? machine.current address.depth address.slot with
    | none => exact covers
    | some holder =>
      exact ⟨invariant.congr covers.holds rfl rfl (Nat.le_refl _),
        covers.values.write holder address.slot knownNow⟩
  | none =>
    dsimp only
    cases exists_ : machine.globals.contains target.name.text with
    | false =>
      rw [if_neg Bool.false_ne_true, if_neg Bool.false_ne_true, List.append_nil]
      exact covers
    | true =>
      rw [if_pos rfl, if_pos rfl]
      refine ⟨invariant.assigns covers.holds target.name.text value, ?_⟩
      refine Invariant.valuesLater ?_ (List.prefix_append _ _)
      refine covers.values.setGlobal target.name.text ?_
      rintro other ⟨⟩
      exact knownNow

/-- A global variable is declared, where this may be done. -/
theorem setGlobal (may : ∀ frame, isReady frame → invariant.DeclaresGlobals) (name : String)
    {slot : Slot Value} (known : invariant.KnowsSlot past slot) :
    (Recorded.quiet (Step.setGlobal name slot)).Keeps invariant isReady past
      fun _ _ => True := by
  intro now machine later _ ready covers
  refine ⟨Step.Restores.setGlobal name slot machine, ?_, fun _ _ _ => trivial⟩
  rw [append_deeds_quiet]
  refine ⟨invariant.declares (may _ ready) covers.holds name slot, ?_⟩
  exact covers.values.setGlobal name fun value same => invariant.grows later (known value same)

/-- A frame other than the root gets a slot. -/
theorem newSlot (inner : ∀ frame, isReady frame → frame ≠ Machine.root) {slot : Slot Value}
    (known : invariant.KnowsSlot past slot) :
    (Recorded.quiet (Step.newSlot slot)).Keeps invariant isReady past fun _ _ => True := by
  intro now machine later _ ready covers
  refine ⟨.addSlot (inner _ ready) slot, ?_, fun _ _ _ => trivial⟩
  rw [append_deeds_quiet]
  refine ⟨invariant.congr covers.holds rfl rfl (Nat.le_refl _), ?_⟩
  exact covers.values.append machine.current fun value same =>
    invariant.grows later (known value same)

/-- What is done in the root may differ from what is done elsewhere. -/
theorem inRoot {whenGlobal whenLocal : Recorded β} {yields : History → β → Prop}
    (globally : whenGlobal.Keeps invariant (fun frame => isReady frame ∧ frame = Machine.root)
      past yields)
    (locally : whenLocal.Keeps invariant (fun frame => isReady frame ∧ frame ≠ Machine.root)
      past yields) :
    (do if ← Recorded.quiet Step.inRoot then whenGlobal else whenLocal).Keeps invariant isReady
      past yields := by
  intro now machine later hasRoot ready covers
  have asked : (Recorded.quiet Step.inRoot).Takes invariant now machine fun _ _ => True := by
    refine ⟨.refl machine, ?_, fun _ _ _ => trivial⟩
    rw [append_deeds_quiet]
    exact covers
  apply asked.bind
  rintro isGlobal after ⟨⟩
  rw [append_deeds_quiet]
  cases isRoot : machine.current == Machine.root with
  | true => exact globally now machine later hasRoot ⟨ready, eq_of_beq isRoot⟩ covers
  | false => exact locally now machine later hasRoot ⟨ready, ne_of_beq_false isRoot⟩ covers

/-- A variable is declared with a known value. -/
theorem defineVariable (name : Name) {value : Value} (known : invariant.Knows past value) :
    (Recorded.quiet (Step.defineVariable name value)).Keeps invariant invariant.MayDeclare past
      fun _ _ => True := by
  have slot := Invariant.knowsSlot_initialised known
  have cases_ : Recorded.quiet (Step.defineVariable name value) = (do
      if ← Recorded.quiet Step.inRoot then
        Recorded.quiet (Step.setGlobal name.text (.initialised value))
      else
        Recorded.quiet (Step.newSlot (.initialised value) >>= fun _ => Pure.pure ())) := by
    rw [Step.defineVariable, quiet_bind]
    congr 1
    funext isGlobal
    cases isGlobal <;> rfl
  rw [cases_]
  apply inRoot
  · exact setGlobal (fun _ ready => ready.1 ready.2) name.text slot
  · rw [quiet_bind]
    apply (newSlot (fun _ ready => ready.2) slot).bind
    intro now index later _
    exact pure fun _ _ => trivial

/-- A variable is declared, and then its initial value is evaluated. -/
theorem declareVariable (name : Name) {initial : Option (Recorded Value)}
    (kept : ∀ recorded ∈ initial, ∀ isReady past,
      recorded.Keeps invariant isReady past invariant.Knows) :
    (Recorded.declareVariable name initial).Keeps invariant invariant.MayDeclare past
      fun _ _ => True := by
  apply inRoot
  · have may : ∀ frame, (invariant.MayDeclare frame ∧ frame = Machine.root) →
        invariant.DeclaresGlobals := fun _ ready => ready.1 ready.2
    cases initial with
    | none => exact setGlobal may name.text Invariant.knowsSlot_uninitialised
    | some initial =>
      apply (kept initial rfl _ past).bind
      intro now value later known
      exact setGlobal may name.text (Invariant.knowsSlot_initialised known)
  · apply (newSlot (fun _ ready => ready.2) Invariant.knowsSlot_uninitialised).bind
    intro now index later _
    cases initial with
    | none => exact pure fun _ _ => trivial
    | some initial =>
      apply (kept initial rfl _ now).bind
      intro now value later known
      exact setSlot index known

/-! ## Functions -/

/-- Functions are known. -/
theorem newClosure (frame : FrameId) (name : String) (behaviour : Behaviour) :
    (Recorded.quiet (Step.newClosure frame name behaviour)).Keeps invariant isReady past
      fun _ _ => True := by
  apply quiet (Step.Restores.newClosure frame name behaviour)
  intro now machine later _ covers
  exact ⟨covers.congr rfl rfl rfl (Nat.le_succ _), fun _ _ _ => trivial⟩

/-- A method is bound to a known instance. -/
theorem bindMethod {target : Instance} (known : invariant.Knows past (.object target))
    (method : Closure) :
    (Recorded.quiet (Step.bindMethod target method)).Keeps invariant isReady past
      fun _ _ => True := by
  rw [Step.bindMethod, quiet_bind]
  refine bind (newFrame method.environment ?_) ?_
  · rintro value member
    rw [List.mem_singleton.mp member]
    exact known
  · exact fun now frame later _ => newClosure frame method.name method.behaviour

/-- A class gets the methods that are declared last. -/
theorem newMethods (frame : FrameId) (allowInitializer : Bool) (methods : List NamedFunction) :
    (Recorded.quiet (Step.newMethods frame allowInitializer methods ∅)).Keeps invariant isReady
      past fun _ table => NamedFunction.Fill allowInitializer methods table := by
  apply quiet (Step.Restores.newMethods frame allowInitializer methods ∅)
  intro now machine later _ covers
  refine ⟨?_, fun table after taken => Step.newMethods_fill taken⟩
  rcases Step.newMethods_eq frame allowInitializer methods ∅ machine with ⟨made, taken, -⟩
  rw [after_eq taken]
  exact covers.congr rfl rfl rfl (Nat.le_add_right _ _)

/-- A method of a known superclass is bound to a known instance. -/
theorem superMethod (addresses : AddressTable) (id line : Nat) (method : Name) :
    (Recorded.quiet (Step.superMethod addresses id line method)).Keeps invariant isReady past
      invariant.Knows := by
  rw [Step.superMethod, quiet_bind]
  apply get.bind
  intro now machine later values
  dsimp only
  cases addresses[id]? with
  | none => exact fail line _
  | some address =>
    dsimp only
    split
    · split
      · next this found =>
        split
        · next method _ =>
          rw [quiet_bind]
          refine bind (bindMethod ?_ method) ?_
          · split at found
            · cases found
            · exact values.get? found
          · exact fun now bound later _ => pure fun _ _ => invariant.plain trivial
        · exact fail method.line _
      · exact fail line _
    · exact fail line _

/-! ## Instances -/

theorem newInstance {ofClass : Class} (known : invariant.Knows past (.type ofClass)) :
    (Recorded.newInstance ofClass).Keeps invariant isReady past
      fun now created => invariant.Knows now (.object created) := by
  apply single (Step.Restores.newInstance ofClass)
  intro now machine later _ covers
  rcases invariant.creates covers.holds (invariant.grows later known) with ⟨holds, isKnown⟩
  refine ⟨⟨holds, ?_⟩, ?_⟩
  · exact Invariant.valuesLater covers.values.newInstance (List.prefix_append _ _)
  · rintro created after ⟨⟩
    exact isKnown

theorem setField {target : Instance} (known : invariant.Knows past (.object target))
    (name : String) {value : Value} (knownValue : invariant.Knows past value) :
    (Recorded.setField target name value).Keeps invariant isReady past fun _ _ => True := by
  apply single (Step.Restores.setField target name value)
  intro now machine later _ covers
  have valueNow := invariant.grows later knownValue
  refine ⟨⟨invariant.sets covers.holds (invariant.grows later known) name valueNow, ?_⟩,
    fun _ _ _ => trivial⟩
  exact Invariant.valuesLater (covers.values.setField target.id name valueNow)
    (List.prefix_append _ _)

/-- The field of an instance is known. -/
theorem field? (target : Instance) (name : String) :
    (Recorded.quiet (Step.field? target name)).Keeps invariant isReady past
      fun now found => ∀ value ∈ found, invariant.Knows now value := by
  apply still
  · intro machine
    rw [Step.after, Step.field?_eq]
  · intro now machine _ covers found after ends
    rw [Step.field?_eq] at ends
    cases ends
    intro value member
    rcases Option.bind_eq_some_iff.mp member with ⟨table, here, inTable⟩
    exact covers.values.fields target.id table name value here inTable

/-- The property of a known value is known; it is noted that it is looked up. -/
theorem property {target : Value} (known : invariant.Knows past target) (name : Name) :
    (Recorded.property target name).Keeps invariant isReady past invariant.Knows := by
  have parts : Recorded.property target name = (⟨Pure.pure (), fun machine =>
      [.accesses target name machine (Step.property target name machine)]⟩ : Recorded Unit) >>=
        fun _ => Recorded.quiet (Step.property target name) := rfl
  have noted : (⟨Pure.pure (), fun machine =>
      [.accesses target name machine (Step.property target name machine)]⟩ : Recorded Unit).Keeps
        invariant isReady past fun now _ => invariant.Knows now target := by
    apply single (Step.Restores.pure ())
    intro now machine later _ covers
    have knownNow := invariant.grows later known
    refine ⟨⟨invariant.accesses covers.holds knownNow name, ?_⟩, fun _ _ _ => ?_⟩
    · exact Invariant.valuesLater covers.values (List.prefix_append _ _)
    · exact invariant.grows (List.prefix_append _ _) knownNow
  rw [parts]
  apply noted.bind
  intro now _ later known
  cases target with
  | object target =>
    rw [Step.property.eq_def, quiet_bind]
    apply (field? target name.text).bind
    intro now found later' values
    cases found with
    | some value =>
      exact pure fun _ later => invariant.grows later (values value rfl)
    | none =>
      dsimp only
      split
      · next method _ =>
        rw [quiet_bind]
        apply (bindMethod (invariant.grows later' known) method).bind
        exact fun _ _ _ _ => pure fun _ _ => invariant.plain trivial
      · exact fail name.line _
  | type target =>
    rw [Step.property.eq_def]
    dsimp only
    split
    · exact pure fun _ _ => invariant.plain trivial
    · exact fail name.line _
  | _ => exact fail name.line _

/-! ## Classes -/

theorem superclass (addresses : AddressTable) (target : Option Reference) :
    (Recorded.quiet (Step.superclass addresses target)).Keeps invariant isReady past
      fun now found => ∀ type ∈ found, invariant.Knows now (.type type) := by
  cases target with
  | none => exact pure fun _ _ _ impossible => by cases impossible
  | some target =>
    rw [Step.superclass, quiet_bind]
    apply (readVariable addresses target.id target.name).bind
    intro now value later known
    cases value with
    | type superclass =>
      refine pure fun now later type same => ?_
      cases same
      exact invariant.grows later known
    | _ => exact fail target.name.line _

/-- The frame that methods keep holds the superclass. -/
theorem methodFrame {extended : Option Class}
    (known : ∀ type ∈ extended, invariant.Knows past (.type type)) :
    (Recorded.quiet (Step.methodFrame extended)).Keeps invariant isReady past
      fun _ _ => True := by
  cases extended with
  | none =>
    rw [Step.methodFrame, quiet_bind]
    exact get.bind fun _ _ _ _ => pure fun _ _ => trivial
  | some superclass =>
    rw [Step.methodFrame, quiet_bind]
    apply get.bind
    intro now machine later _
    refine (newFrame machine.current ?_).imp fun _ _ _ _ => trivial
    intro value member
    rw [List.mem_singleton.mp member]
    exact invariant.grows later (known superclass rfl)

/-- A class gets an identity, and is known. -/
theorem identify (name : String) {superclass : Option Class}
    (known : ∀ type ∈ superclass, invariant.Knows past (.type type))
    {methods classMethods : List NamedFunction} {table classTable : Table Closure}
    (filled : NamedFunction.Fill true methods table)
    (classFilled : NamedFunction.Fill false classMethods classTable) :
    (do
      let id ← Recorded.quiet Step.freshId
      let type := Class.extending ⟨id, name, table, classTable⟩ superclass
      record (.makes type methods classMethods)
      return Value.type type).Keeps invariant isReady past invariant.Knows := by
  apply single
  · exact Step.Restores.freshId.bind fun _ => .pure _
  · intro now machine later _ covers
    have knownNow := fun type member => invariant.grows later (known type member)
    rcases invariant.makes covers.holds name knownNow filled classFilled _ rfl with
      ⟨holds, isKnown⟩
    refine ⟨⟨holds, ?_⟩, ?_⟩
    · exact Invariant.valuesLater (covers.values.congr rfl rfl rfl) (List.prefix_append _ _)
    · rintro value after ⟨⟩
      exact isKnown

theorem newClass (addresses : AddressTable) (name : Name) (superclassName : Option Reference)
    (methods classMethods : List NamedFunction) :
    (Recorded.newClass addresses name superclassName methods classMethods).Keeps invariant isReady
      past invariant.Knows := by
  apply (superclass addresses superclassName).bind
  intro now extended _ known
  apply (methodFrame known).bind
  intro now frame later _
  replace known := fun type member => invariant.grows later (known type member)
  apply (newMethods frame true methods).bind
  intro now table later filled
  replace known := fun type member => invariant.grows later (known type member)
  apply (newMethods frame false classMethods).bind
  intro now classTable later classFilled
  replace known := fun type member => invariant.grows later (known type member)
  exact identify name.text known filled classFilled

theorem declareClass (addresses : AddressTable) (name : Name) (superclassName : Option Reference)
    (methods classMethods : List NamedFunction) :
    (Recorded.declareClass addresses name superclassName methods classMethods).Keeps invariant
      invariant.MayDeclare past invariant.Knows := by
  apply inRoot
  · have may : ∀ frame, (invariant.MayDeclare frame ∧ frame = Machine.root) →
        invariant.DeclaresGlobals := fun _ ready => ready.1 ready.2
    apply (setGlobal may name.text Invariant.knowsSlot_uninitialised).bind
    intro now _ _ _
    apply (newClass addresses name superclassName methods classMethods).bind
    intro now value _ known
    apply (setGlobal may name.text (Invariant.knowsSlot_initialised known)).bind
    intro now _ later _
    exact pure fun _ later' => invariant.grows (later.trans later') known
  · apply (newSlot (fun _ ready => ready.2) Invariant.knowsSlot_uninitialised).bind
    intro now index _ _
    apply (newClass addresses name superclassName methods classMethods).bind
    intro now value _ known
    apply (setSlot index known).bind
    intro now _ later _
    exact pure fun _ later' => invariant.grows (later.trans later') known

end Keeps

end Recorded

end Lox
