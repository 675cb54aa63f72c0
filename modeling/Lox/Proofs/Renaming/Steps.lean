import Lox.Machine.Evaluation
import Lox.Proofs.Machine.Variables
import Lox.Proofs.Renaming.Machine

/-!
# Steps on machines that vary

`Step.Varies` says of two steps that they end in the same way on machines that vary: with
results that are related, with one fault on lines that correspond, or without fuel.  The
machines vary afterwards, too.  Below are its laws and the steps that programs are made of.
-/

namespace Lox

variable {α β γ δ : Type}

/-- The same places are recorded, but under other ids. -/
def AddressTable.Renamed (change : Renaming) (left right : AddressTable) : Prop :=
  ∀ id : Nat, right[change.id id]? = left[id]?

/-- Two steps end in the same way. -/
inductive EndsVary (variation : Variation) (post : α → β → Prop) :
    EStateM.Result Stop Machine α → EStateM.Result Stop Machine β → Prop where
  | ok {result result' machine machine'} (holds : post result result')
      (varies : machine.Varies variation machine') :
      EndsVary variation post (.ok result machine) (.ok result' machine')
  | fault (line : Nat) (fault : RuntimeFault) {machine machine'}
      (varies : machine.Varies variation machine') :
      EndsVary variation post (.error (.fault ⟨line, fault⟩) machine)
        (.error (.fault ⟨variation.change.line line, fault⟩) machine')
  | outOfFuel {machine machine'} (varies : machine.Varies variation machine') :
      EndsVary variation post (.error .outOfFuel machine) (.error .outOfFuel machine')

/-- Two steps that end in the same way on machines that vary. -/
def Step.Varies (variation : Variation) (post : α → β → Prop) (step : Step α) (step' : Step β) :
    Prop :=
  ∀ machine machine' : Machine, machine.Varies variation machine' →
    EndsVary variation post (step machine) (step' machine')

namespace Step.Varies

variable {variation : Variation} {post : α → β → Prop} {step : Step α} {step' : Step β}

/-! ## Laws -/

theorem pure {result : α} {result' : β} (holds : post result result') :
    Step.Varies variation post (Pure.pure result) (Pure.pure result') :=
  fun _ _ varies => .ok holds varies

theorem bind {next : α → Step γ} {next' : β → Step δ} {last : γ → δ → Prop}
    (same : Step.Varies variation post step step')
    (rest : ∀ result result', post result result' →
      Step.Varies variation last (next result) (next' result')) :
    Step.Varies variation last (step >>= next) (step' >>= next') := by
  intro machine machine' varies
  show EndsVary variation last (EStateM.bind step next machine) (EStateM.bind step' next' machine')
  rw [EStateM.bind, EStateM.bind]
  have ends := same machine machine' varies
  revert ends
  generalize step machine = first
  generalize step' machine' = second
  intro ends
  cases ends with
  | ok holds varies => exact rest _ _ holds _ _ varies
  | fault line fault varies => exact .fault line fault varies
  | outOfFuel varies => exact .outOfFuel varies

theorem get : Step.Varies variation (Machine.Varies variation) MonadState.get MonadState.get :=
  fun _ _ varies => .ok varies varies

/-- The machine is replaced before a result is returned. -/
theorem set {machine machine' : Machine} {result : α} {result' : β}
    (varies : machine.Varies variation machine') (holds : post result result') :
    Step.Varies variation post
      (do MonadStateOf.set machine; return result)
      (do MonadStateOf.set machine'; return result') :=
  fun _ _ _ => .ok holds varies

theorem update {change change' : Machine → Machine}
    (same : ∀ machine machine', machine.Varies variation machine' →
      (change machine).Varies variation (change' machine')) :
    Step.Varies variation (fun _ _ => True) (modify change) (modify change') :=
  fun _ _ varies => .ok trivial (same _ _ varies)

theorem fail (line : Nat) (fault : RuntimeFault) :
    Step.Varies variation post (Step.fail line fault)
      (Step.fail (variation.change.line line) fault) :=
  fun _ _ varies => .fault line fault varies

theorem outOfFuel : Step.Varies variation post (throw .outOfFuel) (throw .outOfFuel) :=
  fun _ _ varies => .outOfFuel varies

/-- The result of an operator. -/
theorem ofExcept {line : Nat} {result result' : Except RuntimeError Value}
    (same : SameResult line (variation.change.line line) result result') :
    Step.Varies variation (Value.Varies variation) (Step.ofExcept result)
      (Step.ofExcept result') := by
  cases same with
  | constant literal => exact pure (.literal literal)
  | fault fault => exact fail line fault

theorem within (frame : FrameId) (same : Step.Varies variation post step step') :
    Step.Varies variation post (Step.within frame step) (Step.within frame step') := by
  intro machine machine' varies
  have inside : { machine with current := frame }.Varies variation
      { machine' with current := frame } :=
    { varies with current := rfl }
  have ends := same _ _ inside
  rw [Step.within, Step.within]
  revert ends
  generalize step _ = first
  generalize step' _ = second
  intro ends
  cases ends with
  | ok holds after => exact .ok holds { after with current := varies.current }
  | fault line fault after => exact .fault line fault { after with current := varies.current }
  | outOfFuel after => exact .outOfFuel { after with current := varies.current }

/-! ## Identities, frames and slots -/

theorem print (text : String) :
    Step.Varies variation (fun _ _ => True) (Step.print text) (Step.print text) :=
  update fun _ _ varies => { varies with
    printed := by rw [varies.printed, Array.append_push] }

theorem freshId : Step.Varies variation Eq Step.freshId Step.freshId := by
  apply get.bind
  intro machine machine' varies
  apply set _ varies.nextId
  exact { varies with nextId := congrArg (· + 1) varies.nextId }

theorem inRoot : Step.Varies variation Eq Step.inRoot Step.inRoot := by
  apply get.bind
  intro machine machine' varies
  exact pure (congrArg (· == Machine.root) varies.current)

theorem newFrame (enclosing : FrameId) {values values' : List Value}
    (same : List.Forall₂ (Value.Varies variation) values values') :
    Step.Varies variation Eq (Step.newFrame enclosing values)
      (Step.newFrame enclosing values') := by
  apply get.bind
  intro machine machine' varies
  have frames := (varies.frames.addChild enclosing).foldl_define machine.frames.size same
  have sameSize := varies.frames.size_eq
  simp only [sameSize] at frames ⊢
  apply set _ rfl
  exact { varies with frames := frames }

theorem newSlot {slot slot' : Slot Value} (same : Slot.Varies variation slot slot') :
    Step.Varies variation Eq (Step.newSlot slot) (Step.newSlot slot') := by
  apply get.bind
  intro machine machine' varies
  have frames := varies.frames.append machine'.current same
  have sameLength := varies.frames.length_eq machine'.current
  simp only [varies.current, sameLength]
  apply set _ rfl
  exact { varies with frames := frames, current := rfl }

theorem setSlot (index : Nat) {value value' : Value} (same : Value.Varies variation value value') :
    Step.Varies variation (fun _ _ => True) (Step.setSlot index value)
      (Step.setSlot index value') := by
  apply update
  intro machine machine' varies
  rw [varies.current]
  exact { varies with frames := varies.frames.write machine'.current index same, current := rfl }

/-! ## Variables -/

theorem setGlobal (name : String) {slot slot' : Slot Value}
    (same : Slot.Varies variation slot slot') :
    Step.Varies variation (fun _ _ => True) (Step.setGlobal name slot)
      (Step.setGlobal name slot') :=
  update fun _ _ varies => { varies with globals := varies.globals.insert name same }

theorem defineVariable (name : Name) {value value' : Value}
    (same : Value.Varies variation value value') :
    Step.Varies variation (fun _ _ => True) (Step.defineVariable name value)
      (Step.defineVariable (name.rename variation.change) value') := by
  apply inRoot.bind
  rintro isGlobal _ rfl
  cases isGlobal with
  | true => exact setGlobal name.text (.initialised same)
  | false => exact (newSlot (.initialised same)).bind fun _ _ _ => pure trivial

section

variable {addresses addresses' : AddressTable}
  (recorded : AddressTable.Renamed variation.change addresses addresses')
include recorded

/-- A use means related slots. -/
theorem slot? (id : Nat) (name : String) {machine machine' : Machine}
    (varies : machine.Varies variation machine') :
    Option.Rel (Slot.Varies variation) (Step.slot? addresses id name machine)
      (Step.slot? addresses' (variation.change.id id) name machine') := by
  rw [Step.slot?, Step.slot?, recorded id, ← varies.current]
  cases addresses[id]? with
  | some address => exact varies.frames.get? machine.current address.depth address.slot
  | none => exact varies.globals name

theorem readVariable (id : Nat) (name : Name) :
    Step.Varies variation (Value.Varies variation) (Step.readVariable addresses id name)
      (Step.readVariable addresses' (variation.change.id id) (name.rename variation.change)) := by
  intro machine machine' varies
  have slots := slot? recorded id name.text varies
  rw [Step.readVariable_eq, Step.readVariable_eq, Name.text_rename]
  revert slots
  generalize Step.slot? addresses id name.text machine = slot
  generalize Step.slot? addresses' _ name.text machine' = slot'
  rintro (same | _)
  · cases same with
    | uninitialised => exact .fault name.line (.uninitialisedVariable name.text) varies
    | initialised same => exact .ok same varies
  · exact .fault name.line (.undefinedVariable name.text) varies

theorem assignVariable (target : Reference) {value value' : Value}
    (same : Value.Varies variation value value') :
    Step.Varies variation (fun _ _ => True) (Step.assignVariable addresses target value)
      (Step.assignVariable addresses' (target.rename variation.change) value') := by
  intro machine machine' varies
  have contains : machine.globals.contains target.name.text =
      machine'.globals.contains target.name.text := varies.globals.contains_eq target.name.text
  show EndsVary variation _ (Step.assignVariable addresses target value machine)
    (Step.assignVariable addresses'
      ⟨variation.change.id target.id, target.name.text, variation.change.line target.name.line⟩
      value' machine')
  simp only [Step.assignVariable_eq, recorded target.id, contains]
  cases addresses[target.id]? with
  | some address =>
    dsimp only
    rw [varies.current, varies.frames.holder?_eq]
    cases machine'.frames.holder? machine'.current address.depth address.slot with
    | some holder =>
      exact .ok trivial
        { varies with frames := varies.frames.write holder address.slot same, current := rfl }
    | none => exact .fault target.name.line (.undefinedVariable target.name.text) varies
  | none =>
    dsimp only
    split
    · exact .ok trivial
        { varies with globals := varies.globals.insert target.name.text (.initialised same) }
    · exact .fault target.name.line (.undefinedVariable target.name.text) varies

end

/-- A name is declared that stands for nothing so far. -/
theorem declareName (isGlobal : Bool) (name : String) :
    Step.Varies variation Eq
      (if isGlobal then do
        Step.setGlobal name .uninitialised
        return 0
      else
        Step.newSlot .uninitialised : Step Nat)
      (if isGlobal then do
        Step.setGlobal name .uninitialised
        return 0
      else
        Step.newSlot .uninitialised : Step Nat) := by
  cases isGlobal with
  | true => exact (setGlobal name .uninitialised).bind fun _ _ _ => pure rfl
  | false => exact newSlot .uninitialised

/-! ## Functions and instances -/

theorem newClosure (frame : FrameId) (name : String) {behaviour : Behaviour}
    (allowed : behaviour.IsAllowed variation.allowed) :
    Step.Varies variation (Closure.Varies variation) (Step.newClosure frame name behaviour)
      (Step.newClosure frame name (behaviour.rename variation.change)) := by
  apply freshId.bind
  rintro id _ rfl
  exact pure ⟨rfl, rfl, rfl, allowed, rfl⟩

theorem bindMethod {target target' : Instance} {method method' : Closure}
    (object : Value.Varies variation (.object target) (.object target'))
    (same : Closure.Varies variation method method') :
    Step.Varies variation (Closure.Varies variation) (Step.bindMethod target method)
      (Step.bindMethod target' method') := by
  rw [Step.bindMethod, Step.bindMethod, ← same.environment, ← same.name, same.behaviour]
  apply (newFrame method.environment (.cons object .nil)).bind
  rintro frame _ rfl
  exact newClosure frame method.name same.allowed

/-- Methods are made in the same way. -/
theorem newMethods (frame : FrameId) (allowInitializer : Bool) (methods : List NamedFunction)
    (allowed : NamedFunction.MakeAll variation.allowed methods)
    {table table' : Table Closure} (same : Table.Related (Closure.Varies variation) table table') :
    Step.Varies variation (Table.Related (Closure.Varies variation))
      (Step.newMethods frame allowInitializer methods table)
      (Step.newMethods frame allowInitializer
        (NamedFunction.renameAll variation.change methods) table') := by
  induction methods generalizing table table' with
  | nil => exact pure same
  | cons first others induction =>
    rcases first with ⟨name, definition⟩
    rw [NamedFunction.MakeAll, List.forall_mem_cons] at allowed
    have behaves : Behaviour.IsAllowed variation.allowed
        (.body definition (allowInitializer && name.text == "init")) := allowed.1
    apply (newClosure frame name.text behaves).bind
    intro method method' here
    exact induction allowed.2 (same.insert name.text here)

theorem newInstance {ofClass ofClass' : Class} (same : Class.Varies variation ofClass ofClass') :
    Step.Varies variation
      (fun created created' => Value.Varies variation (.object created) (.object created'))
      (Step.newInstance ofClass) (Step.newInstance ofClass') := by
  apply get.bind
  intro machine machine' varies
  rw [varies.fields.size]
  apply set _ (.object _ same)
  exact { varies with fields := varies.fields.push (Table.related_empty _) }

theorem field? {target target' : Instance} (same : target.id = target'.id) (name : String) :
    Step.Varies variation (Option.Rel (Value.Varies variation)) (Step.field? target name)
      (Step.field? target' name) := by
  apply get.bind
  intro machine machine' varies
  rw [same]
  have here := varies.fields.entry target'.id
  revert here
  generalize machine.fields[target'.id]? = table
  generalize machine'.fields[target'.id]? = table'
  rintro (here | _)
  · exact pure (here name)
  · exact pure .none

theorem setField {target target' : Instance} (same : target.id = target'.id) (name : String)
    {value value' : Value} (here : Value.Varies variation value value') :
    Step.Varies variation (fun _ _ => True) (Step.setField target name value)
      (Step.setField target' name value') := by
  rw [Step.setField, same]
  apply update
  intro machine machine' varies
  exact { varies with
    fields := varies.fields.modify target'.id fun _ _ table => table.insert name here }

theorem property {target target' : Value} (same : Value.Varies variation target target')
    (name : Name) :
    Step.Varies variation (Value.Varies variation) (Step.property target name)
      (Step.property target' (name.rename variation.change)) := by
  cases same with
  | literal value => cases value <;> exact fail name.line .hasNoProperties
  | function => exact fail name.line .hasNoProperties
  | type varies =>
    rename_i left right
    have found := varies.classMethod? name.text
    rw [Step.property, Step.property, Name.text_rename]
    revert found
    generalize left.classMethod? name.text = method
    generalize right.classMethod? name.text = method'
    rintro (method | _)
    · exact pure (.function method)
    · exact fail name.line (.undefinedProperty name.text)
  | object id varies =>
    rename_i left right
    apply (field? rfl name.text).bind
    rintro _ _ (value | _)
    · exact pure value
    · have found := varies.method? name.text
      dsimp only
      rw [Name.text_rename]
      revert found
      generalize left.method? name.text = method
      generalize right.method? name.text = method'
      rintro (method | _)
      · apply (bindMethod (.object id varies) method).bind
        intro bound bound' same
        exact pure (.function same)
      · exact fail name.line (.undefinedProperty name.text)

theorem checkArity (line expected given : Nat) :
    Step.Varies variation (fun _ _ => True) (Step.checkArity line expected given)
      (Step.checkArity (variation.change.line line) expected given) := by
  rw [Step.checkArity, Step.checkArity]
  split
  · exact fail line (.wrongArity expected given)
  · exact pure trivial

/-! ## Superclasses -/

section

variable {addresses addresses' : AddressTable}
  (recorded : AddressTable.Renamed variation.change addresses addresses')
include recorded

theorem superclass? (id : Nat) {machine machine' : Machine}
    (varies : machine.Varies variation machine') :
    Option.Rel (Class.Varies variation) (Step.superclass? addresses id machine)
      (Step.superclass? addresses' (variation.change.id id) machine') := by
  rw [Step.superclass?, Step.superclass?, recorded id, ← varies.current]
  cases addresses[id]? with
  | none => exact .none
  | some address =>
    have slots := varies.frames.get? machine.current address.depth address.slot
    dsimp only
    revert slots
    generalize machine.frames.get? machine.current address.depth address.slot = slot
    generalize machine'.frames.get? machine.current address.depth address.slot = slot'
    rintro (_ | _)
    · rename_i same
      cases same with
      | uninitialised => exact .none
      | initialised same =>
        cases same with
        | literal value => cases value <;> exact .none
        | type same => exact .some same
        | _ => exact .none
    · exact .none

theorem receiver? (id : Nat) {machine machine' : Machine}
    (varies : machine.Varies variation machine') :
    Option.Rel
      (fun target target' => Value.Varies variation (.object target) (.object target'))
      (Step.receiver? addresses id machine)
      (Step.receiver? addresses' (variation.change.id id) machine') := by
  rw [Step.receiver?, Step.receiver?, recorded id, ← varies.current]
  rcases addresses[id]? with _ | ⟨_ | depth, index⟩
  · exact .none
  · exact .none
  · have slots := varies.frames.get? machine.current depth 0
    dsimp only
    revert slots
    generalize machine.frames.get? machine.current depth 0 = slot
    generalize machine'.frames.get? machine.current depth 0 = slot'
    rintro (_ | _)
    · rename_i same
      cases same with
      | uninitialised => exact .none
      | initialised same =>
        cases same with
        | literal value => cases value <;> exact .none
        | object id same => exact .some (.object id same)
        | _ => exact .none
    · exact .none

theorem superMethod (id line : Nat) (method : Name) :
    Step.Varies variation (Value.Varies variation) (Step.superMethod addresses id line method)
      (Step.superMethod addresses' (variation.change.id id) (variation.change.line line)
        (method.rename variation.change)) := by
  intro machine machine' varies
  have classes := superclass? recorded id varies
  have objects := receiver? recorded id varies
  rw [Step.superMethod_eq, Step.superMethod_eq, Name.text_rename]
  revert classes objects
  generalize Step.superclass? addresses id machine = type
  generalize Step.superclass? addresses' _ machine' = type'
  generalize Step.receiver? addresses id machine = target
  generalize Step.receiver? addresses' _ machine' = target'
  rintro (types | _) objects
  · rcases objects with objects | _
    · rename_i ofClass ofClass' target target'
      have found := types.method? method.text
      dsimp only
      revert found
      generalize ofClass.method? method.text = found
      generalize ofClass'.method? method.text = found'
      rintro (same | _)
      · have binds := (bindMethod objects same).bind fun bound bound' here =>
          pure (Value.Varies.function here)
        exact binds machine machine' varies
      · exact .fault method.line (.undefinedProperty method.text) varies
    · exact .fault line (.undefinedVariable "this") varies
  · exact .fault line (.undefinedVariable "super") varies

theorem superclass (target : Option Reference) :
    Step.Varies variation (Option.Rel (Class.Varies variation)) (Step.superclass addresses target)
      (Step.superclass addresses' (target.map (Reference.rename variation.change))) := by
  cases target with
  | none => exact pure .none
  | some target =>
    apply (readVariable recorded target.id target.name).bind
    intro value value' same
    cases same with
    | literal value => cases value <;> exact fail target.name.line .superclassNotAClass
    | type same => exact pure (.some same)
    | _ => exact fail target.name.line .superclassNotAClass

end

theorem methodFrame {superclass superclass' : Option Class}
    (same : Option.Rel (Class.Varies variation) superclass superclass') :
    Step.Varies variation Eq (Step.methodFrame superclass) (Step.methodFrame superclass') := by
  cases same with
  | none =>
    apply get.bind
    intro machine machine' varies
    exact pure varies.current
  | some same =>
    apply get.bind
    intro machine machine' varies
    rw [varies.current]
    exact newFrame machine'.current (.cons (.type same) .nil)

/-! ## Classes -/

/-- A class is declared after its name, which stands for nothing so far. -/
theorem declareClass {addresses addresses' : AddressTable}
    (recorded : AddressTable.Renamed variation.change addresses addresses') (name : Name)
    (extended : Option Reference) {methods classMethods : List NamedFunction}
    (allowed : NamedFunction.MakeAll variation.allowed methods)
    (allowedInClass : NamedFunction.MakeAll variation.allowed classMethods) :
    Step.Varies variation (Value.Varies variation)
      (Step.declareClass addresses name extended methods classMethods)
      (Step.declareClass addresses' (name.rename variation.change)
        (extended.map (Reference.rename variation.change))
        (NamedFunction.renameAll variation.change methods)
        (NamedFunction.renameAll variation.change classMethods)) := by
  rw [Step.declareClass_eq, Step.declareClass_eq]
  apply inRoot.bind
  rintro isGlobal _ rfl
  apply (declareName isGlobal name.text).bind
  rintro index _ rfl
  apply (superclass recorded extended).bind
  intro type type' types
  apply (methodFrame types).bind
  rintro frame _ rfl
  apply (newMethods frame true methods allowed (Table.related_empty _)).bind
  intro table table' tables
  apply (newMethods frame false classMethods allowedInClass (Table.related_empty _)).bind
  intro tableInClass tableInClass' tablesInClass
  apply freshId.bind
  rintro id _ rfl
  have body : ClassBody.Varies variation ⟨id, name.text, table, tableInClass⟩
      ⟨id, name.text, table', tableInClass'⟩ := ⟨rfl, rfl, tables, tablesInClass⟩
  have value := Value.Varies.type (Class.varies_extending body types)
  cases isGlobal with
  | true => exact (setGlobal name.text (.initialised value)).bind fun _ _ _ => pure value
  | false => exact (setSlot index value).bind fun _ _ _ => pure value

end Step.Varies

end Lox
