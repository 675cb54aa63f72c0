import Lox.Machine.Evaluation
import Lox.Proofs.Machine.Variables
import Lox.Proofs.Spelling.Value

/-!
# Steps of programs that are spelt differently

`Step.Respelt` says of two steps that they end in the same way on machines that are respelt: with
results that are related, with faults that are the same but for the name of a local variable, or
without fuel.  The machines are respelt afterwards, too, and their code runs in the same frame as
before.  Below are its laws and the steps that programs are made of.
-/

namespace Lox

variable {α β γ δ : Type}

/-- Two steps in a frame end in the same way. -/
inductive EndsRespelt (respelling : Respelling) (frame : FrameId) (post : α → β → Prop) :
    EStateM.Result Stop Machine α → EStateM.Result Stop Machine β → Prop where
  | ok {result result' machine machine'} (holds : post result result')
      (respelt : machine.Respelt respelling frame machine') :
      EndsRespelt respelling frame post (.ok result machine) (.ok result' machine')
  | fault (line : Nat) {fault fault' machine machine'}
      (same : fault.Respelt respelling.renamed fault')
      (respelt : machine.Respelt respelling frame machine') :
      EndsRespelt respelling frame post (.error (.fault ⟨line, fault⟩) machine)
        (.error (.fault ⟨line, fault'⟩) machine')
  | outOfFuel {machine machine'} (respelt : machine.Respelt respelling frame machine') :
      EndsRespelt respelling frame post (.error .outOfFuel machine) (.error .outOfFuel machine')

/-- Two steps in a frame that end in the same way on machines that are respelt. -/
def Step.Respelt (respelling : Respelling) (frame : FrameId) (post : α → β → Prop)
    (step : Step α) (step' : Step β) : Prop :=
  ∀ machine machine' : Machine, machine.Respelt respelling frame machine' →
    EndsRespelt respelling frame post (step machine) (step' machine')

/-- A use of a variable may be spelt in these two ways. -/
structure Respelling.Admits (respelling : Respelling) (id : Nat) (name name' : Name) : Prop where
  line : name.line = name'.line
  text : name.text = name'.text ∨
    respelling.addresses[id]?.isSome ∧ respelling.renamed name.text name'.text

namespace Respelling.Admits

variable {respelling : Respelling} {id : Nat} {name name' : Name}
  (admits : respelling.Admits id name name')
include admits

/-- The name of a global variable is spelt in one way only. -/
theorem text_eq (isGlobal : respelling.addresses[id]? = none) : name.text = name'.text := by
  rcases admits.text with same | ⟨isLocal, -⟩
  · exact same
  · rw [isGlobal] at isLocal
    cases isLocal

theorem undefinedVariable : RuntimeFault.Respelt respelling.renamed (.undefinedVariable name.text)
    (.undefinedVariable name'.text) := by
  rcases admits.text with same | ⟨-, renamed⟩
  · exact same ▸ .same _
  · exact .undefinedVariable renamed

theorem uninitialisedVariable : RuntimeFault.Respelt respelling.renamed (.uninitialisedVariable name.text)
    (.uninitialisedVariable name'.text) := by
  rcases admits.text with same | ⟨-, renamed⟩
  · exact same ▸ .same _
  · exact .uninitialisedVariable renamed

end Respelling.Admits

namespace Spelling.Agrees

variable {respelling : Respelling} {spelling spelling' : Spelling} {mentions : List Mention}
  (agrees : spelling.Agrees respelling spelling' mentions)
include agrees

/-- The name of a function, a class or a property is spelt in one way only. -/
theorem label {name : Name} (mentioned : .label name ∈ mentions) :
    name.spell spelling = name.spell spelling' := by
  have text : spelling.text name = spelling'.text name := agrees.mention _ mentioned
  rw [Name.spell, Name.spell, text, agrees.line]

theorem use {target : Reference} (mentioned : .use target ∈ mentions) :
    respelling.Admits target.id (target.name.spell spelling) (target.name.spell spelling') :=
  ⟨congrFun agrees.line target.name.line, agrees.mention _ mentioned⟩

end Spelling.Agrees

/-- A variable gets a value in both machines. -/
theorem Machine.Respelt.write {respelling : Respelling} {frame : FrameId}
    {machine machine' : Machine} (respelt : machine.Respelt respelling frame machine')
    (holder : FrameId) (index : Nat) {value value' : Value}
    (same : Value.Respelt respelling value value') :
    Machine.Respelt respelling frame
      { machine with frames := machine.frames.write holder index value, current := frame }
      { machine' with frames := machine'.frames.write holder index value', current := frame } := by
  refine { respelt with
    frames := respelt.frames.write holder index (.initialised same)
    hasRoot := ?_
    current := rfl
    current' := rfl }
  rw [Frames.size_write]
  exact respelt.hasRoot

namespace Step.Respelt

variable {respelling : Respelling} {frame : FrameId} {post : α → β → Prop} {step : Step α}
  {step' : Step β}

/-! ## Laws -/

theorem pure {result : α} {result' : β} (holds : post result result') :
    Step.Respelt respelling frame post (Pure.pure result) (Pure.pure result') :=
  fun _ _ respelt => .ok holds respelt

theorem bind {next : α → Step γ} {next' : β → Step δ} {last : γ → δ → Prop}
    (same : Step.Respelt respelling frame post step step')
    (rest : ∀ result result', post result result' →
      Step.Respelt respelling frame last (next result) (next' result')) :
    Step.Respelt respelling frame last (step >>= next) (step' >>= next') := by
  intro machine machine' respelt
  show EndsRespelt respelling frame last (EStateM.bind step next machine)
    (EStateM.bind step' next' machine')
  rw [EStateM.bind, EStateM.bind]
  have ends := same machine machine' respelt
  revert ends
  generalize step machine = first
  generalize step' machine' = second
  intro ends
  cases ends with
  | ok holds respelt => exact rest _ _ holds _ _ respelt
  | fault line same respelt => exact .fault line same respelt
  | outOfFuel respelt => exact .outOfFuel respelt

theorem imp {weaker : α → β → Prop} (same : Step.Respelt respelling frame post step step')
    (implies : ∀ result result', post result result' → weaker result result') :
    Step.Respelt respelling frame weaker step step' := by
  intro machine machine' respelt
  have ends := same machine machine' respelt
  revert ends
  generalize step machine = first
  generalize step' machine' = second
  intro ends
  cases ends with
  | ok holds after => exact .ok (implies _ _ holds) after
  | fault line same after => exact .fault line same after
  | outOfFuel after => exact .outOfFuel after

theorem get : Step.Respelt respelling frame (Machine.Respelt respelling frame) MonadState.get
    MonadState.get :=
  fun _ _ respelt => .ok respelt respelt

/-- The machine is replaced before a result is returned. -/
theorem set {machine machine' : Machine} {result : α} {result' : β}
    (respelt : machine.Respelt respelling frame machine') (holds : post result result') :
    Step.Respelt respelling frame post
      (do MonadStateOf.set machine; return result)
      (do MonadStateOf.set machine'; return result') :=
  fun _ _ _ => .ok holds respelt

theorem update {change change' : Machine → Machine}
    (same : ∀ machine machine', machine.Respelt respelling frame machine' →
      (change machine).Respelt respelling frame (change' machine')) :
    Step.Respelt respelling frame (fun _ _ => True) (modify change) (modify change') :=
  fun _ _ respelt => .ok trivial (same _ _ respelt)

theorem fail (line : Nat) (fault : RuntimeFault) :
    Step.Respelt respelling frame post (Step.fail line fault) (Step.fail line fault) :=
  fun _ _ respelt => .fault line (.same fault) respelt

theorem outOfFuel : Step.Respelt respelling frame post (throw .outOfFuel) (throw .outOfFuel) :=
  fun _ _ respelt => .outOfFuel respelt

/-- The result of an operator. -/
theorem ofExcept {line : Nat} {result result' : Except RuntimeError Value}
    (same : SameResult line line result result') :
    Step.Respelt respelling frame (Value.Respelt respelling) (Step.ofExcept result)
      (Step.ofExcept result') := by
  cases same with
  | constant literal => exact pure (.literal literal)
  | fault fault => exact fail line fault

theorem within {inner : FrameId} (same : Step.Respelt respelling inner post step step') :
    Step.Respelt respelling frame post (Step.within inner step) (Step.within inner step') := by
  intro machine machine' respelt
  have inside : { machine with current := inner }.Respelt respelling inner
      { machine' with current := inner } :=
    { respelt with current := rfl, current' := rfl }
  have ends := same _ _ inside
  rw [Step.within, Step.within]
  revert ends
  generalize step _ = first
  generalize step' _ = second
  intro ends
  cases ends with
  | ok holds after =>
    exact .ok holds { after with current := respelt.current, current' := respelt.current' }
  | fault line same after =>
    exact .fault line same { after with current := respelt.current, current' := respelt.current' }
  | outOfFuel after =>
    exact .outOfFuel { after with current := respelt.current, current' := respelt.current' }

/-! ## Identities, frames and slots -/

theorem print (text : String) :
    Step.Respelt respelling frame (fun _ _ => True) (Step.print text) (Step.print text) :=
  update fun _ _ respelt => { respelt with
    printed := congrArg (Array.push · text) respelt.printed }

theorem freshId : Step.Respelt respelling frame Eq Step.freshId Step.freshId := by
  apply get.bind
  intro machine machine' respelt
  apply set _ respelt.nextId
  exact { respelt with nextId := congrArg (· + 1) respelt.nextId }

theorem inRoot : Step.Respelt respelling frame
    (fun isGlobal isGlobal' => isGlobal = (frame == Machine.root) ∧
      isGlobal' = (frame == Machine.root)) Step.inRoot Step.inRoot := by
  apply get.bind
  intro machine machine' respelt
  rw [respelt.current, respelt.current']
  exact pure ⟨rfl, rfl⟩

/-- A new frame is not that of the code outside of all others. -/
theorem newFrame (enclosing : FrameId) {values values' : List Value}
    (same : List.Forall₂ (Value.Respelt respelling) values values') :
    Step.Respelt respelling frame (fun inner inner' => inner = inner' ∧ inner ≠ Machine.root)
      (Step.newFrame enclosing values) (Step.newFrame enclosing values') := by
  apply get.bind
  intro machine machine' respelt
  have frames := (respelt.frames.addChild enclosing).foldl_define machine.frames.size
    (same.imp fun _ _ => .initialised)
  have sameSize := respelt.frames.size_eq
  refine set ?_ ⟨sameSize, Nat.ne_of_gt respelt.hasRoot⟩
  rw [← sameSize]
  refine { respelt with frames := frames, hasRoot := ?_ }
  rw [Frames.foldl_define_size, Frames.size_addChild]
  exact Nat.succ_pos _

theorem newSlot {slot slot' : Slot Value} (same : Slot.Respelt respelling slot slot') :
    Step.Respelt respelling frame Eq (Step.newSlot slot) (Step.newSlot slot') := by
  apply get.bind
  intro machine machine' respelt
  rw [respelt.current, respelt.current']
  apply set _ (respelt.frames.length_eq frame)
  refine { respelt with
    frames := respelt.frames.append frame same, current := rfl, current' := rfl, hasRoot := ?_ }
  rw [Frames.size_append]
  exact respelt.hasRoot

theorem setSlot (index : Nat) {value value' : Value} (same : Value.Respelt respelling value value') :
    Step.Respelt respelling frame (fun _ _ => True) (Step.setSlot index value)
      (Step.setSlot index value') := by
  apply update
  intro machine machine' respelt
  rw [respelt.current, respelt.current']
  exact respelt.write frame index same

/-! ## Variables -/

theorem setGlobal (name : String) {slot slot' : Slot Value}
    (same : Slot.Respelt respelling slot slot') :
    Step.Respelt respelling frame (fun _ _ => True) (Step.setGlobal name slot)
      (Step.setGlobal name slot') :=
  update fun _ _ respelt => { respelt with globals := respelt.globals.insert name same }

theorem defineVariable (name : Name) {value value' : Value}
    (same : Value.Respelt respelling value value') :
    Step.Respelt respelling frame (fun _ _ => True) (Step.defineVariable name value)
      (Step.defineVariable name value') := by
  apply inRoot.bind
  rintro _ _ ⟨rfl, rfl⟩
  cases frame == Machine.root with
  | true => exact setGlobal name.text (.initialised same)
  | false => exact (newSlot (.initialised same)).bind fun _ _ _ => pure trivial

/-- A use means related slots. -/
theorem slot? {id : Nat} {name name' : Name} (admits : respelling.Admits id name name')
    {machine machine' : Machine} (respelt : machine.Respelt respelling frame machine') :
    Option.Rel (Slot.Respelt respelling) (Step.slot? respelling.addresses id name.text machine)
      (Step.slot? respelling.addresses id name'.text machine') := by
  rw [Step.slot?, Step.slot?, respelt.current, respelt.current']
  cases recorded : respelling.addresses[id]? with
  | some address => exact respelt.frames.get? frame address.depth address.slot
  | none => exact admits.text_eq recorded ▸ respelt.globals name.text

theorem readVariable {id : Nat} {name name' : Name} (admits : respelling.Admits id name name') :
    Step.Respelt respelling frame (Value.Respelt respelling)
      (Step.readVariable respelling.addresses id name)
      (Step.readVariable respelling.addresses id name') := by
  intro machine machine' respelt
  have slots := slot? admits respelt
  rw [Step.readVariable_eq, Step.readVariable_eq, ← admits.line]
  revert slots
  generalize Step.slot? respelling.addresses id name.text machine = slot
  generalize Step.slot? respelling.addresses id name'.text machine' = slot'
  rintro (same | _)
  · cases same with
    | uninitialised => exact .fault name.line admits.uninitialisedVariable respelt
    | initialised same => exact .ok same respelt
  · exact .fault name.line admits.undefinedVariable respelt

theorem assignVariable (target target' : Reference) (id : target.id = target'.id)
    (admits : respelling.Admits target.id target.name target'.name) {value value' : Value}
    (same : Value.Respelt respelling value value') :
    Step.Respelt respelling frame (fun _ _ => True)
      (Step.assignVariable respelling.addresses target value)
      (Step.assignVariable respelling.addresses target' value') := by
  intro machine machine' respelt
  rw [Step.assignVariable_eq, Step.assignVariable_eq, ← id, ← admits.line]
  cases recorded : respelling.addresses[target.id]? with
  | some address =>
    dsimp only
    rw [respelt.current, respelt.current', respelt.frames.holder?_eq]
    cases machine'.frames.holder? frame address.depth address.slot with
    | some holder => exact .ok trivial (respelt.write holder address.slot same)
    | none => exact .fault target.name.line admits.undefinedVariable respelt
  | none =>
    have text := admits.text_eq recorded
    dsimp only
    rw [← text, respelt.globals.contains_eq target.name.text]
    split
    · exact .ok trivial
        { respelt with globals := respelt.globals.insert target.name.text (.initialised same) }
    · exact .fault target.name.line (.same _) respelt

/-- A name is declared that stands for nothing so far. -/
theorem declareName {name name' : String} (same : name = name' ∨ frame ≠ Machine.root) :
    Step.Respelt respelling frame Eq
      (if frame == Machine.root then do
        Step.setGlobal name .uninitialised
        return 0
      else
        Step.newSlot .uninitialised : Step Nat)
      (if frame == Machine.root then do
        Step.setGlobal name' .uninitialised
        return 0
      else
        Step.newSlot .uninitialised : Step Nat) := by
  cases isGlobal : frame == Machine.root with
  | true =>
    rcases same with rfl | inner
    · exact (setGlobal name .uninitialised).bind fun _ _ _ => pure rfl
    · exact absurd (beq_iff_eq.mp isGlobal) inner
  | false => exact newSlot .uninitialised

/-! ## Functions and instances -/

theorem newClosure (environment : FrameId) (name : String) {behaviour behaviour' : Behaviour}
    (same : behaviour.Respelt respelling behaviour') :
    Step.Respelt respelling frame (Closure.Respelt respelling)
      (Step.newClosure environment name behaviour)
      (Step.newClosure environment name behaviour') := by
  apply freshId.bind
  rintro id _ rfl
  exact pure ⟨rfl, rfl, same, rfl⟩

theorem bindMethod {target target' : Instance} {method method' : Closure}
    (object : Value.Respelt respelling (.object target) (.object target'))
    (same : Closure.Respelt respelling method method') :
    Step.Respelt respelling frame (Closure.Respelt respelling) (Step.bindMethod target method)
      (Step.bindMethod target' method') := by
  rw [Step.bindMethod, Step.bindMethod, ← same.environment, ← same.name]
  apply (newFrame method.environment (.cons object .nil)).bind
  rintro inner _ ⟨rfl, -⟩
  exact newClosure inner method.name same.behaviour

/-- A bound method as a value. -/
theorem boundMethod {target target' : Instance} {method method' : Closure}
    (object : Value.Respelt respelling (.object target) (.object target'))
    (same : Closure.Respelt respelling method method') :
    Step.Respelt respelling frame (Value.Respelt respelling)
      (do return .function (← Step.bindMethod target method))
      (do return .function (← Step.bindMethod target' method')) := by
  apply (bindMethod object same).bind
  intro bound bound' here
  exact pure (.function here)

/-- Methods are made in the same way. -/
theorem newMethods (environment : FrameId) (allowInitializer : Bool)
    {spelling spelling' : Spelling} (methods : List NamedFunction)
    (agrees : spelling.Agrees respelling spelling' (NamedFunction.mentionsAll methods))
    {table table' : Table Closure}
    (same : Table.Related (Closure.Respelt respelling) table table') :
    Step.Respelt respelling frame (Table.Related (Closure.Respelt respelling))
      (Step.newMethods environment allowInitializer
        (NamedFunction.spellAll spelling methods) table)
      (Step.newMethods environment allowInitializer
        (NamedFunction.spellAll spelling' methods) table') := by
  induction methods generalizing table table' with
  | nil => exact pure same
  | cons first others induction =>
    rcases first with ⟨name, definition⟩
    rw [NamedFunction.mentionsAll] at agrees
    have inner := agrees.mono (List.subset_cons_self _ _)
    rw [NamedFunction.spellAll, NamedFunction.spellAll, ← agrees.label List.mem_cons_self]
    have behaves := Behaviour.Respelt.body (inner.mono (List.subset_append_left _ _))
      (allowInitializer && (name.spell spelling).text == "init")
    apply (newClosure environment (name.spell spelling).text behaves).bind
    intro method method' here
    exact induction (inner.mono (List.subset_append_right _ _)) (same.insert _ here)

theorem newInstance {ofClass ofClass' : Class} (same : Class.Respelt respelling ofClass ofClass') :
    Step.Respelt respelling frame
      (fun created created' => Value.Respelt respelling (.object created) (.object created'))
      (Step.newInstance ofClass) (Step.newInstance ofClass') := by
  apply get.bind
  intro machine machine' respelt
  rw [respelt.fields.size]
  apply set _ (.object _ same)
  exact { respelt with fields := respelt.fields.push (Table.related_empty _) }

theorem field? {target target' : Instance} (same : target.id = target'.id) (name : String) :
    Step.Respelt respelling frame (Option.Rel (Value.Respelt respelling)) (Step.field? target name)
      (Step.field? target' name) := by
  apply get.bind
  intro machine machine' respelt
  rw [same]
  have here := respelt.fields.entry target'.id
  revert here
  generalize machine.fields[target'.id]? = table
  generalize machine'.fields[target'.id]? = table'
  rintro (here | _)
  · exact pure (here name)
  · exact pure .none

theorem setField {target target' : Instance} (same : target.id = target'.id) (name : String)
    {value value' : Value} (here : Value.Respelt respelling value value') :
    Step.Respelt respelling frame (fun _ _ => True) (Step.setField target name value)
      (Step.setField target' name value') := by
  rw [Step.setField, same]
  apply update
  intro machine machine' respelt
  exact { respelt with
    fields := respelt.fields.modify target'.id fun _ _ table => table.insert name here }

theorem property {target target' : Value} (same : Value.Respelt respelling target target')
    (name : Name) :
    Step.Respelt respelling frame (Value.Respelt respelling) (Step.property target name)
      (Step.property target' name) := by
  cases same with
  | literal value => cases value <;> exact fail name.line .hasNoProperties
  | function => exact fail name.line .hasNoProperties
  | type respelt =>
    rename_i left right
    have found := respelt.classMethod? name.text
    rw [Step.property, Step.property]
    revert found
    generalize left.classMethod? name.text = method
    generalize right.classMethod? name.text = method'
    rintro (method | _)
    · exact pure (.function method)
    · exact fail name.line (.undefinedProperty name.text)
  | object id respelt =>
    rename_i left right
    apply (field? rfl name.text).bind
    rintro _ _ (value | _)
    · exact pure value
    · have found := respelt.method? name.text
      dsimp only
      revert found
      generalize left.method? name.text = method
      generalize right.method? name.text = method'
      rintro (method | _)
      · exact boundMethod (.object id respelt) method
      · exact fail name.line (.undefinedProperty name.text)

theorem checkArity (line expected given : Nat) :
    Step.Respelt respelling frame (fun _ _ => True) (Step.checkArity line expected given)
      (Step.checkArity line expected given) := by
  rw [Step.checkArity]
  split
  · exact fail line (.wrongArity expected given)
  · exact pure trivial

/-! ## Superclasses -/

theorem superclass? (id : Nat) {machine machine' : Machine}
    (respelt : machine.Respelt respelling frame machine') :
    Option.Rel (Class.Respelt respelling) (Step.superclass? respelling.addresses id machine)
      (Step.superclass? respelling.addresses id machine') := by
  rw [Step.superclass?, Step.superclass?, respelt.current, respelt.current']
  cases respelling.addresses[id]? with
  | none => exact .none
  | some address =>
    have slots := respelt.frames.get? frame address.depth address.slot
    dsimp only
    revert slots
    generalize machine.frames.get? frame address.depth address.slot = slot
    generalize machine'.frames.get? frame address.depth address.slot = slot'
    rintro (_ | _)
    · rename_i same
      cases same with
      | uninitialised => exact .none
      | initialised same =>
        cases same with
        | literal value => cases value <;> exact .none
        | type same => exact .some same
        | _ => exact .none
    · exact .none

theorem receiver? (id : Nat) {machine machine' : Machine}
    (respelt : machine.Respelt respelling frame machine') :
    Option.Rel
      (fun target target' => Value.Respelt respelling (.object target) (.object target'))
      (Step.receiver? respelling.addresses id machine)
      (Step.receiver? respelling.addresses id machine') := by
  rw [Step.receiver?, Step.receiver?, respelt.current, respelt.current']
  rcases respelling.addresses[id]? with _ | ⟨_ | depth, index⟩
  · exact .none
  · exact .none
  · have slots := respelt.frames.get? frame depth 0
    dsimp only
    revert slots
    generalize machine.frames.get? frame depth 0 = slot
    generalize machine'.frames.get? frame depth 0 = slot'
    rintro (_ | _)
    · rename_i same
      cases same with
      | uninitialised => exact .none
      | initialised same =>
        cases same with
        | literal value => cases value <;> exact .none
        | object id same => exact .some (.object id same)
        | _ => exact .none
    · exact .none

theorem superMethod (id line : Nat) (method : Name) :
    Step.Respelt respelling frame (Value.Respelt respelling)
      (Step.superMethod respelling.addresses id line method)
      (Step.superMethod respelling.addresses id line method) := by
  intro machine machine' respelt
  have classes := superclass? id respelt
  have objects := receiver? id respelt
  rw [Step.superMethod_eq, Step.superMethod_eq]
  revert classes objects
  generalize Step.superclass? respelling.addresses id machine = type
  generalize Step.superclass? respelling.addresses id machine' = type'
  generalize Step.receiver? respelling.addresses id machine = target
  generalize Step.receiver? respelling.addresses id machine' = target'
  rintro (types | _) objects
  · rcases objects with objects | _
    · rename_i ofClass ofClass' target target'
      have found := types.method? method.text
      dsimp only
      revert found
      generalize ofClass.method? method.text = found
      generalize ofClass'.method? method.text = found'
      rintro (same | _)
      · exact boundMethod objects same machine machine' respelt
      · exact .fault method.line (.same (.undefinedProperty method.text)) respelt
    · exact .fault line (.same (.undefinedVariable "this")) respelt
  · exact .fault line (.same (.undefinedVariable "super")) respelt

theorem superclass {spelling spelling' : Spelling} (target : Option Reference)
    (agrees : spelling.Agrees respelling spelling' (target.toList.map .use)) :
    Step.Respelt respelling frame (Option.Rel (Class.Respelt respelling))
      (Step.superclass respelling.addresses (target.map (Reference.spell spelling)))
      (Step.superclass respelling.addresses (target.map (Reference.spell spelling'))) := by
  cases target with
  | none => exact pure .none
  | some target =>
    have admits := agrees.use List.mem_cons_self
    apply (readVariable admits).bind
    intro value value' same
    cases same with
    | literal value => cases value <;> exact admits.line ▸ fail _ .superclassNotAClass
    | type same => exact pure (.some same)
    | _ => exact admits.line ▸ fail _ .superclassNotAClass

theorem methodFrame {superclass superclass' : Option Class}
    (same : Option.Rel (Class.Respelt respelling) superclass superclass') :
    Step.Respelt respelling frame Eq (Step.methodFrame superclass)
      (Step.methodFrame superclass') := by
  cases same with
  | none =>
    apply get.bind
    intro machine machine' respelt
    exact pure (respelt.current.trans respelt.current'.symm)
  | some same =>
    apply get.bind
    intro machine machine' respelt
    rw [respelt.current, respelt.current']
    apply (newFrame frame (.cons (.type same) .nil)).imp
    exact fun _ _ holds => holds.1

/-! ## Classes -/

/-- A class is declared after its name, which stands for nothing so far. -/
theorem declareClass {spelling spelling' : Spelling} {name : Name} {extended : Option Reference}
    {methods classMethods : List NamedFunction}
    (agrees : spelling.Agrees respelling spelling'
      (.label name :: (extended.toList.map .use ++
        (NamedFunction.mentionsAll methods ++ NamedFunction.mentionsAll classMethods)))) :
    Step.Respelt respelling frame (Value.Respelt respelling)
      (Step.declareClass respelling.addresses (name.spell spelling)
        (extended.map (Reference.spell spelling)) (NamedFunction.spellAll spelling methods)
        (NamedFunction.spellAll spelling classMethods))
      (Step.declareClass respelling.addresses (name.spell spelling')
        (extended.map (Reference.spell spelling')) (NamedFunction.spellAll spelling' methods)
        (NamedFunction.spellAll spelling' classMethods)) := by
  have inner := agrees.mono (List.subset_cons_self _ _)
  have members := inner.mono (List.subset_append_right _ _)
  rw [Step.declareClass_eq, Step.declareClass_eq, ← agrees.label List.mem_cons_self]
  apply inRoot.bind
  rintro _ _ ⟨rfl, rfl⟩
  apply (declareName (.inl rfl)).bind
  rintro index _ rfl
  apply (superclass extended (inner.mono (List.subset_append_left _ _))).bind
  intro type type' types
  apply (methodFrame types).bind
  rintro environment _ rfl
  apply (newMethods environment true methods (members.mono (List.subset_append_left _ _))
    (Table.related_empty _)).bind
  intro table table' tables
  apply (newMethods environment false classMethods (members.mono (List.subset_append_right _ _))
    (Table.related_empty _)).bind
  intro tableInClass tableInClass' tablesInClass
  apply freshId.bind
  rintro id _ rfl
  have body : ClassBody.Respelt respelling
      ⟨id, (name.spell spelling).text, table, tableInClass⟩
      ⟨id, (name.spell spelling).text, table', tableInClass'⟩ := ⟨rfl, rfl, tables, tablesInClass⟩
  have value := Value.Respelt.type (Class.respelt_extending body types)
  cases frame == Machine.root with
  | true =>
    exact (setGlobal (name.spell spelling).text (.initialised value)).bind
      fun _ _ _ => pure value
  | false => exact (setSlot index value).bind fun _ _ _ => pure value

end Step.Respelt

end Lox
