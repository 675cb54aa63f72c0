import Lox.Proofs.Machine.Steps
import Mathlib.Data.List.Nodup

/-!
# Operations on fitting machines

One statement for each operation of the machine: what it needs so that the machine
stays fit, what its result is, and which frames get slots.
-/

namespace Lox

/-- Code stands in scopes: the current frame is that of the innermost one, which is complete. -/
structure Moment.Stands (setting : Setting) (around : Surroundings) (scopes : Scopes)
    (moment : Moment) : Prop where
  around : around.Fits setting.names scopes
  named : Local.AreNamed setting.names (scopes.headD [])
  chain : moment.layout.Chain scopes moment.machine.current
  row : moment.layout.row moment.machine.current = scopes.headD []

namespace Moment.Stands

variable {setting : Setting} {around : Surroundings} {scopes : Scopes} {start finish : Moment}

/-- Code still stands in scopes if no slot was added to a frame. -/
theorem follow (stands : start.Stands setting around scopes)
    (follows : Follows setting start finish) (still : start.layout.Still finish.layout) :
    finish.Stands setting around scopes := by
  constructor
  · exact stands.around
  · exact stands.named
  · rw [follows.current]
    exact stands.chain.mono follows.ordered
  · rw [follows.current, still _ stands.chain.lt_size]
    exact stands.row

/-- The same with what was declared in the innermost scope in the meantime. -/
theorem declare (stands : start.Stands setting around scopes)
    (follows : Follows setting start finish) {locals : List Local}
    (named : Local.AreNamed setting.names locals)
    (row : finish.layout.row start.machine.current = (scopes.declare locals).headD []) :
    finish.Stands setting around (scopes.declare locals) := by
  have chain := stands.chain.mono follows.ordered
  rw [← follows.current] at chain row
  cases scopes with
  | nil => exact ⟨stands.around, stands.named, chain, row⟩
  | cons innermost outer =>
    constructor
    · exact stands.around.declare stands.named named
    · exact List.forall_mem_append.mpr ⟨stands.named, named⟩
    · apply chain.extend
      rw [row]
      exact List.prefix_refl _
    · exact row

/-- A block or a body is entered, whose frame has no slots yet. -/
theorem enter {inner : FrameId} (surrounds : around.Fits setting.names scopes)
    (chain : start.layout.Chain ([] :: scopes) inner) (row : start.layout.row inner = []) :
    Moment.Stands setting around ([] :: scopes)
      ⟨start.history, { start.machine with current := inner }⟩ :=
  ⟨surrounds.cons Local.areNamed_nil, Local.areNamed_nil, chain, row⟩

/-- Code in a scope runs in a frame that is not the root. -/
theorem inRoot (stands : start.Stands setting around scopes) :
    (start.machine.current == Machine.root) = scopes.isEmpty := by
  have iff := stands.chain.eq_root_iff
  rw [Bool.eq_iff_iff, beq_iff_eq, List.isEmpty_iff]
  exact iff

/-- A layout has the frames of its machine. -/
theorem enclosing_eq : start.layout.enclosing = start.machine.frames.enclosing? := rfl

/-- The frames around code are those of its scopes. -/
theorem agrees (stands : start.Stands setting around scopes) (fits : start.Fits setting)
    {occurrence : Occurrence} (same : occurrence.scopes = scopes) :
    occurrence.Agrees start.history start.machine := by
  subst same
  constructor
  · rw [fits.length_slots, fits.root_row]
    rfl
  · exact stands.chain.ancestor?_length rfl
  · intro depth scope here
    rcases stands.chain.exists_ancestor? enclosing_eq here with
      ⟨frame, found, isFrame, inner, begins⟩
    refine ⟨frame, found, inner, ?_, ?_⟩
    · rw [fits.length_slots]
      exact begins.length_le
    · intro slot declared member
      apply fits.created
      exact Layout.getElem?_of_prefix begins member

/-- What is declared in a scope around code has a slot that holds what it is for. -/
theorem exists_slot (stands : start.Stands setting around scopes) (fits : start.Fits setting)
    {depth index : Nat} {scope : List Local} {declared : Local}
    (here : scopes[depth]? = some scope) (member : scope[index]? = some declared) :
    ∃ frame slot, start.machine.frames.ancestor? start.machine.current depth = some frame ∧
      (start.layout.row frame)[index]? = some declared ∧
      (start.machine.frames.slots frame)[index]? = some slot ∧
      Slot.Fits setting start.layout declared slot := by
  rcases stands.chain.exists_ancestor? enclosing_eq here with
    ⟨frame, found, -, -, begins⟩
  have inRow := Layout.getElem?_of_prefix begins member
  rcases fits.slot inRow with ⟨slot, slotHere, holds⟩
  exact ⟨frame, slot, found, inRow, slotHere, holds⟩

end Moment.Stands

/-! ## Events that are sound -/

section

variable {setting : Setting} {around : Surroundings} {scopes : Scopes} {start : Moment}

/-- Uses are told apart by their ids. -/
theorem Setting.Sound.eq_of_id (sound : setting.Sound) {first second : Occurrence}
    (firstKnown : first ∈ setting.occurrences) (secondKnown : second ∈ setting.occurrences)
    (same : first.id = second.id) : first = second :=
  List.inj_on_of_nodup_map sound.distinct firstKnown secondKnown same

namespace Moment.Stands

variable (stands : start.Stands setting around scopes)
include stands

theorem sound_runs : (Event.runs (!scopes.isEmpty) start.machine).Sound setting start.history := by
  constructor
  · intro id machine impossible
    cases impossible
  · intro use machine impossible
    cases impossible
  · rintro inside machine ⟨⟩
    rw [stands.inRoot, Bool.not_not]

/-- At any use of the id of a known use the frames are those of the scopes. -/
theorem agrees_of_id (sound : setting.Sound) (fits : start.Fits setting) {occurrence : Occurrence}
    (known : occurrence ∈ setting.occurrences) (inScopes : occurrence.scopes = scopes)
    {event : Event} (evaluated : event.evaluated? = some (occurrence.id, start.machine)) :
    ∀ id machine, event.evaluated? = some (id, machine) →
      (∃ other ∈ setting.occurrences, other.id = id) ∧
        ∀ other ∈ setting.occurrences, other.id = id → other.Agrees start.history machine := by
  intro id machine same
  rw [evaluated] at same
  rcases Prod.mk.inj (Option.some.inj same) with ⟨rfl, rfl⟩
  refine ⟨⟨occurrence, known, rfl⟩, ?_⟩
  intro other otherKnown sameId
  rw [sound.eq_of_id otherKnown known sameId]
  exact stands.agrees fits inScopes

theorem sound_reaches (sound : setting.Sound) (fits : start.Fits setting) {occurrence : Occurrence}
    (known : occurrence ∈ setting.occurrences) (inScopes : occurrence.scopes = scopes) :
    (Event.reaches occurrence.id start.machine).Sound setting start.history := by
  constructor
  · exact stands.agrees_of_id sound fits known inScopes rfl
  · intro use machine impossible
    cases impossible
  · intro inside machine impossible
    cases impossible

/-- A use is sound if it does not fail to find a variable that has an address. -/
theorem sound_uses (sound : setting.Sound) (fits : start.Fits setting) {occurrence : Occurrence}
    (known : occurrence ∈ setting.occurrences) (inScopes : occurrence.scopes = scopes)
    {use : Use} (same : use.id = occurrence.id)
    (defined : (use.IsSuper → setting.Plain) → ∀ address, occurrence.address? = some address →
      setting.addresses[occurrence.id]? = some address →
        ¬ use.IsUndefined setting.addresses start.machine) :
    (Event.uses use start.machine).Sound setting start.history := by
  constructor
  · apply stands.agrees_of_id sound fits known inScopes
    rw [Event.evaluated?, same]
  · rintro other machine ⟨⟩ plain address recorded
    rw [same] at recorded
    exact defined plain address (sound.recorded occurrence known address recorded) recorded
  · intro inside machine impossible
    cases impossible

/-- The slot at the address of a use is there and holds what it is for. -/
theorem slot_at_address (fits : start.Fits setting) {occurrence : Occurrence}
    (inScopes : occurrence.scopes = scopes) {address : Address}
    (found : occurrence.address? = some address) :
    ∃ frame declared slot,
      start.machine.frames.ancestor? start.machine.current address.depth = some frame ∧
        (start.layout.row frame)[address.slot]? = some declared ∧
        declared.text = occurrence.name ∧
        (start.machine.frames.slots frame)[address.slot]? = some slot ∧
        Slot.Fits setting start.layout declared slot := by
  rcases Occurrence.exists_local_of_address? found with ⟨scope, declared, here, member, text⟩
  rw [inScopes] at here
  rcases stands.exists_slot fits here member with ⟨frame, slot, further, inRow, slotHere, holds⟩
  exact ⟨frame, declared, slot, further, inRow, text, slotHere, holds⟩

end Moment.Stands

end

/-! ## What looking up variables yields -/

namespace Step

/-- The slot that a use means. -/
def slot? (addresses : AddressTable) (id : Nat) (name : String) (machine : Machine) :
    Option (Slot Value) :=
  match addresses[id]? with
  | some address => machine.frames.get? machine.current address.depth address.slot
  | none => machine.globals[name]?

/-- What goes on with the state goes on with the state that there is. -/
theorem get_bind {ε σ α : Type} (next : σ → EStateM ε σ α) (state : σ) :
    (get >>= next : EStateM ε σ α) state = next state state := rfl

theorem field?_eq (target : Instance) (name : String) (machine : Machine) :
    field? target name machine = .ok (machine.fields[target.id]?.bind (·[name]?)) machine := by
  rw [field?, get_bind]
  cases machine.fields[target.id]? <;> rfl

theorem readVariable_eq (addresses : AddressTable) (id : Nat) (name : Name) (machine : Machine) :
    readVariable addresses id name machine =
      match slot? addresses id name.text machine with
      | some (.initialised value) => .ok value machine
      | some .uninitialised =>
        .error (.fault ⟨name.line, .uninitialisedVariable name.text⟩) machine
      | none => .error (.fault ⟨name.line, .undefinedVariable name.text⟩) machine := by
  show (match slot? addresses id name.text machine with
    | some (.initialised value) => pure value
    | some .uninitialised => fail name.line (.uninitialisedVariable name.text)
    | none => fail name.line (.undefinedVariable name.text) : Step Value) machine = _
  cases slot? addresses id name.text machine with
  | none => rfl
  | some slot => cases slot <;> rfl

theorem assignVariable_eq (addresses : AddressTable) (target : Reference) (value : Value)
    (machine : Machine) :
    assignVariable addresses target value machine =
      match addresses[target.id]? with
      | some address =>
        match machine.frames.holder? machine.current address.depth address.slot with
        | some holder =>
          .ok () { machine with frames := machine.frames.write holder address.slot value }
        | none =>
          .error (.fault ⟨target.name.line, .undefinedVariable target.name.text⟩) machine
      | none =>
        if machine.globals.contains target.name.text then
          .ok () { machine with
            globals := machine.globals.insert target.name.text (.initialised value) }
        else
          .error (.fault ⟨target.name.line, .undefinedVariable target.name.text⟩) machine := by
  show (match addresses[target.id]? with
    | some address =>
      match machine.frames.holder? machine.current address.depth address.slot with
      | some holder =>
        set { machine with frames := machine.frames.write holder address.slot value }
      | none => fail target.name.line (.undefinedVariable target.name.text)
    | none =>
      if machine.globals.contains target.name.text then
        setGlobal target.name.text (.initialised value)
      else
        fail target.name.line (.undefinedVariable target.name.text) : Step Unit) machine = _
  cases addresses[target.id]? with
  | none =>
    cases found : machine.globals.contains target.name.text <;>
      simp only [Bool.false_eq_true, if_true, if_false] <;> rfl
  | some address =>
    dsimp only
    cases machine.frames.holder? machine.current address.depth address.slot <;> rfl

/-! ## Declarations -/

theorem execute_varDecl_none (addresses : AddressTable) (fuel : Nat) (name : Name) :
    execute addresses (fuel + 1) (.varDecl name none) = do
      let isGlobal ← inRoot
      let _ ← (if isGlobal then do
          setGlobal name.text .uninitialised
          return 0
        else
          newSlot .uninitialised : Step Nat)
      return Flow.normal none := by
  rw [execute]
  apply bind_congr
  intro isGlobal
  cases isGlobal <;> rfl

theorem execute_funDecl (addresses : AddressTable) (fuel : Nat) (name : Name)
    (definition : Function) :
    execute addresses (fuel + 1) (.funDecl (.mk name definition)) = do
      (do
        let machine ← get
        let closure ← newClosure machine.current name.text (.body definition false)
        defineVariable name (.function closure))
      return Flow.normal none := by
  rw [execute, bind_assoc]
  apply bind_congr
  intro machine
  rw [bind_assoc]

/-- A class is declared in three steps: its name, what it is, and its value. -/
theorem declareClass_eq (addresses : AddressTable) (name : Name)
    (superclassName : Option Reference) (methods classMethods : List NamedFunction) :
    declareClass addresses name superclassName methods classMethods = do
      let isGlobal ← inRoot
      let index ← (if isGlobal then do
          setGlobal name.text .uninitialised
          return 0
        else
          newSlot .uninitialised : Step Nat)
      let superclass ← superclass addresses superclassName
      let frame ← methodFrame superclass
      let table ← newMethods frame true methods ∅
      let classTable ← newMethods frame false classMethods ∅
      let id ← freshId
      (if isGlobal then
        setGlobal name.text
          (.initialised (.type (.extending ⟨id, name.text, table, classTable⟩ superclass)))
      else
        setSlot index (.type (.extending ⟨id, name.text, table, classTable⟩ superclass)) :
        Step Unit)
      return .type (.extending ⟨id, name.text, table, classTable⟩ superclass) := by
  rw [declareClass]
  apply bind_congr
  intro isGlobal
  cases isGlobal <;> rfl

end Step

namespace Watched

section

variable {setting : Setting} {around : Surroundings} {scopes : Scopes} {start : Moment}

/-! ## Steps that leave frames alone -/

/-- The machine changes, but neither its frames nor what runs. -/
theorem follows_quiet (fits : start.Fits setting) (machine : Machine)
    (frames : machine.frames = start.machine.frames)
    (current : machine.current = start.machine.current)
    (globals : ∀ (name : String) (value : Value),
      machine.globals[name]? = some (.initialised value) → value.Fits setting start.layout)
    (fields : ∀ (id : Nat) (table : Table Value) (name : String) (value : Value),
      machine.fields[id]? = some table → table[name]? = some value →
        value.Fits setting start.layout) :
    Follows setting start ⟨start.history, machine⟩ ∧
      Moment.layout ⟨start.history, machine⟩ = start.layout := by
  have layout : Moment.layout ⟨start.history, machine⟩ = start.layout := by
    simp only [Moment.layout, frames]
  refine ⟨⟨?_, ?_, current⟩, layout⟩
  · constructor
    · show Machine.root < machine.frames.size
      rw [frames]
      exact fits.root_isFrame
    · rw [layout]
      exact fits.root_row
    · intro frame
      rw [layout]
      show List.Forall₂ _ _ (machine.frames.slots frame).toList
      rw [frames]
      exact fits.slots frame
    · rw [layout]
      exact fits.created
    · rw [layout]
      exact globals
    · rw [layout]
      exact fields
  · rw [layout]
    exact .refl _

/-- A result without effects. -/
theorem runs_ofExcept {α : Type} {result : Except RuntimeError α} {post : α → Moment → Prop}
    (fits : start.Fits setting) (holds : ∀ value, result = .ok value → post value start) :
    (quiet (Step.ofExcept result)).Runs setting start post := by
  cases result with
  | ok value =>
    apply Runs.quiet
    · rintro _ _ ⟨⟩
      exact ⟨.refl fits, holds value rfl⟩
    · intro stop machine impossible
      cases impossible
  | error error =>
    apply Runs.quiet
    · intro value machine impossible
      cases impossible
    · rintro _ _ ⟨⟩
      exact .refl fits

theorem runs_checkArity (fits : start.Fits setting) (line expected given : Nat) :
    (quiet (Step.checkArity line expected given)).Runs setting start
      fun _ finish => finish = start ∧ expected = given := by
  by_cases same : expected = given
  · apply Runs.quiet
    · intro result machine taken
      rw [Step.checkArity, if_neg (not_not_intro same)] at taken
      cases taken
      exact ⟨.refl fits, rfl, same⟩
    · intro stop machine taken
      rw [Step.checkArity, if_neg (not_not_intro same)] at taken
      cases taken
  · apply Runs.quiet
    · intro result machine taken
      rw [Step.checkArity, if_pos same] at taken
      cases taken
    · intro stop machine taken
      rw [Step.checkArity, if_pos same] at taken
      cases taken
      exact .refl fits

/-- The layout is the same after a step. -/
def SameLayout (start : Moment) {α : Type} (_ : α) (finish : Moment) : Prop :=
  finish.layout = start.layout

theorem runs_print (fits : start.Fits setting) (text : String) :
    (quiet (Step.print text)).Runs setting start (SameLayout start) := by
  apply Runs.quiet
  · rintro _ _ ⟨⟩
    exact follows_quiet fits _ rfl rfl fits.globals fits.fields
  · intro stop machine impossible
    cases impossible

theorem runs_freshId (fits : start.Fits setting) :
    (quiet Step.freshId).Runs setting start (SameLayout start) := by
  apply Runs.quiet
  · rintro _ _ ⟨⟩
    exact follows_quiet fits _ rfl rfl fits.globals fits.fields
  · intro stop machine impossible
    cases impossible

/-- A function is made; what it keeps and does is given. -/
theorem runs_newClosure (fits : start.Fits setting) (frame : FrameId) (name : String)
    (behaviour : Behaviour) :
    (quiet (Step.newClosure frame name behaviour)).Runs setting start fun closure finish =>
      closure.environment = frame ∧ closure.behaviour = behaviour ∧
        finish.layout = start.layout := by
  apply Runs.quiet
  · rintro _ _ ⟨⟩
    rcases follows_quiet fits { start.machine with nextId := start.machine.nextId + 1 }
      rfl rfl fits.globals fits.fields with ⟨follows, same⟩
    exact ⟨follows, rfl, rfl, same⟩
  · intro stop machine impossible
    cases impossible

theorem follows_setGlobal (fits : start.Fits setting) (name : String) {slot : Slot Value}
    (holds : ∀ value, slot = .initialised value → value.Fits setting start.layout) :
    Follows setting start ⟨start.history,
        { start.machine with globals := start.machine.globals.insert name slot }⟩ ∧
      Moment.layout ⟨start.history,
        { start.machine with globals := start.machine.globals.insert name slot }⟩ =
          start.layout := by
  refine follows_quiet fits
    { start.machine with globals := start.machine.globals.insert name slot } rfl rfl ?_ fits.fields
  intro other value found
  rw [Std.TreeMap.getElem?_insert] at found
  split at found
  · exact holds value (Option.some.inj found)
  · exact fits.globals other value found

theorem runs_setGlobal (fits : start.Fits setting) (name : String) {slot : Slot Value}
    (holds : ∀ value, slot = .initialised value → value.Fits setting start.layout) :
    (quiet (Step.setGlobal name slot)).Runs setting start (SameLayout start) := by
  apply Runs.quiet
  · rintro _ _ ⟨⟩
    exact follows_setGlobal fits name holds
  · intro stop machine impossible
    cases impossible

/-- A new instance has no fields. -/
theorem runs_newInstance (fits : start.Fits setting) (ofClass : Class) :
    (quiet (Step.newInstance ofClass)).Runs setting start fun created finish =>
      created.ofClass = ofClass ∧ finish.layout = start.layout := by
  apply Runs.quiet
  · rintro _ _ ⟨⟩
    have noFields : ∀ (id : Nat) (table : Table Value) (name : String) (value : Value),
        (start.machine.fields.push ∅)[id]? = some table → table[name]? = some value →
          value.Fits setting start.layout := by
      intro id table name value here found
      rw [Array.getElem?_push] at here
      split at here
      · cases here
        simp at found
      · exact fits.fields id table name value here found
    rcases follows_quiet fits { start.machine with fields := start.machine.fields.push ∅ }
      rfl rfl fits.globals noFields with ⟨follows, same⟩
    exact ⟨follows, rfl, same⟩
  · intro stop machine impossible
    cases impossible

theorem runs_field? (fits : start.Fits setting) (target : Instance) (name : String) :
    (quiet (Step.field? target name)).Runs setting start fun value? finish =>
      finish = start ∧ ∀ value ∈ value?, value.Fits setting start.layout := by
  have looked := Step.field?_eq target name start.machine
  apply Runs.quiet
  · intro value? machine taken
    rw [looked] at taken
    cases taken
    refine ⟨.refl fits, rfl, ?_⟩
    intro value found
    rcases Option.bind_eq_some_iff.mp found with ⟨table, here, inTable⟩
    exact fits.fields target.id table name value here inTable
  · intro stop machine taken
    rw [looked] at taken
    cases taken

theorem runs_setField (fits : start.Fits setting) (target : Instance) (name : String)
    {value : Value} (valueFits : value.Fits setting start.layout) :
    (quiet (Step.setField target name value)).Runs setting start (SameLayout start) := by
  apply Runs.quiet
  · rintro _ _ ⟨⟩
    refine follows_quiet fits
      { start.machine with fields := start.machine.fields.modify target.id (·.insert name value) }
      rfl rfl fits.globals ?_
    intro id table other found here inTable
    rw [Array.getElem?_modify] at here
    split at here
    · rcases Option.map_eq_some_iff.mp here with ⟨before, wasHere, rfl⟩
      rw [Std.TreeMap.getElem?_insert] at inTable
      split at inTable
      · cases inTable
        exact valueFits
      · exact fits.fields id before other found wasHere inTable
    · exact fits.fields id table other found here inTable
  · intro stop machine impossible
    cases impossible

/-! ## Frames and slots -/

/-- Slots for locals are in a frame of their own. -/
theorem runs_newFrame (fits : start.Fits setting) {enclosing : FrameId}
    (chain : start.layout.Chain scopes enclosing) {locals : List Local} {values : List Value}
    (hold : List.Forall₂ (fun declared value =>
      Slot.Fits setting start.layout declared (.initialised value)) locals values) :
    (newFrame enclosing locals values).Runs setting start fun frame finish =>
      frame = start.layout.size ∧ finish.layout = start.layout.add enclosing locals ∧
        finish.layout.Chain (locals :: scopes) frame := by
  have after := follows_addFrame
    (start.next (Event.creations start.machine.frames.size 0 locals)
      { start.machine with frames := _ }) fits enclosing hold rfl rfl rfl rfl rfl
  have added := chain.add fits.root_isFrame locals
  rw [← after.2] at added
  exact ⟨Event.allSound_creations _ _ _ _, after.1, rfl, after.2, added⟩

/-- Declaring a local of the innermost scope creates its slot in the current frame. -/
theorem runs_newSlot (fits : start.Fits setting) (stands : start.Stands setting around scopes)
    (inner : scopes ≠ []) {declared : Local} {slot : Slot Value}
    (holds : ∀ layout, layout = start.layout.extend start.machine.current declared →
      Slot.Fits setting layout declared slot) :
    (newSlot declared slot).Runs setting start fun index finish =>
      index = (start.layout.row start.machine.current).length ∧
        finish.layout = start.layout.extend start.machine.current declared := by
  have notRoot : start.machine.current ≠ Machine.root :=
    fun same => inner (stands.chain.eq_root_iff.mp same)
  have after := follows_addSlot
    (start.next [.creates declared start.machine.current
        (start.machine.frames.length start.machine.current)]
      { start.machine with frames := start.machine.frames.append start.machine.current slot })
    fits notRoot stands.chain.lt_size holds rfl rfl rfl rfl rfl
  refine ⟨⟨⟨?_, ?_, ?_⟩, trivial⟩, after.1, fits.length_slots _, after.2⟩
  · intro id machine impossible
    cases impossible
  · intro use machine impossible
    cases impossible
  · intro inside machine impossible
    cases impossible

/-- A variable of the innermost scope gets a value. -/
theorem runs_setSlot (fits : start.Fits setting) {index : Nat} {value : Value}
    (valueFits : value.Fits setting start.layout)
    (named : ∀ declared, (start.layout.row start.machine.current)[index]? = some declared →
      ∃ name, declared = .named name) :
    (quiet (Step.setSlot index value)).Runs setting start (SameLayout start) := by
  have admitted : ∀ declared,
      (start.layout.row start.machine.current)[index]? = some declared →
        setting.Plain → declared.Admits (.initialised value) := by
    intro declared here _
    rcases named declared here with ⟨name, rfl⟩
    trivial
  apply Runs.quiet
  · rintro _ _ ⟨⟩
    exact follows_write _ fits valueFits admitted rfl rfl rfl rfl rfl
  · intro stop machine impossible
    cases impossible

end

end Watched

end Lox
