import Lox.Proofs.Lexical.Evaluation
import Lox.Proofs.Lexical.Simulation
import Lox.Proofs.Machine.Variables

/-!
# Operations that do the same

One statement for each operation of the two machines: it does the same on both, and
this is what its results are and what becomes of the layout.
-/

namespace Lox

open Lexical (Environment)

namespace Simulates

variable {setting : Setting} {around : Surroundings} {places : Places} {start : Pairing}

/-- Values that match, and no slot was added to a frame that existed. -/
def Yields (setting : Setting) (start : Pairing) (value : Value) (value' : Value Environment)
    (finish : Pairing) : Prop :=
  value.Matches setting finish.layout value' ∧ start.layout.Still finish.layout

/-- Nothing is known of the results, and the layout is the same. -/
def SameLayout (start : Pairing) {α β : Type} (_ : α) (_ : β) (finish : Pairing) : Prop :=
  finish.layout = start.layout

/-! ## Operations that leave frames alone -/

/-- The machines change, but neither frames nor cells nor what runs. -/
theorem leads_quiet (fits : start.Fits setting) {machine : Machine} {reference : Lexical.Machine}
    (frames : machine.frames = start.machine.frames)
    (current : machine.current = start.machine.current)
    (cells : reference.cells = start.reference.cells)
    (agrees : machine.Agrees setting start.layout reference) :
    Leads setting start ⟨start.layout, machine, reference⟩ := by
  constructor
  · constructor
    · show machine.frames.Matches setting start.layout reference.cells
      rw [frames, cells]
      exact fits.frames
    · exact agrees
  · exact .refl _
  · exact current

theorem checkArity (fits : start.Fits setting) (line expected given : Nat) :
    Simulates setting (Step.checkArity line expected given)
      (Lexical.Step.checkArity line expected given) start
      fun _ _ finish => finish = start ∧ expected = given := by
  rw [Step.checkArity, Lexical.Step.checkArity]
  by_cases same : expected = given
  · rw [if_neg (not_not_intro same), if_neg (not_not_intro same)]
    exact .pure fits ⟨rfl, same⟩
  · rw [if_pos same, if_pos same]
    exact .fail line _ fits

theorem print (fits : start.Fits setting) (text : String) :
    Simulates setting (Step.print text) (Lexical.Step.print text) start (SameLayout start) := by
  have agrees : Machine.Agrees setting start.layout
      { start.machine with printed := start.machine.printed.push text }
      { start.reference with printed := start.reference.printed.push text } := by
    rcases fits.agrees with ⟨globals, size, fields, nextId, printed, clock⟩
    exact ⟨globals, size, fields, nextId, congrArg (·.push text) printed, clock⟩
  exact .of_ok ⟨start.layout, _, _⟩ rfl rfl (leads_quiet fits rfl rfl rfl agrees) rfl

theorem freshId (fits : start.Fits setting) :
    Simulates setting Step.freshId Lexical.Step.freshId start
      fun id id' finish => id = id' ∧ finish.layout = start.layout := by
  have agrees : Machine.Agrees setting start.layout
      { start.machine with nextId := start.machine.nextId + 1 }
      { start.reference with nextId := start.reference.nextId + 1 } := by
    rcases fits.agrees with ⟨globals, size, fields, nextId, printed, clock⟩
    exact ⟨globals, size, fields, congrArg (· + 1) nextId, printed, clock⟩
  exact .of_ok ⟨start.layout, _, _⟩ rfl rfl (leads_quiet fits rfl rfl rfl agrees)
    ⟨fits.agrees.nextId, rfl⟩

/-- A function is made; what it does and what it keeps is given. -/
theorem newClosure (fits : start.Fits setting) (name : String) {added : Scopes}
    {behaviour : Behaviour} {frame : FrameId} {environment : Environment}
    (keeps : Keeps setting start.layout added behaviour frame environment) :
    Simulates setting (Step.newClosure frame name behaviour)
      (Lexical.Step.newClosure environment name behaviour) start
      fun closure closure' finish => closure.Matches setting finish.layout added closure' ∧
        closure.behaviour = behaviour ∧ finish.layout = start.layout := by
  apply (freshId fits).bind
  rintro id id' finish leads ⟨rfl, layout⟩
  refine .pure leads.fits ⟨⟨rfl, rfl, rfl, ?_⟩, rfl, layout⟩
  rw [layout]
  exact keeps

theorem setGlobal (fits : start.Fits setting) (name : String) {slot : Slot Value}
    {slot' : Slot (Value Environment)} (same : slot.Matches setting start.layout slot') :
    Simulates setting (Step.setGlobal name slot) (Lexical.Step.setGlobal name slot') start
      (SameLayout start) := by
  have agrees : Machine.Agrees setting start.layout
      { start.machine with globals := start.machine.globals.insert name slot }
      { start.reference with globals := start.reference.globals.insert name slot' } := by
    rcases fits.agrees with ⟨globals, size, fields, nextId, printed, clock⟩
    exact ⟨globals.insert name same, size, fields, nextId, printed, clock⟩
  exact .of_ok ⟨start.layout, _, _⟩ rfl rfl (leads_quiet fits rfl rfl rfl agrees) rfl

/-- A new instance has no fields. -/
theorem newInstance (fits : start.Fits setting) (ofClass : Class) (ofClass' : Class Environment) :
    Simulates setting (Step.newInstance ofClass) (Lexical.Step.newInstance ofClass') start
      fun created created' finish => created.id = created'.id ∧ created.ofClass = ofClass ∧
        created'.ofClass = ofClass' ∧ finish.layout = start.layout := by
  have agrees : Machine.Agrees setting start.layout
      { start.machine with fields := start.machine.fields.push ∅ }
      { start.reference with fields := start.reference.fields.push ∅ } := by
    rcases fits.agrees with ⟨globals, size, fields, nextId, printed, clock⟩
    refine ⟨globals, ?_, ?_, nextId, printed, clock⟩
    · rw [Array.size_push, Array.size_push, size]
    · intro id
      rw [Array.getElem?_push, Array.getElem?_push, size]
      split
      · exact .some (Table.related_empty _)
      · exact fields id
  exact .of_ok ⟨start.layout, _, _⟩ rfl rfl (leads_quiet fits rfl rfl rfl agrees)
    ⟨fits.agrees.fields_size, rfl, rfl, rfl⟩

theorem field? (fits : start.Fits setting) {target : Instance} {target' : Instance Environment}
    (same : target.id = target'.id) (name : String) :
    Simulates setting (Step.field? target name) (Lexical.Step.field? target' name) start
      fun value? value?' finish => finish = start ∧
        Option.Rel (Value.Matches setting start.layout) value? value?' := by
  have left := Step.field?_eq target name start.machine
  have right : Lexical.Step.field? target' name start.reference =
      .ok (start.reference.fields[target'.id]?.bind (·[name]?)) start.reference := by
    rw [Lexical.Step.field?, Step.get_bind]
    cases start.reference.fields[target'.id]? <;> rfl
  apply of_ok start left right (.refl fits)
  refine ⟨rfl, ?_⟩
  rw [same]
  have tables := fits.agrees.fields target'.id
  revert tables
  generalize start.machine.fields[target'.id]? = table
  generalize start.reference.fields[target'.id]? = table'
  rintro (table | _)
  · exact table name
  · exact .none

theorem setField (fits : start.Fits setting) {target : Instance} {target' : Instance Environment}
    (sameTarget : target.id = target'.id) (name : String) {value : Value}
    {value' : Value Environment} (same : value.Matches setting start.layout value') :
    Simulates setting (Step.setField target name value) (Lexical.Step.setField target' name value')
      start (SameLayout start) := by
  have agrees : Machine.Agrees setting start.layout
      { start.machine with
        fields := start.machine.fields.modify target.id (·.insert name value) }
      { start.reference with
        fields := start.reference.fields.modify target'.id (·.insert name value') } := by
    rcases fits.agrees with ⟨globals, size, fields, nextId, printed, clock⟩
    refine ⟨globals, ?_, ?_, nextId, printed, clock⟩
    · rw [Array.size_modify, Array.size_modify, size]
    · intro id
      rw [Array.getElem?_modify, Array.getElem?_modify, sameTarget]
      have tables := fields id
      split
      · revert tables
        generalize start.machine.fields[id]? = table
        generalize start.reference.fields[id]? = table'
        rintro (table | _)
        · exact .some (table.insert name same)
        · exact .none
      · exact tables
  exact .of_ok ⟨start.layout, _, _⟩ rfl rfl (leads_quiet fits rfl rfl rfl agrees) rfl

/-! ## Frames and cells -/

/-- Frames and cells change, but nothing else. -/
theorem leads_frames (fits : start.Fits setting) {layout : Layout Placed} {frames : Frames Value}
    {cells : Array (Slot (Value Environment))} (ordered : start.layout.Le layout)
    (same : frames.Matches setting layout cells) :
    Leads setting start ⟨layout, { start.machine with frames := frames },
      { start.reference with cells := cells }⟩ := by
  constructor
  · constructor
    · exact same
    · rcases fits.agrees.mono (.refl setting) ordered with
        ⟨globals, size, fields, nextId, printed, clock⟩
      exact ⟨globals, size, fields, nextId, printed, clock⟩
  · exact ordered
  · rfl

/-- Declaring names with values makes cells for them. -/
theorem declareAll_eq (environment : Environment) {names : List Name}
    {values : List (Value Environment)} (length : names.length = values.length)
    (machine : Lexical.Machine) :
    Lexical.Step.declareAll environment names values machine =
      .ok (Places.binders ((names.map Local.named).zipIdx machine.cells.size) ++ environment)
        { machine with cells := machine.cells ++ (values.map Slot.initialised).toArray } := by
  induction names generalizing environment values machine with
  | nil =>
    cases values with
    | nil => simp [Lexical.Step.declareAll, Places.binders]; rfl
    | cons => cases length
  | cons name names induction =>
    cases values with
    | nil => cases length
    | cons value values =>
      have step : Lexical.Step.declareAll environment (name :: names) (value :: values) machine =
          Lexical.Step.declareAll ((name.text, machine.cells.size) :: environment) names values
            { machine with cells := machine.cells.push (.initialised value) } := rfl
      rw [step, induction _ (Nat.succ.inj length)]
      simp [Places.binders, Array.size_push, Local.text]

/-- A function gets a frame for its parameters. -/
theorem newParameters (fits : start.Fits setting) {enclosing : FrameId}
    (chain : start.layout.Chain places enclosing) {names : List Name} {values : List Value}
    {values' : List (Value Environment)} (length : names.length = values.length)
    (same : List.Forall₂ (Value.Matches setting start.layout) values values') :
    Simulates setting (Step.newFrame enclosing values)
      (Lexical.Step.declareAll places.environment names values') start
      fun frame environment finish => ∃ row : List Placed, row.map Prod.fst = names.map Local.named ∧
        frame = start.layout.size ∧ finish.layout = start.layout.add enclosing row ∧
        environment = Places.environment (row :: places) ∧
        finish.layout.Chain (row :: places) frame := by
  have admitted : List.Forall₂ (fun (declared : Local) value => declared.Admits (.initialised value))
      (names.map Local.named) values := by
    apply forall₂_of_getElem?
    · rw [List.length_map, length]
    · intro index declared value isName _
      rw [List.getElem?_map, Option.map_eq_some_iff] at isName
      rcases isName with ⟨name, -, rfl⟩
      trivial
  have added := fits.frames.addFrame enclosing same admitted
  have ordered := start.layout.le_add enclosing
    ((names.map Local.named).zipIdx start.reference.cells.size)
  have right := declareAll_eq places.environment (length.trans same.length_eq) start.reference
  have leads := leads_frames fits ordered added
  have left : Step.newFrame enclosing values start.machine =
      .ok start.machine.frames.size { start.machine with frames := _ } := rfl
  apply of_ok ⟨_, _, _⟩ left right leads
  refine ⟨(names.map Local.named).zipIdx start.reference.cells.size, ?_, ?_, rfl, ?_, ?_⟩
  · rw [List.zipIdx_map_fst]
  · exact fits.frames.size.symm
  · rw [Places.environment_cons]
  · rw [← fits.frames.size]
    exact chain.add fits.frames.root_isFrame _

/-- A frame for `this` or `super` is added. -/
theorem newImplicit (fits : start.Fits setting) {enclosing : FrameId}
    (chain : start.layout.Chain places enclosing) (declared : Local) {value : Value}
    {value' : Value Environment} (same : value.Matches setting start.layout value')
    (admitted : declared.Admits (.initialised value)) :
    Simulates setting (Step.newFrame enclosing [value])
      (Lexical.Step.declare places.environment declared.text (.initialised value')) start
      fun frame environment finish => ∃ cell, frame = start.layout.size ∧
        finish.layout = start.layout.add enclosing [(declared, cell)] ∧
        environment = Places.environment ([(declared, cell)] :: places) ∧
        finish.layout.Chain ([(declared, cell)] :: places) frame := by
  have added := fits.frames.addFrame enclosing (.cons same .nil) (.cons admitted .nil)
  have ordered := start.layout.le_add enclosing ([declared].zipIdx start.reference.cells.size)
  have cells : start.reference.cells ++ ([value'].map Slot.initialised).toArray =
      start.reference.cells.push (.initialised value') := by
    simp
  rw [cells] at added
  have leads := leads_frames fits ordered added
  have left : Step.newFrame enclosing [value] start.machine =
      .ok start.machine.frames.size { start.machine with frames := _ } := rfl
  have right : Lexical.Step.declare places.environment declared.text (.initialised value')
      start.reference = .ok ((declared.text, start.reference.cells.size) :: places.environment)
        { start.reference with cells := start.reference.cells.push (.initialised value') } := rfl
  apply of_ok ⟨_, _, _⟩ left right leads
  refine ⟨start.reference.cells.size, ?_, rfl, ?_, ?_⟩
  · exact fits.frames.size.symm
  · rw [Places.environment_cons]
    rfl
  · rw [← fits.frames.size]
    exact chain.add fits.frames.root_isFrame _

/-- An empty frame for the variables of a block or a body. -/
theorem newEmpty {α β : Type} (fits : start.Fits setting) {enclosing : FrameId}
    (chain : start.layout.Chain places enclosing) {next : FrameId → Step α}
    {reference : Lexical.Step β} {post : α → β → Pairing → Prop}
    (rest : ∀ middle, Leads setting start middle → middle.reference = start.reference →
      middle.layout = start.layout.add enclosing [] →
      middle.layout.Chain ([] :: places) start.layout.size →
      Simulates setting (next start.layout.size) reference middle post) :
    Simulates setting (Step.newFrame enclosing [] >>= next) reference start post := by
  have added := fits.frames.addFrame enclosing (.nil : List.Forall₂ _ [] [])
    (.nil : List.Forall₂ _ ([] : List Local) [])
  rw [List.map_nil, Array.append_empty] at added
  have ordered := start.layout.le_add enclosing []
  have leads := leads_frames fits ordered added
  have left : Step.newFrame enclosing [] start.machine = .ok start.layout.size
      { start.machine with frames := start.machine.frames.addChild enclosing } := by
    rw [fits.frames.size]
    rfl
  exact step_left ⟨_, _, _⟩ left rfl leads
    (rest _ leads rfl rfl (chain.add fits.frames.root_isFrame []))

/-- A slot and its cell are the last ones of the current frame. -/
structure AddsSlot (start : Pairing) (declared : Local) (cell index : Nat) (finish : Pairing) :
    Prop where
  layout : finish.layout = start.layout.extend start.machine.current (declared, cell)
  index : index = (start.layout.row start.machine.current).length

theorem AddsSlot.here {declared : Local} {cell index : Nat} {finish : Pairing}
    (added : AddsSlot start declared cell index finish) :
    (finish.layout.row start.machine.current)[index]? = some (declared, cell) := by
  rw [added.layout, Layout.row_extend_self, added.index,
    List.getElem?_append_right (Nat.le_refl _), Nat.sub_self]
  rfl

/-- The current frame gets a slot; the value in it may refer to the slot. -/
theorem leads_addSlot (fits : start.Fits setting) (stands : start.Stands setting around places)
    (inner : places ≠ []) (name : Name) {slot : Slot Value} {slot' : Slot (Value Environment)}
    (same : slot.Matches setting (start.layout.extend start.machine.current
      (.named name, start.reference.cells.size)) slot') :
    Leads setting start
      ⟨start.layout.extend start.machine.current (.named name, start.reference.cells.size),
        { start.machine with
          frames := start.machine.frames.append start.machine.current slot },
        { start.reference with cells := start.reference.cells.push slot' }⟩ := by
  have notRoot : start.machine.current ≠ Machine.root :=
    fun isRoot => inner (stands.chain.eq_root_iff.mp isRoot)
  have added := fits.frames.addSlot stands.chain.lt_size notRoot same trivial
  exact leads_frames fits (start.layout.le_extend _ _) added

/-- Declaring a name of the innermost scope creates its slot in the current frame. -/
theorem newSlot (fits : start.Fits setting) (stands : start.Stands setting around places)
    (inner : places ≠ []) (name : Name) :
    Simulates setting (Step.newSlot .uninitialised)
      (Lexical.Step.declare places.environment name.text .uninitialised) start
      fun index environment finish => ∃ cell, AddsSlot start (.named name) cell index finish ∧
        environment = Places.environment (places.declare [(.named name, cell)]) := by
  have leads := leads_addSlot fits stands inner name .uninitialised
  have left : Step.newSlot .uninitialised start.machine =
      .ok (start.machine.frames.length start.machine.current) { start.machine with
        frames := start.machine.frames.append start.machine.current .uninitialised } := rfl
  have right : Lexical.Step.declare places.environment name.text .uninitialised start.reference =
      .ok ((name.text, start.reference.cells.size) :: places.environment)
        { start.reference with cells := start.reference.cells.push .uninitialised } := rfl
  apply of_ok ⟨_, _, _⟩ left right leads
  refine ⟨start.reference.cells.size, ⟨rfl, (fits.frames.row_length _).symm⟩, ?_⟩
  cases places with
  | nil => exact absurd rfl inner
  | cons innermost outer =>
    exact (Places.environment_declare_singleton (.named name) _ innermost outer).symm

/-- A variable of the current frame gets a value. -/
theorem setSlot (fits : start.Fits setting) {index cell : Nat} {name : Name}
    (here : (start.layout.row start.machine.current)[index]? = some (.named name, cell))
    {value : Value} {value' : Value Environment}
    (same : value.Matches setting start.layout value') :
    Simulates setting (Step.setSlot index value) (Lexical.Step.setCell cell value') start
      (SameLayout start) := by
  have written := fits.frames.write here same trivial
  exact .of_ok ⟨_, _, _⟩ rfl rfl (leads_frames fits (.refl _) written) rfl

end Simulates

end Lox
