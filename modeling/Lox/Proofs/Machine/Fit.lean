import Lox.Proofs.Machine.Layout
import Lox.Proofs.Machine.Watch
import Lox.Proofs.Scope.Address
import Lox.Proofs.Tree.Identity

/-!
# Values and machines that fit the programs they come from

A function keeps a frame.  It fits if the frames from there up to the root are those
of the scopes around the function in its program.  `Moment.Fits` is the invariant of
every execution: all values that a machine holds fit, and what has happened so far
tells what each slot of each frame is for.
-/

namespace Lox

/-! ## Programs -/

/-- What is known about the programs that have been read. -/
structure Setting where
  /-- The names that stand in them. -/
  names : String → Prop
  /-- The uses of variables in them. -/
  occurrences : List Occurrence
  /-- The places of variables that have been recorded. -/
  addresses : AddressTable

namespace Setting

/-- No name is spelt like `this` or `super`. -/
def Plain (setting : Setting) : Prop :=
  ∀ name, setting.names name → name ≠ Local.this.text ∧ name ≠ Local.super.text

/-- No two uses have the same id, and what is recorded of a use is its address. -/
structure Sound (setting : Setting) : Prop where
  distinct : (setting.occurrences.map Occurrence.id).Nodup
  recorded : ∀ occurrence ∈ setting.occurrences, ∀ address,
    setting.addresses[occurrence.id]? = some address → occurrence.address? = some address

/-- More programs have been read. -/
structure Le (before after : Setting) : Prop where
  names : before.names = after.names
  occurrences : before.occurrences ⊆ after.occurrences

end Setting

/-- All of these locals have names, and the names are among some. -/
def Local.AreNamed (names : String → Prop) (locals : List Local) : Prop :=
  ∀ declared ∈ locals, ∃ name, declared = .named name ∧ names name.text

theorem Local.areNamed_nil {names : String → Prop} : Local.AreNamed names [] :=
  fun _ impossible => by cases impossible

theorem Local.areNamed_singleton {names : String → Prop} {name : Name} (isName : names name.text) :
    Local.AreNamed names [.named name] := by
  intro declared member
  rw [List.mem_singleton.mp member]
  exact ⟨name, rfl, isName⟩

theorem Local.areNamed_parameters {names : String → Prop} {parameters : List Name}
    (proper : ∀ name ∈ parameters, names name.text) :
    Local.AreNamed names (parameters.map Local.named) := by
  intro declared member
  rcases List.mem_map.mp member with ⟨name, isParameter, rfl⟩
  exact ⟨name, rfl, proper name isParameter⟩

/-- A statement declares names only. -/
theorem Stmt.areNamed_locals {names : String → Prop} (statement : Stmt)
    (proper : statement.IsProper names) : Local.AreNamed names statement.locals := by
  cases statement with
  | varDecl name initial =>
    cases initial with
    | none => exact Local.areNamed_singleton proper
    | some => exact Local.areNamed_singleton proper.1
  | funDecl function =>
    rcases function with ⟨name, definition⟩
    exact Local.areNamed_singleton proper.1
  | classDecl => exact Local.areNamed_singleton proper.1
  | ifElse condition whenTrue whenFalse =>
    cases whenFalse with
    | none =>
      rw [Stmt.locals, proper.2.2]
      exact Local.areNamed_nil
    | some =>
      rw [Stmt.locals, proper.2.1.2, proper.2.2.2]
      exact Local.areNamed_nil
  | whileLoop =>
    rw [Stmt.locals, proper.2.2]
    exact Local.areNamed_nil
  | _ => exact Local.areNamed_nil

/--
Around a place where `super` may stand lie, behind scopes of names, one for `this` and
then one for `super`.
-/
def Surroundings.Fits (around : Surroundings) (names : String → Prop) (scopes : Scopes) : Prop :=
  around.allowsSuper → ∃ inner outer, scopes = inner ++ [.this] :: [.super] :: outer ∧
    ∀ scope ∈ inner, Local.AreNamed names scope

namespace Surroundings.Fits

variable {around : Surroundings} {names : String → Prop} {scopes : Scopes} {scope : List Local}

/-- A scope of names may be opened. -/
theorem cons (fits : around.Fits names scopes) (named : Local.AreNamed names scope) :
    around.Fits names (scope :: scopes) := by
  intro allows
  rcases fits allows with ⟨inner, outer, rfl, innerNamed⟩
  exact ⟨scope :: inner, outer, rfl, List.forall_mem_cons.mpr ⟨named, innerNamed⟩⟩

/-- Names may be declared in a scope of names. -/
theorem declare (fits : around.Fits names (scope :: scopes))
    (before : Local.AreNamed names scope) {locals : List Local}
    (named : Local.AreNamed names locals) :
    around.Fits names ((scope ++ locals) :: scopes) := by
  intro allows
  rcases fits allows with ⟨inner, outer, same, innerNamed⟩
  cases inner with
  | nil =>
    cases same
    rcases before .this List.mem_cons_self with ⟨name, impossible, -⟩
    cases impossible
  | cons first others =>
    cases same
    rw [List.forall_mem_cons] at innerNamed
    refine ⟨(scope ++ locals) :: others, outer, rfl, ?_⟩
    rw [List.forall_mem_cons]
    exact ⟨List.forall_mem_append.mpr ⟨before, named⟩, innerNamed.2⟩

/-- Where `super` may stand, it means the local of the scope behind that of `this`. -/
theorem exists_locate? (fits : around.Fits names scopes) (allows : around.allowsSuper)
    (plain : ∀ name, names name → name ≠ Local.this.text ∧ name ≠ Local.super.text) :
    ∃ depth, scopes[depth]? = some [.this] ∧ scopes[depth + 1]? = some [.super] ∧
      locate? Local.this.text scopes.names = some ⟨depth, 0⟩ ∧
      locate? Local.super.text scopes.names = some ⟨depth + 1, 0⟩ := by
  rcases fits allows with ⟨inner, outer, rfl, named⟩
  have isName : ∀ texts ∈ Scopes.names inner, ∀ text ∈ texts,
      text ≠ Local.this.text ∧ text ≠ Local.super.text := by
    intro texts isScope text isText
    rcases List.mem_map.mp isScope with ⟨scope, member, rfl⟩
    rcases List.mem_map.mp isText with ⟨declared, inScope, rfl⟩
    rcases named scope member declared inScope with ⟨name, rfl, isName⟩
    exact plain name.text isName
  have length : (Scopes.names inner).length = inner.length := List.length_map _
  refine ⟨inner.length, ?_, ?_, ?_, ?_⟩
  · simp
  · simp
  · have behind := locate?_behind Local.this.text (Scopes.names inner)
      (Scopes.names ([.super] :: outer))
      fun texts isScope isText => (isName texts isScope _ isText).1 rfl
    rw [length] at behind
    simpa [Scopes.names] using behind
  · have absent : ∀ texts ∈ Scopes.names inner ++ [[Local.this.text]],
        Local.super.text ∉ texts := by
      intro texts isScope isText
      rcases List.mem_append.mp isScope with inInner | isThis
      · exact (isName texts inInner _ isText).2 rfl
      · rw [List.mem_singleton.mp isThis] at isText
        exact absurd (List.mem_singleton.mp isText) (by decide)
    have behind := locate?_behind Local.super.text _ (Scopes.names outer) absent
    rw [List.length_append, length, List.append_assoc] at behind
    simpa [Scopes.names] using behind

end Surroundings.Fits

/-- A function may stand at a place of a program that has been read. -/
structure Function.Fits (setting : Setting) (around : Surroundings) (scopes : Scopes)
    (definition : Function) : Prop where
  known : definition.occurrences around scopes ⊆ setting.occurrences
  proper : definition.IsProper setting.names
  around : around.Fits setting.names scopes

/-! ## Values -/

section

variable (setting : Setting) (layout : Layout Local)

/--
The frame that a function keeps is that of the scopes around it, but for scopes that
are added when it is bound.
-/
def Closure.Fits (added : Scopes) (closure : Closure) : Prop :=
  ∃ around scopes, layout.Chain scopes closure.environment ∧
    ∀ definition isInitializer, closure.behaviour = .body definition isInitializer →
      definition.Fits setting around (added ++ scopes)

/-- Binding an instance method adds a scope for `this`. -/
structure ClassBody.Fits (body : ClassBody) : Prop where
  methods : ∀ (name : String) (method : Closure), body.methods[name]? = some method →
    method.Fits setting layout [[.this]]
  classMethods : ∀ (name : String) (method : Closure), body.classMethods[name]? = some method →
    method.Fits setting layout []

/-- All declarations of a class fit, also those that it inherits. -/
def Class.Fits (type : Class) : Prop :=
  ∀ body ∈ type.own :: type.inherited, body.Fits setting layout

/-- The functions in a value fit. -/
def Value.Fits : Value → Prop
  | .function closure => closure.Fits setting layout []
  | .type ofClass => ofClass.Fits setting layout
  | .object target => target.ofClass.Fits setting layout
  | _ => True

end

/-- What a slot may hold because of what it is for. -/
def Local.Admits : Local → Slot Value → Prop
  | named _, _ => True
  | this, slot => ∃ target, slot = .initialised (.object target)
  | super, slot => ∃ superclass, slot = .initialised (.type superclass)

/-- A slot holds what it is for, and the value fits. -/
structure Slot.Fits (setting : Setting) (layout : Layout Local) (declared : Local)
    (slot : Slot Value) : Prop where
  value : ∀ value, slot = .initialised value → value.Fits setting layout
  admitted : setting.Plain → declared.Admits slot

section

variable {setting : Setting} {layout : Layout Local}

theorem Slot.Fits.uninitialised (name : Name) :
    Slot.Fits setting layout (.named name) .uninitialised := by
  constructor
  · intro value impossible
    cases impossible
  · exact fun _ => trivial

theorem Slot.Fits.named (name : Name) {value : Value} (fits : value.Fits setting layout) :
    Slot.Fits setting layout (.named name) (.initialised value) := by
  constructor
  · rintro other ⟨⟩
    exact fits
  · exact fun _ => trivial

/-- A constant has no functions. -/
theorem Value.fits_ofLiteral (literal : Literal) : (Value.ofLiteral literal).Fits setting layout := by
  cases literal <;> trivial

/-- The method that a class finds is one of a class that it extends. -/
theorem Class.Fits.method? {type : Class} (fits : type.Fits setting layout) {name : String}
    {method : Closure} (found : type.method? name = some method) :
    method.Fits setting layout [[.this]] := by
  rcases List.exists_of_findSome?_eq_some found with ⟨body, member, here⟩
  exact (fits body member).methods name method here

theorem Class.Fits.classMethod? {type : Class} (fits : type.Fits setting layout) {name : String}
    {method : Closure} (found : type.classMethod? name = some method) :
    method.Fits setting layout [] := by
  rcases List.exists_of_findSome?_eq_some found with ⟨body, member, here⟩
  exact (fits body member).classMethods name method here

/-- A class fits if what it declares itself does and the class that it extends. -/
theorem Class.fits_extending {own : ClassBody} (fits : own.Fits setting layout)
    {superclass : Option Class} (inherited : ∀ type ∈ superclass, type.Fits setting layout) :
    (Class.extending own superclass).Fits setting layout := by
  cases superclass with
  | none =>
    intro body member
    rw [List.mem_singleton.mp member]
    exact fits
  | some type => exact List.forall_mem_cons.mpr ⟨fits, inherited type rfl⟩

end

/-! ## More programs and more frames -/

section

variable {setting setting' : Setting} {layout later : Layout Local}

theorem Function.Fits.mono {around : Surroundings} {scopes : Scopes} {definition : Function}
    (fits : definition.Fits setting around scopes) (ordered : setting.Le setting') :
    definition.Fits setting' around scopes := by
  rcases fits with ⟨known, proper, around⟩
  rw [ordered.names] at proper around
  exact ⟨List.Subset.trans known ordered.occurrences, proper, around⟩

variable (read : setting.Le setting') (grown : layout.Le later)
include read grown

theorem Closure.Fits.mono {added : Scopes} {closure : Closure}
    (fits : closure.Fits setting layout added) : closure.Fits setting' later added := by
  rcases fits with ⟨around, scopes, chain, body⟩
  refine ⟨around, scopes, chain.mono grown, ?_⟩
  intro definition isInitializer behaves
  exact (body definition isInitializer behaves).mono read

theorem Class.Fits.mono {type : Class} (fits : type.Fits setting layout) :
    type.Fits setting' later := by
  intro body member
  constructor
  · exact fun name method found => ((fits body member).methods name method found).mono read grown
  · exact fun name method found =>
      ((fits body member).classMethods name method found).mono read grown

theorem Value.Fits.mono {value : Value} (fits : value.Fits setting layout) :
    value.Fits setting' later := by
  cases value with
  | function closure => exact Closure.Fits.mono read grown fits
  | type ofClass => exact Class.Fits.mono read grown fits
  | object target => exact Class.Fits.mono read grown fits
  | _ => trivial

theorem Slot.Fits.mono {declared : Local} {slot : Slot Value}
    (fits : Slot.Fits setting layout declared slot) :
    Slot.Fits setting' later declared slot := by
  constructor
  · exact fun value holds => (fits.value value holds).mono read grown
  · intro plain
    apply fits.admitted
    intro name isName
    exact plain name (read.names ▸ isName)

end

theorem Setting.Le.refl (setting : Setting) : setting.Le setting :=
  ⟨rfl, List.Subset.refl _⟩

/-! ## Moments of an execution -/

/-- What has happened so far, and the machine. -/
structure Moment where
  history : List Event
  machine : Machine

namespace Event

/-- What the slots of a frame were created for. -/
def row (history : List Event) (frame : FrameId) : List Local :=
  history.filterMap (created? frame)

@[simp]
theorem row_append (history events : List Event) (frame : FrameId) :
    row (history ++ events) frame = row history frame ++ row events frame := by
  simp [row]

theorem row_creations_self (frame : FrameId) (slot : Nat) (locals : List Local) :
    row (creations frame slot locals) frame = locals := by
  induction locals generalizing slot with
  | nil => rfl
  | cons declared others induction =>
    have rest := induction (slot + 1)
    simp only [row] at rest
    simp [row, creations, created?, rest]

theorem row_creations_of_ne {frame other : FrameId} (different : frame ≠ other) (slot : Nat)
    (locals : List Local) : row (creations frame slot locals) other = [] := by
  induction locals generalizing slot with
  | nil => rfl
  | cons declared others induction =>
    have rest := induction (slot + 1)
    simp only [row] at rest
    simp [row, creations, created?, different, rest]

theorem mem_creations {locals : List Local} {index : Nat} {declared : Local}
    (here : locals[index]? = some declared) (frame : FrameId) (slot : Nat) :
    creates declared frame (slot + index) ∈ creations frame slot locals := by
  induction locals generalizing slot index with
  | nil => cases here
  | cons first others induction =>
    cases index with
    | zero =>
      cases here
      exact List.mem_cons_self
    | succ index =>
      have later := induction (by simpa using here) (slot + 1)
      rw [Nat.add_right_comm] at later
      exact List.mem_cons_of_mem _ later

end Event

namespace Moment

/-- The frames of a machine, and what happened tells what their slots are for. -/
def layout (moment : Moment) : Layout Local where
  size := moment.machine.frames.size
  enclosing := moment.machine.frames.enclosing?
  row := Event.row moment.history

/-- Events happen and lead to another machine. -/
def next (moment : Moment) (events : List Event) (machine : Machine) : Moment :=
  ⟨moment.history ++ events, machine⟩

theorem next_nil (moment : Moment) (machine : Machine) :
    moment.next [] machine = ⟨moment.history, machine⟩ := by
  simp [next]

theorem next_next (moment : Moment) (first second : List Event) (middle machine : Machine) :
    (moment.next first middle).next second machine = moment.next (first ++ second) machine := by
  simp [next]

/-- Something happens that creates no slot. -/
theorem layout_next_of_created {event : Event} (created : ∀ frame, event.created? frame = none)
    (moment : Moment) : (moment.next [event] moment.machine).layout = moment.layout := by
  have rows : Event.row (moment.history ++ [event]) = Event.row moment.history := by
    funext frame
    simp [Event.row, created]
  exact congrArg (Layout.mk _ _) rows

/-- What holds at every moment of every execution. -/
structure Fits (setting : Setting) (moment : Moment) : Prop where
  root_isFrame : Machine.root < moment.machine.frames.size
  root_row : moment.layout.row Machine.root = []
  /-- There is a slot for each declaration that was executed in a frame. -/
  slots : ∀ frame, List.Forall₂ (Slot.Fits setting moment.layout) (moment.layout.row frame)
    (moment.machine.frames.slots frame).toList
  created : ∀ frame slot declared, (moment.layout.row frame)[slot]? = some declared →
    .creates declared frame slot ∈ moment.history
  globals : ∀ (name : String) (value : Value),
    moment.machine.globals[name]? = some (.initialised value) →
      value.Fits setting moment.layout
  fields : ∀ (id : Nat) (table : Table Value) (name : String) (value : Value),
    moment.machine.fields[id]? = some table → table[name]? = some value →
      value.Fits setting moment.layout

namespace Fits

variable {setting setting' : Setting} {moment : Moment}

theorem length_slots (fits : moment.Fits setting) (frame : FrameId) :
    moment.machine.frames.length frame = (moment.layout.row frame).length := by
  have lengths := (fits.slots frame).length_eq
  rw [lengths]
  rfl

/-- A frame that does not exist yet has no slots. -/
theorem row_eq_nil (fits : moment.Fits setting) {frame : FrameId}
    (beyond : moment.layout.size ≤ frame) : moment.layout.row frame = [] := by
  have empty := fits.slots frame
  rw [Frames.slots_eq_empty _ beyond] at empty
  cases empty' : moment.layout.row frame with
  | nil => rfl
  | cons => rw [empty'] at empty; cases empty

/-- A slot that exists holds what it is for. -/
theorem slot (fits : moment.Fits setting) {frame : FrameId} {index : Nat} {declared : Local}
    (here : (moment.layout.row frame)[index]? = some declared) :
    ∃ slot, (moment.machine.frames.slots frame)[index]? = some slot ∧
      Slot.Fits setting moment.layout declared slot := by
  rcases List.getElem?_eq_some_iff.mp here with ⟨inside, same⟩
  have longer : index < (moment.machine.frames.slots frame).toList.length := by
    rw [← (fits.slots frame).length_eq]
    exact inside
  have holds := (fits.slots frame).get inside longer
  refine ⟨(moment.machine.frames.slots frame)[index], ?_, ?_⟩
  · exact Array.getElem?_eq_getElem (by simpa using longer)
  · simpa [same] using holds

/-- The value of a slot fits. -/
theorem value (fits : moment.Fits setting) {frame : FrameId} {index : Nat} {value : Value}
    (here : (moment.machine.frames.slots frame)[index]? = some (.initialised value)) :
    value.Fits setting moment.layout := by
  rcases Array.getElem?_eq_some_iff.mp here with ⟨inside, same⟩
  have shorter : index < (moment.layout.row frame).length := by
    rw [(fits.slots frame).length_eq]
    simpa using inside
  rcases fits.slot (List.getElem?_eq_getElem shorter) with ⟨slot, found, holds⟩
  rw [here] at found
  cases found
  exact holds.value value rfl

/-- A value that is found at an address fits. -/
theorem get? (fits : moment.Fits setting) {frame : FrameId} {depth index : Nat} {value : Value}
    (here : moment.machine.frames.get? frame depth index = some (.initialised value)) :
    value.Fits setting moment.layout := by
  simp only [Frames.get?] at here
  split at here
  · exact fits.value here
  · cases here

theorem mono (fits : moment.Fits setting) (read : setting.Le setting') :
    moment.Fits setting' := by
  have same := Layout.Le.refl moment.layout
  constructor
  · exact fits.root_isFrame
  · exact fits.root_row
  · exact fun frame => (fits.slots frame).imp fun _ _ holds => holds.mono read same
  · exact fits.created
  · exact fun name value found => (fits.globals name value found).mono read same
  · exact fun id table name value here found =>
      (fits.fields id table name value here found).mono read same

/-- More frames and slots do no harm if the new slots hold what they are for. -/
theorem grow (fits : moment.Fits setting) {finish : Moment}
    (ordered : moment.layout.Le finish.layout)
    (root_row : finish.layout.row Machine.root = [])
    (slots : ∀ frame, List.Forall₂ (Slot.Fits setting finish.layout) (finish.layout.row frame)
      (finish.machine.frames.slots frame).toList)
    (created : ∀ frame slot declared, (finish.layout.row frame)[slot]? = some declared →
      .creates declared frame slot ∈ finish.history)
    (globals : finish.machine.globals = moment.machine.globals)
    (fields : finish.machine.fields = moment.machine.fields) : finish.Fits setting := by
  have read := Setting.Le.refl setting
  constructor
  · exact Nat.lt_of_lt_of_le fits.root_isFrame ordered.size
  · exact root_row
  · exact slots
  · exact created
  · intro name value found
    rw [globals] at found
    exact (fits.globals name value found).mono read ordered
  · intro id table name value here found
    rw [fields] at here
    exact (fits.fields id table name value here found).mono read ordered

/-- Neither the current frame nor the time matters. -/
theorem congr (fits : moment.Fits setting) {machine : Machine}
    (frames : machine.frames = moment.machine.frames)
    (globals : machine.globals = moment.machine.globals)
    (fields : machine.fields = moment.machine.fields) :
    Moment.Fits setting ⟨moment.history, machine⟩ := by
  rcases moment with ⟨history, before⟩
  rcases machine with ⟨_, _, _, _, _, _, _⟩
  cases frames
  cases globals
  cases fields
  exact ⟨fits.root_isFrame, fits.root_row, fits.slots, fits.created, fits.globals, fits.fields⟩

/-- Events that create no slots change nothing. -/
theorem next (fits : moment.Fits setting) {events : List Event} {machine : Machine}
    (same : (moment.next events machine).layout = moment.layout)
    (still : machine = moment.machine) : (moment.next events machine).Fits setting := by
  subst still
  have ordered : moment.layout.Le (moment.next events moment.machine).layout := by
    rw [same]
    exact .refl _
  apply fits.grow ordered
  · rw [same]
    exact fits.root_row
  · rw [same]
    exact fits.slots
  · intro frame slot declared here
    rw [same] at here
    exact List.mem_append_left _ (fits.created frame slot declared here)
  · rfl
  · rfl

end Fits

end Moment

end Lox
