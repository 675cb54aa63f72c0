import Lox.Proofs.Machine.Fit
import Lox.Proofs.Scope.Address

/-!
# Steps that keep machines fit

`Watched.Runs` says of a step that whatever happens on the way agrees with the
scopes of the programs (`Event.Sound`) and that the machine fits afterwards, also
when the step fails.  Below are its laws and the steps that make and use variables.
-/

namespace Lox

/-! ## What should hold when something happens -/

/--
The frames from the current one up to the root are those of the scopes around a use:
as many, none of them the root, with a slot for each local of the scope that was
created by its declaration.  The root has no slots.
-/
structure Occurrence.Agrees (occurrence : Occurrence) (history : List Event)
    (machine : Machine) : Prop where
  root_empty : machine.frames.length Machine.root = 0
  ends : machine.frames.ancestor? machine.current occurrence.scopes.length = some Machine.root
  frames : ∀ depth scope, occurrence.scopes[depth]? = some scope →
    ∃ frame, machine.frames.ancestor? machine.current depth = some frame ∧
      frame ≠ Machine.root ∧ scope.length ≤ machine.frames.length frame ∧
      ∀ slot declared, scope[slot]? = some declared → .creates declared frame slot ∈ history

namespace Use

/-- A use fails because the variable is not there. -/
def IsUndefined (addresses : AddressTable) (use : Use) (machine : Machine) : Prop :=
  ∃ line name after,
    use.step addresses machine = .error (.fault ⟨line, .undefinedVariable name⟩) after

/-- A use of `super`. -/
def IsSuper (use : Use) : Prop :=
  ∃ id line method, use = .super id line method

end Use

/-- What should hold when an event happens. -/
structure Event.Sound (setting : Setting) (history : List Event) (event : Event) : Prop where
  agrees : ∀ id machine, event.evaluated? = some (id, machine) →
    (∃ occurrence ∈ setting.occurrences, occurrence.id = id) ∧
      ∀ occurrence ∈ setting.occurrences, occurrence.id = id → occurrence.Agrees history machine
  defined : ∀ use machine, event = .uses use machine → (use.IsSuper → setting.Plain) →
    ∀ address, setting.addresses[use.id]? = some address →
      ¬ use.IsUndefined setting.addresses machine
  inside : ∀ inside machine, event = .runs inside machine →
    (machine.current == Machine.root) = !inside

namespace Event

/-- What should hold when events happen one after the other. -/
def AllSound (setting : Setting) : (history events : List Event) → Prop
  | _, [] => True
  | history, event :: others => event.Sound setting history ∧
      AllSound setting (history ++ [event]) others

variable {setting : Setting}

theorem allSound_append {history first second : List Event}
    (before : AllSound setting history first)
    (after : AllSound setting (history ++ first) second) :
    AllSound setting history (first ++ second) := by
  induction first generalizing history with
  | nil => simpa using after
  | cons event others induction =>
    exact ⟨before.1, induction before.2 (by simpa using after)⟩

theorem AllSound.sound {history before after : List Event} {event : Event}
    (sound : AllSound setting history (before ++ event :: after)) :
    event.Sound setting (history ++ before) := by
  induction before generalizing history with
  | nil => simpa using sound.1
  | cons first others induction => simpa using induction sound.2

/-- It is always sound to create slots. -/
theorem allSound_creations (history : List Event) (frame : FrameId) (slot : Nat)
    (locals : List Local) : AllSound setting history (creations frame slot locals) := by
  induction locals generalizing history slot with
  | nil => trivial
  | cons declared others induction =>
    refine ⟨⟨?_, ?_, ?_⟩, induction _ _⟩
    · intro id machine impossible
      cases impossible
    · intro use machine impossible
      cases impossible
    · intro inside machine impossible
      cases impossible

end Event

/-! ## Steps -/

/-- One moment after another: the machine fits, frames only grow, and the same code runs. -/
structure Follows (setting : Setting) (start finish : Moment) : Prop where
  fits : finish.Fits setting
  ordered : start.layout.Le finish.layout
  current : finish.machine.current = start.machine.current

theorem Follows.refl {setting : Setting} {moment : Moment} (fits : moment.Fits setting) :
    Follows setting moment moment :=
  ⟨fits, .refl _, rfl⟩

theorem Follows.trans {setting : Setting} {first second third : Moment}
    (before : Follows setting first second) (after : Follows setting second third) :
    Follows setting first third :=
  ⟨after.fits, before.ordered.trans after.ordered, after.current.trans before.current⟩

/-- Something happens that creates no slot. -/
theorem Follows.noted {setting : Setting} {start : Moment} (fits : start.Fits setting)
    {event : Event} (created : ∀ frame, event.created? frame = none) :
    Follows setting start (start.next [event] start.machine) := by
  have same := Moment.layout_next_of_created created start
  constructor
  · exact fits.next same rfl
  · rw [same]
    exact .refl _
  · rfl

namespace Watched

variable {α β : Type}

/--
What happens in a step is sound and leads to a machine that fits; a result has a
property.
-/
def Runs (setting : Setting) (watched : Watched α) (start : Moment)
    (post : α → Moment → Prop) : Prop :=
  Event.AllSound setting start.history (watched.events start.machine) ∧
    match watched.step start.machine with
    | .ok result machine =>
      Follows setting start (start.next (watched.events start.machine) machine) ∧
        post result (start.next (watched.events start.machine) machine)
    | .error _ machine =>
      Follows setting start (start.next (watched.events start.machine) machine)

namespace Runs

variable {setting : Setting} {watched : Watched α} {next : α → Watched β} {start : Moment}
  {post post' : α → Moment → Prop}

theorem imp (runs : watched.Runs setting start post)
    (weaker : ∀ result finish, Follows setting start finish → post result finish →
      post' result finish) : watched.Runs setting start post' := by
  rcases runs with ⟨sound, ends⟩
  refine ⟨sound, ?_⟩
  revert ends
  split
  · exact fun ends => ⟨ends.1, weaker _ _ ends.1 ends.2⟩
  · exact id

theorem pure {result : α} (fits : start.Fits setting) (holds : post result start) :
    (Pure.pure result : Watched α).Runs setting start post := by
  refine ⟨trivial, ?_⟩
  show Follows setting start (start.next [] start.machine) ∧ post result (start.next [] start.machine)
  rw [Moment.next_nil]
  exact ⟨.refl fits, holds⟩

theorem bind {post' : β → Moment → Prop} (runs : watched.Runs setting start post)
    (rest : ∀ result middle, Follows setting start middle → post result middle →
      (next result).Runs setting middle post') :
    (watched >>= next).Runs setting start post' := by
  rcases runs with ⟨sound, ends⟩
  cases taken : watched.step start.machine with
  | error stop machine =>
    rcases bind_of_error next taken with ⟨step, events⟩
    rw [taken] at ends
    rw [Runs, events, step]
    exact ⟨sound, ends⟩
  | ok result machine =>
    rcases bind_of_ok next taken with ⟨step, events⟩
    rw [taken] at ends
    have further := rest result _ ends.1 ends.2
    rcases further with ⟨furtherSound, furtherEnds⟩
    rw [Runs, events, step]
    refine ⟨Event.allSound_append sound furtherSound, ?_⟩
    revert furtherEnds
    simp only [← Moment.next_next _ _ _ machine]
    show (match (next result).step machine with
      | .ok _ _ => _
      | .error _ _ => _) → _
    split
    · exact fun furtherEnds => ⟨ends.1.trans furtherEnds.1, furtherEnds.2⟩
    · exact fun furtherEnds => ends.1.trans furtherEnds

/-- A step that does at this moment what another one does. -/
theorem congr {other : Watched α} (runs : other.Runs setting start post)
    (step : watched.step start.machine = other.step start.machine)
    (events : watched.events start.machine = other.events start.machine) :
    watched.Runs setting start post := by
  rw [Runs, step, events]
  exact runs

/-- A step of which nothing is noted. -/
theorem quiet {step : Step α}
    (read : ∀ result machine, step start.machine = .ok result machine →
      Follows setting start ⟨start.history, machine⟩ ∧ post result ⟨start.history, machine⟩)
    (failed : ∀ stop machine, step start.machine = .error stop machine →
      Follows setting start ⟨start.history, machine⟩) :
    (Watched.quiet step).Runs setting start post := by
  refine ⟨trivial, ?_⟩
  show match step start.machine with
    | .ok result machine => Follows setting start (start.next [] machine) ∧
        post result (start.next [] machine)
    | .error _ machine => Follows setting start (start.next [] machine)
  simp only [Moment.next_nil]
  split
  · next taken => exact read _ _ taken
  · next taken => exact failed _ _ taken

/-- Of the parts of a step nothing is noted either. -/
theorem quiet_bind {step : Step α} {next : α → Step β} {post : β → Moment → Prop}
    (runs : (Watched.quiet step >>= fun result => Watched.quiet (next result)).Runs
      setting start post) : (Watched.quiet (step >>= next)).Runs setting start post := by
  refine runs.congr rfl ?_
  show [] = [] ++ match step start.machine with
    | .ok _ _ => []
    | .error _ _ => []
  split <;> rfl

/-- A step that only looks at the machine. -/
theorem get {next : Machine → Watched β} {post : β → Moment → Prop}
    (rest : (next start.machine).Runs setting start post) :
    (Watched.quiet EStateM.get >>= next).Runs setting start post :=
  rest

theorem inRoot {next : Bool → Watched β} {post : β → Moment → Prop}
    (rest : (next (start.machine.current == Machine.root)).Runs setting start post) :
    (Watched.quiet Step.inRoot >>= next).Runs setting start post :=
  rest

theorem fail {line : Nat} {fault : RuntimeFault} (fits : start.Fits setting) :
    (Watched.quiet (Step.fail line fault) : Watched α).Runs setting start post := by
  apply quiet
  · intro result machine impossible
    cases impossible
  · rintro stop machine ⟨⟩
    exact .refl fits

/-- A step that fails at once. -/
theorem failing (fits : start.Fits setting) {line : Nat} {fault : RuntimeFault}
    (step : watched.step start.machine = .error (.fault ⟨line, fault⟩) start.machine)
    (events : watched.events start.machine = []) : watched.Runs setting start post :=
  (fail fits : (Watched.quiet (Step.fail line fault)).Runs setting start post).congr step events

theorem outOfFuel (fits : start.Fits setting) :
    (Watched.quiet (throw .outOfFuel) : Watched α).Runs setting start post := by
  apply quiet
  · intro result machine impossible
    cases impossible
  · rintro stop machine ⟨⟩
    exact .refl fits

/-- Something is noted that creates no slot. -/
theorem note {event : Machine → Event} {next : Unit → Watched β} {post : β → Moment → Prop}
    (fits : start.Fits setting) (sound : (event start.machine).Sound setting start.history)
    (created : ∀ frame, (event start.machine).created? frame = none)
    (rest : ∀ middle, Follows setting start middle → middle.machine = start.machine →
      middle.layout = start.layout → (next ()).Runs setting middle post) :
    (Watched.note event >>= next).Runs setting start post := by
  have same := Moment.layout_next_of_created created start
  have follows := Follows.noted fits created
  have noted : (Watched.note event).Runs setting start fun _ middle =>
      middle = start.next [event start.machine] start.machine :=
    ⟨⟨sound, trivial⟩, follows, rfl⟩
  apply noted.bind
  rintro _ middle - rfl
  exact rest _ follows rfl same

end Runs

/-! ## Frames and slots -/

section

variable {setting : Setting} {start : Moment} (finish : Moment)

/-- What the slots of a frame are for when a frame was added. -/
theorem layout_addFrame (fits : start.Fits setting) (enclosing : FrameId) {locals : List Local}
    {values : List Value}
    (history : finish.history =
      start.history ++ Event.creations start.machine.frames.size 0 locals)
    (frames : finish.machine.frames =
      values.foldl (fun frames value => frames.define start.machine.frames.size value)
        (start.machine.frames.addChild enclosing)) :
    finish.layout = start.layout.add enclosing locals := by
  have rowNew : Event.row start.history start.machine.frames.size = [] :=
    fits.row_eq_nil (Nat.le_refl _)
  ext frame : 2
  · show finish.machine.frames.size = start.machine.frames.size + 1
    rw [frames, Frames.foldl_define_size, Frames.size_addChild]
  · show finish.machine.frames.enclosing? frame =
      if frame = start.machine.frames.size then _ else _
    rw [frames, Frames.foldl_define_enclosing?, Frames.enclosing?_addChild]
    rfl
  · show Event.row finish.history frame = if frame = start.machine.frames.size then _ else _
    rw [history, Event.row_append]
    by_cases same : frame = start.machine.frames.size
    · rw [if_pos same, same, rowNew, Event.row_creations_self, List.nil_append]
    · rw [if_neg same, Event.row_creations_of_ne (Ne.symm same), List.append_nil]
      rfl

/-- A machine to which a frame is added. -/
theorem follows_addFrame (fits : start.Fits setting) (enclosing : FrameId) {locals : List Local}
    {values : List Value}
    (hold : List.Forall₂ (fun declared value =>
      Slot.Fits setting start.layout declared (.initialised value)) locals values)
    (history : finish.history =
      start.history ++ Event.creations start.machine.frames.size 0 locals)
    (frames : finish.machine.frames =
      values.foldl (fun frames value => frames.define start.machine.frames.size value)
        (start.machine.frames.addChild enclosing))
    (current : finish.machine.current = start.machine.current)
    (globals : finish.machine.globals = start.machine.globals)
    (fields : finish.machine.fields = start.machine.fields) :
    Follows setting start finish ∧ finish.layout = start.layout.add enclosing locals := by
  have layout := layout_addFrame finish fits enclosing history frames
  have ordered : start.layout.Le finish.layout := by
    rw [layout]
    exact start.layout.le_add enclosing locals
  have still : ∀ frame, frame ≠ start.machine.frames.size →
      finish.layout.row frame = start.layout.row frame := by
    intro frame different
    rw [layout]
    exact if_neg different
  have row : finish.layout.row start.machine.frames.size = locals := Layout.row_of_add layout rfl
  have read := Setting.Le.refl setting
  refine ⟨⟨?_, ordered, current⟩, layout⟩
  apply fits.grow ordered
  · rw [still _ (Nat.ne_of_lt fits.root_isFrame)]
    exact fits.root_row
  · intro frame
    rw [frames]
    by_cases same : frame = start.machine.frames.size
    · rw [same, row, Frames.toList_slots_addFrame]
      exact List.forall₂_map_right_iff.mpr (hold.imp fun _ _ holds => holds.mono read ordered)
    · rw [still frame same, Frames.slots_addFrame_of_ne _ _ _ same]
      exact (fits.slots frame).imp fun _ _ holds => holds.mono read ordered
  · intro frame slot declared here
    rw [history]
    by_cases same : frame = start.machine.frames.size
    · rw [same, row] at here
      have member := Event.mem_creations here start.machine.frames.size 0
      rw [Nat.zero_add] at member
      rw [same]
      exact List.mem_append_right _ member
    · rw [still frame same] at here
      exact List.mem_append_left _ (fits.created frame slot declared here)
  · exact globals
  · exact fields

/-- What the slots of a frame are for when the current frame got a slot. -/
theorem layout_addSlot {declared : Local} {slot : Slot Value}
    (history : finish.history = start.history ++
      [.creates declared start.machine.current (start.machine.frames.length start.machine.current)])
    (frames : finish.machine.frames =
      start.machine.frames.append start.machine.current slot) :
    finish.layout = start.layout.extend start.machine.current declared := by
  ext frame : 2
  · show finish.machine.frames.size = start.machine.frames.size
    rw [frames, Frames.size_append]
  · show finish.machine.frames.enclosing? frame = start.machine.frames.enclosing? frame
    rw [frames, Frames.enclosing?_append]
  · show Event.row finish.history frame = if frame = start.machine.current then _ else _
    rw [history, Event.row_append]
    by_cases same : frame = start.machine.current
    · rw [if_pos same, same]
      simp [Event.row, Event.created?, Moment.layout]
    · rw [if_neg same]
      simp [Event.row, Event.created?, Moment.layout, Ne.symm same]

/-- A machine in which the current frame gets a slot. -/
theorem follows_addSlot (fits : start.Fits setting) (inner : start.machine.current ≠ Machine.root)
    (isFrame : start.machine.current < start.machine.frames.size) {declared : Local}
    {slot : Slot Value}
    (holds : ∀ layout, layout = start.layout.extend start.machine.current declared →
      Slot.Fits setting layout declared slot)
    (history : finish.history = start.history ++
      [.creates declared start.machine.current (start.machine.frames.length start.machine.current)])
    (frames : finish.machine.frames =
      start.machine.frames.append start.machine.current slot)
    (current : finish.machine.current = start.machine.current)
    (globals : finish.machine.globals = start.machine.globals)
    (fields : finish.machine.fields = start.machine.fields) :
    Follows setting start finish ∧
      finish.layout = start.layout.extend start.machine.current declared := by
  have layout := layout_addSlot finish history frames
  have ordered : start.layout.Le finish.layout := by
    rw [layout]
    exact start.layout.le_extend _ _
  have still : ∀ frame, frame ≠ start.machine.current →
      finish.layout.row frame = start.layout.row frame := by
    intro frame different
    rw [layout]
    exact if_neg different
  have row : finish.layout.row start.machine.current =
      start.layout.row start.machine.current ++ [declared] := by
    rw [layout]
    exact if_pos rfl
  have read := Setting.Le.refl setting
  refine ⟨⟨?_, ordered, current⟩, layout⟩
  apply fits.grow ordered
  · rw [still _ (Ne.symm inner)]
    exact fits.root_row
  · intro frame
    rw [frames]
    by_cases same : frame = start.machine.current
    · rw [same, row, Frames.slots_append_self _ _ _ isFrame, Array.toList_push]
      have before := (fits.slots start.machine.current).imp
        fun _ _ holds => holds.mono read ordered
      exact List.rel_append before (.cons (holds _ layout) .nil)
    · rw [still frame same, Frames.slots_append_of_ne (Ne.symm same)]
      exact (fits.slots frame).imp fun _ _ holds => holds.mono read ordered
  · intro frame index found here
    rw [history]
    by_cases same : frame = start.machine.current
    · rw [same, row, List.getElem?_append] at here
      split at here
      · rw [same]
        exact List.mem_append_left _ (fits.created _ index found here)
      · next beyond =>
        rcases List.getElem?_eq_some_iff.mp here with ⟨inside, last⟩
        rw [List.length_singleton] at inside
        have index_eq : index = (start.layout.row start.machine.current).length := by omega
        subst index_eq
        rw [same, fits.length_slots]
        simp at last
        simp [last]
    · rw [still frame same] at here
      exact List.mem_append_left _ (fits.created frame index found here)
  · exact globals
  · exact fields

/-- A machine in which the variable in a slot gets a value that the slot admits. -/
theorem follows_write (fits : start.Fits setting) {frame : FrameId} {index : Nat}
    {value : Value} (valueFits : value.Fits setting start.layout)
    (admitted : ∀ declared, (start.layout.row frame)[index]? = some declared →
      setting.Plain → declared.Admits (.initialised value))
    (history : finish.history = start.history)
    (frames : finish.machine.frames = start.machine.frames.write frame index value)
    (current : finish.machine.current = start.machine.current)
    (globals : finish.machine.globals = start.machine.globals)
    (fields : finish.machine.fields = start.machine.fields) :
    Follows setting start finish ∧ finish.layout = start.layout := by
  have layout : finish.layout = start.layout := by
    ext other : 2
    · show finish.machine.frames.size = start.machine.frames.size
      rw [frames, Frames.size_write]
    · show finish.machine.frames.enclosing? other = start.machine.frames.enclosing? other
      rw [frames, Frames.enclosing?_write]
    · show Event.row finish.history other = Event.row start.history other
      rw [history]
  have ordered : start.layout.Le finish.layout := by
    rw [layout]
    exact .refl _
  refine ⟨⟨?_, ordered, current⟩, layout⟩
  apply fits.grow ordered
  · rw [layout]
    exact fits.root_row
  · intro other
    rw [layout, frames, Frames.slots_write]
    split
    · next same =>
      subst same
      apply List.forall₂_iff_get.mpr
      constructor
      · simpa using (fits.slots frame).length_eq
      · intro slot inside longer
        have before : slot < (start.machine.frames.slots frame).toList.length := by
          rw [← (fits.slots frame).length_eq]
          exact inside
        have holds := (fits.slots frame).get inside before
        simp only [List.get_eq_getElem, Array.getElem_toList, Array.getElem_modify] at holds ⊢
        split
        · next here =>
          subst here
          constructor
          · rintro other ⟨⟩
            exact valueFits
          · exact admitted _ (List.getElem?_eq_getElem inside)
        · exact holds
    · exact fits.slots other
  · rw [layout, history]
    exact fits.created
  · exact globals
  · exact fields

end

end Watched

end Lox
