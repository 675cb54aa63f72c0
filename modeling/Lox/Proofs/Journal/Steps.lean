import Lox.Proofs.Journal.Knowledge
import Lox.Proofs.Machine.Agreement

/-!
# Steps that a journal follows

`Notes` says of a step with a journal that it does what a watched step does, and that the
journal tells what it should afterwards, also when the step fails.  Below are its laws and the
operations of the machine.
-/

namespace Lox

/-- What a step with a result runs to, of which nothing is noted. -/
theorem Watched.Runs.of_ok {α : Type} {setting : Setting} {step : Step α} {start : Moment}
    {post : α → Moment → Prop} (runs : (Watched.quiet step).Runs setting start post) {result : α}
    {machine : Machine} (taken : step start.machine = .ok result machine) :
    Follows setting start ⟨start.history, machine⟩ ∧ post result ⟨start.history, machine⟩ := by
  have events : (Watched.quiet step).events start.machine = [] := rfl
  have ends := runs.2
  rw [events, Watched.step_quiet, taken] at ends
  dsimp only at ends
  rwa [Moment.next_nil] at ends

namespace Noted

variable {α β : Type}

/-- What a step with a result leads to: nothing is cut short, and all that should hold does. -/
structure Continues (setting : Setting) (start : Moment) (journal : Journal) (finish : Moment)
    (after : Journal) : Prop where
  follows : Follows setting start finish
  grows : Grows start journal finish after
  calm : ∀ (cut : Nat) frame slot, after[cut]? = some (Note.abandons frame slot) →
    journal[cut]? = some (Note.abandons frame slot)
  knows : Knows setting after finish

theorem Continues.trans {setting : Setting} {start middle finish : Moment}
    {journal between after : Journal} (before : Continues setting start journal middle between)
    (later : Continues setting middle between finish after) :
    Continues setting start journal finish after :=
  ⟨before.follows.trans later.follows, before.grows.trans later.grows,
    fun cut frame slot here => before.calm cut frame slot (later.calm cut frame slot here),
    later.knows⟩

/-- A step with a journal does what a watched step does; a result has a property. -/
def Notes (setting : Setting) (watched : Watched α) (noted : Step α) (start : Moment)
    (journal : Journal) (post : α → Moment → Journal → Prop) : Prop :=
  match watched.step start.machine with
  | .ok result machine =>
    ∃ after, noted ⟨start.machine, journal⟩ = .ok result ⟨machine, after⟩ ∧
      Continues setting start journal (start.next (watched.events start.machine) machine) after ∧
      post result (start.next (watched.events start.machine) machine) after
  | .error stop machine =>
    ∃ after, noted ⟨start.machine, journal⟩ = .error stop ⟨machine, after⟩ ∧
      Knows setting after (start.next (watched.events start.machine) machine) ∧
      Explains after stop

/-- Nothing is said of a result. -/
abbrev Anything (_ : α) (_ : Moment) (_ : Journal) : Prop := True

/-- The functions in a value may be called. -/
abbrev Known (setting : Setting) (value : Value) (finish : Moment) (after : Journal) : Prop :=
  IsKnown setting after finish value

namespace Notes

variable {setting : Setting} {watched : Watched α} {noted : Step α} {start : Moment}
  {journal : Journal} {post post' : α → Moment → Journal → Prop}

/-! ## Laws -/

/-- What a step does is given by what it runs to. -/
theorem intro {ends : α → Moment → Prop} (runs : watched.Runs setting start ends)
    (read : ∀ result finish, watched.step start.machine = .ok result finish.machine →
      Follows setting start finish → ends result finish →
        ∃ after, noted ⟨start.machine, journal⟩ = .ok result ⟨finish.machine, after⟩ ∧
          Continues setting start journal finish after ∧ post result finish after)
    (failed : ∀ stop finish, watched.step start.machine = .error stop finish.machine →
      Follows setting start finish →
        ∃ after, noted ⟨start.machine, journal⟩ = .error stop ⟨finish.machine, after⟩ ∧
          Knows setting after finish ∧ Explains after stop) :
    Notes setting watched noted start journal post := by
  have ends := runs.2
  rw [Notes]
  revert ends
  cases taken : watched.step start.machine with
  | ok result machine => exact fun ends => read _ (start.next _ machine) taken ends.1 ends.2
  | error stop machine => exact fun ends => failed _ (start.next _ machine) taken ends

/-- What a step runs to holds of its result, too. -/
theorem and {ends : α → Moment → Prop} (runs : watched.Runs setting start ends)
    (told : Notes setting watched noted start journal post) :
    Notes setting watched noted start journal fun result finish after =>
      ends result finish ∧ post result finish after := by
  have ends := runs.2
  rw [Notes] at told ⊢
  revert told ends
  cases watched.step start.machine with
  | ok result machine =>
    rintro ⟨after, same, continues, holds⟩ ⟨-, ends⟩
    exact ⟨after, same, continues, ends, holds⟩
  | error stop machine => exact fun told _ => told

theorem imp (told : Notes setting watched noted start journal post)
    (weaker : ∀ result finish after, Continues setting start journal finish after →
      post result finish after → post' result finish after) :
    Notes setting watched noted start journal post' := by
  rw [Notes] at told ⊢
  revert told
  cases watched.step start.machine with
  | ok result machine =>
    rintro ⟨after, same, continues, holds⟩
    exact ⟨after, same, continues, weaker _ _ _ continues holds⟩
  | error stop machine => exact id

/-- Nothing happens. -/
theorem continues_refl (knows : Knows setting journal start) :
    Continues setting start journal start journal :=
  ⟨.refl knows.fits, .refl _ _, fun _ _ _ here => here, knows⟩

theorem pure {result : α} (knows : Knows setting journal start)
    (holds : post result start journal) :
    Notes setting (Pure.pure result) (Pure.pure result) start journal post := by
  show ∃ after, _ = EStateM.Result.ok result _ ∧
    Continues setting start journal (start.next [] start.machine) after ∧
      post result (start.next [] start.machine) after
  rw [Moment.next_nil]
  exact ⟨journal, rfl, continues_refl knows, holds⟩

theorem bind {next : α → Watched β} {next' : α → Step β} {last : β → Moment → Journal → Prop}
    (told : Notes setting watched noted start journal post)
    (rest : ∀ result middle between, Continues setting start journal middle between →
      post result middle between → Notes setting (next result) (next' result) middle between last) :
    Notes setting (watched >>= next) (noted >>= next') start journal last := by
  rw [Notes] at told
  cases taken : watched.step start.machine with
  | error stop machine =>
    rw [taken] at told
    rcases told with ⟨after, same, knows, explains⟩
    rcases Watched.bind_of_error next taken with ⟨step, events⟩
    rw [Notes, step, events]
    refine ⟨after, ?_, knows, explains⟩
    show EStateM.bind noted next' _ = _
    simp [EStateM.bind, same]
  | ok result machine =>
    rw [taken] at told
    rcases told with ⟨between, same, continues, holds⟩
    rcases Watched.bind_of_ok next taken with ⟨step, events⟩
    have step' : (noted >>= next') ⟨start.machine, journal⟩ = next' result ⟨machine, between⟩ := by
      show EStateM.bind noted next' _ = _
      simp [EStateM.bind, same]
    have further := rest result _ between continues holds
    rw [Notes] at further ⊢
    rw [step, events, step']
    revert further
    simp only [← Moment.next_next _ _ _ machine]
    show (match (next result).step machine with
      | .ok _ _ => _
      | .error _ _ => _) → _
    cases (next result).step machine with
    | ok _ _ =>
      rintro ⟨after, same, continuesThen, holds⟩
      exact ⟨after, same, continues.trans continuesThen, holds⟩
    | error _ _ => exact id

/-- Steps that do at this moment what other ones do. -/
theorem congr {other : Watched α} {other' : Step α}
    (told : Notes setting other other' start journal post)
    (step : watched.step start.machine = other.step start.machine)
    (events : watched.events start.machine = other.events start.machine)
    (step' : noted ⟨start.machine, journal⟩ = other' ⟨start.machine, journal⟩) :
    Notes setting watched noted start journal post := by
  rw [Notes, step, events, step']
  exact told

/-- The last step yields the result. -/
theorem last {step : Lox.Step α}
    (told : Notes setting (.quiet step >>= Pure.pure) noted start journal post) :
    Notes setting (.quiet step) noted start journal post := by
  refine told.congr ?_ ?_ rfl
  · rw [Watched.step_bind]
    exact (congrFun (bind_pure step) start.machine).symm
  · show [] = [] ++ match step start.machine with
      | .ok _ _ => []
      | .error _ _ => []
    cases step start.machine <;> rfl

/-- A step that yields a result, and of which the watch notes nothing. -/
theorem of_ok {step : Lox.Step α} {result : α} {machine : Machine} {after : Journal}
    (taken : step start.machine = .ok result machine)
    (taken' : noted ⟨start.machine, journal⟩ = .ok result ⟨machine, after⟩)
    (continues : Continues setting start journal ⟨start.history, machine⟩ after)
    (holds : post result ⟨start.history, machine⟩ after) :
    Notes setting (.quiet step) noted start journal post := by
  have events : (Watched.quiet step).events start.machine = [] := rfl
  rw [Notes, events, Watched.step_quiet, taken]
  dsimp only
  rw [Moment.next_nil]
  exact ⟨after, taken', continues, holds⟩

/-- A step that fails and leaves all as it is. -/
theorem of_error {step : Lox.Step α} {stop : Stop} (knows : Knows setting journal start)
    (taken : step start.machine = .error stop start.machine)
    (taken' : noted ⟨start.machine, journal⟩ = .error stop ⟨start.machine, journal⟩)
    (explains : Explains journal stop) :
    Notes setting (.quiet step) noted start journal post := by
  have events : (Watched.quiet step).events start.machine = [] := rfl
  rw [Notes, events, Watched.step_quiet, taken]
  dsimp only
  rw [Moment.next_nil]
  exact ⟨journal, taken', knows, explains⟩

theorem fail (knows : Knows setting journal start) (line : Nat) {fault : RuntimeFault}
    (isOther : fault.isUnset = false) :
    Notes setting (.quiet (.fail line fault)) (Step.ordinary (.fail line fault)) start journal
      post :=
  of_error knows rfl rfl (.of_other isOther)

theorem outOfFuel (knows : Knows setting journal start) :
    Notes setting (.quiet (throw .outOfFuel)) (Step.ordinary (throw .outOfFuel)) start journal
      post :=
  of_error knows rfl rfl .outOfFuel

/-- Only the watched step looks at the machine. -/
theorem lookThere {next : Machine → Watched α}
    (rest : Notes setting (next start.machine) noted start journal post) :
    Notes setting (.quiet EStateM.get >>= next) noted start journal post :=
  rest

/-- Only the step with a journal looks at the machine. -/
theorem look {next' : Machine → Step α}
    (rest : Notes setting watched (next' start.machine) start journal post) :
    Notes setting watched (Step.ordinary EStateM.get >>= next') start journal post :=
  rest

/-- Looking at the machine. -/
theorem get {next : Machine → Watched α} {next' : Machine → Step α}
    (rest : Notes setting (next start.machine) (next' start.machine) start journal post) :
    Notes setting (.quiet EStateM.get >>= next) (Step.ordinary EStateM.get >>= next') start journal
      post :=
  .lookThere (.look rest)

theorem inRoot {next : Bool → Watched β} {next' : Bool → Step β}
    {last : β → Moment → Journal → Prop}
    (rest : Notes setting (next (start.machine.current == Machine.root))
      (next' (start.machine.current == Machine.root)) start journal last) :
    Notes setting (.quiet .inRoot >>= next) (Step.ordinary .inRoot >>= next') start journal last :=
  rest

/-- Only the step with a journal notes something. -/
theorem jot {note : Note} {next' : Step α}
    (continues : Continues setting start journal start (journal ++ [note]))
    (rest : Notes setting watched next' start (journal ++ [note]) post) :
    Notes setting watched (Step.note [note] >>= fun _ => next') start journal post := by
  have step' : (Step.note [note] >>= fun _ => next') ⟨start.machine, journal⟩ =
      next' ⟨start.machine, journal ++ [note]⟩ := rfl
  rw [Notes] at rest ⊢
  rw [step']
  revert rest
  cases watched.step start.machine with
  | ok result machine =>
    rintro ⟨after, same, continuesThen, holds⟩
    exact ⟨after, same, continues.trans continuesThen, holds⟩
  | error stop machine => exact id

/-- Nothing is noted after all. -/
theorem jot_nil {next' : Step α} (rest : Notes setting watched next' start journal post) :
    Notes setting watched (Step.note [] >>= fun _ => next') start journal post := by
  refine rest.congr rfl rfl ?_
  show next' ⟨start.machine, journal ++ []⟩ = _
  rw [List.append_nil]

/-- Only the watch notes something, and it creates no slot. -/
theorem note {event : Machine → Event} {next : Unit → Watched β} {next' : Step β}
    {last : β → Moment → Journal → Prop} (knows : Knows setting journal start)
    (created : ∀ frame, (event start.machine).created? frame = none)
    (rest : ∀ middle, Continues setting start journal middle journal →
      middle.machine = start.machine → middle.layout = start.layout →
        Notes setting (next ()) next' middle journal last) :
    Notes setting (Watched.note event >>= next) next' start journal last := by
  have same := Moment.layout_next_of_created created start
  have follows := Follows.noted knows.fits created
  have grows : Grows start journal (start.next [event start.machine] start.machine) journal :=
    .of_frames follows.ordered rfl
  have knowsThen := knows.quiet follows.fits grows rfl (congrArg Layout.row same) knows.functions
  have continues : Continues setting start journal
      (start.next [event start.machine] start.machine) journal :=
    ⟨follows, grows, fun _ _ _ here => here, knowsThen⟩
  have told := rest _ continues rfl same
  rw [Notes] at told ⊢
  have events : (Watched.note event >>= next).events start.machine =
      [event start.machine] ++ (next ()).events start.machine := rfl
  have step : (Watched.note event >>= next).step start.machine =
      (next ()).step start.machine := rfl
  rw [events, step]
  simp only [← Moment.next_next _ _ _ start.machine]
  revert told
  show (match (next ()).step start.machine with
    | .ok _ _ => _
    | .error _ _ => _) → _
  cases (next ()).step start.machine with
  | ok result machine =>
    rintro ⟨after, same, continuesThen, holds⟩
    exact ⟨after, same, continues.trans continuesThen, holds⟩
  | error stop machine => exact id

/-- In a frame, a step does what it does elsewhere. -/
theorem within {frame : FrameId}
    (told : Notes setting watched noted
      ⟨start.history, { start.machine with current := frame }⟩ journal post)
    (back : ∀ result history machine after, post result ⟨history, machine⟩ after →
      post' result ⟨history, { machine with current := start.machine.current }⟩ after) :
    Notes setting (Watched.within frame watched) (Step.within frame noted) start journal post' := by
  rw [Notes] at told ⊢
  rw [Watched.step_within, Lox.Step.within, Step.within]
  dsimp only at told ⊢
  revert told
  cases watched.step { start.machine with current := frame } with
  | ok result machine =>
    rintro ⟨after, same, ⟨follows, grows, calm, knows⟩, holds⟩
    rw [same]
    have ordered := follows.ordered
    have returns := knows.goTo start.machine.current
    refine ⟨after, rfl, ⟨⟨returns.fits, ⟨ordered.size, ordered.enclosing, ordered.row⟩, rfl⟩, ?_,
      calm, returns⟩, back _ _ _ _ holds⟩
    exact (Grows.goTo start journal frame).trans (grows.trans (Grows.goTo _ after _))
  | error stop machine =>
    rintro ⟨after, same, knows, explains⟩
    rw [same]
    exact ⟨after, rfl, knows.goTo start.machine.current, explains⟩

/-- A step that leaves the machine as it is. -/
theorem still {step : Lox.Step α} (knows : Knows setting journal start)
    (read : ∀ result machine, step start.machine = .ok result machine →
      machine = start.machine ∧ post result start journal)
    (failed : ∀ stop machine, step start.machine = .error stop machine →
      machine = start.machine ∧ Explains journal stop) :
    Notes setting (.quiet step) (Step.ordinary step) start journal post := by
  cases taken : step start.machine with
  | ok result machine =>
    rcases read result machine taken with ⟨rfl, holds⟩
    exact of_ok taken (by rw [Step.ordinary, taken]) (continues_refl knows) holds
  | error stop machine =>
    rcases failed stop machine taken with ⟨rfl, explains⟩
    exact of_error knows taken (by rw [Step.ordinary, taken]) explains

/-- A step that leaves frames alone and does not fail. -/
theorem quiet {step : Lox.Step α} {ends : α → Moment → Prop} (knows : Knows setting journal start)
    (runs : (Watched.quiet step).Runs setting start ends) {result : α} {machine : Machine}
    (taken : step start.machine = .ok result machine)
    (frames : machine.frames = start.machine.frames)
    (functions : machine.All (IsCallable setting journal start)
      (IsReady setting journal start [[.this]]))
    (holds : ends result ⟨start.history, machine⟩ → post result ⟨start.history, machine⟩ journal) :
    Notes setting (.quiet step) (Step.ordinary step) start journal post := by
  rcases runs.of_ok taken with ⟨follows, ends⟩
  have grows : Grows start journal ⟨start.history, machine⟩ journal :=
    .of_frames follows.ordered frames
  have knowsThen := knows.quiet follows.fits grows frames rfl functions
  exact of_ok taken (by rw [Step.ordinary, taken])
    ⟨follows, grows, fun _ _ _ here => here, knowsThen⟩ (holds ends)

end Notes

/-! ## Steps that leave frames alone -/

section

variable {setting : Setting} {start : Moment} {journal : Journal}
  (knows : Knows setting journal start)
include knows

theorem notes_ofExcept {result : Except RuntimeError α} {post : α → Moment → Journal → Prop}
    (holds : ∀ value, result = .ok value → post value start journal)
    (failed : ∀ error, result = .error error → Explains journal (.fault error)) :
    Notes setting (.quiet (.ofExcept result)) (Step.ordinary (.ofExcept result)) start journal
      post := by
  cases result with
  | ok value =>
    apply Notes.still knows
    · rintro _ _ ⟨⟩
      exact ⟨rfl, holds value rfl⟩
    · intro stop machine impossible
      cases impossible
  | error error =>
    apply Notes.still knows
    · intro value machine impossible
      cases impossible
    · rintro _ _ ⟨⟩
      exact ⟨rfl, failed error rfl⟩

theorem notes_checkArity (line expected given : Nat) :
    Notes setting (.quiet (.checkArity line expected given))
      (Step.ordinary (.checkArity line expected given)) start journal fun _ finish after =>
        start = finish ∧ journal = after ∧ expected = given := by
  by_cases same : expected = given
  · rw [Step.checkArity, if_neg (not_not_intro same)]
    apply Notes.still knows
    · rintro result machine ⟨⟩
      exact ⟨rfl, rfl, rfl, same⟩
    · intro stop machine impossible
      cases impossible
  · rw [Step.checkArity, if_pos same]
    exact .fail knows line rfl

theorem notes_print (text : String) :
    Notes setting (.quiet (.print text)) (Step.ordinary (.print text)) start journal Anything :=
  .quiet knows (Watched.runs_print knows.fits text) rfl rfl (knows.functions.congr rfl rfl rfl)
    fun _ => trivial

theorem notes_freshId :
    Notes setting (.quiet .freshId) (Step.ordinary .freshId) start journal Anything :=
  .quiet knows (Watched.runs_freshId knows.fits) rfl rfl (knows.functions.congr rfl rfl rfl)
    fun _ => trivial

/-- A function is made; what it keeps and does is given. -/
theorem notes_newClosure (frame : FrameId) (name : String) (behaviour : Behaviour) :
    Notes setting (.quiet (.newClosure frame name behaviour))
      (Step.ordinary (.newClosure frame name behaviour)) start journal fun closure finish after =>
        closure.environment = frame ∧ closure.behaviour = behaviour ∧
          finish.machine.frames = start.machine.frames ∧ finish.layout = start.layout ∧
          journal = after :=
  .quiet knows (Watched.runs_newClosure knows.fits frame name behaviour) rfl rfl
    (knows.functions.congr rfl rfl rfl)
    fun ends => ⟨ends.1, ends.2.1, rfl, ends.2.2, rfl⟩

theorem notes_setGlobal (name : String) (slot : Slot Value)
    (known : slot.All (IsCallable setting journal start)
      (IsReady setting journal start [[.this]])) :
    Notes setting (.quiet (.setGlobal name slot)) (Step.ordinary (.setGlobal name slot)) start
      journal fun _ finish _ => finish.layout = start.layout := by
  have fits : ∀ value, slot = .initialised value → value.Fits setting start.layout := by
    rintro value rfl
    exact IsKnown.fits known
  exact .quiet knows (Watched.runs_setGlobal knows.fits name fits) rfl rfl
    (knows.functions.setGlobal name known) id

theorem notes_newInstance (ofClass : Class) :
    Notes setting (.quiet (.newInstance ofClass)) (Step.ordinary (.newInstance ofClass)) start
      journal fun created _ _ => created.ofClass = ofClass :=
  .quiet knows (Watched.runs_newInstance knows.fits ofClass) rfl rfl knows.functions.newInstance
    And.left

theorem notes_field? (target : Instance) (name : String) :
    Notes setting (.quiet (.field? target name)) (Step.ordinary (.field? target name)) start
      journal fun value? finish after => start = finish ∧ journal = after ∧
        ∀ value ∈ value?, Known setting value start journal := by
  have looked := Lox.Step.field?_eq target name start.machine
  apply Notes.still knows
  · intro value? machine taken
    rw [looked] at taken
    cases taken
    refine ⟨rfl, rfl, rfl, ?_⟩
    intro value found
    rcases Option.bind_eq_some_iff.mp found with ⟨table, here, inTable⟩
    exact knows.functions.fields target.id table name value here inTable
  · intro stop machine taken
    rw [looked] at taken
    cases taken

theorem notes_setField (target : Instance) (name : String) {value : Value}
    (known : IsKnown setting journal start value) :
    Notes setting (.quiet (.setField target name value))
      (Step.ordinary (.setField target name value)) start journal Anything :=
  .quiet knows (Watched.runs_setField knows.fits target name (IsKnown.fits known)) rfl rfl
    (knows.functions.setField target.id name known) fun _ => trivial

end

end Noted

end Lox
