import Lox.Proofs.Machine.Variables
import Lox.Proofs.Receiver.Knowledge

/-!
# Steps that a ledger follows

`Tells` says of a step with a ledger that it does what a watched step does, without a
violation, and that the ledger knows all functions afterwards, also when the step fails.
Below are its laws and the operations of the machine.
-/

namespace Lox.Tied

variable {α β : Type}

/-- A step with a ledger does what a watched step does; a result has a property. -/
def Tells (setting : Setting) (watched : Watched α) (tied : Step α) (start : Moment)
    (ledger : Ledger) (post : α → Moment → Ledger → Prop) : Prop :=
  match watched.step start.machine with
  | .ok result machine =>
    ∃ after, tied ⟨start.machine, ledger⟩ = .ok result ⟨machine, after⟩ ∧ ledger.Le after ∧
      Knows setting after (start.next (watched.events start.machine) machine) ∧
      post result (start.next (watched.events start.machine) machine) after
  | .error stop machine =>
    ∃ after, tied ⟨start.machine, ledger⟩ = .error (.ordinary stop) ⟨machine, after⟩ ∧
      ledger.Le after ∧ Knows setting after (start.next (watched.events start.machine) machine)

/-- Nothing is said of a result. -/
abbrev Anything (_ : α) (_ : Moment) (_ : Ledger) : Prop := True

/-- The ledger knows the functions in a value. -/
abbrev Known (setting : Setting) (value : Value) (finish : Moment) (after : Ledger) : Prop :=
  IsKnown setting after finish.layout value

namespace Tells

variable {setting : Setting} {watched : Watched α} {tied : Step α} {start : Moment}
  {ledger : Ledger} {post post' : α → Moment → Ledger → Prop}

/-! ## Laws -/

/-- What a step does is given by what it runs to. -/
theorem intro {ends : α → Moment → Prop} (runs : watched.Runs setting start ends)
    (read : ∀ result finish, watched.step start.machine = .ok result finish.machine →
      Follows setting start finish → ends result finish →
        ∃ after, tied ⟨start.machine, ledger⟩ = .ok result ⟨finish.machine, after⟩ ∧
          ledger.Le after ∧ Knows setting after finish ∧ post result finish after)
    (failed : ∀ stop finish, watched.step start.machine = .error stop finish.machine →
      Follows setting start finish →
        ∃ after, tied ⟨start.machine, ledger⟩ = .error (.ordinary stop) ⟨finish.machine, after⟩ ∧
          ledger.Le after ∧ Knows setting after finish) :
    Tells setting watched tied start ledger post := by
  have ends := runs.2
  rw [Tells]
  revert ends
  cases taken : watched.step start.machine with
  | ok result machine => exact fun ends => read _ (start.next _ machine) taken ends.1 ends.2
  | error stop machine => exact fun ends => failed _ (start.next _ machine) taken ends

theorem imp (told : Tells setting watched tied start ledger post)
    (weaker : ∀ result finish after, ledger.Le after → post result finish after →
      post' result finish after) : Tells setting watched tied start ledger post' := by
  rw [Tells] at told ⊢
  revert told
  cases watched.step start.machine with
  | ok result machine =>
    rintro ⟨after, same, noted, knows, holds⟩
    exact ⟨after, same, noted, knows, weaker _ _ _ noted holds⟩
  | error stop machine => exact id

theorem pure {result : α} (knows : Knows setting ledger start) (holds : post result start ledger) :
    Tells setting (Pure.pure result) (Pure.pure result) start ledger post := by
  show ∃ after, _ = EStateM.Result.ok result _ ∧ _ ∧
    Knows setting after (start.next [] start.machine) ∧
      post result (start.next [] start.machine) after
  rw [Moment.next_nil]
  exact ⟨ledger, rfl, .refl _, knows, holds⟩

theorem bind {ends : α → Moment → Prop} {next : α → Watched β} {next' : α → Step β}
    {last : β → Moment → Ledger → Prop} (told : Tells setting watched tied start ledger post)
    (runs : watched.Runs setting start ends)
    (rest : ∀ result middle after, Follows setting start middle → ends result middle →
      ledger.Le after → Knows setting after middle → post result middle after →
        Tells setting (next result) (next' result) middle after last) :
    Tells setting (watched >>= next) (tied >>= next') start ledger last := by
  have ran := runs.2
  rw [Tells] at told
  cases taken : watched.step start.machine with
  | error stop machine =>
    rw [taken] at told
    rcases told with ⟨after, same, noted, knows⟩
    rcases Watched.bind_of_error next taken with ⟨step, events⟩
    rw [Tells, step, events]
    refine ⟨after, ?_, noted, knows⟩
    show EStateM.bind tied next' _ = _
    simp [EStateM.bind, same]
  | ok result machine =>
    rw [taken] at told ran
    rcases told with ⟨after, same, noted, knows, holds⟩
    rcases Watched.bind_of_ok next taken with ⟨step, events⟩
    have step' : (tied >>= next') ⟨start.machine, ledger⟩ = next' result ⟨machine, after⟩ := by
      show EStateM.bind tied next' _ = _
      simp [EStateM.bind, same]
    have further := rest result _ after ran.1 ran.2 noted knows holds
    rw [Tells] at further ⊢
    rw [step, events, step']
    revert further
    simp only [← Moment.next_next _ _ _ machine]
    show (match (next result).step machine with
      | .ok _ _ => _
      | .error _ _ => _) → _
    cases (next result).step machine with
    | ok _ _ =>
      rintro ⟨last, same, notedThen, others⟩
      exact ⟨last, same, noted.trans notedThen, others⟩
    | error _ _ =>
      rintro ⟨last, same, notedThen, others⟩
      exact ⟨last, same, noted.trans notedThen, others⟩

/-- Steps that do at this moment what other ones do. -/
theorem congr {other : Watched α} {other' : Step α}
    (told : Tells setting other other' start ledger post)
    (step : watched.step start.machine = other.step start.machine)
    (events : watched.events start.machine = other.events start.machine)
    (step' : tied ⟨start.machine, ledger⟩ = other' ⟨start.machine, ledger⟩) :
    Tells setting watched tied start ledger post := by
  rw [Tells, step, events, step']
  exact told

/-- A step of which nothing is noted. -/
theorem ordinary {step : Lox.Step α}
    (read : ∀ result machine, step start.machine = .ok result machine →
      Knows setting ledger ⟨start.history, machine⟩ ∧
        post result ⟨start.history, machine⟩ ledger)
    (failed : ∀ stop machine, step start.machine = .error stop machine →
      Knows setting ledger ⟨start.history, machine⟩) :
    Tells setting (.quiet step) (Step.ordinary step) start ledger post := by
  have events : (Watched.quiet step).events start.machine = [] := rfl
  rw [Tells, events, Watched.step_quiet, Step.ordinary]
  simp only [Moment.next_nil]
  cases taken : step start.machine with
  | ok result machine => exact ⟨ledger, rfl, .refl _, read _ _ taken⟩
  | error stop machine => exact ⟨ledger, rfl, .refl _, failed _ _ taken⟩

/-- A step that leaves the machine as it is. -/
theorem still {step : Lox.Step α} (knows : Knows setting ledger start)
    (read : ∀ result machine, step start.machine = .ok result machine →
      machine = start.machine ∧ post result start ledger)
    (failed : ∀ stop machine, step start.machine = .error stop machine →
      machine = start.machine) :
    Tells setting (.quiet step) (Step.ordinary step) start ledger post := by
  apply ordinary
  · intro result machine taken
    rcases read result machine taken with ⟨rfl, holds⟩
    exact ⟨knows, holds⟩
  · intro stop machine taken
    rw [failed stop machine taken]
    exact knows

theorem fail (knows : Knows setting ledger start) (line : Nat) (fault : RuntimeFault) :
    Tells setting (.quiet (.fail line fault)) (Step.ordinary (.fail line fault)) start ledger
      post := by
  apply still knows
  · intro result machine impossible
    cases impossible
  · rintro stop machine ⟨⟩
    rfl

theorem outOfFuel (knows : Knows setting ledger start) :
    Tells setting (.quiet (throw .outOfFuel)) (Step.ordinary (throw .outOfFuel)) start ledger
      post := by
  apply still knows
  · intro result machine impossible
    cases impossible
  · rintro stop machine ⟨⟩
    rfl

/-- Looking at the machine. -/
theorem get {next : Machine → Watched β} {next' : Machine → Step β}
    {last : β → Moment → Ledger → Prop}
    (rest : Tells setting (next start.machine) (next' start.machine) start ledger last) :
    Tells setting (.quiet EStateM.get >>= next) (Step.ordinary EStateM.get >>= next') start ledger
      last :=
  rest

/-- Only the step with a ledger looks at the machine. -/
theorem look {next' : Machine → Step α}
    (rest : Tells setting watched (next' start.machine) start ledger post) :
    Tells setting watched (Step.ordinary EStateM.get >>= next') start ledger post :=
  rest

/-- The step with a ledger looks up the tie of a function. -/
theorem noted {id : Nat} {next' : Option Tie → Step α}
    (rest : Tells setting watched (next' (ledger.ties id)) start ledger post) :
    Tells setting watched (Step.noted id >>= next') start ledger post :=
  rest

theorem inRoot {next : Bool → Watched β} {next' : Bool → Step β}
    {last : β → Moment → Ledger → Prop}
    (rest : Tells setting (next (start.machine.current == Machine.root))
      (next' (start.machine.current == Machine.root)) start ledger last) :
    Tells setting (.quiet .inRoot >>= next) (Step.ordinary .inRoot >>= next') start ledger last :=
  rest

/-- Something is noted that creates no slot. -/
theorem note {event : Machine → Event} {next : Unit → Watched β} {next' : Step β}
    {last : β → Moment → Ledger → Prop}
    (fits : start.Fits setting) (knows : Knows setting ledger start)
    (created : ∀ frame, (event start.machine).created? frame = none)
    (rest : ∀ middle, Follows setting start middle → middle.machine = start.machine →
      middle.layout = start.layout → Knows setting ledger middle →
        Tells setting (next ()) next' middle ledger last) :
    Tells setting (Watched.note event >>= next) next' start ledger last := by
  have same := Moment.layout_next_of_created created start
  have follows := Follows.noted fits created
  have told := rest _ follows rfl same (knows.congr rfl same)
  rw [Tells] at told ⊢
  have events : (Watched.note event >>= next).events start.machine =
      [event start.machine] ++ (next ()).events start.machine := rfl
  rw [events]
  simp only [← Moment.next_next _ _ _ start.machine]
  exact told

/-- In a frame, a step does what it does elsewhere. -/
theorem within {frame : FrameId}
    (told : Tells setting watched tied
      ⟨start.history, { start.machine with current := frame }⟩ ledger post)
    (back : ∀ result history machine after, post result ⟨history, machine⟩ after →
      post' result ⟨history, { machine with current := start.machine.current }⟩ after) :
    Tells setting (Watched.within frame watched) (Step.within frame tied) start ledger post' := by
  have returns : ∀ after history machine, Knows setting after ⟨history, machine⟩ →
      Knows setting after ⟨history, { machine with current := start.machine.current }⟩ :=
    fun _ _ _ knows => ⟨knows.functions.congr rfl rfl rfl, knows.fresh, knows.holders⟩
  rw [Tells] at told ⊢
  rw [Watched.step_within, Lox.Step.within, Step.within]
  dsimp only at told ⊢
  revert told
  cases watched.step { start.machine with current := frame } with
  | ok result machine =>
    rintro ⟨after, same, noted, knows, holds⟩
    rw [same]
    exact ⟨after, rfl, noted, returns _ _ _ knows, back _ _ _ _ holds⟩
  | error stop machine =>
    rintro ⟨after, same, noted, knows⟩
    rw [same]
    exact ⟨after, rfl, noted, returns _ _ _ knows⟩

end Tells

/-! ## Steps that leave frames alone -/

section

variable {setting : Setting} {start : Moment} {ledger : Ledger}

/-- The frames do not change, and identities may be given away. -/
theorem Knows.quiet (knows : Knows setting ledger start) {machine : Machine}
    (frames : machine.frames = start.machine.frames)
    (later : start.machine.nextId ≤ machine.nextId)
    (functions : machine.All (IsTied setting ledger start.layout)
      (IsHomed setting ledger start.layout)) :
    Knows setting ledger ⟨start.history, machine⟩ := by
  have layout : Moment.layout ⟨start.history, machine⟩ = start.layout := by
    simp only [Moment.layout, frames]
  constructor
  · rw [layout]
    exact functions
  · exact fun id isNew => knows.fresh id (Nat.le_trans later isNew)
  · intro frame value holds
    rw [layout]
    show machine.frames.slots frame = _ ∧ _
    rw [frames]
    exact knows.holders frame value holds

variable (knows : Knows setting ledger start)
include knows

theorem tells_ofExcept {result : Except RuntimeError α} {post : α → Moment → Ledger → Prop}
    (holds : ∀ value, result = .ok value → post value start ledger) :
    Tells setting (.quiet (.ofExcept result)) (Step.ordinary (.ofExcept result)) start ledger
      post := by
  cases result with
  | ok value =>
    apply Tells.still knows
    · rintro _ _ ⟨⟩
      exact ⟨rfl, holds value rfl⟩
    · intro stop machine impossible
      cases impossible
  | error error =>
    apply Tells.still knows
    · intro value machine impossible
      cases impossible
    · rintro _ _ ⟨⟩
      rfl

theorem tells_checkArity (line expected given : Nat) :
    Tells setting (.quiet (.checkArity line expected given))
      (Step.ordinary (.checkArity line expected given)) start ledger Anything := by
  by_cases same : expected = given
  · rw [Step.checkArity, if_neg (not_not_intro same)]
    apply Tells.still knows
    · rintro result machine ⟨⟩
      exact ⟨rfl, trivial⟩
    · intro stop machine impossible
      cases impossible
  · rw [Step.checkArity, if_pos same]
    exact .fail knows line _

theorem tells_print (text : String) :
    Tells setting (.quiet (.print text)) (Step.ordinary (.print text)) start ledger Anything := by
  apply Tells.ordinary
  · rintro _ _ ⟨⟩
    exact ⟨knows.quiet rfl (Nat.le_refl _) (knows.functions.congr rfl rfl rfl), trivial⟩
  · intro stop machine impossible
    cases impossible

theorem tells_freshId :
    Tells setting (.quiet .freshId) (Step.ordinary .freshId) start ledger fun _ finish after =>
      ledger = after ∧ finish.machine.nextId = start.machine.nextId + 1 := by
  apply Tells.ordinary
  · rintro _ _ ⟨⟩
    exact ⟨knows.quiet rfl (Nat.le_succ _) (knows.functions.congr rfl rfl rfl), rfl, rfl⟩
  · intro stop machine impossible
    cases impossible

theorem tells_setGlobal (name : String) (slot : Slot Value)
    (known : slot.All (IsTied setting ledger start.layout) (IsHomed setting ledger start.layout)) :
    Tells setting (.quiet (.setGlobal name slot)) (Step.ordinary (.setGlobal name slot)) start
      ledger Anything := by
  apply Tells.ordinary
  · rintro _ _ ⟨⟩
    exact ⟨knows.quiet rfl (Nat.le_refl _) (knows.functions.setGlobal name known), trivial⟩
  · intro stop machine impossible
    cases impossible

theorem tells_newInstance (ofClass : Class) :
    Tells setting (.quiet (.newInstance ofClass)) (Step.ordinary (.newInstance ofClass)) start
      ledger Anything := by
  apply Tells.ordinary
  · rintro _ _ ⟨⟩
    exact ⟨knows.quiet rfl (Nat.le_refl _) knows.functions.newInstance, trivial⟩
  · intro stop machine impossible
    cases impossible

theorem tells_field? (target : Instance) (name : String) :
    Tells setting (.quiet (.field? target name)) (Step.ordinary (.field? target name)) start ledger
      fun value? finish after => ∀ value ∈ value?, Known setting value finish after := by
  have looked := Lox.Step.field?_eq target name start.machine
  apply Tells.still knows
  · intro value? machine taken
    rw [looked] at taken
    cases taken
    refine ⟨rfl, ?_⟩
    intro value found
    rcases Option.bind_eq_some_iff.mp found with ⟨table, here, inTable⟩
    exact knows.functions.fields target.id table name value here inTable
  · intro stop machine taken
    rw [looked] at taken
    cases taken

theorem tells_setField (target : Instance) (name : String) {value : Value}
    (known : IsKnown setting ledger start.layout value) :
    Tells setting (.quiet (.setField target name value))
      (Step.ordinary (.setField target name value)) start ledger Anything := by
  apply Tells.ordinary
  · rintro _ _ ⟨⟩
    exact ⟨knows.quiet rfl (Nat.le_refl _) (knows.functions.setField target.id name known), trivial⟩
  · intro stop machine impossible
    cases impossible

/-- The value of a variable that is read is known. -/
theorem tells_readVariable (addresses : AddressTable) (id : Nat) (name : Name) :
    Tells setting (.quiet (.readVariable addresses id name))
      (Step.ordinary (.readVariable addresses id name)) start ledger (Known setting) := by
  have known : ∀ value, Step.slot? addresses id name.text start.machine =
      some (.initialised value) → IsKnown setting ledger start.layout value := by
    intro value here
    rw [Step.slot?] at here
    split at here
    · exact knows.functions.get? here
    · exact knows.functions.globals name.text _ here
  apply Tells.still knows
  · intro value after taken
    rw [Step.readVariable_eq] at taken
    split at taken
    · next here =>
      cases taken
      exact ⟨rfl, known _ here⟩
    · cases taken
    · cases taken
  · intro stop after taken
    rw [Step.readVariable_eq] at taken
    split at taken
    · cases taken
    · cases taken
      rfl
    · cases taken
      rfl

end

/-! ## Frames and slots -/

section

variable {setting : Setting} {around : Surroundings} {scopes : Scopes} {start : Moment}
  {ledger : Ledger}

/-- A frame with a slot exists. -/
theorem Knows.lt_size (knows : Knows setting ledger start) {frame : FrameId} {value : Value}
    (holds : ledger.holders frame = some value) : frame < start.machine.frames.size := by
  by_contra beyond
  have empty := start.machine.frames.slots_eq_empty (Nat.le_of_not_lt beyond)
  rw [(knows.holders frame value holds).1] at empty
  cases empty

/-- A frame is added; it may be noted what it holds. -/
theorem Knows.addFrame (knows : Knows setting ledger start) {after : Ledger} {finish : Moment}
    {enclosing : FrameId} {locals : List Local} {values : List Value}
    (follows : Follows setting start finish)
    (layout : finish.layout = start.layout.add enclosing locals)
    (step : finish.machine = { start.machine with
      frames := values.foldl (fun frames value =>
        frames.define start.machine.frames.size value) (start.machine.frames.addChild enclosing) })
    (known : ∀ value ∈ values, IsKnown setting ledger start.layout value)
    (noted : ledger.Le after)
    (others : after.ties = ledger.ties ∧ after.homes = ledger.homes)
    (holders : ∀ frame value, after.holders frame = some value →
      ledger.holders frame = some value ∨
        frame = start.machine.frames.size ∧ values = [value] ∧
          (locals = [.this] ∨ locals = [.super])) :
    Knows setting after finish := by
  have functions : finish.machine.All (IsTied setting ledger start.layout)
      (IsHomed setting ledger start.layout) := by
    apply knows.functions.addFrame enclosing known
    · rw [step]
    · rw [step]
    · rw [step]
  constructor
  · exact functions.imp (fun _ tied => tied.mono (.refl _) noted follows.ordered)
      (fun _ homed => homed.mono (.refl _) noted follows.ordered)
  · rw [others.1, others.2, step]
    exact knows.fresh
  · intro frame value holds
    rw [layout, step]
    rcases holders frame value holds with before | ⟨rfl, rfl, holder⟩
    · have different : frame ≠ start.machine.frames.size := Nat.ne_of_lt (knows.lt_size before)
      rw [Frames.slots_addFrame_of_ne _ _ _ different, Layout.row_add_of_ne _ _ _ different]
      exact knows.holders frame value before
    · have row : (start.layout.add enclosing locals).row start.machine.frames.size = locals :=
        start.layout.row_add_self enclosing locals
      rw [row]
      refine ⟨?_, holder⟩
      apply Array.toList_inj.mp
      exact Frames.toList_slots_addFrame _ _ _

/-- A frame for names. -/
theorem tells_newFrame (knows : Knows setting ledger start) (fits : start.Fits setting)
    {enclosing : FrameId} (chain : start.layout.Chain scopes enclosing) {locals : List Local}
    {values : List Value}
    (hold : List.Forall₂ (fun declared value =>
      Slot.Fits setting start.layout declared (.initialised value)) locals values)
    (known : ∀ value ∈ values, IsKnown setting ledger start.layout value) :
    Tells setting (.newFrame enclosing locals values) (Step.ordinary (.newFrame enclosing values))
      start ledger Anything := by
  apply Tells.intro (Watched.runs_newFrame fits chain hold)
  · rintro frame finish taken follows ⟨-, layout, -⟩
    replace taken : Step.newFrame enclosing values start.machine = .ok frame finish.machine := taken
    refine ⟨ledger, ?_, .refl _, ?_, trivial⟩
    · rw [Step.ordinary, taken]
    · rcases EStateM.Result.ok.inj taken with ⟨-, step⟩
      exact knows.addFrame follows layout step.symm known (.refl _) ⟨rfl, rfl⟩
        fun _ _ holds => .inl holds
  · intro stop finish impossible
    cases impossible

/-- Noting what a frame holds that is not noted before. -/
theorem Ledger.le_noteHolder {frame : FrameId} (fresh : ledger.holders frame = none)
    (value : Value) : ledger.Le (ledger.noteHolder frame value) := by
  refine ⟨fun _ _ noted => noted, fun _ _ noted => noted, ?_⟩
  intro other found noted
  have different : other ≠ frame := by
    rintro rfl
    rw [fresh] at noted
    cases noted
  exact (if_neg different).trans noted

/-- A frame for `this` or `super`. -/
theorem tells_newHolder (knows : Knows setting ledger start) (fits : start.Fits setting)
    {enclosing : FrameId} (chain : start.layout.Chain scopes enclosing) {declared : Local}
    (isHolder : declared = .this ∨ declared = .super) {value : Value}
    (hold : Slot.Fits setting start.layout declared (.initialised value))
    (known : IsKnown setting ledger start.layout value) :
    Tells setting (.newFrame enclosing [declared] [value]) (Step.newHolder enclosing value) start
      ledger fun frame _ after => after.holders frame = some value ∧ after.homes = ledger.homes ∧
        enclosing < start.layout.size := by
  apply Tells.intro (Watched.runs_newFrame fits chain (.cons hold .nil))
  · rintro frame finish taken follows ⟨isNew, layout, -⟩
    replace taken : Step.newFrame enclosing [value] start.machine = .ok frame finish.machine :=
      taken
    have fresh : ledger.holders frame = none := by
      apply Option.eq_none_iff_forall_ne_some.mpr
      intro other holds
      have isOld := knows.lt_size holds
      rw [isNew] at isOld
      exact Nat.lt_irrefl _ isOld
    refine ⟨ledger.noteHolder frame value, ?_, Ledger.le_noteHolder fresh value, ?_,
      if_pos rfl, rfl, chain.lt_size⟩
    · have first : Step.ordinary (.newFrame enclosing [value]) ⟨start.machine, ledger⟩ =
          .ok frame ⟨finish.machine, ledger⟩ := by
        rw [Step.ordinary, taken]
      simp only [Step.newHolder, Bind.bind, EStateM.bind, first]
      rfl
    · rcases EStateM.Result.ok.inj taken with ⟨-, step⟩
      apply knows.addFrame follows layout step.symm (List.forall_mem_singleton.mpr known)
        (Ledger.le_noteHolder fresh value) ⟨rfl, rfl⟩
      intro other found holds
      simp only [Ledger.noteHolder] at holds
      split at holds
      · next same =>
        cases holds
        refine .inr ⟨same.trans isNew, rfl, ?_⟩
        exact isHolder.imp (congrArg ([·])) (congrArg ([·]))
      · exact .inl holds
  · intro stop finish impossible
    cases impossible

/-- The current frame of code that stands in scopes holds neither `this` nor `super`. -/
theorem Knows.holders_current (knows : Knows setting ledger start)
    (stands : start.Stands setting around scopes) :
    ledger.holders start.machine.current = none := by
  have isOther : ∀ declared : Local, declared = .this ∨ declared = .super →
      start.layout.row start.machine.current ≠ [declared] := by
    intro declared isHolder same
    rw [stands.row] at same
    rcases stands.named declared (same ▸ List.mem_cons_self) with ⟨name, rfl, -⟩
    rcases isHolder with impossible | impossible <;> cases impossible
  exact knows.holders_eq_none ⟨isOther .this (.inl rfl), isOther .super (.inr rfl)⟩

/-- A frame may be changed of which nothing is noted. -/
theorem checkOpen_eq {frame : FrameId} (isOpen : ledger.holders frame = none)
    (machine : Machine) : Step.checkOpen frame ⟨machine, ledger⟩ = .ok () ⟨machine, ledger⟩ := by
  rw [Step.checkOpen, Lox.Step.get_bind, isOpen]
  rfl

/-- What goes on with the machine goes on with the machine that there is. -/
theorem ordinary_get_bind {α : Type} (next : Machine → Step α) (state : State) :
    (Step.ordinary get >>= next) state = next state.machine state := rfl

/-- A variable may be changed if nothing is noted of its frame. -/
theorem checkVariable_eq {addresses : AddressTable} {id : Nat} {machine : Machine}
    (isOpen : ∀ holder, Step.holder? addresses id machine = some holder →
      ledger.holders holder = none) :
    Step.checkVariable addresses id ⟨machine, ledger⟩ = .ok () ⟨machine, ledger⟩ := by
  rw [Step.checkVariable, ordinary_get_bind]
  cases found : Step.holder? addresses id machine with
  | none => rfl
  | some holder => exact checkOpen_eq (isOpen holder found) machine

/-- A variable of a frame that holds neither `this` nor `super` gets a value. -/
theorem Knows.write (knows : Knows setting ledger start) {frame : FrameId} (index : Nat)
    (isOpen : ledger.holders frame = none) {value : Value}
    (known : IsKnown setting ledger start.layout value) :
    Knows setting ledger ⟨start.history,
      { start.machine with frames := start.machine.frames.write frame index value }⟩ := by
  have layout : Moment.layout ⟨start.history,
      { start.machine with frames := start.machine.frames.write frame index value }⟩ =
        start.layout := by
    ext other : 2
    · exact Frames.size_write frame index value start.machine.frames
    · exact Frames.enclosing?_write frame other index value start.machine.frames
    · rfl
  constructor
  · rw [layout]
    exact knows.functions.write frame index known
  · exact knows.fresh
  · intro other held holds
    have different : frame ≠ other := by
      rintro rfl
      rw [isOpen] at holds
      cases holds
    rw [layout]
    show (start.machine.frames.write frame index value).slots other = _ ∧ _
    rw [Frames.slots_write, if_neg different]
    exact knows.holders other held holds

/-- A slot of the current frame. -/
theorem tells_newSlot (knows : Knows setting ledger start) (fits : start.Fits setting)
    (stands : start.Stands setting around scopes) (inner : scopes ≠ []) {declared : Local}
    {slot : Slot Value}
    (holds : ∀ layout, layout = start.layout.extend start.machine.current declared →
      Slot.Fits setting layout declared slot)
    (known : ∀ layout, layout = start.layout.extend start.machine.current declared →
      slot.All (IsTied setting ledger layout) (IsHomed setting ledger layout)) :
    Tells setting (.newSlot declared slot) (Step.newSlot slot) start ledger Anything := by
  have isOpen := knows.holders_current stands
  apply Tells.intro (Watched.runs_newSlot fits stands inner holds)
  · rintro index finish taken follows ⟨-, layout⟩
    replace taken : Lox.Step.newSlot slot start.machine = .ok index finish.machine := taken
    refine ⟨ledger, ?_, .refl _, ?_, trivial⟩
    · show EStateM.bind (Step.checkOpen start.machine.current) _ ⟨start.machine, ledger⟩ = _
      rw [EStateM.bind, checkOpen_eq isOpen]
      show Step.ordinary (.newSlot slot) ⟨start.machine, ledger⟩ = _
      rw [Step.ordinary, taken]
    · rcases EStateM.Result.ok.inj taken with ⟨-, step⟩
      have functions := knows.functions.imp
        (fun _ tied => tied.mono (.refl _) (.refl _) follows.ordered)
        (fun _ homed => homed.mono (.refl _) (.refl _) follows.ordered)
      constructor
      · rw [← step]
        exact functions.append start.machine.current (known _ layout)
      · rw [← step]
        exact knows.fresh
      · intro frame value held
        have different : frame ≠ start.machine.current := by
          rintro rfl
          rw [isOpen] at held
          cases held
        rw [layout, Layout.row_extend_of_ne _ _ _ different, ← step]
        show (start.machine.frames.append start.machine.current slot).slots frame = _ ∧ _
        rw [Frames.slots_append_of_ne (Ne.symm different)]
        exact knows.holders frame value held
  · intro stop finish impossible
    cases impossible

/-- A variable of the current frame gets a value. -/
theorem tells_setSlot (knows : Knows setting ledger start)
    (stands : start.Stands setting around scopes) (index : Nat) {value : Value}
    (known : IsKnown setting ledger start.layout value) :
    Tells setting (.quiet (.setSlot index value)) (Step.setSlot index value) start ledger
      Anything := by
  have isOpen := knows.holders_current stands
  have told : Tells setting (.quiet (.setSlot index value))
      (Step.ordinary (.setSlot index value)) start ledger Anything := by
    apply Tells.ordinary
    · rintro _ _ ⟨⟩
      exact ⟨knows.write index isOpen known, trivial⟩
    · intro stop machine impossible
      cases impossible
  apply told.congr rfl rfl
  show EStateM.bind (Step.checkOpen start.machine.current) _ ⟨start.machine, ledger⟩ = _
  rw [EStateM.bind, checkOpen_eq isOpen]

/-- A variable that exists gets a value; its name is not `this` or `super`. -/
theorem tells_assignVariable (knows : Knows setting ledger start) (sound : setting.Sound)
    (plain : setting.Plain) (fits : start.Fits setting)
    (stands : start.Stands setting around scopes) {target : Reference}
    (isKnown : target.occurrence scopes ∈ setting.occurrences)
    (isName : setting.names target.name.text) {value : Value}
    (known : IsKnown setting ledger start.layout value) :
    Tells setting (.quiet (.assignVariable setting.addresses target value))
      (Step.assignVariable setting.addresses target value) start ledger Anything := by
  have isOpen : ∀ address, setting.addresses[target.id]? = some address →
      ∀ holder, start.machine.frames.holder? start.machine.current address.depth address.slot =
        some holder → ledger.holders holder = none := by
    intro address recorded holder here
    rcases Watched.exists_holder? sound fits stands isKnown rfl recorded with
      ⟨frame, declared, found, inRow, text⟩
    have same : frame = holder := Option.some.inj (found.symm.trans here)
    subst same
    have isOther : ∀ other : Local, target.name.text ≠ other.text →
        start.layout.row frame ≠ [other] := by
      intro other different row
      rw [row] at inRow
      have isOnly := List.mem_singleton.mp (List.mem_of_getElem? inRow)
      rw [isOnly] at text
      exact different text.symm
    have isPlain := plain _ isName
    exact knows.holders_eq_none
      ⟨isOther .this isPlain.1, isOther .super isPlain.2⟩
  have taken := Step.assignVariable_eq setting.addresses target value start.machine
  have told : Tells setting (.quiet (.assignVariable setting.addresses target value))
      (Step.ordinary (.assignVariable setting.addresses target value)) start ledger
      Anything := by
    apply Tells.ordinary
    · intro result machine ends
      rw [taken] at ends
      split at ends
      · next address recorded =>
        split at ends
        · next holder here =>
          cases ends
          exact ⟨knows.write address.slot (isOpen address recorded holder here) known, trivial⟩
        · cases ends
      · split at ends
        · cases ends
          exact ⟨knows.quiet rfl (Nat.le_refl _)
            (knows.functions.setGlobal target.name.text known), trivial⟩
        · cases ends
    · intro stop machine ends
      rw [taken] at ends
      split at ends
      · split at ends
        · cases ends
        · cases ends
          exact knows
      · split at ends
        · cases ends
        · cases ends
          exact knows
  have checked : Step.checkVariable setting.addresses target.id ⟨start.machine, ledger⟩ =
      .ok () ⟨start.machine, ledger⟩ := by
    apply checkVariable_eq
    intro holder here
    rcases Option.bind_eq_some_iff.mp here with ⟨address, recorded, found⟩
    exact isOpen address recorded holder found
  apply told.congr rfl rfl
  show EStateM.bind (Step.checkVariable setting.addresses target.id) _ ⟨start.machine, ledger⟩ = _
  rw [EStateM.bind, checked]

end

end Lox.Tied
