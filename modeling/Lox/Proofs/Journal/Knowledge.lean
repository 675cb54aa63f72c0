import Lox.Proofs.Journal.Evaluation
import Lox.Proofs.Receiver.Functions
import Lox.Proofs.Scope.Check

/-!
# What a journal tells

A variable without a value is waiting: it was declared, and nothing gave it a value since.
`Unset` says why the variables around a frame may wait.  `Knows` is the invariant of every
execution: around each function in the machine only variables of `var` wait, a frame that holds
`this` holds what is noted of it, and each note is right given those before it.
-/

namespace Lox

/-! ## Locals around a frame -/

/-- A frame on the way outward has a slot for a local of the scope that it is the frame of. -/
inductive Layout.Shows (layout : Layout Local) :
    Scopes → FrameId → (found : FrameId) → (index : Nat) → Local → Prop where
  | here {scope : List Local} {scopes : Scopes} {frame : FrameId} {index : Nat} {declared : Local}
      (member : scope[index]? = some declared) :
      Shows layout (scope :: scopes) frame frame index declared
  | further {scope : List Local} {scopes : Scopes} {frame outer found : FrameId} {index : Nat}
      {declared : Local} (enclosed : layout.enclosing frame = some outer)
      (rest : Shows layout scopes outer found index declared) :
      Shows layout (scope :: scopes) frame found index declared

namespace Layout.Shows

variable {layout later : Layout Local} {scopes : Scopes} {frame found : FrameId} {index : Nat}
  {declared : Local}

/-- The slot of a local is for this local. -/
theorem inRow (shown : layout.Shows scopes frame found index declared)
    (chain : layout.Chain scopes frame) :
    found < layout.size ∧ (layout.row found)[index]? = some declared := by
  induction shown with
  | here member =>
    cases chain with
    | frame isFrame _ _ begins => exact ⟨isFrame, getElem?_of_prefix begins member⟩
  | further enclosed _ induction =>
    cases chain with
    | frame _ _ enclosed' _ further =>
      cases enclosed.symm.trans enclosed'
      exact induction further

/-- Frames that exist do not move. -/
theorem earlier (shown : later.Shows scopes frame found index declared)
    (chain : layout.Chain scopes frame) (ordered : layout.Le later) :
    layout.Shows scopes frame found index declared := by
  induction shown with
  | here member => exact .here member
  | further enclosed _ induction =>
    cases chain with
    | frame isFrame _ enclosed' _ further =>
      cases enclosed.symm.trans ((ordered.enclosing _ isFrame).trans enclosed')
      exact .further enclosed' (induction further)

/-- What is shown behind declarations, was before or is one of these. -/
theorem of_declare {locals : List Local}
    (shown : layout.Shows (scopes.declare locals) frame found index declared) :
    layout.Shows scopes frame found index declared ∨
      found = frame ∧ ∃ place, index = (scopes.headD []).length + place ∧
        locals[place]? = some declared := by
  cases scopes with
  | nil => cases shown
  | cons scope outer =>
    cases shown with
    | here member =>
      rw [List.getElem?_append] at member
      split at member
      · exact .inl (.here member)
      · next beyond =>
        refine .inr ⟨rfl, index - scope.length, ?_, member⟩
        exact (Nat.add_sub_of_le (Nat.le_of_not_lt beyond)).symm
    | further enclosed rest => exact .inl (.further enclosed rest)

end Layout.Shows

/-- What lies so many frames further out is the frame of the scope there. -/
theorem Layout.Chain.shows {layout : Layout Local} {scopes : Scopes} {frame found : FrameId}
    (chain : layout.Chain scopes frame) {frames : Frames Value}
    (same : layout.enclosing = frames.enclosing?) {depth index : Nat} {scope : List Local}
    {declared : Local} (further : frames.ancestor? frame depth = some found)
    (here : scopes[depth]? = some scope) (member : scope[index]? = some declared) :
    layout.Shows scopes frame found index declared := by
  induction chain generalizing depth with
  | root => cases here
  | frame _ _ enclosed _ _ induction =>
    cases depth with
    | zero =>
      cases here
      cases further
      exact .here member
    | succ depth =>
      have enclosed' := enclosed
      rw [same] at enclosed'
      simp only [Frames.ancestor?, enclosed'] at further
      exact .further enclosed (induction further (by simpa using here))

/-- A fault is one of a variable without a value. -/
def RuntimeFault.isUnset : RuntimeFault → Bool
  | uninitialisedVariable _ => true
  | _ => false

namespace Noted

/-! ## Waiting variables -/

/--
When so many things had happened a declaration got a slot, and nothing has given the variable
in it a value since.
-/
def Pending (journal : Journal) (begun : Nat) (declarer : Declarer) (frame : FrameId)
    (slot : Nat) : Prop :=
  ∃ before since, journal = before ++ .declares declarer frame slot :: since ∧
    before.length = begun ∧ .gives frame slot ∉ since

namespace Pending

variable {journal : Journal} {begun : Nat} {declarer : Declarer} {frame : FrameId} {slot : Nat}

theorem begun_lt (pending : Pending journal begun declarer frame slot) :
    begun < journal.length := by
  rcases pending with ⟨before, since, rfl, rfl, -⟩
  simp

theorem append (pending : Pending journal begun declarer frame slot) {notes : List Note}
    (others : .gives frame slot ∉ notes) :
    Pending (journal ++ notes) begun declarer frame slot := by
  rcases pending with ⟨before, since, rfl, length, without⟩
  refine ⟨before, since ++ notes, by simp, length, ?_⟩
  rw [List.mem_append, not_or]
  exact ⟨without, others⟩

theorem mem (pending : Pending journal begun declarer frame slot) :
    .declares declarer frame slot ∈ journal := by
  rcases pending with ⟨before, since, rfl, -, -⟩
  simp

/-- A variable waits from its declaration on. -/
theorem last (journal : Journal) (declarer : Declarer) (frame : FrameId) (slot : Nat) :
    Pending (journal ++ [.declares declarer frame slot]) journal.length declarer frame slot :=
  ⟨journal, [], rfl, rfl, by simp⟩

end Pending

/-! ## Notes that are right -/

/--
Why a variable in a slot may have no value when it is read in a function that was entered at some
time: it was declared by a `var`, and nothing has given it a value since.  If the `var` has an
initial value, then either this is still being evaluated, and the function was entered meanwhile,
or its evaluation was cut short, and the function was entered afterwards.
-/
inductive IsWithoutValue (past : Journal) (frame : FrameId) (slot : Nat) : Option Nat → Prop where
  | unassigned {begun : Nat} {entered : Option Nat}
      (pending : Pending past begun (.varDecl false) frame slot) :
      IsWithoutValue past frame slot entered
  | running {begun time : Nat} {closure : Closure}
      (pending : Pending past begun (.varDecl true) frame slot)
      (goesOn : .abandons frame slot ∉ past) (enters : past[time]? = some (.enters closure))
      (meanwhile : begun < time) : IsWithoutValue past frame slot (some time)
  | cutShort {begun cut time : Nat} {closure : Closure}
      (pending : Pending past begun (.varDecl true) frame slot)
      (abandons : past[cut]? = some (.abandons frame slot))
      (enters : past[time]? = some (.enters closure)) (afterwards : cut < time) :
      IsWithoutValue past frame slot (some time)

/-- It is by a `var` that a variable without a value was declared. -/
theorem IsWithoutValue.declares {past : Journal} {frame : FrameId} {slot : Nat}
    {entered : Option Nat} (unset : IsWithoutValue past frame slot entered) :
    ∃ hasInitial, .declares (.varDecl hasInitial) frame slot ∈ past := by
  cases unset with
  | unassigned pending => exact ⟨false, pending.mem⟩
  | running pending => exact ⟨true, pending.mem⟩
  | cutShort pending => exact ⟨true, pending.mem⟩

/-- What a journal says is right, given what happened before. -/
def Note.IsRight (past : Journal) : Note → Prop
  | .misses frame slot entered => IsWithoutValue past frame slot entered ∧
    ∀ declarer, .declares declarer frame slot ∈ past → ∃ hasInitial, declarer = .varDecl hasInitial
  | .makes type =>
    (∀ (name : String) (method : Closure), type.own.methods[name]? = some method →
      ∃ definition, method.behaviour = .body definition (name == "init")) ∧
    ∀ (name : String) (method : Closure), type.own.classMethods[name]? = some method →
      ∃ definition, method.behaviour = .body definition false
  | .yields closure flow value =>
    ∀ definition isInitializer, closure.behaviour = .body definition isInitializer →
      if isInitializer then
        (∃ target, .binds closure target ∈ past) ∧
          ∀ target, .binds closure target ∈ past → value = .object target
      else
        value = flow.callResult
  | _ => True

/-- Each note of a journal is right. -/
def AreRight (journal : Journal) : Prop :=
  ∀ past note future, journal = past ++ note :: future → note.IsRight past

theorem areRight_nil : AreRight [] := by
  intro past note future impossible
  simp at impossible

theorem AreRight.append {journal : Journal} (right : AreRight journal) {notes : List Note}
    (each : ∀ before note after, notes = before ++ note :: after →
      note.IsRight (journal ++ before)) : AreRight (journal ++ notes) := by
  intro past note future same
  rcases List.append_eq_append_iff.mp same with ⟨between, rfl, rest⟩ | ⟨between, earlier, rest⟩
  · exact each between note future rest
  · cases between with
    | nil =>
      have begins := each [] note future rest.symm
      rwa [List.append_nil, earlier, List.append_nil] at begins
    | cons first others =>
      cases rest
      exact right past note others earlier

theorem AreRight.append_note {journal : Journal} (right : AreRight journal) {note : Note}
    (holds : note.IsRight journal) : AreRight (journal ++ [note]) := by
  apply right.append
  intro before other after split
  rcases List.singleton_eq_append_iff.mp split with ⟨rfl, rest⟩ | ⟨-, impossible⟩
  · cases rest
    rwa [List.append_nil]
  · cases impossible

/-! ## Faults that a journal explains -/

/-- A variable is read that has no value. -/
def Note.IsMiss (name : String) : Note → Prop
  | .misses _ _ _ => True
  | .missesGlobal other => other = name
  | _ => False

/--
If a run stops since a variable has no value, then the last thing that happened is that it was
read, but for initial values that are cut short.
-/
def Explains (journal : Journal) (stop : Stop) : Prop :=
  ∀ line name, stop = .fault ⟨line, .uninitialisedVariable name⟩ →
    ∃ past note cuts, journal = past ++ note :: cuts ∧ note.IsMiss name ∧
      ∀ cut ∈ cuts, ∃ frame slot, cut = .abandons frame slot

namespace Explains

variable {journal : Journal}

/-- Another fault needs no reason. -/
theorem of_other {line : Nat} {fault : RuntimeFault} (isOther : fault.isUnset = false) :
    Explains journal (.fault ⟨line, fault⟩) := by
  rintro _ name ⟨⟩
  cases isOther

theorem outOfFuel : Explains journal .outOfFuel := by
  intro line name impossible
  cases impossible

/-- A variable was just read that has no value. -/
theorem of_miss {note : Note} {name : String} (isMiss : note.IsMiss name) (line : Nat) :
    Explains (journal ++ [note]) (.fault ⟨line, .uninitialisedVariable name⟩) := by
  rintro _ _ ⟨⟩
  exact ⟨journal, note, [], rfl, isMiss, List.forall_mem_nil _⟩

/-- An initial value is cut short. -/
theorem abandon {stop : Stop} (explains : Explains journal stop) (frame : FrameId) (slot : Nat) :
    Explains (journal ++ [.abandons frame slot]) stop := by
  intro line name same
  rcases explains line name same with ⟨past, note, cuts, rfl, isMiss, areCuts⟩
  refine ⟨past, note, cuts ++ [.abandons frame slot], by simp, isMiss, ?_⟩
  rw [List.forall_mem_append, List.forall_mem_singleton]
  exact ⟨areCuts, frame, slot, rfl⟩

end Explains

/-! ## Moments with a journal -/

/-- Why the variables around a frame may wait: each is one of a `var`, and it is excused. -/
def Unset (journal : Journal) (moment : Moment) (excused : Nat → Bool → Local → Prop)
    (scopes : Scopes) (frame : FrameId) : Prop :=
  ∀ found index declared, moment.layout.Shows scopes frame found index declared →
    (moment.machine.frames.slots found)[index]? = some .uninitialised →
      ∃ begun hasInitial, Pending journal begun (.varDecl hasInitial) found index ∧
        excused begun hasInitial declared

/--
One moment after another: frames and the journal only grow, and a variable that waits has waited
before, and nothing gave it a value in between.
-/
structure Grows (start : Moment) (journal : Journal) (finish : Moment) (after : Journal) :
    Prop where
  ordered : start.layout.Le finish.layout
  begins : journal <+: after
  waits : ∀ frame < start.layout.size, ∀ index < (start.layout.row frame).length,
    (finish.machine.frames.slots frame)[index]? = some .uninitialised →
      (start.machine.frames.slots frame)[index]? = some .uninitialised ∧
        ∀ notes, after = journal ++ notes → .gives frame index ∉ notes

namespace Grows

variable {start middle finish : Moment} {journal between after : Journal}

theorem refl (start : Moment) (journal : Journal) : Grows start journal start journal := by
  refine ⟨.refl _, List.prefix_refl _, fun _ _ _ _ waits => ⟨waits, ?_⟩⟩
  intro notes same
  rw [List.self_eq_append_right.mp same]
  exact List.not_mem_nil

theorem trans (before : Grows start journal middle between)
    (later : Grows middle between finish after) : Grows start journal finish after := by
  refine ⟨before.ordered.trans later.ordered, before.begins.trans later.begins, ?_⟩
  intro frame isFrame index inRow waits
  have isFrameThen := Nat.lt_of_lt_of_le isFrame before.ordered.size
  have inRowThen := Nat.lt_of_lt_of_le inRow (before.ordered.row frame isFrame).length_le
  rcases later.waits frame isFrameThen index inRowThen waits with ⟨waitsThen, without'⟩
  rcases before.waits frame isFrame index inRow waitsThen with ⟨waitsFirst, without⟩
  refine ⟨waitsFirst, ?_⟩
  rintro notes rfl
  rcases before.begins with ⟨first, rfl⟩
  rcases later.begins with ⟨second, same⟩
  rw [List.append_assoc, List.append_cancel_left_eq] at same
  subst same
  rw [List.mem_append, not_or]
  refine ⟨without first rfl, without' second ?_⟩
  rw [List.append_assoc]

/-- Nothing is said of values, and frames that exist keep their slots. -/
theorem of_slots (ordered : start.layout.Le finish.layout)
    (slots : ∀ frame < start.layout.size, ∀ index < (start.layout.row frame).length,
      (finish.machine.frames.slots frame)[index]? = (start.machine.frames.slots frame)[index]?)
    {notes : List Note} (silent : ∀ frame slot, .gives frame slot ∉ notes) :
    Grows start journal finish (journal ++ notes) := by
  refine ⟨ordered, List.prefix_append _ _, ?_⟩
  intro frame isFrame index inRow waits
  rw [slots frame isFrame index inRow] at waits
  refine ⟨waits, ?_⟩
  intro others same
  rw [← List.append_cancel_left same]
  exact silent frame index

/-- The frames are the same. -/
theorem of_frames (ordered : start.layout.Le finish.layout)
    (frames : finish.machine.frames = start.machine.frames) :
    Grows start journal finish journal := by
  have grows : Grows start journal finish (journal ++ []) := by
    apply of_slots ordered _ (by simp)
    intro frame _ index _
    rw [frames]
  rwa [List.append_nil] at grows

/-- Other code runs. -/
theorem goTo (start : Moment) (journal : Journal) (frame : FrameId) :
    Grows start journal ⟨start.history, { start.machine with current := frame }⟩ journal :=
  of_frames ⟨Nat.le_refl _, fun _ _ => rfl, fun _ _ => List.prefix_refl _⟩ rfl

/-- A variable that waits all the time. -/
theorem pending (grows : Grows start journal finish after) {frame : FrameId}
    (isFrame : frame < start.layout.size) {index : Nat}
    (inRow : index < (start.layout.row frame).length)
    (waits : (finish.machine.frames.slots frame)[index]? = some .uninitialised) {begun : Nat}
    {declarer : Declarer} (pending : Pending journal begun declarer frame index) :
    Pending after begun declarer frame index := by
  rcases grows.begins with ⟨notes, rfl⟩
  exact pending.append ((grows.waits frame isFrame index inRow waits).2 notes rfl)

end Grows

namespace Unset

variable {start finish : Moment} {journal after : Journal}
  {excused excused' : Nat → Bool → Local → Prop} {scope : List Local} {scopes : Scopes}
  {frame outer : FrameId}

theorem imp (unset : Unset journal start excused scopes frame)
    (weaker : ∀ begun hasInitial declared, excused begun hasInitial declared →
      excused' begun hasInitial declared) : Unset journal start excused' scopes frame := by
  intro found index declared shown waits
  rcases unset found index declared shown waits with ⟨begun, hasInitial, pending, holds⟩
  exact ⟨begun, hasInitial, pending, weaker _ _ _ holds⟩

theorem mono (unset : Unset journal start excused scopes frame)
    (chain : start.layout.Chain scopes frame) (grows : Grows start journal finish after) :
    Unset after finish excused scopes frame := by
  intro found index declared shown waits
  have before := shown.earlier chain grows.ordered
  rcases before.inRow chain with ⟨isFrame, inRow⟩
  have inRow' := (List.getElem?_eq_some_iff.mp inRow).1
  have waitsBefore := (grows.waits found isFrame index inRow' waits).1
  rcases unset found index declared before waitsBefore with ⟨begun, hasInitial, pending, holds⟩
  exact ⟨begun, hasInitial, grows.pending isFrame inRow' waits pending, holds⟩

/-- A scope may be opened in which no variable waits. -/
theorem cons (unset : Unset journal start excused scopes outer)
    (enclosed : start.layout.enclosing frame = some outer)
    (settled : ∀ index < scope.length,
      (start.machine.frames.slots frame)[index]? ≠ some .uninitialised) :
    Unset journal start excused (scope :: scopes) frame := by
  intro found index declared shown waits
  cases shown with
  | here member => exact absurd waits (settled index (List.getElem?_eq_some_iff.mp member).1)
  | further enclosed' rest =>
    cases enclosed.symm.trans enclosed'
    exact unset found index declared rest waits

/-- Further locals may be declared in a scope. -/
theorem declare (unset : Unset journal start excused scopes frame) {locals : List Local}
    (further : ∀ index declared, locals[index]? = some declared →
      (start.machine.frames.slots frame)[(scopes.headD []).length + index]? =
          some .uninitialised →
        ∃ begun hasInitial,
          Pending journal begun (.varDecl hasInitial) frame ((scopes.headD []).length + index) ∧
            excused begun hasInitial declared) :
    Unset journal start excused (scopes.declare locals) frame := by
  intro found index declared shown waits
  rcases shown.of_declare with before | ⟨rfl, place, rfl, here⟩
  · exact unset found index declared before waits
  · exact further place declared here waits

/-- Nothing is excused outside of all scopes. -/
theorem nil (journal : Journal) (start : Moment) (excused : Nat → Bool → Local → Prop)
    (frame : FrameId) : Unset journal start excused [] frame := by
  intro found index declared impossible
  cases impossible

end Unset

/-! ## Functions that may be called -/

section

variable (setting : Setting) (journal : Journal) (moment : Moment)

/--
A function, behind scopes that are added when it is bound, obeys the rules on scopes, and only
variables of `var` wait around it.
-/
def IsReady (added : Scopes) (closure : Closure) : Prop :=
  ∃ place : Place, moment.layout.Chain place.scopes closure.environment ∧
    Unset journal moment (fun _ _ _ => True) place.scopes closure.environment ∧
    ∀ definition isInitializer, closure.behaviour = .body definition isInitializer →
      definition.Fits setting place.around (added ++ place.scopes) ∧
      ∃ role, ∀ site ∈ definition.sites role { place with scopes := added ++ place.scopes },
        site.IsSound

/-- A function that may be called; if it is an initialiser, then it is bound to an instance. -/
structure IsCallable (closure : Closure) : Prop where
  ready : IsReady setting journal moment [] closure
  bound : ∀ definition, closure.behaviour = .body definition true →
    ∃ target, .binds closure target ∈ journal

/-- The functions in a value may be called, or bound to instances. -/
abbrev IsKnown (value : Value) : Prop :=
  value.All (IsCallable setting journal moment) (IsReady setting journal moment [[.this]])

/-- What holds at every moment of every execution. -/
structure Knows : Prop where
  fits : moment.Fits setting
  functions : moment.machine.All (IsCallable setting journal moment)
    (IsReady setting journal moment [[.this]])
  /-- The frame of a bound method holds the instance, in its only slot. -/
  binds : ∀ bound target, .binds bound target ∈ journal →
    moment.machine.frames.slots bound.environment = #[.initialised (.object target)] ∧
      moment.layout.row bound.environment = [.this]
  /-- Each slot is declared once. -/
  declared : ∀ declarer frame slot, .declares declarer frame slot ∈ journal →
    slot < moment.machine.frames.length frame
  unique : ∀ first second frame slot, .declares first frame slot ∈ journal →
    .declares second frame slot ∈ journal → first = second
  right : AreRight journal

end

section

variable {setting setting' : Setting} {start finish : Moment} {journal after : Journal}

theorem IsReady.fits {added : Scopes} {closure : Closure}
    (ready : IsReady setting journal start added closure) :
    closure.Fits setting start.layout added := by
  rcases ready with ⟨place, chain, -, body⟩
  exact ⟨place.around, place.scopes, chain,
    fun definition isInitializer behaves => (body definition isInitializer behaves).1⟩

theorem IsKnown.fits {value : Value} (known : IsKnown setting journal start value) :
    value.Fits setting start.layout := by
  have ofClass : ∀ type : Class, type.All (IsCallable setting journal start)
      (IsReady setting journal start [[.this]]) → type.Fits setting start.layout := by
    intro type all body member
    constructor
    · exact fun name method found => ((all body member).methods name method found).fits
    · exact fun name method found => ((all body member).classMethods name method found).ready.fits
  cases value with
  | function closure => exact IsReady.fits known.ready
  | type type => exact ofClass type known
  | object target => exact ofClass target.ofClass known
  | _ => trivial

/-- More programs have been read. -/
theorem IsReady.read {added : Scopes} {closure : Closure}
    (ready : IsReady setting journal start added closure) (read : setting.Le setting') :
    IsReady setting' journal start added closure := by
  rcases ready with ⟨place, chain, unset, body⟩
  refine ⟨place, chain, unset, ?_⟩
  intro definition isInitializer behaves
  rcases body definition isInitializer behaves with ⟨fits, sound⟩
  exact ⟨fits.mono read, sound⟩

variable (grows : Grows start journal finish after)
include grows

theorem IsReady.mono {added : Scopes} {closure : Closure}
    (ready : IsReady setting journal start added closure) :
    IsReady setting after finish added closure := by
  rcases ready with ⟨place, chain, unset, body⟩
  exact ⟨place, chain.mono grows.ordered, unset.mono chain grows, body⟩

theorem IsCallable.mono {closure : Closure} (callable : IsCallable setting journal start closure) :
    IsCallable setting after finish closure := by
  refine ⟨callable.ready.mono grows, ?_⟩
  intro definition behaves
  rcases callable.bound definition behaves with ⟨target, noted⟩
  exact ⟨target, grows.begins.subset noted⟩

theorem IsKnown.mono {value : Value} (known : IsKnown setting journal start value) :
    IsKnown setting after finish value :=
  Value.All.imp (fun _ callable => callable.mono grows) (fun _ ready => ready.mono grows) known

theorem Grows.functions {machine : Machine}
    (all : machine.All (IsCallable setting journal start)
      (IsReady setting journal start [[.this]])) :
    machine.All (IsCallable setting after finish) (IsReady setting after finish [[.this]]) :=
  all.imp (fun _ callable => callable.mono grows) (fun _ ready => ready.mono grows)

end

/-- Frames are the same, and what they are for. -/
theorem Knows.quiet {setting : Setting} {journal : Journal} {start finish : Moment}
    (knows : Knows setting journal start) (fits : finish.Fits setting)
    (grows : Grows start journal finish journal)
    (frames : finish.machine.frames = start.machine.frames)
    (row : finish.layout.row = start.layout.row)
    (functions : finish.machine.All (IsCallable setting journal start)
      (IsReady setting journal start [[.this]])) : Knows setting journal finish := by
  refine ⟨fits, grows.functions functions, ?_, ?_, knows.unique, knows.right⟩
  · intro bound target noted
    rw [frames, row]
    exact knows.binds bound target noted
  · intro declarer frame slot noted
    rw [frames]
    exact knows.declared declarer frame slot noted

/-- Other code runs. -/
theorem Knows.goTo {setting : Setting} {journal : Journal} {moment : Moment}
    (knows : Knows setting journal moment) (frame : FrameId) :
    Knows setting journal ⟨moment.history, { moment.machine with current := frame }⟩ := by
  have fits : Moment.Fits setting ⟨moment.history, { moment.machine with current := frame }⟩ :=
    knows.fits.congr rfl rfl rfl
  exact knows.quiet fits (Grows.goTo moment journal frame) rfl rfl
    (knows.functions.congr rfl rfl rfl)

/-- More programs have been read. -/
theorem Knows.read {setting setting' : Setting} {journal : Journal} {moment : Moment}
    (knows : Knows setting journal moment) (read : setting.Le setting') :
    Knows setting' journal moment := by
  refine ⟨knows.fits.mono read, ?_, knows.binds, knows.declared, knows.unique, knows.right⟩
  exact knows.functions.imp (fun _ callable => ⟨callable.ready.read read, callable.bound⟩)
    (fun _ ready => ready.read read)

end Noted

end Lox
