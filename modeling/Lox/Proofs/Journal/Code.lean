import Lox.Proofs.Journal.Variables

/-!
# Running code and bound methods with a journal

`Code` is what holds when code at a place of a program runs: a variable around it waits only if it
is one of a `var` without an initial value, if the code is in this value, or if it is in a function
that was entered after the declaration.  Below are also the steps that bind methods.
-/

namespace Lox.Noted

section

variable {setting : Setting} {place : Place} {scopes : Scopes} {entered : Option Nat}
  {start finish : Moment} {journal after : Journal}

/-! ## Code that runs -/

/--
A variable of a `var` with an initial value may wait in code that is in this value, or in a
function that was entered after the declaration.
-/
def Excused (entered : Option Nat) (own : Option String) (begun : Nat) (hasInitial : Bool)
    (declared : Local) : Prop :=
  hasInitial → own = some declared.text ∨ ∃ time ∈ entered, begun < time

/-- The function that runs was entered at this time, and nothing has been cut short since. -/
def Since (entered : Option Nat) (journal : Journal) : Prop :=
  ∀ time ∈ entered, (∃ closure, journal[time]? = some (Note.enters closure)) ∧
    ∀ (cut : Nat) frame slot, journal[cut]? = some (Note.abandons frame slot) → cut < time

/-- What holds when code at a place runs in a function that was entered at some time. -/
structure Code (setting : Setting) (place : Place) (entered : Option Nat) (moment : Moment)
    (journal : Journal) : Prop where
  stands : moment.Stands setting place.around place.scopes
  knows : Knows setting journal moment
  initialises : ∀ name ∈ place.initialises, setting.names name
  since : Since entered journal
  unset : Unset journal moment (Excused entered place.initialises) place.scopes
    moment.machine.current

/-- What is known of the function that runs stays so. -/
theorem Since.mono (since : Since entered journal)
    (continues : Continues setting start journal finish after) : Since entered after := by
  intro time isTime
  rcases since time isTime with ⟨⟨closure, here⟩, cutBefore⟩
  refine ⟨⟨closure, Layout.getElem?_of_prefix continues.grows.begins here⟩, ?_⟩
  exact fun cut frame slot abandoned => cutBefore cut frame slot (continues.calm cut _ _ abandoned)

/-- A variable that is read where it may be read waits only for a good reason. -/
theorem Unset.rightly {own : Option String} {frame : FrameId}
    (unset : Unset journal start (Excused entered own) scopes frame)
    (since : Since entered journal) {found : FrameId} {index : Nat} {declared : Local}
    (shown : start.layout.Shows scopes frame found index declared)
    (isOther : own ≠ some declared.text)
    (waits : (start.machine.frames.slots found)[index]? = some .uninitialised) :
    IsWithoutValue journal found index entered := by
  rcases unset found index declared shown waits with ⟨begun, hasInitial, pending, excused⟩
  cases hasInitial with
  | false => exact .unassigned pending
  | true =>
    rcases excused rfl with isOwn | ⟨time, isTime, later⟩
    · exact absurd isOwn isOther
    · rcases since time isTime with ⟨⟨closure, here⟩, cutBefore⟩
      rw [Option.mem_def] at isTime
      subst isTime
      by_cases abandoned : .abandons found index ∈ journal
      · rcases List.mem_iff_getElem?.mp abandoned with ⟨cut, abandons⟩
        exact .cutShort pending abandons here (cutBefore cut _ _ abandons)
      · exact .running pending abandoned here later

/-- Slots that a statement adds to the current frame wait only for a `var` without a value. -/
def Settles (start : Moment) (finish : Moment) (after : Journal) : Prop :=
  ∀ index, start.machine.frames.length start.machine.current ≤ index →
    (finish.machine.frames.slots start.machine.current)[index]? = some .uninitialised →
      ∃ begun, Pending after begun (.varDecl false) start.machine.current index

namespace Settles

/-- No slot is added. -/
theorem of_row (knows : Knows setting journal start) (knowsThen : Knows setting after finish)
    (row : finish.layout.row start.machine.current = start.layout.row start.machine.current) :
    Settles start finish after := by
  intro index beyond waits
  have inside := (Array.getElem?_eq_some_iff.mp waits).1
  have length : finish.machine.frames.length start.machine.current =
      start.machine.frames.length start.machine.current := by
    rw [knows.fits.length_slots, knowsThen.fits.length_slots, row]
  rw [← length] at beyond
  exact absurd inside (Nat.not_lt.mpr beyond)

/-- One slot is added. -/
theorem of_extend (knows : Knows setting journal start) (knowsThen : Knows setting after finish)
    {declared : Local}
    (row : finish.layout.row start.machine.current =
      start.layout.row start.machine.current ++ [declared])
    (here : (finish.machine.frames.slots start.machine.current)[start.machine.frames.length
      start.machine.current]? = some .uninitialised →
        ∃ begun, Pending after begun (.varDecl false) start.machine.current
          (start.machine.frames.length start.machine.current)) :
    Settles start finish after := by
  intro index beyond waits
  have inside : index < finish.machine.frames.length start.machine.current :=
    (Array.getElem?_eq_some_iff.mp waits).1
  rw [knowsThen.fits.length_slots, row, List.length_append, List.length_singleton,
    ← knows.fits.length_slots] at inside
  have same := Nat.le_antisymm (Nat.le_of_lt_succ inside) beyond
  subst same
  exact here waits

/-- Steps before that add no slots. -/
theorem behind {middle : Moment} {between : Journal} (knows : Knows setting journal start)
    (continues : Continues setting start journal middle between)
    (still : start.layout.Still middle.layout) (isFrame : start.machine.current < start.layout.size)
    (settles : Settles middle finish after) : Settles start finish after := by
  have length : middle.machine.frames.length start.machine.current =
      start.machine.frames.length start.machine.current := by
    rw [knows.fits.length_slots, continues.knows.fits.length_slots, still _ isFrame]
  intro index beyond waits
  rw [Settles, continues.follows.current, length] at settles
  exact settles index beyond waits

end Settles

namespace Code

variable (code : Code setting place entered start journal)
include code

/-- There are as many slots as locals of the innermost scope. -/
theorem length_eq :
    (place.scopes.headD []).length = start.machine.frames.length start.machine.current := by
  rw [code.knows.fits.length_slots, code.stands.row]

/-- Code goes on after a step that adds no slots. -/
theorem follow (continues : Continues setting start journal finish after)
    (still : start.layout.Still finish.layout) : Code setting place entered finish after := by
  refine ⟨code.stands.follow continues.follows still, continues.knows, code.initialises,
    code.since.mono continues, ?_⟩
  rw [continues.follows.current]
  exact code.unset.mono code.stands.chain continues.grows

/-- Code goes on behind declarations, perhaps in the initial value of a variable. -/
theorem declare (settled : place.initialises = none)
    (continues : Continues setting start journal finish after) {locals : List Local}
    (named : Local.AreNamed setting.names locals)
    (row : finish.layout.row start.machine.current = (place.scopes.declare locals).headD [])
    {own : Option String} (ownName : ∀ name ∈ own, setting.names name)
    (further : ∀ index declared, locals[index]? = some declared →
      (finish.machine.frames.slots start.machine.current)[start.machine.frames.length
        start.machine.current + index]? = some .uninitialised →
          ∃ begun hasInitial, Pending after begun (.varDecl hasInitial) start.machine.current
            (start.machine.frames.length start.machine.current + index) ∧
              Excused entered own begun hasInitial declared) :
    Code setting { place.declare locals with initialises := own } entered finish after := by
  refine ⟨code.stands.declare continues.follows named row, continues.knows, ownName,
    code.since.mono continues, ?_⟩
  rw [continues.follows.current]
  have before : Unset after finish (Excused entered own) place.scopes start.machine.current := by
    apply (code.unset.mono code.stands.chain continues.grows).imp
    intro begun hasInitial declared excused has
    rcases excused has with isOwn | later
    · rw [settled] at isOwn
      cases isOwn
    · exact .inr later
  apply before.declare
  rw [code.length_eq]
  exact further

/-- The next statement runs. -/
theorem next (settled : place.initialises = none)
    (continues : Continues setting start journal finish after) {locals : List Local}
    (named : Local.AreNamed setting.names locals)
    (declares : Watched.Declares start place.scopes locals finish)
    (settles : Settles start finish after) :
    Code setting (place.declare locals) entered finish after := by
  have noName : ∀ name ∈ (none : Option String), setting.names name := by
    intro name impossible
    cases impossible
  have goesOn := code.declare settled continues named declares.row noName ?_
  · rcases place with ⟨role, around, initialises, scopes⟩
    cases settled
    exact goesOn
  · intro index declared _ waits
    rcases settles _ (Nat.le_add_right _ _) waits with ⟨begun, pending⟩
    exact ⟨begun, false, pending, fun impossible => by cases impossible⟩

end Code

/-! ## Methods -/

/-- An instance method that is bound may be called. -/
theorem notes_bindMethod (knows : Knows setting journal start) {target : Instance}
    {method : Closure} (known : IsKnown setting journal start (.object target))
    (ready : IsReady setting journal start [[.this]] method) :
    Notes setting (Watched.bindMethod target method) (Step.bindMethod target method) start journal
      fun bound finish after => IsCallable setting after finish bound ∧
        bound.behaviour = method.behaviour := by
  rcases ready with ⟨place, chain, unset, body⟩
  have hold : List.Forall₂ (fun declared value =>
      Slot.Fits setting start.layout declared (.initialised value)) [.this] [.object target] := by
    constructor
    · constructor
      · rintro value ⟨⟩
        exact IsKnown.fits known
      · exact fun _ => ⟨target, rfl⟩
    · exact .nil
  apply (notes_newFrame knows chain [.this] rfl hold (List.forall_mem_singleton.mpr known)).bind
  rintro frame middle between continues ⟨frameIs, layout, inFrame, slots⟩
  apply Notes.last
  apply (notes_newClosure continues.knows frame method.name method.behaviour).bind
  rintro bound finish _ continuesThen ⟨environment, behaviour, frames, sameLayout, rfl⟩
  have holds : finish.machine.frames.slots bound.environment =
      #[.initialised (.object target)] := by
    rw [environment, frames]
    exact Array.toList_inj.mp slots
  have row : finish.layout.row bound.environment = [.this] := by
    rw [environment, sameLayout, layout, frameIs]
    exact start.layout.row_add_self _ _
  have enclosed : finish.layout.enclosing bound.environment = some method.environment := by
    rw [environment, sameLayout, layout, frameIs]
    exact if_pos rfl
  have right : (Note.binds bound target).IsRight between := trivial
  have continuesLast := continues_note continuesThen.knows right (by simp)
    (by rintro _ _ ⟨⟩; exact ⟨holds, row⟩)
  have grows := (continues.grows.trans continuesThen.grows).trans continuesLast.grows
  apply Notes.jot continuesLast
  refine .pure continuesLast.knows ⟨⟨?_, ?_⟩, behaviour⟩
  · refine ⟨{ place with scopes := [.this] :: place.scopes }, ?_, ?_, ?_⟩
    · rw [environment, sameLayout]
      exact inFrame
    · apply (unset.mono chain grows).cons enclosed
      intro index isOnly
      rw [holds]
      cases Nat.lt_one_iff.mp isOnly
      simp
    · rw [behaviour]
      exact body
  · exact fun _ _ => ⟨target, by simp⟩

/-- A function value whose function may be called. -/
theorem notes_bindMethod_function (knows : Knows setting journal start) {target : Instance}
    {method : Closure} (known : IsKnown setting journal start (.object target))
    (ready : IsReady setting journal start [[.this]] method) :
    Notes setting (do return .function (← Watched.bindMethod target method))
      (do return .function (← Step.bindMethod target method)) start journal (Known setting) := by
  apply (notes_bindMethod knows known ready).bind
  intro bound finish after continues callable
  exact .pure continues.knows callable.1

theorem notes_property (knows : Knows setting journal start) {target : Value}
    (known : IsKnown setting journal start target) (name : Name) :
    Notes setting (Watched.property target name) (Step.property target name) start journal
      (Known setting) := by
  cases target with
  | object target =>
    apply (notes_field? knows target name.text).bind
    rintro value? _ _ - ⟨rfl, rfl, found⟩
    cases value? with
    | some value => exact .pure knows (found value rfl)
    | none =>
      dsimp only
      cases here : target.ofClass.method? name.text with
      | none => exact .fail knows name.line rfl
      | some method =>
        exact notes_bindMethod_function knows known (Class.All.method? known here)
  | type target =>
    rw [Watched.property, Step.property]
    cases here : target.classMethod? name.text with
    | none => exact .fail knows name.line rfl
    | some method => exact .pure knows (Class.All.classMethod? known here)
  | _ => exact .fail knows name.line rfl

/-- A method of the superclass is bound to the instance there. -/
theorem notes_superMethod (knows : Knows setting journal start) (id line : Nat) (method : Name) :
    Notes setting (Watched.superMethod setting.addresses id line method)
      (Step.superMethod setting.addresses id line method) start journal (Known setting) := by
  have taken := Lox.Step.superMethod_eq setting.addresses id line method start.machine
  have failed : ∀ {line' fault},
      Lox.Step.superMethod setting.addresses id line method start.machine =
        .error (.fault ⟨line', fault⟩) start.machine →
      fault.isUnset = false →
      Notes setting (Watched.superMethod setting.addresses id line method)
        (Step.ordinary (.superMethod setting.addresses id line method)) start journal
        (Known setting) := by
    intro line' fault failed isOther
    have told : Notes setting (.quiet (.superMethod setting.addresses id line method))
        (Step.ordinary (.superMethod setting.addresses id line method)) start journal
        (Known setting) :=
      .of_error knows failed (by rw [Step.ordinary, failed]) (.of_other isOther)
    exact told.congr rfl (Watched.events_superMethod failed) rfl
  apply Notes.look
  cases superclassHere : Lox.Step.superclass? setting.addresses id start.machine with
  | none =>
    simp only [superclassHere] at taken
    exact failed taken rfl
  | some superclass =>
    cases receiverHere : Lox.Step.receiver? setting.addresses id start.machine with
    | none =>
      simp only [superclassHere, receiverHere] at taken
      exact failed taken rfl
    | some target =>
      dsimp only
      cases found : superclass.method? method.text with
      | none =>
        simp only [superclassHere, receiverHere, found] at taken
        exact failed taken rfl
      | some bound =>
        simp only [superclassHere, receiverHere, found] at taken
        have superclassKnown : superclass.All (IsCallable setting journal start)
            (IsReady setting journal start [[.this]]) := by
          rw [Lox.Step.superclass?] at superclassHere
          split at superclassHere
          · cases superclassHere
          · split at superclassHere
            · next here =>
              cases superclassHere
              exact knows.functions.get? here
            · cases superclassHere
        have receiverKnown : IsKnown setting journal start (.object target) := by
          rw [Lox.Step.receiver?] at receiverHere
          split at receiverHere
          · split at receiverHere
            · next here =>
              cases receiverHere
              exact knows.functions.get? here
            · cases receiverHere
          · cases receiverHere
        apply (notes_bindMethod_function knows receiverKnown
          (Class.All.method? superclassKnown found)).congr taken _ rfl
        simp only [Watched.superMethod, taken]
        rfl

end

end Lox.Noted
