import Lox.Proofs.Journal.Steps

/-!
# Frames and variables with a journal

The steps that create frames and slots, give variables values and read them.  A frame that holds
`this` gets no other slot and no other value, since no name is spelt like it.
-/

namespace Lox

/-- A variable that waits when another one got a value has waited before. -/
theorem Frames.waits_write {frames : Frames Value} {frame other : FrameId} {index place : Nat}
    {value : Value}
    (waits : ((frames.write frame index value).slots other)[place]? = some .uninitialised) :
    (frames.slots other)[place]? = some .uninitialised ∧ ¬ (other = frame ∧ place = index) := by
  rw [slots_write] at waits
  split at waits
  · rw [Array.getElem?_modify] at waits
    split at waits
    · rcases Option.map_eq_some_iff.mp waits with ⟨_, -, impossible⟩
      cases impossible
    · next isOther => exact ⟨waits, fun same => isOther same.2.symm⟩
  · next isOther => exact ⟨waits, fun same => isOther same.1.symm⟩

namespace Noted

/-- What is noted of the slots of a new frame. -/
theorem mem_declarations {frame : FrameId} {first : Nat} {declarers : List Declarer} {note : Note}
    (member : note ∈ Step.declarations frame first declarers) :
    ∃ index declarer, declarers[index]? = some declarer ∧
      note = .declares declarer frame (first + index) := by
  induction declarers generalizing first with
  | nil => cases member
  | cons declarer others induction =>
    rcases List.mem_cons.mp member with rfl | later
    · exact ⟨0, declarer, rfl, rfl⟩
    · rcases induction later with ⟨index, other, here, rfl⟩
      refine ⟨index + 1, other, by simpa using here, ?_⟩
      rw [Nat.add_right_comm]
      rfl

/-- Of a new frame only declarations are noted. -/
theorem exists_declares {frame : FrameId} {declarers : List Declarer} {note : Note}
    (member : note ∈ Step.declarations frame 0 declarers) :
    ∃ declarer slot, note = .declares declarer frame slot := by
  rcases mem_declarations member with ⟨index, declarer, -, same⟩
  exact ⟨declarer, _, same⟩

/-- A slot of a new frame is declared once. -/
theorem declarations_unique {frame other : FrameId} {slot : Nat} {declarers : List Declarer}
    {first second : Declarer}
    (firstNoted : .declares first other slot ∈ Step.declarations frame 0 declarers)
    (secondNoted : .declares second other slot ∈ Step.declarations frame 0 declarers) :
    first = second := by
  rcases mem_declarations firstNoted with ⟨index, found, here, same⟩
  rcases mem_declarations secondNoted with ⟨index', found', here', same'⟩
  simp only [Note.declares.injEq, Nat.zero_add] at same same'
  rcases same with ⟨rfl, rfl, rfl⟩
  rcases same' with ⟨rfl, -, rfl⟩
  exact Option.some.inj (here.symm.trans here')

section

variable {setting : Setting} {around : Surroundings} {scopes : Scopes} {start : Moment}
  {journal : Journal}

/-! ## What keeps the invariant -/

/-- A bound method keeps a frame that exists. -/
theorem Knows.environment_lt (knows : Knows setting journal start) {bound : Closure}
    {target : Instance} (noted : .binds bound target ∈ journal) :
    bound.environment < start.machine.frames.size := by
  by_contra beyond
  have empty := start.machine.frames.slots_eq_empty (Nat.le_of_not_lt beyond)
  rw [(knows.binds bound target noted).1] at empty
  cases empty

/-- The machine and the journal grow; declarations that are noted got new slots. -/
theorem Knows.grow (knows : Knows setting journal start) {finish : Moment} {notes : List Note}
    (fits : finish.Fits setting)
    (functions : finish.machine.All (IsCallable setting (journal ++ notes) finish)
      (IsReady setting (journal ++ notes) finish [[.this]]))
    (longer : ∀ frame, start.machine.frames.length frame ≤ finish.machine.frames.length frame)
    (binds : ∀ bound target, .binds bound target ∈ journal ++ notes →
      finish.machine.frames.slots bound.environment = #[.initialised (.object target)] ∧
        finish.layout.row bound.environment = [.this])
    (areNew : ∀ declarer frame slot, .declares declarer frame slot ∈ notes →
      start.machine.frames.length frame ≤ slot ∧ slot < finish.machine.frames.length frame)
    (distinct : ∀ first second frame slot, .declares first frame slot ∈ notes →
      .declares second frame slot ∈ notes → first = second)
    (right : AreRight (journal ++ notes)) : Knows setting (journal ++ notes) finish := by
  refine ⟨fits, functions, binds, ?_, ?_, right⟩
  · intro declarer frame slot noted
    rcases List.mem_append.mp noted with before | isNew
    · exact Nat.lt_of_lt_of_le (knows.declared declarer frame slot before) (longer frame)
    · exact (areNew declarer frame slot isNew).2
  · intro first second frame slot firstNoted secondNoted
    have separate : ∀ {one other : Declarer}, .declares one frame slot ∈ journal →
        .declares other frame slot ∉ notes := by
      intro one other before isNew
      have isOld := knows.declared one frame slot before
      exact Nat.not_lt.mpr (areNew other frame slot isNew).1 isOld
    rcases List.mem_append.mp firstNoted with firstBefore | firstNew
    · rcases List.mem_append.mp secondNoted with secondBefore | secondNew
      · exact knows.unique first second frame slot firstBefore secondBefore
      · exact absurd secondNew (separate firstBefore)
    · rcases List.mem_append.mp secondNoted with secondBefore | secondNew
      · exact absurd firstNew (separate secondBefore)
      · exact distinct first second frame slot firstNew secondNew

/-- Further notes of declarations cut nothing short. -/
theorem calm_append {notes : List Note} (calm : ∀ frame slot, .abandons frame slot ∉ notes)
    (cut : Nat) (frame : FrameId) (slot : Nat)
    (here : (journal ++ notes)[cut]? = some (Note.abandons frame slot)) :
    journal[cut]? = some (Note.abandons frame slot) := by
  rw [List.getElem?_append] at here
  split at here
  · exact here
  · exact absurd (List.mem_of_getElem? here) (calm frame slot)

/-- Something is noted that is no matter of slots. -/
theorem continues_note (knows : Knows setting journal start) {note : Note}
    (right : note.IsRight journal) (isRemark : ∀ frame slot, note ≠ .gives frame slot ∧
      note ≠ .abandons frame slot ∧ ∀ declarer, note ≠ .declares declarer frame slot)
    (bindsWell : ∀ bound target, note = .binds bound target →
      start.machine.frames.slots bound.environment = #[.initialised (.object target)] ∧
        start.layout.row bound.environment = [.this]) :
    Continues setting start journal start (journal ++ [note]) := by
  have grows : Grows start journal start (journal ++ [note]) := by
    apply Grows.of_slots (.refl _) fun _ _ _ _ => rfl
    intro frame slot member
    exact (isRemark frame slot).1 (List.mem_singleton.mp member).symm
  refine ⟨.refl knows.fits, grows, calm_append ?_,
    knows.grow knows.fits (grows.functions knows.functions) (fun _ => Nat.le_refl _) ?_ ?_ ?_ ?_⟩
  · intro frame slot member
    exact (isRemark frame slot).2.1 (List.mem_singleton.mp member).symm
  · intro bound target noted
    rcases List.mem_append.mp noted with before | isNew
    · exact knows.binds bound target before
    · exact bindsWell bound target (List.mem_singleton.mp isNew).symm
  · intro declarer frame slot member
    exact absurd (List.mem_singleton.mp member).symm ((isRemark frame slot).2.2 declarer)
  · intro first second frame slot member
    exact absurd (List.mem_singleton.mp member).symm ((isRemark frame slot).2.2 first)
  · exact knows.right.append_note right

/-- It is noted that an initial value is cut short. -/
theorem Knows.abandon (knows : Knows setting journal start) (frame : FrameId) (slot : Nat) :
    Knows setting (journal ++ [.abandons frame slot]) start := by
  have grows : Grows start journal start (journal ++ [.abandons frame slot]) :=
    Grows.of_slots (.refl _) (fun _ _ _ _ => rfl) (by simp)
  apply knows.grow knows.fits (grows.functions knows.functions) fun _ => Nat.le_refl _
  · intro bound target noted
    exact knows.binds bound target (by simpa using noted)
  · simp
  · simp
  · exact knows.right.append_note trivial

/-! ## Frames and slots -/

/-- A frame is added, and its declarations are noted. -/
theorem continues_addFrame (knows : Knows setting journal start) {finish : Moment}
    {enclosing : FrameId} {locals : List Local} {values : List Value} (declarers : List Declarer)
    (length : declarers.length = values.length)
    (known : ∀ value ∈ values, IsKnown setting journal start value)
    (follows : Follows setting start finish)
    (layout : finish.layout = start.layout.add enclosing locals)
    (step : finish.machine = { start.machine with
      frames := values.foldl (fun frames value => frames.define start.machine.frames.size value)
        (start.machine.frames.addChild enclosing) }) :
    Continues setting start journal finish
      (journal ++ Step.declarations start.machine.frames.size 0 declarers) := by
  have frames : finish.machine.frames =
      values.foldl (fun frames value => frames.define start.machine.frames.size value)
        (start.machine.frames.addChild enclosing) := by
    rw [step]
  have kept : ∀ other, other ≠ start.machine.frames.size →
      finish.machine.frames.slots other = start.machine.frames.slots other := by
    intro other isOld
    rw [frames, Frames.slots_addFrame_of_ne _ _ _ isOld]
  have empty : start.machine.frames.length start.machine.frames.size = 0 := by
    rw [Frames.length, Frames.slots_eq_empty _ (Nat.le_refl _)]
    rfl
  have grows : Grows start journal finish
      (journal ++ Step.declarations start.machine.frames.size 0 declarers) := by
    apply Grows.of_slots follows.ordered
    · intro other isOld index _
      rw [kept other (Nat.ne_of_lt isOld)]
    · intro other slot member
      rcases exists_declares member with ⟨_, _, impossible⟩
      cases impossible
  refine ⟨follows, grows, calm_append ?_, knows.grow follows.fits ?_ ?_ ?_ ?_ ?_ ?_⟩
  · intro other slot member
    rcases exists_declares member with ⟨_, _, impossible⟩
    cases impossible
  · apply grows.functions
    apply knows.functions.addFrame enclosing known frames
    · rw [step]
    · rw [step]
  · intro other
    by_cases same : other = start.machine.frames.size
    · rw [same, empty]
      exact Nat.zero_le _
    · rw [Frames.length, Frames.length, kept other same]
  · intro bound target noted
    rcases List.mem_append.mp noted with before | member
    · have isOld := Nat.ne_of_lt (knows.environment_lt before)
      rw [kept _ isOld, layout, Layout.row_add_of_ne _ _ _ isOld]
      exact knows.binds bound target before
    · rcases exists_declares member with ⟨_, _, impossible⟩
      cases impossible
  · intro declarer other slot member
    rcases mem_declarations member with ⟨index, found, here, same⟩
    cases same
    have size := congrArg List.length (Frames.toList_slots_addFrame enclosing values
      start.machine.frames)
    rw [← frames, Array.length_toList, List.length_map, ← length] at size
    rw [empty, Frames.length, size, Nat.zero_add]
    exact ⟨Nat.zero_le _, (List.getElem?_eq_some_iff.mp here).1⟩
  · exact fun first second other slot => declarations_unique
  · apply knows.right.append
    intro before note after split
    rcases exists_declares (split ▸ List.mem_append_right _ List.mem_cons_self) with ⟨_, _, rfl⟩
    trivial

/-- A frame for locals with values. -/
theorem notes_newFrame (knows : Knows setting journal start) {enclosing : FrameId}
    (chain : start.layout.Chain scopes enclosing) {locals : List Local} {values : List Value}
    (declarers : List Declarer) (length : declarers.length = values.length)
    (hold : List.Forall₂ (fun declared value =>
      Slot.Fits setting start.layout declared (.initialised value)) locals values)
    (known : ∀ value ∈ values, IsKnown setting journal start value) :
    Notes setting (.newFrame enclosing locals values) (Step.newFrame enclosing declarers values)
      start journal fun frame finish _ => frame = start.layout.size ∧
        finish.layout = start.layout.add enclosing locals ∧
        finish.layout.Chain (locals :: scopes) frame ∧
        (finish.machine.frames.slots frame).toList = values.map .initialised := by
  apply Notes.intro (Watched.runs_newFrame knows.fits chain hold)
  · rintro frame finish taken follows ⟨frameIs, layout, inFrame⟩
    replace taken : Lox.Step.newFrame enclosing values start.machine = .ok frame finish.machine :=
      taken
    have step := (EStateM.Result.ok.inj taken).2.symm
    have isNext : frame = start.machine.frames.size := frameIs
    refine ⟨journal ++ Step.declarations start.machine.frames.size 0 declarers, ?_,
      continues_addFrame knows declarers length known follows layout step, frameIs, layout, inFrame,
      ?_⟩
    · have first : Step.ordinary (.newFrame enclosing values) ⟨start.machine, journal⟩ =
          .ok frame ⟨finish.machine, journal⟩ := by
        rw [Step.ordinary, taken]
      simp only [Step.newFrame, Bind.bind, EStateM.bind, first, isNext]
      rfl
    · rw [isNext, congrArg Machine.frames step]
      exact Frames.toList_slots_addFrame _ _ _
  · intro stop finish impossible
    cases impossible

/-- The current frame of code that stands in scopes does not hold `this`. -/
theorem Knows.ne_current (knows : Knows setting journal start)
    (stands : start.Stands setting around scopes) {bound : Closure} {target : Instance}
    (noted : .binds bound target ∈ journal) : bound.environment ≠ start.machine.current := by
  intro same
  have row := (knows.binds bound target noted).2
  rw [same, stands.row] at row
  rcases stands.named .this (row ▸ List.mem_cons_self) with ⟨name, impossible, -⟩
  cases impossible

/-- The current frame gets a slot, and its declaration is noted. -/
theorem continues_addSlot (knows : Knows setting journal start)
    (stands : start.Stands setting around scopes) (declarer : Declarer) {declared : Local}
    {slot : Slot Value} {finish : Moment} (follows : Follows setting start finish)
    (layout : finish.layout = start.layout.extend start.machine.current declared)
    (step : finish.machine = { start.machine with
      frames := start.machine.frames.append start.machine.current slot })
    (known : ∀ after, Grows start journal finish after →
      slot.All (IsCallable setting after finish) (IsReady setting after finish [[.this]])) :
    Continues setting start journal finish (journal ++ [.declares declarer start.machine.current
      (start.machine.frames.length start.machine.current)]) := by
  have here : finish.machine.frames.slots start.machine.current =
      (start.machine.frames.slots start.machine.current).push slot := by
    rw [step, Frames.slots_append_self _ _ _ stands.chain.lt_size]
  have kept : ∀ other, other ≠ start.machine.current →
      finish.machine.frames.slots other = start.machine.frames.slots other := by
    intro other different
    rw [step, Frames.slots_append_of_ne (Ne.symm different)]
  have grows : Grows start journal finish (journal ++ [.declares declarer start.machine.current
      (start.machine.frames.length start.machine.current)]) := by
    apply Grows.of_slots follows.ordered
    · intro other _ place inRow
      by_cases same : other = start.machine.current
      · subst same
        rw [← knows.fits.length_slots, Frames.length] at inRow
        rw [here, Array.getElem?_push, if_neg (Nat.ne_of_lt inRow)]
      · rw [kept other same]
    · simp
  refine ⟨follows, grows, calm_append (by simp), knows.grow follows.fits ?_ ?_ ?_ ?_ ?_ ?_⟩
  · rw [step]
    exact (grows.functions knows.functions).append start.machine.current (known _ grows)
  · intro other
    by_cases same : other = start.machine.current
    · rw [same, Frames.length, Frames.length, here, Array.size_push]
      exact Nat.le_succ _
    · rw [Frames.length, Frames.length, kept other same]
  · intro bound target noted
    have before : .binds bound target ∈ journal := by simpa using noted
    have different := knows.ne_current stands before
    rw [kept _ different, layout, Layout.row_extend_of_ne _ _ _ different]
    exact knows.binds bound target before
  · intro other frame place member
    cases List.mem_singleton.mp member
    refine ⟨Nat.le_refl _, ?_⟩
    rw [Frames.length, Frames.length, here, Array.size_push]
    exact Nat.lt_succ_self _
  · intro first second frame place firstMember secondMember
    cases List.mem_singleton.mp firstMember
    cases List.mem_singleton.mp secondMember
    rfl
  · exact knows.right.append_note trivial

/-- A slot of the current frame, which waits or has a value that may be called then. -/
theorem notes_newSlot (knows : Knows setting journal start)
    (stands : start.Stands setting around scopes) (inner : scopes ≠ []) (declarer : Declarer)
    {declared : Local} {slot : Slot Value}
    (holds : ∀ layout, layout = start.layout.extend start.machine.current declared →
      Slot.Fits setting layout declared slot)
    (known : ∀ finish after, Follows setting start finish → Grows start journal finish after →
      finish.layout = start.layout.extend start.machine.current declared →
      finish.machine.frames.slots start.machine.current =
        (start.machine.frames.slots start.machine.current).push slot →
      slot.All (IsCallable setting after finish) (IsReady setting after finish [[.this]])) :
    Notes setting (.newSlot declared slot) (Step.newSlot declarer slot) start journal
      fun index finish after => index = start.machine.frames.length start.machine.current ∧
        finish.layout = start.layout.extend start.machine.current declared ∧
        finish.machine.frames.slots start.machine.current =
          (start.machine.frames.slots start.machine.current).push slot ∧
        journal ++ [.declares declarer start.machine.current index] = after := by
  apply Notes.intro (Watched.runs_newSlot knows.fits stands inner holds)
  · rintro index finish taken follows ⟨-, layout⟩
    replace taken : Lox.Step.newSlot slot start.machine = .ok index finish.machine := taken
    rcases EStateM.Result.ok.inj taken with ⟨rfl, step⟩
    have here : finish.machine.frames.slots start.machine.current =
        (start.machine.frames.slots start.machine.current).push slot := by
      rw [← step]
      exact Frames.slots_append_self _ _ _ stands.chain.lt_size
    refine ⟨_, ?_, continues_addSlot knows stands declarer follows layout step.symm
      fun after grows => known finish after follows grows layout here, rfl, layout, here, rfl⟩
    have first : Step.ordinary (.newSlot slot) ⟨start.machine, journal⟩ =
        .ok (start.machine.frames.length start.machine.current) ⟨finish.machine, journal⟩ := by
      rw [Step.ordinary, taken]
    show (Step.ordinary (.newSlot slot) >>= fun index => do
      Step.note [.declares declarer start.machine.current index]
      return index) ⟨start.machine, journal⟩ = _
    simp only [Bind.bind, EStateM.bind, first]
    rfl
  · intro stop finish impossible
    cases impossible

/-! ## Values of variables -/

/-- The variable in a slot gets a value, whose functions may be called then. -/
theorem continues_write (knows : Knows setting journal start) {frame : FrameId} {index : Nat}
    {value : Value} {finish : Moment}
    (isWritten : finish = ⟨start.history,
      { start.machine with frames := start.machine.frames.write frame index value }⟩)
    (follows : Follows setting start finish)
    (isOther : ∀ bound target, .binds bound target ∈ journal → bound.environment ≠ frame)
    (known : Grows start journal finish (journal ++ [.gives frame index]) →
      IsKnown setting (journal ++ [.gives frame index]) finish value) :
    Continues setting start journal finish (journal ++ [.gives frame index]) := by
  have grows : Grows start journal finish (journal ++ [.gives frame index]) := by
    subst isWritten
    refine ⟨follows.ordered, List.prefix_append _ _, ?_⟩
    intro other _ place _ waits
    rcases Frames.waits_write waits with ⟨before, different⟩
    refine ⟨before, ?_⟩
    intro notes same
    rw [← List.append_cancel_left same, List.mem_singleton]
    rintro ⟨⟩
    exact different ⟨rfl, rfl⟩
  subst isWritten
  refine ⟨follows, grows, calm_append (by simp), knows.grow follows.fits ?_ ?_ ?_ ?_ ?_ ?_⟩
  · exact (grows.functions knows.functions).write frame index (known grows)
  · intro other
    rw [Frames.length_write]
  · intro bound target noted
    have before : .binds bound target ∈ journal := by simpa using noted
    rw [Frames.slots_write, if_neg (Ne.symm (isOther bound target before))]
    exact knows.binds bound target before
  · simp
  · simp
  · exact knows.right.append_note trivial

/-- A variable of the current frame gets a value. -/
theorem notes_setSlot (knows : Knows setting journal start)
    (stands : start.Stands setting around scopes) (index : Nat) {value : Value}
    (fits : value.Fits setting start.layout)
    (known : ∀ finish after, Follows setting start finish → Grows start journal finish after →
      finish.layout = start.layout →
      (finish.machine.frames.slots start.machine.current)[index]? ≠ some .uninitialised →
        IsKnown setting after finish value) :
    Notes setting (.quiet (.setSlot index value)) (Step.setSlot index value) start journal
      fun _ finish _ => finish.layout = start.layout ∧
        (finish.machine.frames.slots start.machine.current)[index]? ≠ some .uninitialised := by
  have runs : (Watched.quiet (.setSlot index value)).Runs setting start
      (Watched.SameLayout start) := Watched.runs_setSlot_of_stands knows.fits stands fits
  rcases runs.of_ok rfl with ⟨follows, same⟩
  have settled : ((start.machine.frames.write start.machine.current index value).slots
      start.machine.current)[index]? ≠ some .uninitialised :=
    fun waits => (Frames.waits_write waits).2 ⟨rfl, rfl⟩
  have isOther : ∀ bound target, .binds bound target ∈ journal →
      bound.environment ≠ start.machine.current := fun _ _ noted => knows.ne_current stands noted
  exact .of_ok rfl rfl (continues_write knows rfl follows isOther
    fun grows => known _ _ follows grows same settled) ⟨same, settled⟩

/-- A variable that exists gets a value; its name is not `this`. -/
theorem notes_assignVariable (knows : Knows setting journal start) (sound : setting.Sound)
    (plain : setting.Plain) (stands : start.Stands setting around scopes) {target : Reference}
    (isKnown : target.occurrence scopes ∈ setting.occurrences)
    (isName : setting.names target.name.text) {value : Value}
    (known : IsKnown setting journal start value) :
    Notes setting (.quiet (.assignVariable setting.addresses target value))
      (Step.assignVariable setting.addresses target value) start journal Anything := by
  have runs := Watched.runs_assignVariable sound knows.fits stands isKnown isName
    (IsKnown.fits known)
  have taken := Lox.Step.assignVariable_eq setting.addresses target value start.machine
  cases recorded : setting.addresses[target.id]? with
  | some address =>
    rcases Watched.exists_holder? sound knows.fits stands isKnown rfl recorded with
      ⟨frame, declared, found, inRow, text⟩
    have isOther : ∀ bound target, .binds bound target ∈ journal →
        bound.environment ≠ frame := by
      rintro bound other noted rfl
      rw [(knows.binds bound other noted).2] at inRow
      rw [List.mem_singleton.mp (List.mem_of_getElem? inRow)] at text
      exact (plain _ isName).1 text.symm
    have place : Step.given setting.addresses target.id start.machine =
        [.gives frame address.slot] := by
      simp only [Step.given, recorded, found]
    simp only [recorded, found] at taken
    have noted : Step.assignVariable setting.addresses target value ⟨start.machine, journal⟩ =
        .ok () ⟨{ start.machine with
          frames := start.machine.frames.write frame address.slot value },
          journal ++ [.gives frame address.slot]⟩ := by
      show (Step.ordinary (.assignVariable setting.addresses target value) >>= fun _ =>
        Step.note (Step.given setting.addresses target.id start.machine))
          ⟨start.machine, journal⟩ = _
      simp only [Bind.bind, EStateM.bind, Step.ordinary, taken, place]
      rfl
    exact .of_ok taken noted (continues_write knows rfl (runs.of_ok taken).1 isOther known.mono)
      trivial
  | none =>
    have place : Step.given setting.addresses target.id start.machine = [] := by
      simp only [Step.given, recorded]
    have told : Notes setting (.quiet (.assignVariable setting.addresses target value))
        (Step.ordinary (.assignVariable setting.addresses target value)) start journal
        Anything := by
      simp only [recorded] at taken
      split at taken
      · exact .quiet knows runs taken rfl (knows.functions.setGlobal target.name.text known)
          fun _ => trivial
      · exact .of_error knows taken (by rw [Step.ordinary, taken]) (.of_other rfl)
    have silent : Notes setting (.quiet (.assignVariable setting.addresses target value) >>= pure)
        (Step.ordinary (.assignVariable setting.addresses target value) >>= fun _ =>
          Step.note (Step.given setting.addresses target.id start.machine)) start journal
        Anything := by
      apply told.bind
      intro _ middle between continues _
      rw [place]
      have ends : Notes setting (pure ()) (pure ()) middle between Anything :=
        .pure continues.knows trivial
      exact ends.jot_nil
    exact silent.last

/-- If an initial value is cut short, then this is noted. -/
theorem Notes.orNote {α : Type} {watched : Watched α} {noted : Step α}
    {post : α → Moment → Journal → Prop} (frame : FrameId) (slot : Nat)
    (told : Notes setting watched noted start journal post) :
    Notes setting watched (Step.orNote [.abandons frame slot] noted) start journal post := by
  rw [Notes] at told ⊢
  rw [Step.orNote]
  revert told
  cases watched.step start.machine with
  | ok result machine =>
    rintro ⟨after, same, continues, holds⟩
    rw [same]
    exact ⟨after, rfl, continues, holds⟩
  | error stop machine =>
    rintro ⟨after, same, knows, explains⟩
    rw [same]
    exact ⟨after ++ [.abandons frame slot], rfl, knows.abandon frame slot,
      explains.abandon frame slot⟩

/-! ## Reading variables -/

/-- What is noted of a read: a variable that has no value, or nothing if it has one. -/
theorem missed_cases (addresses : AddressTable) (entered : Option Nat) (id : Nat) (name : Name)
    (machine : Machine) :
    (Step.missed addresses entered id name machine = [] ∧
      Lox.Step.slot? addresses id name.text machine ≠ some .uninitialised) ∨
    (∃ address frame, addresses[id]? = some address ∧
      machine.frames.ancestor? machine.current address.depth = some frame ∧
      (machine.frames.slots frame)[address.slot]? = some .uninitialised ∧
      Step.missed addresses entered id name machine = [.misses frame address.slot entered]) ∨
    Step.missed addresses entered id name machine = [.missesGlobal name.text] := by
  rw [Step.missed, Lox.Step.slot?]
  cases addresses[id]? with
  | none =>
    dsimp only
    rcases machine.globals[name.text]? with _ | _ | value
    · exact .inl ⟨rfl, by simp⟩
    · exact .inr (.inr rfl)
    · exact .inl ⟨rfl, by simp⟩
  | some address =>
    dsimp only
    rw [Frames.get?]
    cases found : machine.frames.ancestor? machine.current address.depth with
    | none => exact .inl ⟨rfl, by simp⟩
    | some frame =>
      dsimp only
      rcases here : (machine.frames.slots frame)[address.slot]? with _ | _ | value
      · exact .inl ⟨rfl, by simp⟩
      · exact .inr (.inl ⟨address, frame, rfl, found, here, rfl⟩)
      · exact .inl ⟨rfl, by simp⟩

/-- The step that reads a variable notes nothing itself.  A variable without a value is explained
by what has been noted before. -/
theorem notes_readVariable (knows : Knows setting journal start) {id : Nat} {name : Name}
    (explains : Lox.Step.slot? setting.addresses id name.text start.machine =
      some .uninitialised →
        Explains journal (.fault ⟨name.line, .uninitialisedVariable name.text⟩)) :
    Notes setting (.quiet (.readVariable setting.addresses id name))
      (Step.ordinary (.readVariable setting.addresses id name)) start journal
      (Known setting) := by
  have looked := Lox.Step.readVariable_eq setting.addresses id name start.machine
  apply Notes.still knows
  · intro value machine taken
    rw [looked] at taken
    split at taken
    · next here =>
      cases taken
      refine ⟨rfl, ?_⟩
      rw [Lox.Step.slot?] at here
      split at here
      · exact knows.functions.get? here
      · exact knows.functions.globals _ _ here
    · cases taken
    · cases taken
  · intro stop machine taken
    rw [looked] at taken
    split at taken
    · cases taken
    · next here =>
      cases taken
      exact ⟨rfl, explains here⟩
    · cases taken
      exact ⟨rfl, .of_other rfl⟩

/-- A variable is read that may wait only for a good reason. -/
theorem notes_read (knows : Knows setting journal start) (sound : setting.Sound)
    (stands : start.Stands setting around scopes) {occurrence : Occurrence}
    (isKnown : occurrence ∈ setting.occurrences) (inScopes : occurrence.scopes = scopes)
    {entered : Option Nat}
    (rightly : ∀ found index declared,
      start.layout.Shows scopes start.machine.current found index declared →
        declared.text = occurrence.name →
        (start.machine.frames.slots found)[index]? = some .uninitialised →
          IsWithoutValue journal found index entered)
    (name : Name) :
    Notes setting (Watched.use setting.addresses (.read occurrence.id name))
      (Step.readVariable setting.addresses entered occurrence.id name) start journal
      fun value finish after => finish.layout = start.layout ∧
        Known setting value finish after := by
  apply Notes.and ((Watched.runs_read sound knows.fits stands isKnown inScopes rfl name).imp
    fun _ _ _ found => found.2)
  rw [Watched.use]
  apply Notes.note knows fun _ => rfl
  intro middle continues machine layout
  apply Notes.look
  rw [machine]
  rcases missed_cases setting.addresses entered occurrence.id name start.machine with
    ⟨silent, hasValue⟩ | ⟨address, frame, recorded, further, waits, missed⟩ | missed
  · rw [silent]
    refine .jot_nil (notes_readVariable continues.knows ?_)
    rw [machine]
    exact fun waits => absurd waits hasValue
  · rw [missed]
    have found := sound.recorded occurrence isKnown address recorded
    rcases Occurrence.exists_local_of_address? found with ⟨scope, declared, here, member, text⟩
    rw [inScopes] at here
    have shown := stands.chain.shows rfl further here member
    have unset := rightly frame address.slot declared shown text waits
    have onlyVar : ∀ declarer, .declares declarer frame address.slot ∈ journal →
        ∃ hasInitial, declarer = .varDecl hasInitial := by
      intro declarer noted
      rcases unset.declares with ⟨hasInitial, isVar⟩
      exact ⟨hasInitial, knows.unique _ _ _ _ noted isVar⟩
    have right : (Note.misses frame address.slot entered).IsRight journal := ⟨unset, onlyVar⟩
    have continuesThen := continues_note continues.knows right (by simp) (by simp)
    have isMiss : (Note.misses frame address.slot entered).IsMiss name.text := trivial
    exact .jot continuesThen
      (notes_readVariable continuesThen.knows fun _ => .of_miss isMiss name.line)
  · rw [missed]
    have right : (Note.missesGlobal name.text).IsRight journal := trivial
    have continuesThen := continues_note continues.knows right (by simp) (by simp)
    have isMiss : (Note.missesGlobal name.text).IsMiss name.text := rfl
    exact .jot continuesThen
      (notes_readVariable continuesThen.knows fun _ => .of_miss isMiss name.line)

end

end Noted

end Lox
