import Lox.Proofs.Journal.Code
import Lox.Proofs.Receiver.Declarations

/-!
# Declarations that a journal follows

The steps that declare variables, functions and classes.  The slot of a `var` waits while its
initial value is evaluated, and the slot of a class only while no code of the program runs; the
slots of functions never wait.
-/

namespace Lox

/-- Each method of a class is checked in some role. -/
theorem NamedFunction.sound_of_mem {place : Place} {methods : List NamedFunction}
    (sound : ∀ site ∈ NamedFunction.sitesAll place methods, site.IsSound) {named : NamedFunction}
    (member : named ∈ methods) :
    ∃ role, ∀ site ∈ named.definition.sites role place, site.IsSound := by
  induction methods with
  | nil => cases member
  | cons first others induction =>
    rcases first with ⟨name, definition⟩
    rw [NamedFunction.sitesAll, List.forall_mem_append] at sound
    rcases List.mem_cons.mp member with rfl | isOther
    · exact ⟨_, sound.1⟩
    · exact induction sound.2 isOther

/-- A method has the name of its definition, and may be an initialiser if this is `init`. -/
theorem Step.newMethods_named {frame : FrameId} {allowInitializer : Bool}
    {methods : List NamedFunction} {table made : Table Closure} {machine after : Machine}
    (taken : Step.newMethods frame allowInitializer methods table machine = .ok made after)
    {name : String} {method : Closure} (found : made[name]? = some method) :
    table[name]? = some method ∨ ∃ named ∈ methods, named.name.text = name ∧
      method.behaviour = .body named.definition (allowInitializer && name == "init") := by
  induction methods generalizing table machine with
  | nil =>
    cases taken
    exact .inl found
  | cons first others induction =>
    rcases first with ⟨own, definition⟩
    have takenOthers : Step.newMethods frame allowInitializer others
        (table.insert own.text ⟨machine.nextId, own.text,
          .body definition (allowInitializer && own.text == "init"), frame⟩)
        { machine with nextId := machine.nextId + 1 } = .ok made after := taken
    rcases induction takenOthers with before | ⟨named, member, same, behaviour⟩
    · rw [Std.TreeMap.getElem?_insert] at before
      split at before
      · next isOwn =>
        cases before
        have same : own.text = name := Std.LawfulEqCmp.eq_of_compare isOwn
        subst same
        exact .inr ⟨.mk own definition, List.mem_cons_self, rfl, rfl⟩
      · exact .inl before
    · exact .inr ⟨named, List.mem_cons_of_mem _ member, same, behaviour⟩

namespace Noted

section

variable {setting : Setting} {place : Place} {scopes : Scopes} {around : Surroundings}
  {entered : Option Nat} {start : Moment} {journal : Journal}

/-! ## Variables and functions -/

/-- The initial value of a variable is evaluated while the variable waits. -/
theorem Code.notes_declareVariable (code : Code setting place entered start journal)
    (settled : place.initialises = none) {name : Name} (isName : setting.names name.text)
    {initial : Option (Watched Value)} {initial' : Option (Step Value)}
    (told : Option.Rel (fun watched noted => ∀ middle between,
      Code setting (place.initialising name) entered middle between →
        Notes setting watched noted middle between fun value finish after =>
          Watched.Yields setting middle value finish ∧ Known setting value finish after)
      initial initial') :
    Notes setting (Watched.declareVariable name initial) (Step.declareVariable name initial')
      start journal fun _ finish after => Settles start finish after := by
  have knows := code.knows
  have stands := code.stands
  rcases place with ⟨role, around, own, scopes⟩
  cases settled
  apply Notes.inRoot
  rw [stands.inRoot]
  cases scopes with
  | nil =>
    have ends : ∀ {value : Value} {middle between}, Continues setting start journal middle between →
        start.layout.Still middle.layout → Known setting value middle between →
        Notes setting (.quiet (.setGlobal name.text (.initialised value)))
          (Step.ordinary (.setGlobal name.text (.initialised value))) middle between
          fun _ finish after => Settles start finish after := by
      intro value middle between continues still known
      apply (notes_setGlobal continues.knows name.text (.initialised value) known).imp
      intro _ finish after continuesThen layout
      apply Settles.of_row knows continuesThen.knows
      rw [layout]
      exact still _ stands.chain.lt_size
    cases told with
    | none =>
      apply (notes_setGlobal knows name.text .uninitialised trivial).imp
      intro _ finish after continues layout
      apply Settles.of_row knows continues.knows
      rw [layout]
    | some told =>
      apply (told start journal code).bind
      rintro value middle between continues ⟨⟨-, still⟩, known⟩
      exact ends continues still known
  | cons innermost outer =>
    have inner : innermost :: outer ≠ [] := List.cons_ne_nil _ _
    have named : Local.AreNamed setting.names [.named name] := Local.areNamed_singleton isName
    apply Notes.look
    apply (notes_newSlot knows stands inner (.varDecl initial'.isSome)
      (fun _ _ => .uninitialised name) fun _ _ _ _ _ _ => trivial).bind
    rintro index middle _ continues ⟨rfl, layout, -, rfl⟩
    have row : middle.layout.row start.machine.current =
        start.layout.row start.machine.current ++ [.named name] := by
      rw [layout, Layout.row_extend_self]
    have pending := Pending.last journal (.varDecl initial'.isSome) start.machine.current
      (start.machine.frames.length start.machine.current)
    cases told with
    | none =>
      apply Notes.pure continues.knows
      exact .of_extend knows continues.knows row fun _ => ⟨_, pending⟩
    | some told =>
      have declares := Watched.declares_extend stands inner layout
      have ownName : ∀ own ∈ some name.text, setting.names own := by
        rintro _ ⟨⟩
        exact isName
      have inside := code.declare rfl continues named declares.row ownName ?_
      · apply ((told middle _ inside).orNote _ _).bind
        rintro value second between continuesThen ⟨⟨fits, still⟩, known⟩
        have insideThen := inside.follow continuesThen still
        apply (notes_setSlot insideThen.knows insideThen.stands _ fits
          fun _ _ _ grows _ _ => known.mono grows).imp
        rintro _ finish after continuesLast ⟨sameLayout, filled⟩
        have isFrame := Nat.lt_of_lt_of_le stands.chain.lt_size continues.follows.ordered.size
        have rowThen : finish.layout.row start.machine.current =
            start.layout.row start.machine.current ++ [.named name] := by
          rw [sameLayout, still _ isFrame, row]
        apply Settles.of_extend knows continuesLast.knows rowThen
        rw [continuesThen.follows.current, continues.follows.current] at filled
        exact fun waits => absurd waits filled
      · rintro place declared here -
        cases place with
        | zero =>
          cases here
          exact ⟨_, true, pending, fun _ => .inl rfl⟩
        | succ => cases here

/-- A function may be called once its own slot is there, since this never waits. -/
theorem Code.isCallable_declared (code : Code setting place entered start journal) {name : Name}
    {definition : Function}
    (fits : definition.Fits setting place.around (place.scopes.declare [.named name]))
    (sound : ∀ site ∈ definition.sites .function (place.declare [.named name]), site.IsSound)
    {closure : Closure} (environment : closure.environment = start.machine.current)
    (behaviour : closure.behaviour = .body definition false) {finish : Moment} {after : Journal}
    (grows : Grows start journal finish after)
    (chain : finish.layout.Chain (place.scopes.declare [.named name]) start.machine.current)
    (filled : (finish.machine.frames.slots start.machine.current)[start.machine.frames.length
      start.machine.current]? ≠ some .uninitialised) : IsCallable setting after finish closure := by
  refine ⟨⟨place.declare [.named name], ?_, ?_, ?_⟩, ?_⟩
  · rw [environment]
    exact chain
  · rw [environment]
    apply ((code.unset.mono code.stands.chain grows).imp fun _ _ _ _ => trivial).declare
    rintro index declared here waits
    cases index with
    | zero =>
      rw [code.length_eq] at waits
      exact absurd waits filled
    | succ => cases here
  · rw [behaviour]
    rintro found isInitializer ⟨⟩
    exact ⟨fits, .function, sound⟩
  · rw [behaviour]
    rintro found ⟨⟩

/-- A function may be called as soon as it is declared. -/
theorem Code.notes_defineFunction (code : Code setting place entered start journal)
    (settled : place.initialises = none) {name : Name} {definition : Function}
    (fits : definition.Fits setting place.around (place.scopes.declare [.named name]))
    (sound : ∀ site ∈ definition.sites .function (place.declare [.named name]), site.IsSound)
    {closure : Closure} (environment : closure.environment = start.machine.current)
    (behaviour : closure.behaviour = .body definition false) :
    Notes setting (Watched.defineVariable name (.function closure))
      (Step.defineFunction name closure) start journal
      fun _ finish after => Settles start finish after := by
  have knows := code.knows
  have stands := code.stands
  have callable : ∀ {finish after}, Grows start journal finish after →
      finish.layout.Chain (place.scopes.declare [.named name]) start.machine.current →
      (finish.machine.frames.slots start.machine.current)[start.machine.frames.length
        start.machine.current]? ≠ some .uninitialised → IsCallable setting after finish closure :=
    code.isCallable_declared fits sound environment behaviour
  rcases place with ⟨role, around, own, scopes⟩
  cases settled
  apply Notes.inRoot
  rw [stands.inRoot]
  cases scopes with
  | nil =>
    have isCallable : IsCallable setting journal start closure := by
      apply callable (.refl _ _) stands.chain
      intro waits
      exact Nat.lt_irrefl _ (Array.getElem?_eq_some_iff.mp waits).1
    apply (notes_setGlobal knows name.text (.initialised (.function closure)) isCallable).imp
    intro _ finish after continues layout
    apply Settles.of_row knows continues.knows
    rw [layout]
  | cons innermost outer =>
    have inner : innermost :: outer ≠ [] := List.cons_ne_nil _ _
    have row : ∀ {later : Layout Local},
        later = start.layout.extend start.machine.current (.named name) →
        later.row start.machine.current =
          start.layout.row start.machine.current ++ [.named name] := by
      rintro later rfl
      rw [Layout.row_extend_self]
    have chain : ∀ {later : Layout Local},
        later = start.layout.extend start.machine.current (.named name) →
        later.Chain ((innermost ++ [.named name]) :: outer) start.machine.current := by
      intro later same
      have ordered : start.layout.Le later := by
        rw [same]
        exact start.layout.le_extend _ _
      apply (stands.chain.mono ordered).extend
      rw [row same, stands.row]
      exact List.prefix_refl _
    have holds : ∀ later, later = start.layout.extend start.machine.current (.named name) →
        Slot.Fits setting later (.named name) (.initialised (.function closure)) := by
      intro later same
      apply Slot.Fits.named
      refine ⟨around, (innermost ++ [Local.named name]) :: outer, ?_, ?_⟩
      · rw [environment]
        exact chain same
      · rw [behaviour]
        rintro found isInitializer ⟨⟩
        exact fits
    have filled : ∀ {pushed : Array (Slot Value)},
        pushed = (start.machine.frames.slots start.machine.current).push
          (.initialised (.function closure)) →
        pushed[start.machine.frames.length start.machine.current]? ≠ some .uninitialised := by
      rintro pushed rfl
      rw [Frames.length]
      simp
    apply (notes_newSlot knows stands inner .funDecl holds ?_).bind
    · rintro index finish _ continues ⟨rfl, extended, pushed, rfl⟩
      refine .pure continues.knows ?_
      apply Settles.of_extend knows continues.knows (row extended)
      exact fun waits => absurd waits (filled pushed)
    · intro finish after _ grows extended pushed
      exact callable grows (chain extended) (filled pushed)

/-- A function is made and declared. -/
theorem Code.notes_funDecl (code : Code setting place entered start journal)
    (settled : place.initialises = none) {name : Name} {definition : Function}
    (isName : setting.names name.text)
    (isKnown : definition.occurrences place.around (place.scopes.declare [.named name]) ⊆
      setting.occurrences)
    (proper : definition.IsProper setting.names)
    (sound : ∀ site ∈ definition.sites .function (place.declare [.named name]), site.IsSound) :
    Notes setting (do
      let machine ← .quiet EStateM.get
      let closure ← .quiet (Lox.Step.newClosure machine.current name.text (.body definition false))
      Watched.defineVariable name (.function closure)
      return Flow.normal none : Watched Flow) (do
      let machine ← Step.ordinary EStateM.get
      let closure ← Step.ordinary
        (Lox.Step.newClosure machine.current name.text (.body definition false))
      Step.defineFunction name closure
      return Flow.normal none : Step Flow) start journal
      fun flow finish after => flow = .normal none ∧ Settles start finish after := by
  have surrounds : place.around.Fits setting.names (place.scopes.declare [.named name]) := by
    have around := code.stands.around
    have named := code.stands.named
    cases scopes : place.scopes with
    | nil => rwa [scopes] at around
    | cons =>
      rw [scopes] at around named
      exact around.declare named (Local.areNamed_singleton isName)
  apply Notes.get
  apply (notes_newClosure code.knows start.machine.current name.text (.body definition false)).bind
  rintro closure middle _ continues ⟨environment, behaviour, -, layout, rfl⟩
  have still : start.layout.Still middle.layout := by
    rw [layout]
    exact .refl _
  rw [← continues.follows.current] at environment
  apply ((code.follow continues still).notes_defineFunction settled ⟨isKnown, proper, surrounds⟩
    sound environment behaviour).bind
  intro _ finish after continuesThen settles
  exact .pure continuesThen.knows
    ⟨rfl, settles.behind code.knows continues still code.stands.chain.lt_size⟩

/-! ## Classes -/

/-- The class that a class extends is not the class itself, whose variable waits. -/
theorem notes_superclass (knows : Knows setting journal start) (sound : setting.Sound)
    (stands : start.Stands setting around scopes) (target : Option Reference)
    (isKnown : target.toList.map (Reference.occurrence scopes) ⊆ setting.occurrences)
    (rightly : ∀ reference ∈ target, ∀ found index declared,
      start.layout.Shows scopes start.machine.current found index declared →
        declared.text = reference.name.text →
        (start.machine.frames.slots found)[index]? = some .uninitialised →
          IsWithoutValue journal found index entered) :
    Notes setting (Watched.superclass setting.addresses target)
      (Step.superclass setting.addresses entered target) start journal
      fun superclass? finish after => superclass?.isSome = target.isSome ∧
        finish.layout = start.layout ∧
        ∀ type ∈ superclass?, Known setting (.type type) finish after := by
  cases target with
  | none => exact .pure knows ⟨rfl, rfl, fun _ impossible => by cases impossible⟩
  | some target =>
    have isUse : target.occurrence scopes ∈ setting.occurrences := by
      simpa using isKnown
    apply (notes_read knows sound stands isUse rfl (rightly target rfl) target.name).bind
    rintro value middle between continues ⟨layout, known⟩
    cases value with
    | type superclass =>
      refine .pure continues.knows ⟨rfl, layout, ?_⟩
      rintro type ⟨⟩
      exact known
    | _ => exact .fail continues.knows target.name.line rfl

/-- Around the frame that methods keep wait the variables that wait around the class. -/
theorem notes_methodFrame (knows : Knows setting journal start)
    (chain : start.layout.Chain scopes start.machine.current) {superclass? : Option Class}
    (known : ∀ type ∈ superclass?, IsKnown setting journal start (.type type))
    {target : Option Reference} (same : superclass?.isSome = target.isSome) :
    Notes setting (Watched.methodFrame superclass?) (Step.methodFrame superclass?) start journal
      fun frame finish after => finish.layout.Chain (scopes.ofClass target) frame ∧
        ∀ later last, Grows finish after later last → ∀ excused,
          Unset last later excused scopes start.machine.current →
            Unset last later excused (scopes.ofClass target) frame := by
  cases superclass? with
  | none =>
    cases target with
    | none =>
      apply Notes.get
      exact .pure knows ⟨chain, fun _ _ _ _ unset => unset⟩
    | some => cases same
  | some superclass =>
    cases target with
    | none => cases same
    | some =>
      have isKnown := known superclass rfl
      have hold : List.Forall₂ (fun declared value =>
          Slot.Fits setting start.layout declared (.initialised value))
          [.super] [.type superclass] := by
        constructor
        · constructor
          · rintro value ⟨⟩
            exact IsKnown.fits isKnown
          · exact fun _ => ⟨superclass, rfl⟩
        · exact .nil
      apply Notes.get
      apply (notes_newFrame knows chain [.super] rfl hold
        (List.forall_mem_singleton.mpr isKnown)).imp
      rintro frame finish after continues ⟨isNew, layout, inFrame, slots⟩
      have holds : finish.machine.frames.slots frame = #[.initialised (.type superclass)] :=
        Array.toList_inj.mp slots
      have enclosed := Layout.enclosing_of_add layout isNew
      have row := Layout.row_of_add layout isNew
      refine ⟨inFrame, ?_⟩
      intro later last grows excused unset
      have isFrame := inFrame.lt_size
      apply unset.cons ((grows.ordered.enclosing _ isFrame).trans enclosed)
      intro index isOnly waits
      have inRow : index < (finish.layout.row frame).length := by
        rwa [row]
      have before := (grows.waits frame isFrame index inRow waits).1
      rw [holds, Nat.lt_one_iff.mp isOnly] at before
      cases before

theorem notes_newMethods (knows : Knows setting journal start) (frame : FrameId)
    (allowInitializer : Bool) (methods : List NamedFunction) :
    Notes setting (.quiet (.newMethods frame allowInitializer methods ∅))
      (Step.ordinary (.newMethods frame allowInitializer methods ∅)) start journal
      fun table _ _ => ∀ (name : String) (method : Closure), table[name]? = some method →
        method.environment = frame ∧ ∃ named ∈ methods,
          method.behaviour = .body named.definition (allowInitializer && name == "init") := by
  rcases Lox.Step.newMethods_eq frame allowInitializer methods ∅ start.machine with
    ⟨made, taken, madeFrom⟩
  have follows := Watched.follows_quiet knows.fits
    { start.machine with nextId := start.machine.nextId + methods.length } rfl rfl
    knows.fits.globals knows.fits.fields
  have runs : (Watched.quiet (.newMethods frame allowInitializer methods ∅)).Runs setting start
      fun _ _ => True := by
    apply Watched.Runs.quiet
    · intro table machine ends
      rw [taken] at ends
      cases ends
      exact ⟨follows.1, trivial⟩
    · intro stop machine ends
      rw [taken] at ends
      cases ends
  refine .quiet knows runs taken rfl (knows.functions.congr rfl rfl rfl) fun _ => ?_
  intro name method found
  constructor
  · rcases madeFrom name method found with impossible | isMade
    · simp at impossible
    · exact isMade.environment
  · rcases Lox.Step.newMethods_named taken found with impossible | ⟨named, member, -, behaviour⟩
    · simp at impossible
    · exact ⟨named, member, behaviour⟩

/-- The methods of a class are ready once its own variable does not wait any more. -/
theorem isReady_of_made {finish : Moment} {after : Journal} {frame : FrameId} {added : Scopes}
    {methods : List NamedFunction} (chain : finish.layout.Chain scopes frame)
    (unset : Unset after finish (fun _ _ _ => True) scopes frame)
    (surrounds : around.Fits setting.names (added ++ scopes))
    (known : NamedFunction.occurrencesAll around (added ++ scopes) methods ⊆ setting.occurrences)
    (proper : NamedFunction.AreProper setting.names methods)
    (sound : ∀ site ∈ NamedFunction.sitesAll (place.inClass around (added ++ scopes)) methods,
      site.IsSound)
    {method : Closure} (environment : method.environment = frame) {isInitializer : Bool}
    (made : ∃ named ∈ methods, method.behaviour = .body named.definition isInitializer) :
    IsReady setting after finish added method := by
  rcases made with ⟨named, member, behaviour⟩
  refine ⟨place.inClass around scopes, ?_, ?_, ?_⟩
  · rw [environment]
    exact chain
  · rw [environment]
    exact unset
  · rw [behaviour]
    rintro definition found ⟨⟩
    exact ⟨named.fits_of_mem surrounds known proper member,
      NamedFunction.sound_of_mem sound member⟩

/-- A class is known as soon as the variable of its name does not wait any more. -/
theorem notes_newClass (knows : Knows setting journal start) (sound : setting.Sound)
    (stands : start.Stands setting around scopes) (name : Name) (target : Option Reference)
    (methods classMethods : List NamedFunction)
    (isKnown : target.toList.map (Reference.occurrence scopes) ++
      NamedFunction.occurrencesAll .classMethod (scopes.ofClass target) classMethods ++
      NamedFunction.occurrencesAll (.method target.isSome) ([.this] :: scopes.ofClass target)
        methods ⊆ setting.occurrences)
    (methodsProper : NamedFunction.AreProper setting.names methods)
    (classMethodsProper : NamedFunction.AreProper setting.names classMethods)
    (classMethodsSound : ∀ site ∈ NamedFunction.sitesAll
      (place.inClass .classMethod (scopes.ofClass target)) classMethods, site.IsSound)
    (methodsSound : ∀ site ∈ NamedFunction.sitesAll
      (place.inClass (.method target.isSome) ([.this] :: scopes.ofClass target)) methods,
        site.IsSound)
    (rightly : ∀ reference ∈ target, ∀ found index declared,
      start.layout.Shows scopes start.machine.current found index declared →
        declared.text = reference.name.text →
        (start.machine.frames.slots found)[index]? = some .uninitialised →
          IsWithoutValue journal found index entered) :
    Notes setting (Watched.newClass setting.addresses name target methods classMethods)
      (Step.newClass setting.addresses entered name target methods classMethods) start journal
      fun value finish after => ∀ later last, Grows finish after later last →
        Unset last later (fun _ _ _ => True) scopes start.machine.current →
          IsKnown setting last later value := by
  rw [List.append_subset, List.append_subset] at isKnown
  rcases isKnown with ⟨⟨targetKnown, classMethodsKnown⟩, methodsKnown⟩
  have noSuper : Surroundings.classMethod.Fits setting.names (scopes.ofClass target) := by
    intro impossible
    cases impossible
  apply (notes_superclass knows sound stands target targetKnown rightly).bind
  rintro superclass? first _ continues ⟨isSome, layout, superclassKnown⟩
  have current := continues.follows.current
  have chain : first.layout.Chain scopes first.machine.current := by
    rw [layout, current]
    exact stands.chain
  apply (notes_methodFrame continues.knows chain superclassKnown isSome).bind
  rintro frame second _ framed ⟨inFrame, lifts⟩
  apply (notes_newMethods framed.knows frame true methods).bind
  intro table third _ tabled made
  apply (notes_newMethods tabled.knows frame false classMethods).bind
  intro classTable fourth _ classTabled classMade
  apply (notes_freshId classTabled.knows).bind
  intro id fifth last named _
  have own : (Class.extending ⟨id, name.text, table, classTable⟩ superclass?).own =
      ⟨id, name.text, table, classTable⟩ := by
    cases superclass? <;> rfl
  have right : (Note.makes (.extending ⟨id, name.text, table, classTable⟩ superclass?)).IsRight
      last := by
    rw [Note.IsRight, own]
    constructor
    · intro other method found
      rcases (made other method found).2 with ⟨named, -, behaviour⟩
      exact ⟨named.definition, behaviour⟩
    · intro other method found
      rcases (classMade other method found).2 with ⟨named, -, behaviour⟩
      exact ⟨named.definition, behaviour⟩
  have noted := continues_note named.knows right (by simp) (by simp)
  apply Notes.jot noted
  apply Notes.pure noted.knows
  intro later final grows unset
  have sinceFrame := (((tabled.trans classTabled).trans named).trans noted).grows.trans grows
  rw [← current] at unset
  have unsetThere := lifts later final sinceFrame _ unset
  have chainThere := inFrame.mono sinceFrame.ordered
  apply Class.all_extending
  · constructor
    · intro other method found
      rcases made other method found with ⟨environment, named, member, behaviour⟩
      exact isReady_of_made chainThere unsetThere
        (Watched.surrounds_ofClass target) methodsKnown methodsProper methodsSound environment
        ⟨named, member, behaviour⟩
    · intro other method found
      rcases classMade other method found with ⟨environment, named, member, behaviour⟩
      refine ⟨isReady_of_made chainThere unsetThere noSuper classMethodsKnown
        classMethodsProper classMethodsSound environment ⟨named, member, behaviour⟩, ?_⟩
      rw [behaviour]
      rintro definition ⟨⟩
  · intro type member
    exact (superclassKnown type member).mono (framed.grows.trans sinceFrame)

/-- A variable is read behind a declaration of another name. -/
theorem Code.rightly_declare (code : Code setting place entered start journal)
    (settled : place.initialises = none) {finish : Moment} {after : Journal}
    (continues : Continues setting start journal finish after) {name other : Name}
    (isOther : other.text ≠ name.text) {found : FrameId} {index : Nat} {declared : Local}
    (shown : finish.layout.Shows (place.scopes.declare [.named name]) start.machine.current found
      index declared)
    (text : declared.text = other.text)
    (waits : (finish.machine.frames.slots found)[index]? = some .uninitialised) :
    IsWithoutValue after found index entered := by
  rcases shown.of_declare with before | ⟨-, place, -, here⟩
  · apply (code.unset.mono code.stands.chain continues.grows).rightly
      (code.since.mono continues) before _ waits
    rw [settled]
    exact (Option.some_ne_none _).symm
  · cases place with
    | zero =>
      cases here
      exact absurd text.symm isOther
    | succ => cases here

/-- A class is made where its variable has been declared, and is known once this does not wait any
more. -/
theorem Code.notes_newClass (code : Code setting place entered start journal)
    (settled : place.initialises = none) (sound : setting.Sound) (name : Name)
    (target : Option Reference) (methods classMethods : List NamedFunction)
    (isKnown : (Stmt.classDecl name target methods classMethods).occurrences place.around
      place.scopes ⊆ setting.occurrences)
    (proper : (Stmt.classDecl name target methods classMethods).IsProper setting.names)
    (rules : ∀ site ∈ (Stmt.classDecl name target methods classMethods).sites place,
      site.IsSound) {middle : Moment} {between : Journal}
    (continues : Continues setting start journal middle between)
    (stands : middle.Stands setting place.around (place.scopes.declare [.named name])) :
    Notes setting (Watched.newClass setting.addresses name target methods classMethods)
      (Step.newClass setting.addresses entered name target methods classMethods) middle between
      fun value finish after => Watched.Yields setting middle value finish ∧
        ∀ later last, Grows finish after later last →
          Unset last later (fun _ _ _ => True) (place.scopes.declare [.named name])
            start.machine.current → IsKnown setting last later value := by
  rw [Stmt.occurrences] at isKnown
  rw [Stmt.IsProper] at proper
  rw [Stmt.sites, List.forall_mem_append, List.forall_mem_append] at rules
  rcases proper with ⟨-, -, methodsProper, classMethodsProper⟩
  rcases rules with ⟨⟨superclassSound, classMethodsSound⟩, methodsSound⟩
  have isOther : ∀ reference ∈ target, reference.name.text ≠ name.text := by
    rintro reference ⟨⟩
    exact superclassSound ⟨place.declare [.named name], .subclass name.text reference.name.text⟩
      (by simp)
  rw [← continues.follows.current]
  apply Notes.and (Watched.runs_newClass sound continues.knows.fits stands name target methods
    classMethods isKnown methodsProper classMethodsProper)
  apply Noted.notes_newClass continues.knows sound stands name target methods
    classMethods isKnown methodsProper classMethodsProper classMethodsSound methodsSound
  intro reference isTarget found index declared shown text waits
  rw [continues.follows.current] at shown
  exact code.rightly_declare settled continues (isOther reference isTarget) shown text waits

/-- A class is declared; its variable waits only while the class is made. -/
theorem Code.notes_declareClass (code : Code setting place entered start journal)
    (settled : place.initialises = none) (sound : setting.Sound) (name : Name)
    (target : Option Reference) (methods classMethods : List NamedFunction)
    (isKnown : (Stmt.classDecl name target methods classMethods).occurrences place.around
      place.scopes ⊆ setting.occurrences)
    (proper : (Stmt.classDecl name target methods classMethods).IsProper setting.names)
    (rules : ∀ site ∈ (Stmt.classDecl name target methods classMethods).sites place,
      site.IsSound) :
    Notes setting (Watched.declareClass setting.addresses name target methods classMethods)
      (Step.declareClass setting.addresses entered name target methods classMethods) start journal
      fun _ finish after => Settles start finish after := by
  have knows := code.knows
  have stands := code.stands
  have isName : setting.names name.text := by
    rw [Stmt.IsProper] at proper
    exact proper.1
  rcases place with ⟨role, around, own, scopes⟩
  cases settled
  apply Notes.inRoot
  rw [stands.inRoot]
  cases scopes with
  | nil =>
    apply (notes_setGlobal knows name.text .uninitialised trivial).bind
    intro _ first after continues same
    have still : start.layout.Still first.layout := by
      rw [same]
      exact .refl _
    apply (code.notes_newClass rfl sound name target methods classMethods isKnown proper rules
      continues (stands.follow continues.follows still)).bind
    rintro value second last continuesThen ⟨⟨-, stillThen⟩, known⟩
    have isNow := known second last (.refl _ _) (.nil _ _ _ _)
    apply (notes_setGlobal continuesThen.knows name.text (.initialised value) isNow).bind
    intro _ third final continuesLast sameLayout
    refine .pure continuesLast.knows (.of_row knows continuesLast.knows ?_)
    rw [sameLayout, stillThen _ (Nat.lt_of_lt_of_le stands.chain.lt_size
      continues.follows.ordered.size), same]
  | cons innermost outer =>
    have inner : innermost :: outer ≠ [] := List.cons_ne_nil _ _
    apply (notes_newSlot knows stands inner .classDecl (fun _ _ => .uninitialised name)
      fun _ _ _ _ _ _ => trivial).bind
    rintro index first _ continues ⟨rfl, layout, -, rfl⟩
    have declares := Watched.declares_extend stands inner layout
    have standsThen := stands.declare continues.follows (Local.areNamed_singleton isName)
      declares.row
    apply (code.notes_newClass rfl sound name target methods classMethods isKnown proper rules
      continues standsThen).bind
    rintro value second last continuesThen ⟨⟨valueFits, still⟩, known⟩
    have standsLast := standsThen.follow continuesThen.follows still
    have current : second.machine.current = start.machine.current :=
      continuesThen.follows.current.trans continues.follows.current
    apply (notes_setSlot continuesThen.knows standsLast _ valueFits ?_).bind
    · rintro _ third final continuesLast ⟨sameLayout, filled⟩
      have isFrame := Nat.lt_of_lt_of_le stands.chain.lt_size continues.follows.ordered.size
      have row : third.layout.row start.machine.current =
          start.layout.row start.machine.current ++ [.named name] := by
        rw [sameLayout, still _ isFrame, layout, Layout.row_extend_self]
      refine .pure continuesLast.knows (.of_extend knows continuesLast.knows row ?_)
      rw [current] at filled
      exact fun waits => absurd waits filled
    · intro third final _ grows _ filled
      apply known third final grows
      rw [current] at filled
      have grown := (continues.grows.trans continuesThen.grows).trans grows
      apply ((code.unset.mono stands.chain grown).imp fun _ _ _ _ => trivial).declare
      rintro place declared here waits
      cases place with
      | zero =>
        rw [code.length_eq] at waits
        exact absurd waits filled
      | succ => cases here

end

end Noted

end Lox
