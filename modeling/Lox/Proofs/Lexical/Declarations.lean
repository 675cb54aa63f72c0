import Lox.Proofs.Lexical.Variables

/-!
# Declarations that do the same

Variables, functions and classes are declared in the innermost scope, or globally where
there is none.  A local declaration makes a slot in the current frame and a cell.
-/

namespace Lox

open Lexical (Environment)

namespace Simulates

variable {setting : Setting} {around : Surroundings} {places : Places} {start : Pairing}

/-! ## Slots and cells for names -/

/--
The current frame has slots for some locals more, with cells that the environment
knows, and no other frame has more.
-/
structure Declares (start : Pairing) (places : Places) (placed : List Placed)
    (environment : Environment) (finish : Pairing) : Prop where
  environment : environment = (places.declare placed).environment
  still : start.layout.StillBut start.machine.current finish.layout
  row : finish.layout.row start.machine.current = (places.declare placed).headD []

theorem Declares.none {finish : Pairing} (stands : start.Stands setting around places)
    (still : start.layout.Still finish.layout) :
    Declares start places [] places.environment finish := by
  constructor
  · rw [Places.declare_nil]
  · exact still.stillBut _
  · rw [still _ stands.chain.lt_size, Places.declare_nil]
    exact stands.row

/-- Without a scope, declarations make no slots. -/
theorem Declares.global {finish : Pairing} (placed : List Placed)
    (stands : start.Stands setting around []) (still : start.layout.Still finish.layout) :
    Declares start [] placed (Places.environment []) finish := by
  constructor
  · rfl
  · exact still.stillBut _
  · rw [still _ stands.chain.lt_size]
    exact stands.row

/-- Declaring a local makes a slot for it. -/
theorem AddsSlot.declares (stands : start.Stands setting around places) (inner : places ≠ [])
    {declared : Local} {cell index : Nat} {finish : Pairing}
    (added : AddsSlot start declared cell index finish) :
    Declares start places [(declared, cell)] (places.declare [(declared, cell)]).environment
      finish := by
  constructor
  · rfl
  · rw [added.layout]
    exact start.layout.stillBut_extend _ _
  · rw [added.layout, Layout.row_extend_self, stands.row]
    cases places with
    | nil => exact absurd rfl inner
    | cons => rfl

/-- What a step after a declaration leaves still. -/
theorem Declares.then {placed : List Placed} {environment : Environment} {middle finish : Pairing}
    (declares : Declares start places placed environment middle)
    (isFrame : start.machine.current < start.layout.size)
    (ordered : start.layout.Le middle.layout) (still : middle.layout.Still finish.layout) :
    Declares start places placed environment finish := by
  constructor
  · exact declares.environment
  · exact declares.still.trans ordered (still.stillBut _)
  · rw [still _ (Nat.lt_of_lt_of_le isFrame ordered.size)]
    exact declares.row

/-- A name is declared, with a slot unless it is global. -/
structure Introduces (start : Pairing) (places : Places) (name : Name) (index : Nat)
    (placed : List Placed) (environment : Environment) (finish : Pairing) : Prop where
  declares : Declares start places placed environment finish
  locals : placed.map Prod.fst = [.named name]
  slot : places ≠ [] → ∃ cell, placed = [(.named name, cell)] ∧
    (finish.layout.row start.machine.current)[index]? = some (.named name, cell)

/-- A variable or class is made known without a value. -/
theorem introduce (fits : start.Fits setting) (stands : start.Stands setting around places)
    (name : Name) :
    Simulates setting
      (if places.isEmpty then do
        Step.setGlobal name.text .uninitialised
        return 0
      else
        Step.newSlot .uninitialised)
      (Lexical.Step.introduce (!places.isEmpty) places.environment name.text) start
      fun index environment finish => ∃ placed,
        Introduces start places name index placed environment finish := by
  cases places with
  | nil =>
    apply (setGlobal fits name.text .uninitialised).bind
    intro _ _ finish leads same
    have layout : finish.layout = start.layout := same
    refine .pure leads.fits ⟨[(.named name, 0)], ?_, rfl, ?_⟩
    · apply Declares.global _ stands
      rw [layout]
      exact .refl _
    · exact fun impossible => absurd rfl impossible
  | cons innermost outer =>
    have inner : innermost :: outer ≠ [] := List.cons_ne_nil _ _
    apply (newSlot fits stands inner name).imp
    rintro index environment finish - ⟨cell, added, rfl⟩
    exact ⟨[(.named name, cell)], added.declares stands inner, rfl, fun _ => ⟨cell, rfl, added.here⟩⟩

/-- The variable or class that was declared last gets a value. -/
theorem initialise (fits : start.Fits setting) {placed : List Placed} {name : Name} {index : Nat}
    (slot : places ≠ [] → ∃ cell, placed = [(.named name, cell)] ∧
      (start.layout.row start.machine.current)[index]? = some (.named name, cell))
    {value : Value} {value' : Value Environment}
    (same : value.Matches setting start.layout value') :
    Simulates setting
      (if places.isEmpty then Step.setGlobal name.text (.initialised value)
      else Step.setSlot index value)
      (Lexical.Step.initialise (!places.isEmpty) (places.declare placed).environment name.text
        value') start (SameLayout start) := by
  cases places with
  | nil => exact setGlobal fits name.text (.initialised same)
  | cons innermost outer =>
    rcases slot (List.cons_ne_nil _ _) with ⟨cell, rfl, here⟩
    rw [Places.environment_declare_singleton]
    exact setSlot fits here same

/-! ## Classes -/

theorem newMethods (added : Scopes) {frame : FrameId} (allowInitializer : Bool)
    (initializer : allowInitializer → added = [[.this]])
    (surrounds : around.Fits setting.names (added ++ places.scopes)) (methods : List NamedFunction)
    (known : NamedFunction.occurrencesAll around (added ++ places.scopes) methods ⊆
      setting.occurrences)
    (proper : NamedFunction.AreProper setting.names methods) (fits : start.Fits setting)
    (chain : start.layout.Chain places frame) {table : Table Closure}
    {table' : Table (Closure Environment)}
    (same : Table.Related (Closure.Matches setting start.layout added) table table') :
    Simulates setting (Step.newMethods frame allowInitializer methods table)
      (Lexical.Step.newMethods places.environment allowInitializer methods table') start
      fun table table' finish => finish.layout = start.layout ∧
        Table.Related (Closure.Matches setting finish.layout added) table table' := by
  induction methods generalizing start table table' with
  | nil => exact .pure fits ⟨rfl, same⟩
  | cons first others induction =>
    rcases first with ⟨name, definition⟩
    rw [NamedFunction.occurrencesAll, List.append_subset] at known
    have keeps : Keeps setting start.layout added
        (.body definition (allowInitializer && name.text == "init")) frame
        places.environment := by
      refine ⟨around, places, chain, rfl, ?_⟩
      rintro _ _ ⟨⟩
      refine ⟨⟨known.1, proper.1, surrounds⟩, ?_⟩
      intro isInitializer
      rw [Bool.and_eq_true] at isInitializer
      rw [initializer isInitializer.1]
      exact ⟨places.scopes, rfl⟩
    apply (newClosure fits name.text keeps).bind
    rintro method method' middle leads ⟨matched, -, layout⟩
    rw [← layout] at chain same
    apply (induction known.2 proper.2 leads.fits chain (same.insert name.text matched)).imp
    rintro table table' finish - ⟨sameLayout, tables⟩
    exact ⟨sameLayout.trans layout, tables⟩

theorem superclass (exact : setting.Exact) (fits : start.Fits setting)
    (stands : start.Stands setting around places) (target : Option Reference)
    (known : target.toList.map (Reference.occurrence places.scopes) ⊆ setting.occurrences) :
    Simulates setting (Step.superclass setting.addresses target)
      (Lexical.Step.superclass places.environment target) start
      fun superclass? superclass?' finish => finish = start ∧
        superclass?.isSome = target.isSome ∧
        Option.Rel (Class.Matches setting start.layout) superclass? superclass?' := by
  cases target with
  | none => exact .pure fits ⟨rfl, rfl, .none⟩
  | some target =>
    have isKnown : target.occurrence places.scopes ∈ setting.occurrences := by
      simpa using known
    apply (read exact fits stands isKnown rfl rfl rfl).bind
    rintro value value' middle - ⟨rfl, same⟩
    cases same with
    | type same => exact .pure fits ⟨rfl, rfl, .some same⟩
    | _ => exact .fail target.name.line _ fits

/-- The methods of a class keep the scopes around them, with one for `super`. -/
theorem methodEnvironment (fits : start.Fits setting)
    (chain : start.layout.Chain places start.machine.current) {superclass? : Option Class}
    {superclass?' : Option (Class Environment)}
    (same : Option.Rel (Class.Matches setting start.layout) superclass? superclass?')
    {target : Option Reference} (isSome : superclass?.isSome = target.isSome) :
    Simulates setting (Step.methodFrame superclass?)
      (Lexical.Step.methodEnvironment places.environment superclass?') start
      fun frame environment finish => ∃ inClass : Places,
        inClass.scopes = places.scopes.ofClass target ∧ environment = inClass.environment ∧
        finish.layout.Chain inClass frame ∧ start.layout.Still finish.layout := by
  cases same with
  | none =>
    cases target with
    | none => exact .look_left fits rfl (.pure fits ⟨places, rfl, rfl, chain, .refl _⟩)
    | some => cases isSome
  | @some superclass superclass' same =>
    cases target with
    | none => cases isSome
    | some target =>
      apply Simulates.look_left fits rfl
      apply (newImplicit fits chain .super (.type same) ⟨superclass, rfl⟩).imp
      rintro frame environment finish - ⟨cell, -, layout, rfl, inFrame⟩
      refine ⟨[(.super, cell)] :: places, rfl, rfl, inFrame, ?_⟩
      rw [layout]
      exact start.layout.still_add _ _

/-- A class is made, and its methods keep the scopes around it on both machines. -/
theorem newClass {α β : Type} (next : Class → Step α)
    (next' : Class Environment → Lexical.Step β) {post : α → β → Pairing → Prop}
    (exact : setting.Exact) (fits : start.Fits setting) (stands : start.Stands setting around places)
    (name : Name) (target : Option Reference) (methods classMethods : List NamedFunction)
    (targetKnown : target.toList.map (Reference.occurrence places.scopes) ⊆ setting.occurrences)
    (methodsKnown : NamedFunction.occurrencesAll (.method target.isSome)
      ([.this] :: places.scopes.ofClass target) methods ⊆ setting.occurrences)
    (classMethodsKnown : NamedFunction.occurrencesAll .classMethod (places.scopes.ofClass target)
      classMethods ⊆ setting.occurrences)
    (methodsProper : NamedFunction.AreProper setting.names methods)
    (classMethodsProper : NamedFunction.AreProper setting.names classMethods)
    (rest : ∀ type type' finish, Leads setting start finish →
      start.layout.Still finish.layout → type.Matches setting finish.layout type' →
        Simulates setting (next type) (next' type') finish post) :
    Simulates setting
      (do
        let superclass ← Step.superclass setting.addresses target
        let frame ← Step.methodFrame superclass
        let methods ← Step.newMethods frame true methods ∅
        let classMethods ← Step.newMethods frame false classMethods ∅
        let id ← Step.freshId
        next (.extending ⟨id, name.text, methods, classMethods⟩ superclass))
      (do
        let superclass ← Lexical.Step.superclass places.environment target
        let inClass ← Lexical.Step.methodEnvironment places.environment superclass
        let methods ← Lexical.Step.newMethods inClass true methods ∅
        let classMethods ← Lexical.Step.newMethods inClass false classMethods ∅
        let id ← Lexical.Step.freshId
        next' (.extending ⟨id, name.text, methods, classMethods⟩ superclass)) start post := by
  apply (superclass exact fits stands target targetKnown).bind
  rintro superclass? superclass?' first - ⟨rfl, isSome, inherited⟩
  apply (methodEnvironment fits stands.chain inherited isSome).bind
  rintro frame _ second leads ⟨inClass, sameScopes, rfl, inFrame, still⟩
  rw [← sameScopes] at classMethodsKnown methodsKnown
  have surrounds : (Surroundings.method target.isSome).Fits setting.names
      ([[.this]] ++ inClass.scopes) := by
    rw [sameScopes]
    exact Watched.surrounds_ofClass target
  apply (newMethods [[.this]] true (fun _ => rfl) surrounds methods methodsKnown methodsProper
    leads.fits inFrame (Table.related_empty _)).bind
  rintro table table' third further ⟨thirdLayout, tables⟩
  have noSuper : Surroundings.classMethod.Fits setting.names ([] ++ inClass.scopes) := by
    intro impossible
    cases impossible
  rw [← thirdLayout] at inFrame still
  apply (newMethods [] false (by simp) noSuper classMethods classMethodsKnown classMethodsProper
    further.fits inFrame (Table.related_empty _)).bind
  rintro classTable classTable' fourth last ⟨fourthLayout, classTables⟩
  rw [← fourthLayout] at tables still
  apply (freshId last.fits).bind
  rintro id _ finish final ⟨rfl, finalLayout⟩
  rw [← finalLayout] at tables classTables still
  have leadsAll := leads.trans (further.trans (last.trans final))
  have superclasses : Option.Rel (Class.Matches setting finish.layout) superclass? superclass?' :=
    optionRel_imp (fun _ _ same => Class.Matches.mono (.refl setting) leadsAll.ordered same)
      inherited
  have own : ClassBody.Matches setting finish.layout ⟨id, name.text, table, classTable⟩
      ⟨id, name.text, table', classTable'⟩ := ⟨rfl, rfl, tables, classTables⟩
  exact rest _ _ finish leadsAll still (Class.related_extending own superclasses)

theorem declareClass (exact : setting.Exact) (fits : start.Fits setting)
    (stands : start.Stands setting around places) (name : Name) (target : Option Reference)
    (methods classMethods : List NamedFunction)
    (known : (Stmt.classDecl name target methods classMethods).occurrences around places.scopes ⊆
      setting.occurrences)
    (proper : (Stmt.classDecl name target methods classMethods).IsProper setting.names) :
    Simulates setting (Step.declareClass setting.addresses name target methods classMethods)
      (Lexical.Step.declareClass (!places.isEmpty) places.environment name target methods
        classMethods) start
      fun value result finish => value.Matches setting finish.layout result.1 ∧
        ∃ placed, placed.map Prod.fst = [.named name] ∧
          Declares start places placed result.2 finish := by
  rw [Stmt.occurrences] at known
  rw [Stmt.IsProper] at proper
  rcases proper with ⟨isName, -, methodsProper, classMethodsProper⟩
  rw [Step.declareClass_eq]
  apply Simulates.look_left fits stands.inRoot
  apply (introduce fits stands name).bind
  rintro index environment first follows ⟨placed, introduces⟩
  have named : Local.AreNamed setting.names (placed.map Prod.fst) := by
    rw [introduces.locals]
    exact Local.areNamed_singleton isName
  have standsInside := stands.declare follows named introduces.declares.row
  rw [introduces.declares.environment]
  have scopes : (places.declare placed).scopes = places.scopes.declare [.named name] := by
    rw [Places.scopes_declare, introduces.locals]
  rw [← scopes, List.append_subset, List.append_subset] at known
  rcases known with ⟨⟨targetKnown, classMethodsKnown⟩, methodsKnown⟩
  apply newClass
    (fun type => do
      (if places.isEmpty then Step.setGlobal name.text (.initialised (.type type))
        else Step.setSlot index (.type type) : Step Unit)
      return Value.type type)
    (fun type' => do
      Lexical.Step.initialise (!places.isEmpty) (places.declare placed).environment name.text
        (.type type')
      return (Value.type type', (places.declare placed).environment))
    exact follows.fits standsInside name target methods classMethods targetKnown methodsKnown
    classMethodsKnown methodsProper classMethodsProper
  intro type type' second leads still same
  have slot : places ≠ [] → ∃ cell, placed = [(.named name, cell)] ∧
      (second.layout.row second.machine.current)[index]? = some (.named name, cell) := by
    intro inner
    rcases introduces.slot inner with ⟨cell, same, here⟩
    refine ⟨cell, same, ?_⟩
    rw [(follows.trans leads).current]
    exact Layout.getElem?_of_prefix (leads.ordered.row _
      (Nat.lt_of_lt_of_le stands.chain.lt_size follows.ordered.size)) here
  apply (initialise leads.fits slot (.type same)).bind
  intro _ _ finish ends sameLayout
  have layout : finish.layout = second.layout := sameLayout
  rw [← layout] at same still
  refine .pure ends.fits ⟨.type same, placed, introduces.locals, ?_⟩
  have declares := introduces.declares.then stands.chain.lt_size follows.ordered still
  rw [introduces.declares.environment] at declares
  exact declares

/-! ## Functions and variables -/

/-- In a scope, declaring a variable with a value makes a slot. -/
theorem defineVariable_eq (name : Name) (value : Value) {machine : Machine}
    (inside : Step.inRoot machine = .ok false machine) :
    Step.defineVariable name value machine = .ok () { machine with
      frames := machine.frames.append machine.current (.initialised value) } := by
  rw [Step.defineVariable]
  show EStateM.bind _ _ machine = _
  rw [EStateM.bind, inside]
  rfl

/-- What was pushed last is changed. -/
theorem push_modify {α : Type} (array : Array α) (last : α) (change : α → α) :
    (array.push last).modify array.size change = array.push (change last) := by
  apply Array.ext_getElem?
  intro index
  rw [Array.getElem?_modify, Array.getElem?_push, Array.getElem?_push]
  by_cases isLast : index = array.size
  · subst isLast
    rw [if_pos rfl, if_pos rfl, if_pos rfl]
    rfl
  · rw [if_neg (Ne.symm isLast), if_neg isLast, if_neg isLast]

/-- In a scope, declaring a function makes a slot for it. -/
theorem defineFunction_eq (name : Name) (definition : Function) {machine : Machine}
    (inside : (machine.current == Machine.root) = false) :
    (do
      let closure ← Step.newClosure machine.current name.text (.body definition false)
      Step.defineVariable name (.function closure)) machine =
        .ok () { machine with
          nextId := machine.nextId + 1
          frames := machine.frames.append machine.current (.initialised (.function
            ⟨machine.nextId, name.text, .body definition false, machine.current⟩)) } := by
  have made : Step.newClosure machine.current name.text (.body definition false) machine =
      .ok ⟨machine.nextId, name.text, .body definition false, machine.current⟩
        { machine with nextId := machine.nextId + 1 } := rfl
  have counted : Step.inRoot { machine with nextId := machine.nextId + 1 } =
      .ok false { machine with nextId := machine.nextId + 1 } :=
    congrArg (EStateM.Result.ok · _) inside
  show EStateM.bind _ _ machine = _
  rw [EStateM.bind, made]
  exact defineVariable_eq name _ counted

/-- The environment that a declared function keeps begins with its own name. -/
theorem declareFunction_eq (environment : Environment) (name : Name) (definition : Function)
    (reference : Lexical.Machine) :
    Lexical.Step.declareFunction true environment name definition reference =
      .ok ((name.text, reference.cells.size) :: environment)
        { reference with
          nextId := reference.nextId + 1
          cells := reference.cells.push (.initialised (.function
            ⟨reference.nextId, name.text, .body definition false,
              (name.text, reference.cells.size) :: environment⟩)) } := by
  rw [← push_modify reference.cells .uninitialised fun _ => .initialised (.function
    ⟨reference.nextId, name.text, .body definition false,
      (name.text, reference.cells.size) :: environment⟩)]
  rfl

/-- A function that is declared in a scope keeps the same on both machines. -/
theorem keeps_of_declared (stands : start.Stands setting around places) (inner : places ≠ [])
    {name : Name} {definition : Function} (isName : setting.names name.text)
    (known : definition.occurrences around (places.scopes.declare [.named name]) ⊆
      setting.occurrences)
    (proper : definition.IsProper setting.names) (cell : Nat) :
    Keeps setting (start.layout.extend start.machine.current (.named name, cell)) []
      (.body definition false) start.machine.current
      ((name.text, cell) :: places.environment) := by
  cases places with
  | nil => exact absurd rfl inner
  | cons innermost outer =>
    have chain : (start.layout.extend start.machine.current (.named name, cell)).Chain
        (Places.declare [(.named name, cell)] (innermost :: outer)) start.machine.current := by
      apply (stands.chain.mono (start.layout.le_extend _ _)).extend
      rw [Layout.row_extend_self, stands.row]
      exact List.prefix_refl _
    refine ⟨around, _, chain, ?_, ?_⟩
    · rw [Places.environment_declare_singleton]
      rfl
    · rintro _ _ ⟨⟩
      refine ⟨⟨?_, proper, ?_⟩, fun impossible => by cases impossible⟩
      · rw [List.nil_append, Places.scopes_declare]
        exact known
      · rw [List.nil_append, Places.scopes_declare]
        exact stands.around.declare stands.named (Local.areNamed_singleton isName)

/-- Outside of all scopes a function is a global variable. -/
theorem declareFunction_global (fits : start.Fits setting)
    (stands : start.Stands setting around []) {name : Name} {definition : Function}
    (known : definition.occurrences around [] ⊆ setting.occurrences)
    (proper : definition.IsProper setting.names) :
    Simulates setting
      (do
        let closure ← Step.newClosure start.machine.current name.text (.body definition false)
        Step.defineVariable name (.function closure))
      (Lexical.Step.declareFunction false (Places.environment []) name definition) start
      fun _ environment finish => ∃ placed, placed.map Prod.fst = [.named name] ∧
        Declares start [] placed environment finish := by
  have keeps : Keeps setting start.layout [] (.body definition false) start.machine.current
      (Places.environment []) := by
    refine ⟨around, [], stands.chain, rfl, ?_⟩
    rintro _ _ ⟨⟩
    exact ⟨⟨known, proper, stands.around⟩, fun impossible => by cases impossible⟩
  apply (newClosure fits name.text keeps).bind
  rintro closure closure' first follows ⟨matched, -, layout⟩
  have still : start.layout.Still first.layout := by
    rw [layout]
    exact .refl _
  apply Simulates.look_left follows.fits (stands.follow follows still).inRoot
  apply (setGlobal follows.fits name.text (.initialised (.function matched))).bind
  intro _ _ finish further same
  have sameLayout : finish.layout = first.layout := same
  rw [← sameLayout] at still
  exact .pure further.fits ⟨[(.named name, 0)], rfl, .global _ stands still⟩

/-- In a scope a function keeps its own name, which is declared for it. -/
theorem declareFunction_local (fits : start.Fits setting)
    (stands : start.Stands setting around places) (inner : places ≠ []) {name : Name}
    {definition : Function} (isName : setting.names name.text)
    (known : definition.occurrences around (places.scopes.declare [.named name]) ⊆
      setting.occurrences)
    (proper : definition.IsProper setting.names) :
    Simulates setting
      (do
        let closure ← Step.newClosure start.machine.current name.text (.body definition false)
        Step.defineVariable name (.function closure))
      (Lexical.Step.declareFunction true places.environment name definition) start
      fun _ environment finish => ∃ placed, placed.map Prod.fst = [.named name] ∧
        Declares start places placed environment finish := by
  have counted : Leads setting start
      ⟨start.layout, { start.machine with nextId := start.machine.nextId + 1 },
        { start.reference with nextId := start.reference.nextId + 1 }⟩ := by
    rcases fits.agrees with ⟨globals, size, fields, nextId, printed, clock⟩
    exact leads_quiet fits rfl rfl rfl
      ⟨globals, size, fields, congrArg (· + 1) nextId, printed, clock⟩
  have closures : Closure.Matches setting (start.layout.extend start.machine.current
      (.named name, start.reference.cells.size)) []
      ⟨start.machine.nextId, name.text, .body definition false, start.machine.current⟩
      ⟨start.reference.nextId, name.text, .body definition false,
        (name.text, start.reference.cells.size) :: places.environment⟩ :=
    ⟨fits.agrees.nextId, rfl, rfl, keeps_of_declared stands inner isName known proper _⟩
  have added := leads_addSlot counted.fits (stands.follow counted (.refl _)) inner name
    (.initialised (.function closures))
  have inside : (start.machine.current == Machine.root) = false := by
    rw [beq_eq_false_iff_ne]
    exact fun same => inner (stands.chain.eq_root_iff.mp same)
  apply of_ok ⟨_, _, _⟩ (defineFunction_eq name definition inside)
    (declareFunction_eq places.environment name definition start.reference) (counted.trans added)
  cases places with
  | nil => exact absurd rfl inner
  | cons innermost outer =>
    refine ⟨[(.named name, start.reference.cells.size)], rfl, ?_, ?_, ?_⟩
    · rw [Places.environment_declare_singleton]
      rfl
    · exact start.layout.stillBut_extend _ _
    · show (start.layout.extend _ _).row _ = _
      rw [Layout.row_extend_self, stands.row]
      rfl

/-- A function keeps the scope that it is declared in, with its own name. -/
theorem declareFunction (fits : start.Fits setting) (stands : start.Stands setting around places)
    {name : Name} {definition : Function} (isName : setting.names name.text)
    (known : definition.occurrences around (places.scopes.declare [.named name]) ⊆
      setting.occurrences)
    (proper : definition.IsProper setting.names) :
    Simulates setting
      (do
        let machine ← get
        let closure ← Step.newClosure machine.current name.text (.body definition false)
        Step.defineVariable name (.function closure))
      (Lexical.Step.declareFunction (!places.isEmpty) places.environment name definition) start
      fun _ environment finish => ∃ placed, placed.map Prod.fst = [.named name] ∧
        Declares start places placed environment finish := by
  apply Simulates.look_left fits rfl
  cases places with
  | nil => exact declareFunction_global fits stands known proper
  | cons => exact declareFunction_local fits stands (List.cons_ne_nil _ _) isName known proper

end Simulates

end Lox
