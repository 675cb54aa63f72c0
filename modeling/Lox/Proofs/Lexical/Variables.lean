import Lox.Proofs.Lexical.Operations

/-!
# Variables, methods and classes that mean the same

The steps that look up or declare something, in code that stands in the scopes of a
program.  What an address leads to is what the name means in the environment.
-/

namespace Lox

open Lexical (Environment)

namespace Simulates

variable {setting : Setting} {around : Surroundings} {places : Places} {start : Pairing}

/-! ## What names mean -/

/-- What a name means in the scopes of a program: a local of a frame and a cell, or a global. -/
inductive Means (setting : Setting) (places : Places) (start : Pairing) (id : Nat)
    (name : String) : Prop where
  | aLocal {address : Address} {frame : FrameId} {declared : Local} {cell : Nat}
      {row : List Placed}
      (recorded : setting.addresses[id]? = some address)
      (further : start.machine.frames.ancestor? start.machine.current address.depth = some frame)
      (scope : places[address.depth]? = some row)
      (begins : row <+: start.layout.row frame)
      (here : row[address.slot]? = some (declared, cell)) (text : declared.text = name)
      (cellIs : places.environment.lookup name = some cell)
  | aGlobal (recorded : setting.addresses[id]? = none)
      (missing : places.environment.lookup name = none)

section

variable (exact : setting.Exact) (fits : start.Fits setting)
  (stands : start.Stands setting around places) {occurrence : Occurrence}
  (known : occurrence ∈ setting.occurrences) (inScopes : occurrence.scopes = places.scopes)
include exact fits stands known inScopes

/-- The recorded address leads to the slot of the cell that the name means. -/
theorem means : Means setting places start occurrence.id occurrence.name := by
  have recorded := exact.recorded occurrence known
  rw [Occurrence.address?, if_pos (exact.legal occurrence known), inScopes] at recorded
  rcases places.lookup_environment occurrence.name with ⟨global, missing⟩ |
    ⟨address, row, ⟨declared, cell⟩, found, scope, here, text, cellIs⟩
  · exact .aGlobal (recorded.trans global) missing
  · rcases stands.chain.exists_ancestor? fits.frames.enclosing scope with
      ⟨frame, further, -, -, begins⟩
    exact .aLocal (recorded.trans found) further scope begins here text cellIs

/-- Both machines have the same in the variable that a use means. -/
theorem slotOf?_related {id : Nat} (sameId : id = occurrence.id) {name : String}
    (sameName : name = occurrence.name) :
    Option.Rel (Slot.Matches setting start.layout)
      (Step.slot? setting.addresses id name start.machine)
      (start.reference.slotOf? places.environment name) := by
  subst sameId sameName
  rw [Step.slot?, Lexical.Machine.slotOf?]
  cases means exact fits stands known inScopes with
  | aLocal recorded further scope begins here text cellIs =>
    rcases fits.frames.exists_slot (Layout.getElem?_of_prefix begins here) with
      ⟨slot, slot', found, found', same, -⟩
    rw [recorded, cellIs]
    simp only [Frames.get?, further, found, found']
    exact .some same
  | aGlobal recorded missing =>
    rw [recorded, missing]
    exact fits.agrees.globals occurrence.name

theorem read {id : Nat} (sameId : id = occurrence.id) {name : Name}
    (sameName : name.text = occurrence.name) :
    Simulates setting (Step.readVariable setting.addresses id name)
      (Lexical.Step.readVariable places.environment name) start
      fun value value' finish => finish = start ∧ value.Matches setting start.layout value' := by
  have same := slotOf?_related exact fits stands known inScopes sameId sameName
  rw [Simulates, Step.readVariable_eq, Lexical.Step.readVariable, Step.get_bind]
  revert same
  generalize Step.slot? setting.addresses id name.text start.machine = slot?
  generalize start.reference.slotOf? places.environment name.text = slot?'
  rintro (same | _)
  · cases same with
    | uninitialised => exact .error _ start.layout (.refl fits)
    | initialised same => exact .ok start.layout (.refl fits) ⟨rfl, same⟩
  · exact .error _ start.layout (.refl fits)

theorem assign {target : Reference} (sameId : target.id = occurrence.id)
    (sameName : target.name.text = occurrence.name) (isName : setting.names target.name.text)
    {value : Value} {value' : Value Environment}
    (same : value.Matches setting start.layout value') :
    Simulates setting (Step.assignVariable setting.addresses target value)
      (Lexical.Step.assignVariable places.environment target.name value') start
      (SameLayout start) := by
  have found := means exact fits stands known inScopes
  rw [← sameId, ← sameName] at found
  cases found with
  | @aLocal address frame declared cell row recorded further scope begins here text cellIs =>
    have inRow := Layout.getElem?_of_prefix begins here
    have plain := exact.plain _ isName
    rw [← text] at plain
    have written := fits.frames.write inRow same (Local.admits_of_text _ plain)
    rcases fits.frames.exists_slot inRow with ⟨slot, -, inSlots, -⟩
    have holder := (Frames.holder?_eq_some_iff start.machine.frames start.machine.current _ _ _).mpr
      ⟨further, (Array.getElem?_eq_some_iff.mp inSlots).1⟩
    have left := Step.assignVariable_eq setting.addresses target value start.machine
    simp only [recorded, holder] at left
    have right : Lexical.Step.assignVariable places.environment target.name value'
        start.reference = .ok () { start.reference with
          cells := start.reference.cells.modify cell fun _ => .initialised value' } := by
      rw [Lexical.Step.assignVariable, cellIs]
      rfl
    exact of_ok ⟨_, _, _⟩ left right (leads_frames fits (.refl _) written) rfl
  | aGlobal recorded missing =>
    have left := Step.assignVariable_eq setting.addresses target value start.machine
    have right : Lexical.Step.assignVariable places.environment target.name value'
        start.reference =
          if start.reference.globals.contains target.name.text then
            Lexical.Step.setGlobal target.name.text (.initialised value') start.reference
          else
            Lexical.Step.fail target.name.line (.undefinedVariable target.name.text)
              start.reference := by
      rw [Lexical.Step.assignVariable, missing]
      show (if start.reference.globals.contains target.name.text then _ else _ :
        Lexical.Step Unit) start.reference = _
      split <;> rfl
    simp only [recorded, fits.agrees.globals.contains_eq target.name.text] at left
    by_cases defined : start.reference.globals.contains target.name.text
    · rw [if_pos defined] at left right
      exact (setGlobal fits target.name.text (.initialised same)).congr left right
    · rw [if_neg defined] at left right
      exact (fail target.name.line _ fits).congr left right

end

/-! ## Methods -/

/-- An instance method that is bound to an instance keeps a scope for `this`. -/
theorem bindMethod (fits : start.Fits setting) {target : Instance} {target' : Instance Environment}
    (sameTarget : Value.Matches setting start.layout (.object target) (.object target'))
    {method : Closure} {method' : Closure Environment}
    (same : method.Matches setting start.layout [[.this]] method') :
    Simulates setting (Step.bindMethod target method) (Lexical.Step.bindMethod target' method') start
      fun closure closure' finish => closure.Matches setting finish.layout [] closure' ∧
        closure.behaviour = method.behaviour ∧ start.layout.Still finish.layout := by
  rcases method with ⟨id, name, behaviour, frame⟩
  rcases method' with ⟨id', name', behaviour', environment⟩
  rcases same with ⟨rfl, rfl, rfl, around, scopes, chain, rfl, body⟩
  apply (newImplicit fits chain .this sameTarget ⟨target, rfl⟩).bind
  rintro inner environment middle leads ⟨cell, -, layout, rfl, inFrame⟩
  have keeps : Keeps setting middle.layout [] behaviour inner
      (Places.environment ([(.this, cell)] :: scopes)) :=
    ⟨around, [(.this, cell)] :: scopes, inFrame, rfl, body⟩
  apply (newClosure leads.fits name keeps).imp
  rintro closure closure' finish - ⟨matched, behaves, same⟩
  refine ⟨matched, behaves, ?_⟩
  rw [same, layout]
  exact start.layout.still_add _ _

/-- The same with a function value as the result. -/
theorem bindMethod_function (fits : start.Fits setting) {target : Instance}
    {target' : Instance Environment}
    (sameTarget : Value.Matches setting start.layout (.object target) (.object target'))
    {method : Closure} {method' : Closure Environment}
    (same : method.Matches setting start.layout [[.this]] method') :
    Simulates setting (do return .function (← Step.bindMethod target method))
      (do return .function (← Lexical.Step.bindMethod target' method')) start
      (Yields setting start) := by
  apply (bindMethod fits sameTarget same).bind
  rintro closure closure' finish leads ⟨matched, -, still⟩
  exact .pure leads.fits ⟨.function matched, still⟩

theorem property (fits : start.Fits setting) {target : Value} {target' : Value Environment}
    (same : target.Matches setting start.layout target') (name : Name) :
    Simulates setting (Step.property target name) (Lexical.Step.property target' name) start
      (Yields setting start) := by
  cases same with
  | object id same =>
    apply (field? fits rfl name.text).bind
    rintro value? value?' middle - ⟨rfl, found⟩
    cases found with
    | some found => exact .pure fits ⟨found, .refl _⟩
    | none =>
      have method := same.method? name.text
      revert method
      dsimp only
      generalize Class.method? _ name.text = found
      generalize Class.method? _ name.text = found'
      rintro (method | _)
      · exact bindMethod_function fits (.object id same) method
      · exact .fail name.line _ fits
  | type same =>
    have method := same.classMethod? name.text
    rw [Step.property, Lexical.Step.property]
    revert method
    generalize Class.classMethod? _ name.text = found
    generalize Class.classMethod? _ name.text = found'
    rintro (method | _)
    · exact .pure fits ⟨.function method, .refl _⟩
    · exact .fail name.line _ fits
  | _ => exact .fail name.line _ fits

/-- The slot and the cell of `this` or of `super`. -/
theorem exists_implicit (fits : start.Fits setting) {frame : FrameId}
    (chain : start.layout.Chain places frame) {declared : Local} {depth : Nat}
    (here : places.scopes[depth]? = some [declared])
    (found : locate? declared.text places.scopes.names = some ⟨depth, 0⟩) :
    ∃ slot slot', start.machine.frames.get? frame depth 0 = some slot ∧
      start.reference.slotOf? places.environment declared.text = some slot' ∧
      slot.Matches setting start.layout slot' ∧ declared.Admits slot := by
  rcases places.lookup_environment declared.text with ⟨missing, -⟩ |
    ⟨address, row, ⟨other, cell⟩, located, scope, inScope, -, cellIs⟩
  · rw [found] at missing
    cases missing
  · rw [found] at located
    cases located
    rcases chain.exists_ancestor? fits.frames.enclosing scope with ⟨holder, further, -, -, begins⟩
    rcases fits.frames.exists_slot (Layout.getElem?_of_prefix begins inScope) with
      ⟨slot, slot', inSlots, inCells, same, admitted⟩
    have isLocal : other = declared := by
      rw [Places.scopes, List.getElem?_map, scope] at here
      have rows : row.map Prod.fst = [declared] := Option.some.inj here
      have first := congrArg (·[0]?) rows
      simp only [List.getElem?_map, inScope] at first
      exact Option.some.inj first
    subst isLocal
    refine ⟨slot, slot', ?_, ?_, same, admitted⟩
    · rw [Frames.get?, further]
      exact inSlots
    · rw [Lexical.Machine.slotOf?, cellIs]
      exact inCells

/-- A method of the superclass is that of the class that `super` means. -/
theorem superMethod (exact : setting.Exact) (fits : start.Fits setting)
    (stands : start.Stands setting around places) {id : Nat}
    (known : ⟨id, "super", around.allowsSuper, places.scopes⟩ ∈ setting.occurrences) (line : Nat)
    (method : Name) :
    Simulates setting (Step.superMethod setting.addresses id line method)
      (Lexical.Step.superMethod places.environment line method) start (Yields setting start) := by
  have allowed : around.allowsSuper := exact.legal _ known
  rcases stands.around.exists_locate? allowed exact.plain with
    ⟨depth, thisHere, superHere, thisMeans, superMeans⟩
  have recorded : setting.addresses[id]? = some ⟨depth + 1, 0⟩ := by
    rw [exact.recorded _ known, Occurrence.address?, if_pos allowed]
    exact superMeans
  rcases exists_implicit fits stands.chain superHere superMeans with
    ⟨_, _, superFound, superFound', superSame, ⟨superclass, rfl⟩⟩
  rcases exists_implicit fits stands.chain thisHere thisMeans with
    ⟨_, _, thisFound, thisFound', thisSame, ⟨target, rfl⟩⟩
  cases superSame with
  | initialised superSame =>
    cases superSame with
    | @type _ superclass' superSame =>
      cases thisSame with
      | initialised thisSame =>
        rcases target with ⟨target, type⟩
        cases thisSame with
        | @object _ _ type' thisSame =>
          have left := Step.superMethod_eq setting.addresses id line method start.machine
          simp only [Step.superclass?, Step.receiver?, recorded, superFound, thisFound] at left
          have superIs : start.reference.slotOf? places.environment "super" = _ := superFound'
          have thisIs : start.reference.slotOf? places.environment "this" = _ := thisFound'
          have methods := superSame.method? method.text
          rw [Simulates, left, Lexical.Step.superMethod, Step.get_bind]
          simp only [superIs, thisIs, Step.get_bind]
          revert methods
          generalize Class.method? _ method.text = found
          generalize Class.method? _ method.text = found'
          rintro (found | _)
          · exact bindMethod_function fits (.object target thisSame) found
          · exact fail method.line (.undefinedProperty method.text) fits

end Simulates

end Lox
