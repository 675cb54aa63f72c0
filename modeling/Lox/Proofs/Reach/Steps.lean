import Lox.Proofs.Machine.Current
import Lox.Proofs.Machine.Variables
import Lox.Proofs.Reach.Region

/-!
# Steps in a region

`Step.StaysIn` says of a step that it only uses what is in a region that is closed: on two
machines that differ outside of it only it ends in the same way, with a result that does not
lead out of the region; afterwards the region is still closed and the machines differ outside
of it only, where each of them is what it was.  Below are its laws and the steps that programs
are made of.
-/

namespace Lox

variable {α β : Type}

/-- How a step ends on two machines that are alike in a region. -/
inductive Region.Ends (region : Region) (post : α → Prop) (left right : Machine) :
    EStateM.Result Stop Machine α → EStateM.Result Stop Machine α → Prop where
  | ok {result left' right'} (moves : region.Moves left right left' right')
      (holds : post result) : Ends region post left right (.ok result left') (.ok result right')
  | error (stop : Stop) {left' right'} (moves : region.Moves left right left' right') :
      Ends region post left right (.error stop left') (.error stop right')

/--
A step only uses what is in a region.  If it is one of code that runs `inside`, this is so
where the code runs in a frame of the region.
-/
def Step.StaysIn (region : Region) (inside : Bool) (post : α → Prop) (step : Step α) : Prop :=
  ∀ left right : Machine, region.Fits left right → (inside → region (.frame left.current)) →
    region.Ends post left right (step left) (step right)

namespace Region.Moves

variable {region : Region} {left right left' right' left'' right'' : Machine}

theorem refl (fits : region.Fits left right) : region.Moves left right left right :=
  ⟨fits, .refl region left, .refl region right⟩

theorem trans (before : region.Moves left right left' right')
    (after : region.Moves left' right' left'' right'') :
    region.Moves left right left'' right'' :=
  ⟨after.fits, before.kept.trans after.kept, before.kept'.trans after.kept'⟩

end Region.Moves

namespace Step.StaysIn

variable {region : Region} {inside : Bool} {post post' : α → Prop} {step : Step α}

/-! ## Laws -/

theorem imp (stays : Step.StaysIn region inside post step)
    (weaker : ∀ result, post result → post' result) :
    Step.StaysIn region inside post' step := by
  intro left right fits within
  have ends := stays left right fits within
  revert ends
  generalize step left = first
  generalize step right = second
  rintro (⟨moves, holds⟩ | ⟨stop, moves⟩)
  · exact .ok moves (weaker _ holds)
  · exact .error stop moves

/-- A step that uses nothing of the frame of the code may be taken anywhere. -/
theorem anywhere (stays : Step.StaysIn region false post step) :
    Step.StaysIn region inside post step :=
  fun left right fits _ => stays left right fits fun impossible => by cases impossible

theorem pure {result : α} (holds : post result) :
    Step.StaysIn region inside post (Pure.pure result) :=
  fun _ _ fits _ => .ok (.refl fits) holds

theorem bind {next : α → Step β} {last : β → Prop} (first : Step.StaysIn region inside post step)
    (rest : ∀ result, post result → Step.StaysIn region inside last (next result)) :
    Step.StaysIn region inside last (step >>= next) := by
  intro left right fits within
  show region.Ends last left right (EStateM.bind step next left) (EStateM.bind step next right)
  rw [EStateM.bind, EStateM.bind]
  have ends := first left right fits within
  revert ends
  generalize step left = first
  generalize step right = second
  rintro (⟨moves, holds⟩ | ⟨stop, moves⟩)
  · rename_i result left' right'
    have withinStill : inside → region (.frame left'.current) := by
      rw [moves.kept.current]
      exact within
    have further := rest result holds left' right' moves.fits withinStill
    revert further
    dsimp only
    generalize next result left' = first
    generalize next result right' = second
    rintro (⟨movesThen, holdsThen⟩ | ⟨stop, movesThen⟩)
    · exact .ok (moves.trans movesThen) holdsThen
    · exact .error stop (moves.trans movesThen)
  · exact .error stop moves

theorem fail (line : Nat) (fault : RuntimeFault) :
    Step.StaysIn region inside post (Step.fail line fault) :=
  fun _ _ fits _ => .error _ (.refl fits)

theorem outOfFuel : Step.StaysIn region inside post (throw .outOfFuel) :=
  fun _ _ fits _ => .error _ (.refl fits)

theorem ofExcept {result : Except RuntimeError α}
    (holds : ∀ value, result = .ok value → post value) :
    Step.StaysIn region inside post (Step.ofExcept result) := by
  cases result with
  | ok value => exact pure (holds value rfl)
  | error error => exact fun _ _ fits _ => .error _ (.refl fits)

/-- The machine is looked at; what follows is the same for both. -/
theorem get {next : Machine → Step α}
    (rest : ∀ left right, region.Fits left right → (inside → region (.frame left.current)) →
      next left = next right ∧ Step.StaysIn region inside post (next left)) :
    Step.StaysIn region inside post (MonadState.get >>= next) := by
  intro left right fits within
  rcases rest left right fits within with ⟨same, stays⟩
  show region.Ends post left right (next left left) (next right right)
  rw [← same]
  exact stays left right fits within

/-- The frame of the code is looked up. -/
theorem getCurrent {next : Machine → Step α}
    (same : ∀ left right, left.current = right.current → next left = next right)
    (rest : ∀ machine, region (.frame machine.current) →
      Step.StaysIn region true post (next machine)) :
    Step.StaysIn region true post (MonadState.get >>= next) :=
  get fun left right fits within =>
    ⟨same left right fits.alike.current, rest left (within rfl)⟩

/-- Whether the code is in the root is looked up. -/
theorem inRoot {next : Bool → Step α}
    (rest : ∀ isGlobal, Step.StaysIn region inside post (next isGlobal)) :
    Step.StaysIn region inside post (Step.inRoot >>= next) := by
  rw [Step.inRoot, bind_assoc]
  apply get
  intro left right fits _
  refine ⟨by rw [fits.alike.current], ?_⟩
  rw [pure_bind]
  exact rest _

theorem within {frame : FrameId} (isInside : region (.frame frame))
    (stays : Step.StaysIn region true post step) :
    Step.StaysIn region inside post (Step.within frame step) := by
  intro left right fits _
  have entered : region.Fits { left with current := frame } { right with current := frame } :=
    ⟨fits.closed.congr rfl rfl rfl, { fits.alike with current := rfl }⟩
  have ends := stays _ _ entered fun _ => isInside
  have returns : ∀ left' right', region.Moves { left with current := frame }
      { right with current := frame } left' right' →
      region.Moves left right { left' with current := left.current }
        { right' with current := right.current } := by
    intro left' right' moves
    refine ⟨⟨moves.fits.closed.congr rfl rfl rfl, ?_⟩, ?_, ?_⟩
    · exact { moves.fits.alike with current := fits.alike.current }
    · exact { moves.kept with current := rfl }
    · exact { moves.kept' with current := rfl }
  rw [Step.within, Step.within]
  revert ends
  generalize step { left with current := frame } = first
  generalize step { right with current := frame } = second
  rintro (⟨moves, holds⟩ | ⟨stop, moves⟩)
  · exact .ok (returns _ _ moves) holds
  · exact .error stop (returns _ _ moves)

/-- The machine changes and the step yields something that does not depend on the change. -/
theorem change {step : Step α} (take : ∀ left right, region.Fits left right →
    (inside → region (.frame left.current)) → ∃ result left' right',
      step left = .ok result left' ∧ step right = .ok result right' ∧
        region.Moves left right left' right' ∧ post result) :
    Step.StaysIn region inside post step := by
  intro left right fits within
  rcases take left right fits within with ⟨result, left', right', here, there, moves, holds⟩
  rw [here, there]
  exact .ok moves holds

/-! ## Identities, frames and slots -/

theorem print (text : String) : Step.StaysIn region inside (fun _ => True) (Step.print text) := by
  apply change
  intro left right fits _
  refine ⟨(), _, _, rfl, rfl, ⟨⟨fits.closed.congr rfl rfl rfl, ?_⟩, ?_, ?_⟩, trivial⟩
  · exact { fits.alike with printed := congrArg (·.push text) fits.alike.printed }
  · exact .still rfl rfl rfl
  · exact .still rfl rfl rfl

theorem freshId : Step.StaysIn region inside (fun _ => True) Step.freshId := by
  apply change
  intro left right fits _
  refine ⟨left.nextId, { left with nextId := left.nextId + 1 },
    { right with nextId := right.nextId + 1 }, rfl, ?_,
    ⟨⟨fits.closed.congr rfl rfl rfl, ?_⟩, ?_, ?_⟩, trivial⟩
  · rw [fits.alike.nextId]
    rfl
  · exact { fits.alike with nextId := congrArg (· + 1) fits.alike.nextId }
  · exact .still rfl rfl rfl
  · exact .still rfl rfl rfl

theorem newFrame {enclosing : FrameId} (isInside : region (.frame enclosing))
    {values : List Value} (hold : ∀ value ∈ values, region.Holds value) :
    Step.StaysIn region inside (fun frame => region (.frame frame))
      (Step.newFrame enclosing values) := by
  apply change
  intro left right fits _
  have isNew := fits.closed.newFrame _ (Nat.le_refl _)
  have isNew' := isNew
  rw [fits.alike.size] at isNew'
  refine ⟨left.frames.size, _, _, rfl, ?_, ⟨⟨fits.closed.addFrame isInside hold, ?_⟩,
    .addFrame isNew enclosing values, .addFrame isNew' enclosing values⟩, isNew⟩
  · rw [fits.alike.size]
    rfl
  · exact fits.alike.addFrame enclosing values

theorem newSlot {slot : Slot Value} (holds : region.HoldsSlot slot) :
    Step.StaysIn region true (fun _ => True) (Step.newSlot slot) := by
  apply change
  intro left right fits within
  have current := fits.alike.current
  have isInside := within rfl
  have isInside' := isInside
  rw [current] at isInside'
  have same : left.frames.length left.current = right.frames.length right.current := by
    rw [Frames.length, Frames.length, fits.alike.slots _ isInside, current]
  refine ⟨left.frames.length left.current,
    { left with frames := left.frames.append left.current slot },
    { right with frames := right.frames.append right.current slot }, rfl, ?_,
    ⟨⟨fits.closed.append left.current holds, ?_⟩, .append isInside slot,
      .append isInside' slot⟩, trivial⟩
  · rw [same]
    rfl
  · have appended := fits.alike.append left.current slot
    simpa only [current] using appended

theorem setSlot (index : Nat) {value : Value} (holds : region.Holds value) :
    Step.StaysIn region true (fun _ => True) (Step.setSlot index value) := by
  apply change
  intro left right fits within
  have current := fits.alike.current
  have isInside := within rfl
  have isInside' := isInside
  rw [current] at isInside'
  refine ⟨(), { left with frames := left.frames.write left.current index value },
    { right with frames := right.frames.write right.current index value }, rfl, rfl,
    ⟨⟨fits.closed.write left.current index holds, ?_⟩, .write isInside index value,
      .write isInside' index value⟩, trivial⟩
  have written := fits.alike.write left.current index value
  simpa only [current] using written

/-! ## Variables -/

theorem setGlobal (name : String) {slot : Slot Value} (holds : region.HoldsSlot slot) :
    Step.StaysIn region inside (fun _ => True) (Step.setGlobal name slot) := by
  apply change
  intro left right fits _
  refine ⟨(), _, _, rfl, rfl, ⟨⟨fits.closed.setGlobal name holds, ?_⟩, ?_, ?_⟩, trivial⟩
  · exact { fits.alike with globals := congrArg (·.insert name slot) fits.alike.globals }
  · exact .still rfl rfl rfl
  · exact .still rfl rfl rfl

theorem defineVariable (name : Name) {value : Value} (holds : region.Holds value) :
    Step.StaysIn region true (fun _ => True) (Step.defineVariable name value) := by
  have slotHolds : region.HoldsSlot (.initialised value) := holds
  apply inRoot
  intro isGlobal
  cases isGlobal with
  | true => exact setGlobal name.text slotHolds
  | false => exact (newSlot slotHolds).bind fun _ _ => pure trivial

/-- What a use means is in the region. -/
theorem holds_slot? {left right : Machine} (fits : region.Fits left right)
    (isInside : region (.frame left.current)) (addresses : AddressTable) (id : Nat)
    (name : String) :
    slot? addresses id name left = slot? addresses id name right ∧
      ∀ slot, slot? addresses id name left = some slot → region.HoldsSlot slot := by
  rw [slot?, slot?]
  cases addresses[id]? with
  | none =>
    refine ⟨?_, fits.closed.globals name⟩
    dsimp only
    rw [fits.alike.globals]
  | some address =>
    dsimp only
    rw [← fits.alike.current]
    exact ⟨fits.get?_eq isInside address.depth address.slot,
      fun slot => fits.closed.get? isInside⟩

theorem readVariable (addresses : AddressTable) (id : Nat) (name : Name) :
    Step.StaysIn region true region.Holds (Step.readVariable addresses id name) := by
  intro left right fits within
  rcases holds_slot? fits (within rfl) addresses id name.text with ⟨same, holds⟩
  rw [readVariable_eq, readVariable_eq, ← same]
  cases found : slot? addresses id name.text left with
  | none => exact .error _ (.refl fits)
  | some slot =>
    cases slot with
    | uninitialised => exact .error _ (.refl fits)
    | initialised value => exact .ok (.refl fits) (holds _ found)

theorem assignVariable (addresses : AddressTable) (target : Reference) {value : Value}
    (holds : region.Holds value) :
    Step.StaysIn region true (fun _ => True)
      (Step.assignVariable addresses target value) := by
  intro left right fits within
  rw [assignVariable_eq, assignVariable_eq]
  cases addresses[target.id]? with
  | none =>
    have same := congrArg (·.contains target.name.text) fits.alike.globals
    have slotHolds : region.HoldsSlot (.initialised value) := holds
    dsimp only at same ⊢
    rw [same]
    split
    · exact setGlobal target.name.text slotHolds left right fits within
    · exact .error _ (.refl fits)
  | some address =>
    dsimp only
    have same := fits.holder?_eq (within rfl) address.depth address.slot
    rw [fits.alike.current] at same
    rw [fits.alike.current, same]
    cases found : right.frames.holder? right.current address.depth address.slot with
    | none => exact .error _ (.refl fits)
    | some holder =>
      rw [← same, ← fits.alike.current] at found
      have isInside := fits.closed.holder? (within rfl) found
      have written := fits.alike.write holder address.slot value
      have moves : region.Moves left right _ _ :=
        ⟨⟨fits.closed.write holder address.slot holds, written⟩,
          .write isInside address.slot value, .write isInside address.slot value⟩
      rw [fits.alike.current] at moves
      exact .ok moves trivial

/-! ## Functions and instances -/

theorem newClosure {frame : FrameId} (isInside : region (.frame frame)) (name : String)
    (behaviour : Behaviour) :
    Step.StaysIn region inside (fun closure => region (.frame closure.environment))
      (Step.newClosure frame name behaviour) :=
  freshId.bind fun _ _ => pure isInside

theorem bindMethod {target : Instance} (holds : region.Holds (.object target)) {method : Closure}
    (isInside : region (.frame method.environment)) :
    Step.StaysIn region inside (fun closure => region (.frame closure.environment))
      (Step.bindMethod target method) := by
  have hold : ∀ value ∈ [Value.object target], region.Holds value := by
    intro value member
    rw [List.mem_singleton.mp member]
    exact holds
  apply (newFrame isInside hold).bind
  intro frame isFrame
  exact newClosure isFrame method.name method.behaviour

theorem bindMethod_function {target : Instance} (holds : region.Holds (.object target))
    {method : Closure} (isInside : region (.frame method.environment)) :
    Step.StaysIn region inside region.Holds
      (do return .function (← Step.bindMethod target method)) :=
  (bindMethod holds isInside).bind fun _ bound => pure (Region.holds_function.mpr bound)

theorem newMethods {frame : FrameId} (isInside : region (.frame frame)) (allowInitializer : Bool)
    (methods : List NamedFunction) {table : Table Closure} (before : region.HoldsMethods table) :
    Step.StaysIn region inside region.HoldsMethods
      (Step.newMethods frame allowInitializer methods table) := by
  induction methods generalizing table with
  | nil => exact pure before
  | cons first others induction =>
    rcases first with ⟨name, definition⟩
    apply (newClosure isInside name.text _).bind
    intro method kept
    apply induction
    intro other found here
    rw [Std.TreeMap.getElem?_insert] at here
    split at here
    · cases here
      exact kept
    · exact before other found here

theorem newInstance {ofClass : Class} (holds : region.Holds (.type ofClass)) :
    Step.StaysIn region inside
      (fun created => created.ofClass = ofClass ∧ region.Holds (.object created))
      (Step.newInstance ofClass) := by
  apply change
  intro left right fits _
  have isNew := fits.closed.newObject _ (Nat.le_refl _)
  have isNew' := isNew
  rw [fits.alike.objects] at isNew'
  refine ⟨⟨left.fields.size, ofClass⟩, { left with fields := left.fields.push ∅ },
    { right with fields := right.fields.push ∅ }, rfl, ?_,
    ⟨⟨fits.closed.newInstance, fits.alike.newInstance⟩, .newInstance isNew,
      .newInstance isNew'⟩, rfl, Region.holds_object.mpr ⟨isNew, holds⟩⟩
  rw [fits.alike.objects]
  rfl

theorem field? {target : Instance} (holds : region.Holds (.object target)) (name : String) :
    Step.StaysIn region inside (fun found => ∀ value ∈ found, region.Holds value)
      (Step.field? target name) := by
  have isInside := (Region.holds_object.mp holds).1
  intro left right fits _
  rw [field?_eq, field?_eq, ← fits.alike.fields target.id isInside]
  apply Region.Ends.ok (.refl fits)
  intro value found
  rcases Option.bind_eq_some_iff.mp found with ⟨table, here, inTable⟩
  exact fits.closed.fields target.id table name value isInside here inTable

theorem setField {target : Instance} (holdsTarget : region.Holds (.object target)) (name : String)
    {value : Value} (holds : region.Holds value) :
    Step.StaysIn region inside (fun _ => True) (Step.setField target name value) := by
  have isInside := (Region.holds_object.mp holdsTarget).1
  apply change
  intro left right fits _
  exact ⟨(), _, _, rfl, rfl, ⟨⟨fits.closed.setField target.id name holds,
    fits.alike.setField target.id name value⟩, .setField isInside name value,
    .setField isInside name value⟩, trivial⟩

theorem checkArity (line expected given : Nat) :
    Step.StaysIn region inside (fun _ => True) (Step.checkArity line expected given) := by
  rw [Step.checkArity]
  split
  · exact fail line _
  · exact pure trivial

theorem property {target : Value} (holds : region.Holds target) (name : Name) :
    Step.StaysIn region inside region.Holds (Step.property target name) := by
  cases target with
  | object target =>
    apply (field? holds name.text).bind
    intro found foundHolds
    cases found with
    | some value => exact pure (foundHolds value rfl)
    | none =>
      dsimp only
      cases found : target.ofClass.method? name.text with
      | some method =>
        have classHolds := (Region.holds_object.mp holds).2
        exact bindMethod_function holds (classHolds.method? found)
      | none => exact fail name.line _
  | type target =>
    rw [Step.property.eq_def]
    dsimp only
    split
    · next method found => exact pure (Region.holds_function.mpr (holds.classMethod? found))
    · exact fail name.line _
  | _ => exact fail name.line _

section

variable {left right : Machine} (fits : region.Fits left right)
  (isInside : region (.frame left.current)) (addresses : AddressTable) (id : Nat)
include fits isInside

/-- The class that a use of `super` means is in the region. -/
theorem holds_superclass? :
    superclass? addresses id left = superclass? addresses id right ∧
      ∀ superclass, superclass? addresses id left = some superclass →
        region.Holds (.type superclass) := by
  rw [superclass?, superclass?]
  cases addresses[id]? with
  | none => exact ⟨rfl, fun _ impossible => by cases impossible⟩
  | some address =>
    dsimp only
    rw [← fits.alike.current, ← fits.get?_eq isInside]
    refine ⟨rfl, fun superclass found => ?_⟩
    split at found
    · next here =>
      cases found
      exact fits.closed.get? isInside here
    · cases found

/-- The instance for a use of `super` is in the region. -/
theorem holds_receiver? :
    receiver? addresses id left = receiver? addresses id right ∧
      ∀ target, receiver? addresses id left = some target → region.Holds (.object target) := by
  rw [receiver?, receiver?]
  split
  · rw [← fits.alike.current, ← fits.get?_eq isInside]
    refine ⟨rfl, fun target found => ?_⟩
    split at found
    · next here =>
      cases found
      exact fits.closed.get? isInside here
    · cases found
  · exact ⟨rfl, fun _ impossible => by cases impossible⟩

end

theorem superMethod (addresses : AddressTable) (id line : Nat) (method : Name) :
    Step.StaysIn region true region.Holds (Step.superMethod addresses id line method) := by
  intro left right fits within
  rcases holds_superclass? fits (within rfl) addresses id with ⟨sameClass, superHolds⟩
  rcases holds_receiver? fits (within rfl) addresses id with ⟨sameTarget, thisHolds⟩
  rw [superMethod_eq, superMethod_eq, ← sameClass, ← sameTarget]
  cases superclassHere : superclass? addresses id left with
  | none => exact .error _ (.refl fits)
  | some superclass =>
    cases receiverHere : receiver? addresses id left with
    | none => exact .error _ (.refl fits)
    | some target =>
      dsimp only
      cases found : superclass.method? method.text with
      | none => exact .error _ (.refl fits)
      | some bound =>
        have methodInside := (superHolds superclass superclassHere).method? found
        exact bindMethod_function (thisHolds target receiverHere) methodInside left right fits
          within

/-! ## Declarations -/

theorem superclass (addresses : AddressTable) (target : Option Reference) :
    Step.StaysIn region true (fun found => ∀ type ∈ found, region.Holds (.type type))
      (Step.superclass addresses target) := by
  cases target with
  | none =>
    apply pure
    intro type impossible
    cases impossible
  | some target =>
    apply (readVariable addresses target.id target.name).bind
    intro value holds
    cases value with
    | type superclass =>
      apply pure
      rintro type ⟨⟩
      exact holds
    | _ => exact fail target.name.line _

theorem methodFrame {extended : Option Class}
    (holds : ∀ type ∈ extended, region.Holds (.type type)) :
    Step.StaysIn region true (fun frame => region (.frame frame))
      (Step.methodFrame extended) := by
  cases extended with
  | none =>
    refine getCurrent (fun _ _ same => congrArg _ same) ?_
    exact fun machine isInside => pure isInside
  | some superclass =>
    have hold : ∀ value ∈ [Value.type superclass], region.Holds value := by
      intro value member
      rw [List.mem_singleton.mp member]
      exact holds superclass rfl
    refine getCurrent (fun _ _ same => by rw [same]) ?_
    exact fun machine isInside => newFrame isInside hold

theorem newClass (addresses : AddressTable) (name : Name) (superclassName : Option Reference)
    (methods classMethods : List NamedFunction) :
    Step.StaysIn region true region.Holds
      (Step.newClass addresses name superclassName methods classMethods) := by
  have noMethods : region.HoldsMethods ∅ := by
    intro name method impossible
    simp at impossible
  apply (superclass addresses superclassName).bind
  intro superclass inherited
  apply (methodFrame inherited).bind
  intro frame isInside
  apply (newMethods isInside true methods noMethods).bind
  intro table tableHolds
  apply (newMethods isInside false classMethods noMethods).bind
  intro classTable classTableHolds
  exact freshId.bind fun _ _ => pure (Region.holds_extending tableHolds classTableHolds inherited)

theorem declareClass (addresses : AddressTable) (name : Name) (superclassName : Option Reference)
    (methods classMethods : List NamedFunction) :
    Step.StaysIn region true region.Holds
      (Step.declareClass addresses name superclassName methods classMethods) := by
  have made : Step.StaysIn region true region.Holds
      (Step.newClass addresses name superclassName methods classMethods) :=
    newClass addresses name superclassName methods classMethods
  have unset : region.HoldsSlot .uninitialised := trivial
  rw [Step.declareClass_eq_newClass]
  apply inRoot
  intro isGlobal
  cases isGlobal with
  | true =>
    apply (setGlobal name.text unset).bind
    intro _ _
    apply made.bind
    intro value holds
    have slotHolds : region.HoldsSlot (.initialised value) := holds
    exact (setGlobal name.text slotHolds).bind fun _ _ => pure holds
  | false =>
    apply (newSlot unset).bind
    intro index _
    apply made.bind
    intro value holds
    exact (setSlot index holds).bind fun _ _ => pure holds

theorem declareVariable (name : Name) {initial : Option (Step Value)}
    (stays : ∀ step ∈ initial, Step.StaysIn region true region.Holds step) :
    Step.StaysIn region true (fun _ => True) (Step.declareVariable name initial) := by
  have unset : region.HoldsSlot .uninitialised := trivial
  apply inRoot
  intro isGlobal
  cases isGlobal with
  | true =>
    cases initial with
    | none => exact setGlobal name.text unset
    | some initial =>
      apply (stays initial rfl).bind
      intro value holds
      have slotHolds : region.HoldsSlot (.initialised value) := holds
      exact setGlobal name.text slotHolds
  | false =>
    apply (newSlot unset).bind
    intro index _
    cases initial with
    | none => exact pure trivial
    | some initial => exact (stays initial rfl).bind fun value holds => setSlot index holds

end Step.StaysIn

end Lox
