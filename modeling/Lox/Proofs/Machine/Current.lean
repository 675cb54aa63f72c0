import Lox.Proofs.Machine.Operations

/-!
# The frame of the running code

Blocks, bodies of functions and calls run in frames of their own.  However a step of the
evaluator ends, whether with a result, with a runtime error at any depth or without fuel, the
code goes on in the frame in which the step began, and the root still has no slots: by
induction on the bound of the evaluation, in all functions of the evaluator at once
(`restoresWell`).
-/

namespace Lox

variable {α β : Type}

/-! ## Declarations in two parts -/

namespace Step

/-- Makes a class whose name is declared. -/
def newClass (addresses : AddressTable) (name : Name) (superclassName : Option Reference)
    (methods classMethods : List NamedFunction) : Step Value := do
  let superclass ← superclass addresses superclassName
  let frame ← methodFrame superclass
  let methods ← newMethods frame true methods ∅
  let classMethods ← newMethods frame false classMethods ∅
  let id ← freshId
  return .type (.extending ⟨id, name.text, methods, classMethods⟩ superclass)

/-- Declares a variable, then takes a step for its initial value, if it has one. -/
def declareVariable (name : Name) (initial : Option (Step Value)) : Step Unit := do
  if ← inRoot then
    match initial with
    | some initial =>
      let value ← initial
      setGlobal name.text (.initialised value)
    | none => setGlobal name.text .uninitialised
  else
    let index ← newSlot .uninitialised
    match initial with
    | some initial =>
      let value ← initial
      setSlot index value
    | none => pure ()

/-- A class is made between the declaration of its name and the use of it as a value. -/
theorem declareClass_eq_newClass (addresses : AddressTable) (name : Name)
    (superclassName : Option Reference) (methods classMethods : List NamedFunction) :
    declareClass addresses name superclassName methods classMethods = do
      let isGlobal ← inRoot
      if isGlobal then do
        setGlobal name.text .uninitialised
        let value ← newClass addresses name superclassName methods classMethods
        setGlobal name.text (.initialised value)
        return value
      else do
        let index ← newSlot .uninitialised
        let value ← newClass addresses name superclassName methods classMethods
        setSlot index value
        return value := by
  rw [declareClass_eq]
  apply bind_congr
  intro isGlobal
  cases isGlobal <;> simp [newClass]

theorem execute_varDecl_eq (addresses : AddressTable) (fuel : Nat) (name : Name)
    (initial : Option Expr) :
    execute addresses (fuel + 1) (.varDecl name initial) = do
      declareVariable name (initial.map (evaluate addresses fuel))
      return .normal none := by
  simp only [execute, declareVariable, bind_assoc]
  apply bind_congr
  intro isGlobal
  cases isGlobal <;> cases initial <;> simp

end Step

/-! ## What stays -/

/-- The machine after a step, however the step ends. -/
def Step.after (step : Step α) (machine : Machine) : Machine :=
  match step machine with
  | .ok _ after => after
  | .error _ after => after

/-- The root is there and has no slots. -/
structure Machine.HasRoot (machine : Machine) : Prop where
  isFrame : Machine.root < machine.frames.size
  empty : machine.frames.length Machine.root = 0

namespace Machine.HasRoot

variable {machine : Machine}

/-- Nothing but the frames matters. -/
theorem congr (hasRoot : machine.HasRoot) {other : Machine}
    (frames : other.frames = machine.frames) : other.HasRoot := by
  constructor
  · rw [frames]
    exact hasRoot.isFrame
  · rw [frames]
    exact hasRoot.empty

theorem start (clock : Float) : (Machine.start clock).HasRoot :=
  ⟨Nat.zero_lt_one, rfl⟩

end Machine.HasRoot

/-- The code that runs is in the same frame, and the root stays as it is. -/
structure Machine.Rests (before after : Machine) : Prop where
  current : after.current = before.current
  root : before.HasRoot → after.HasRoot

namespace Machine.Rests

variable {first second third : Machine}

theorem refl (machine : Machine) : machine.Rests machine :=
  ⟨rfl, id⟩

theorem trans (before : first.Rests second) (after : second.Rests third) : first.Rests third :=
  ⟨after.current.trans before.current, fun hasRoot => after.root (before.root hasRoot)⟩

/-- Neither the frames nor what runs change. -/
theorem still (frames : second.frames = first.frames) (current : second.current = first.current) :
    first.Rests second :=
  ⟨current, fun hasRoot => hasRoot.congr frames⟩

/-- A frame is added. -/
theorem addFrame (enclosing : FrameId) (values : List Value) :
    first.Rests { first with
      frames := values.foldl (fun frames value => frames.define first.frames.size value)
        (first.frames.addChild enclosing) } := by
  refine ⟨rfl, fun hasRoot => ⟨?_, ?_⟩⟩
  · show Machine.root < Frames.size (values.foldl _ (first.frames.addChild enclosing))
    rw [Frames.foldl_define_size, Frames.size_addChild]
    exact Nat.lt_succ_of_lt hasRoot.isFrame
  · show Array.size (Frames.slots (values.foldl _ (first.frames.addChild enclosing)) _) = 0
    rw [Frames.slots_addFrame_of_ne _ _ _ (Nat.ne_of_lt hasRoot.isFrame)]
    exact hasRoot.empty

/-- Another frame than the root gets a slot. -/
theorem addSlot {frame : FrameId} (inner : frame ≠ Machine.root) (slot : Slot Value) :
    first.Rests { first with frames := first.frames.append frame slot } := by
  refine ⟨rfl, fun hasRoot => ⟨?_, ?_⟩⟩
  · show Machine.root < (first.frames.append frame slot).size
    rw [Frames.size_append]
    exact hasRoot.isFrame
  · show ((first.frames.append frame slot).slots Machine.root).size = 0
    rw [Frames.slots_append_of_ne inner]
    exact hasRoot.empty

/-- A variable gets a value. -/
theorem write (frame : FrameId) (index : Nat) (value : Value) :
    first.Rests { first with frames := first.frames.write frame index value } := by
  refine ⟨rfl, fun hasRoot => ⟨?_, ?_⟩⟩
  · show Machine.root < (first.frames.write frame index value).size
    rw [Frames.size_write]
    exact hasRoot.isFrame
  · show (first.frames.write frame index value).length Machine.root = 0
    rw [Frames.length_write]
    exact hasRoot.empty

/-- Code has run in another frame; the one before it is put back. -/
theorem within {frame : FrameId} (inside : Machine.Rests { first with current := frame } second) :
    first.Rests { second with current := first.current } :=
  ⟨rfl, fun hasRoot => (inside.root (hasRoot.congr rfl)).congr rfl⟩

end Machine.Rests

/-- However a step ends, the code goes on where it was. -/
def Step.Restores (step : Step α) : Prop :=
  ∀ machine : Machine, machine.Rests (step.after machine)

namespace Step.Restores

variable {step : Step α} {next : α → Step β} {machine : Machine}

/-! ## Laws -/

/-- After a step another one is taken, unless the first one stops. -/
theorem bindAt (first : machine.Rests (step.after machine))
    (rest : ∀ result, (next result).Restores) : machine.Rests ((step >>= next).after machine) := by
  revert first
  show machine.Rests (match step machine with
    | .ok _ after => after
    | .error _ after => after) → machine.Rests (match EStateM.bind step next machine with
      | .ok _ after => after
      | .error _ after => after)
  rw [EStateM.bind]
  cases step machine with
  | ok result after => exact fun first => first.trans (rest result after)
  | error stop after => exact id

theorem bind (first : step.Restores) (rest : ∀ result, (next result).Restores) :
    (step >>= next).Restores :=
  fun machine => bindAt (first machine) rest

/-- A step that leaves the frames and the place of the code alone. -/
theorem still (same : ∀ machine, (step.after machine).frames = machine.frames ∧
    (step.after machine).current = machine.current) : step.Restores :=
  fun machine => .still (same machine).1 (same machine).2

theorem pure (result : α) : (Pure.pure result : Step α).Restores :=
  still fun _ => ⟨rfl, rfl⟩

theorem get : (MonadState.get : Step Machine).Restores :=
  still fun _ => ⟨rfl, rfl⟩

theorem fail (line : Nat) (fault : RuntimeFault) : (Step.fail line fault : Step α).Restores :=
  still fun _ => ⟨rfl, rfl⟩

theorem outOfFuel : (throw .outOfFuel : Step α).Restores :=
  still fun _ => ⟨rfl, rfl⟩

theorem ofExcept (result : Except RuntimeError α) : (Step.ofExcept result).Restores := by
  cases result with
  | ok result => exact pure result
  | error error => exact still fun _ => ⟨rfl, rfl⟩

theorem within (frame : FrameId) (inside : step.Restores) : (Step.within frame step).Restores := by
  intro machine
  have rests := inside { machine with current := frame }
  revert rests
  show Machine.Rests _ (match step _ with
    | .ok _ after => after
    | .error _ after => after) → machine.Rests (match Step.within frame step machine with
      | .ok _ after => after
      | .error _ after => after)
  rw [Step.within]
  cases step { machine with current := frame } with
  | ok result after => exact Machine.Rests.within
  | error stop after => exact Machine.Rests.within

/-! ## What programs are made of -/

theorem print (text : String) : (Step.print text).Restores :=
  still fun _ => ⟨rfl, rfl⟩

theorem setGlobal (name : String) (slot : Slot Value) : (Step.setGlobal name slot).Restores :=
  still fun _ => ⟨rfl, rfl⟩

theorem freshId : Step.freshId.Restores :=
  still fun _ => ⟨rfl, rfl⟩

theorem newFrame (enclosing : FrameId) (values : List Value) :
    (Step.newFrame enclosing values).Restores :=
  fun _ => .addFrame enclosing values

theorem setSlot (index : Nat) (value : Value) : (Step.setSlot index value).Restores :=
  fun machine => .write machine.current index value

/-- A name is declared, globally in the root and by a new slot elsewhere. -/
theorem declareName {slot : Slot Value} {whenGlobal : Step β} {next : Nat → Step β}
    (globally : whenGlobal.Restores) (locally : ∀ index, (next index).Restores) :
    (do
      let isGlobal ← Step.inRoot
      if isGlobal then whenGlobal else Step.newSlot slot >>= next).Restores := by
  intro machine
  show machine.Rests (Step.after
    (if machine.current == Machine.root then whenGlobal else Step.newSlot slot >>= next) machine)
  cases isGlobal : machine.current == Machine.root with
  | true => exact globally machine
  | false => exact bindAt (.addSlot (ne_of_beq_false isGlobal) slot) locally

theorem defineVariable (name : Name) (value : Value) : (Step.defineVariable name value).Restores :=
  declareName (setGlobal name.text _) fun _ => pure ()

theorem readVariable (addresses : AddressTable) (id : Nat) (name : Name) :
    (Step.readVariable addresses id name).Restores := by
  apply still
  intro machine
  rw [Step.after, Step.readVariable_eq]
  cases slot? addresses id name.text machine with
  | none => exact ⟨rfl, rfl⟩
  | some slot => cases slot <;> exact ⟨rfl, rfl⟩

theorem assignVariable (addresses : AddressTable) (target : Reference) (value : Value) :
    (Step.assignVariable addresses target value).Restores := by
  intro machine
  rw [Step.after, Step.assignVariable_eq]
  cases addresses[target.id]? with
  | none =>
    dsimp only
    split
    · next isOk =>
      split at isOk
      · cases isOk
        exact .still rfl rfl
      · cases isOk
    · next isError =>
      split at isError
      · cases isError
      · cases isError
        exact .refl machine
  | some address =>
    dsimp only
    cases machine.frames.holder? machine.current address.depth address.slot with
    | none => exact .refl machine
    | some holder => exact .write holder address.slot value

theorem newClosure (frame : FrameId) (name : String) (behaviour : Behaviour) :
    (Step.newClosure frame name behaviour).Restores :=
  freshId.bind fun _ => pure _

theorem bindMethod (target : Instance) (method : Closure) :
    (Step.bindMethod target method).Restores :=
  (newFrame method.environment _).bind fun frame => newClosure frame method.name method.behaviour

theorem newMethods (frame : FrameId) (allowInitializer : Bool) (methods : List NamedFunction)
    (table : Table Closure) : (Step.newMethods frame allowInitializer methods table).Restores := by
  induction methods generalizing table with
  | nil => exact pure table
  | cons first others induction =>
    rcases first with ⟨name, definition⟩
    exact (newClosure frame name.text _).bind fun method => induction _

theorem newInstance (ofClass : Class) : (Step.newInstance ofClass).Restores :=
  still fun _ => ⟨rfl, rfl⟩

theorem setField (target : Instance) (name : String) (value : Value) :
    (Step.setField target name value).Restores :=
  still fun _ => ⟨rfl, rfl⟩

theorem field? (target : Instance) (name : String) : (Step.field? target name).Restores := by
  apply still
  intro machine
  rw [Step.after, Step.field?_eq]
  exact ⟨rfl, rfl⟩

theorem checkArity (line expected given : Nat) :
    (Step.checkArity line expected given).Restores := by
  rw [Step.checkArity]
  split
  · exact fail line _
  · exact pure ()

theorem property (target : Value) (name : Name) : (Step.property target name).Restores := by
  cases target with
  | object target =>
    apply (field? target name.text).bind
    intro found
    cases found with
    | some value => exact pure value
    | none =>
      dsimp only
      cases target.ofClass.method? name.text with
      | some method => exact (bindMethod target method).bind fun _ => pure _
      | none => exact fail name.line _
  | type target =>
    rw [Step.property.eq_def]
    dsimp only
    split
    · exact pure _
    · exact fail name.line _
  | _ => exact fail name.line _

theorem superMethod (addresses : AddressTable) (id line : Nat) (method : Name) :
    (Step.superMethod addresses id line method).Restores := by
  apply get.bind
  intro machine
  dsimp only
  cases addresses[id]? with
  | none => exact fail line _
  | some address =>
    dsimp only
    split
    · split
      · next this _ =>
        split
        · next found _ => exact (bindMethod this found).bind fun _ => pure _
        · exact fail method.line _
      · exact fail line _
    · exact fail line _

theorem superclass (addresses : AddressTable) (target : Option Reference) :
    (Step.superclass addresses target).Restores := by
  cases target with
  | none => exact pure none
  | some target =>
    apply (readVariable addresses target.id target.name).bind
    intro value
    cases value with
    | type superclass => exact pure _
    | _ => exact fail target.name.line _

theorem methodFrame (extended : Option Class) : (Step.methodFrame extended).Restores := by
  cases extended with
  | none => exact get.bind fun machine => pure machine.current
  | some superclass => exact get.bind fun machine => newFrame machine.current _

theorem newClass (addresses : AddressTable) (name : Name) (superclassName : Option Reference)
    (methods classMethods : List NamedFunction) :
    (Step.newClass addresses name superclassName methods classMethods).Restores := by
  apply (superclass addresses superclassName).bind
  intro superclass
  apply (methodFrame superclass).bind
  intro frame
  apply (newMethods frame true methods ∅).bind
  intro table
  apply (newMethods frame false classMethods ∅).bind
  intro classTable
  exact freshId.bind fun _ => pure _

theorem declareClass (addresses : AddressTable) (name : Name) (superclassName : Option Reference)
    (methods classMethods : List NamedFunction) :
    (Step.declareClass addresses name superclassName methods classMethods).Restores := by
  have made := newClass addresses name superclassName methods classMethods
  rw [Step.declareClass_eq_newClass]
  apply declareName
  · apply (setGlobal name.text .uninitialised).bind
    intro _
    apply made.bind
    intro value
    exact (setGlobal name.text (.initialised value)).bind fun _ => pure value
  · intro index
    apply made.bind
    intro value
    exact (setSlot index value).bind fun _ => pure value

theorem declareVariable (name : Name) {initial : Option (Step Value)}
    (restores : ∀ step ∈ initial, step.Restores) :
    (Step.declareVariable name initial).Restores := by
  cases initial with
  | none => exact declareName (setGlobal name.text .uninitialised) fun _ => pure ()
  | some initial =>
    have made := restores initial rfl
    apply declareName
    · exact made.bind fun value => setGlobal name.text (.initialised value)
    · exact fun index => made.bind fun value => setSlot index value

end Step.Restores

/-! ## The evaluator -/

/-- Within a bound on its depth the evaluator goes on where it was. -/
structure RestoresWell (addresses : AddressTable) (fuel : Nat) : Prop where
  evaluate : ∀ expression, (Step.evaluate addresses fuel expression).Restores
  evaluateAll : ∀ expressions, (Step.evaluateAll addresses fuel expressions).Restores
  call : ∀ line callee arguments, (Step.call addresses fuel line callee arguments).Restores
  invoke : ∀ closure arguments, (Step.invoke addresses fuel closure arguments).Restores
  execute : ∀ statement, (Step.execute addresses fuel statement).Restores
  executeAll : ∀ result statements, (Step.executeAll addresses fuel result statements).Restores
  loop : ∀ condition body, (Step.loop addresses fuel condition body).Restores

namespace RestoresWell

open Step.Restores

variable {addresses : AddressTable} {fuel : Nat} (rules : RestoresWell addresses fuel)
include rules

theorem next_evaluateAll (expressions : List Expr) :
    (Step.evaluateAll addresses (fuel + 1) expressions).Restores := by
  cases expressions with
  | nil => exact pure []
  | cons first others =>
    apply (rules.evaluate first).bind
    intro value
    exact (rules.evaluateAll others).bind fun _ => pure _

theorem next_call (line : Nat) (callee : Value) (arguments : List Value) :
    (Step.call addresses (fuel + 1) line callee arguments).Restores := by
  rw [Step.call.eq_def]
  cases callee with
  | function closure =>
    exact (checkArity line closure.arity _).bind fun _ => rules.invoke closure arguments
  | type ofClass =>
    apply (checkArity line ofClass.arity _).bind
    intro _
    apply (newInstance ofClass).bind
    intro created
    cases ofClass.initializer? with
    | none => exact pure _
    | some initializer =>
      apply (bindMethod created initializer).bind
      intro bound
      exact (rules.invoke bound arguments).bind fun _ => pure _
  | _ => exact fail line _

theorem next_invoke (closure : Closure) (arguments : List Value) :
    (Step.invoke addresses (fuel + 1) closure arguments).Restores := by
  rw [Step.invoke.eq_def]
  dsimp only
  cases closure.behaviour with
  | clock => exact get.bind fun _ => pure _
  | body definition isInitializer =>
    apply (newFrame closure.environment arguments).bind
    intro parameters
    apply (newFrame parameters []).bind
    intro body
    apply (within body (rules.executeAll none definition.body)).bind
    intro flow
    cases isInitializer with
    | false => exact pure _
    | true =>
      apply get.bind
      intro machine
      split <;> exact pure _

theorem next_evaluate (expression : Expr) :
    (Step.evaluate addresses (fuel + 1) expression).Restores := by
  rw [Step.evaluate.eq_def]
  cases expression with
  | literal value => exact pure _
  | group inner => exact rules.evaluate inner
  | unary op line operand => exact (rules.evaluate operand).bind fun _ => ofExcept _
  | binary op line left right =>
    apply (rules.evaluate left).bind
    intro leftValue
    exact (rules.evaluate right).bind fun _ => ofExcept _
  | logical op line left right =>
    apply (rules.evaluate left).bind
    intro leftValue
    split
    · exact pure leftValue
    · exact rules.evaluate right
  | read target => exact readVariable addresses target.id target.name
  | assign target value =>
    apply (rules.evaluate value).bind
    intro value
    exact (assignVariable addresses target value).bind fun _ => pure value
  | call callee line arguments =>
    apply (rules.evaluate callee).bind
    intro callee
    apply (rules.evaluateAll arguments).bind
    intro arguments
    exact rules.call line callee arguments
  | function definition =>
    exact get.bind fun machine => (newClosure machine.current _ _).bind fun _ => pure _
  | get object name => exact (rules.evaluate object).bind fun target => property target name
  | set object name value =>
    apply (rules.evaluate object).bind
    intro target
    cases target with
    | object target =>
      apply (rules.evaluate value).bind
      intro value
      exact (setField target name.text value).bind fun _ => pure value
    | _ => exact fail name.line _
  | this id line => exact readVariable addresses id _
  | super id line method => exact superMethod addresses id line method

theorem next_executeAll (result : Option Value) (statements : List Stmt) :
    (Step.executeAll addresses (fuel + 1) result statements).Restores := by
  cases statements with
  | nil => exact pure _
  | cons first others =>
    apply (rules.execute first).bind
    intro flow
    cases flow with
    | normal result => exact rules.executeAll result others
    | _ => exact pure _

theorem next_loop (condition : Expr) (body : Stmt) :
    (Step.loop addresses (fuel + 1) condition body).Restores := by
  apply (rules.evaluate condition).bind
  intro value
  split
  · apply (rules.execute body).bind
    intro flow
    cases flow with
    | normal => exact rules.loop condition body
    | _ => exact pure _
  · exact pure _

theorem next_execute (statement : Stmt) :
    (Step.execute addresses (fuel + 1) statement).Restores := by
  cases statement with
  | expression value => exact (rules.evaluate value).bind fun _ => pure _
  | print value =>
    apply (rules.evaluate value).bind
    intro value
    exact (print value.display).bind fun _ => pure _
  | varDecl name initial =>
    rw [Step.execute_varDecl_eq]
    refine (declareVariable name ?_).bind fun _ => pure _
    intro step isInitial
    cases initial with
    | none => cases isInitial
    | some initial =>
      cases isInitial
      exact rules.evaluate initial
  | block body =>
    apply get.bind
    intro machine
    apply (newFrame machine.current []).bind
    intro frame
    exact within frame (rules.executeAll none body)
  | ifElse condition whenTrue whenFalse =>
    apply (rules.evaluate condition).bind
    intro value
    split
    · exact rules.execute whenTrue
    · cases whenFalse with
      | none => exact pure _
      | some whenFalse => exact rules.execute whenFalse
  | whileLoop condition body => exact rules.loop condition body
  | breakLoop line => exact pure _
  | funDecl function =>
    rcases function with ⟨name, definition⟩
    rw [Step.execute_funDecl]
    refine bind ?_ fun _ => pure _
    apply get.bind
    intro machine
    apply (newClosure machine.current name.text _).bind
    intro closure
    exact defineVariable name (.function closure)
  | returnValue line value =>
    cases value with
    | none => exact pure _
    | some value => exact (rules.evaluate value).bind fun _ => pure _
  | classDecl name superclassName methods classMethods =>
    exact (declareClass addresses name superclassName methods classMethods).bind fun _ => pure _

end RestoresWell

/-- However deep an evaluation is, the code goes on where it was. -/
theorem restoresWell (addresses : AddressTable) (fuel : Nat) : RestoresWell addresses fuel := by
  induction fuel with
  | zero =>
    constructor
    · exact fun _ => .outOfFuel
    · exact fun _ => .outOfFuel
    · exact fun _ _ _ => .outOfFuel
    · exact fun _ _ => .outOfFuel
    · exact fun _ => .outOfFuel
    · exact fun _ _ => .outOfFuel
    · exact fun _ _ => .outOfFuel
  | succ fuel rules =>
    constructor
    · exact rules.next_evaluate
    · exact rules.next_evaluateAll
    · exact rules.next_call
    · exact rules.next_invoke
    · exact rules.next_execute
    · exact rules.next_executeAll
    · exact rules.next_loop

/-- After the statements of a program the code is where it was before them. -/
theorem Step.Restores.interpret (addresses : AddressTable) (fuel : Nat) (result : Option Value)
    (program : List Stmt) : (Step.interpret addresses fuel result program).Restores := by
  induction program generalizing result with
  | nil => exact pure result
  | cons first others induction =>
    exact ((restoresWell addresses fuel).execute first).bind fun _ => induction _

end Lox
