import Mathlib
import Lox.Proofs.Session.Journal

/-!
# Instances and initialisers

What the call of a class does, in every machine, and what the call of an initialiser yields, in
every session: the instance that it is bound to, however its body ends.  A class method is no
initialiser, whatever its name is.
-/

namespace Lox

/-! ## The nearest method of a name -/

/--
The instance method that a class finds under a name: the one that it declares itself, or else the
one that its superclass finds.
-/
inductive Class.Finds (name : String) : Class → Option Closure → Prop where
  | declared {type : Class} {method : Closure} (here : type.own.methods[name]? = some method) :
      Finds name type (some method)
  | inherited {type superclass : Class} {found : Option Closure}
      (lacks : type.own.methods[name]? = none) (extends_ : type.superclass? = some superclass)
      (further : Finds name superclass found) : Finds name type found
  | nowhere {type : Class} (lacks : type.own.methods[name]? = none)
      (extends_ : type.superclass? = none) : Finds name type none

theorem Class.finds_method? (name : String) (type : Class) :
    type.Finds name (type.method? name) := by
  rcases type with ⟨own, inherited⟩
  induction inherited generalizing own with
  | nil =>
    cases here : own.methods[name]? with
    | some method =>
      rw [Class.method?, List.findSome?_cons, here]
      exact .declared here
    | none =>
      rw [Class.method?, List.findSome?_cons, here]
      exact .nowhere here rfl
  | cons next others induction =>
    cases here : own.methods[name]? with
    | some method =>
      rw [Class.method?, List.findSome?_cons, here]
      exact .declared here
    | none =>
      rw [Class.method?, List.findSome?_cons, here]
      exact .inherited here rfl (induction next)

/-- A class finds one method under a name, or none. -/
theorem Class.finds_iff (name : String) (type : Class) (found : Option Closure) :
    type.Finds name found ↔ found = type.method? name := by
  constructor
  · intro finds
    induction finds with
    | declared here => rw [Class.method?, List.findSome?_cons, here]
    | @inherited type superclass found lacks extends_ _ induction =>
      rcases type with ⟨own, _ | ⟨next, others⟩⟩
      · cases extends_
      · cases extends_
        show found = List.findSome? _ (own :: next :: others)
        rw [induction, List.findSome?_cons, lacks]
        rfl
    | @nowhere type lacks extends_ =>
      rcases type with ⟨own, _ | ⟨next, others⟩⟩
      · rw [Class.method?, List.findSome?_cons, lacks]
        rfl
      · cases extends_
  · rintro rfl
    exact type.finds_method? name

/-! ## The call of a class -/

/-- A method is bound to an instance: this is in the only slot of a new frame. -/
structure Closure.IsBound (bound method : Closure) (target : Instance) (before after : Machine) :
    Prop where
  behaviour : bound.behaviour = method.behaviour
  isNew : before.frames.size ≤ bound.environment
  enclosing : after.frames.enclosing? bound.environment = some method.environment
  holds : after.frames.slots bound.environment = #[.initialised (.object target)]

theorem Step.bindMethod_isBound (target : Instance) (method : Closure) (machine : Machine) :
    ∃ bound after, Step.bindMethod target method machine = .ok bound after ∧
      bound.IsBound method target machine after := by
  have isFrame : machine.frames.size < (machine.frames.addChild method.environment).size := by
    simp
  refine ⟨_, _, rfl, rfl, Nat.le_refl _, ?_, ?_⟩
  · show Frames.enclosing? (Frames.define machine.frames.size _ (machine.frames.addChild _)) _ = _
    rw [Frames.define, Frames.enclosing?_append, Frames.enclosing?_addChild, if_pos rfl]
  · show Frames.slots (Frames.append machine.frames.size _ (machine.frames.addChild _)) _ = _
    rw [Frames.slots_append_self _ _ _ isFrame, Frames.slots_addChild,
      Frames.slots_eq_empty _ (Nat.le_refl _)]
    rfl

/-- What the call of a class does that finds an initialiser, or none. -/
structure Step.Constructs (step : Step Value) (invoke : Closure → Step Value) (line : Nat)
    (ofClass : Class) (given : Nat) (found : Option Closure) (machine : Machine) : Prop where
  /-- The number of arguments is wrong: nothing happens. -/
  wrongArity : given ≠ found.elim 0 Closure.arity → step machine =
    .error (.fault ⟨line, .wrongArity (found.elim 0 Closure.arity) given⟩) machine
  /-- There is no initialiser: a new instance is all that is made. -/
  plain : given = found.elim 0 Closure.arity → found = none →
    ∃ created, created.ofClass = ofClass ∧ machine.fields[created.id]? = none ∧
      step machine = .ok (.object created) { machine with fields := machine.fields.push ∅ }
  /-- The initialiser is bound to a new instance and runs; what it yields does not matter. -/
  initialised : given = found.elim 0 Closure.arity → ∀ initializer, found = some initializer →
    ∃ created bound ready, created.ofClass = ofClass ∧ machine.fields[created.id]? = none ∧
      bound.IsBound initializer created machine ready ∧
      step machine = (invoke bound >>= fun _ => pure (.object created)) ready

theorem Step.checkArity_eq (line expected given : Nat) (machine : Machine) :
    Step.checkArity line expected given machine =
      if given = expected then .ok () machine
      else .error (.fault ⟨line, .wrongArity expected given⟩) machine := by
  rw [Step.checkArity]
  by_cases same : given = expected
  · rw [if_pos same, if_neg (not_not_intro same.symm)]
    rfl
  · rw [if_neg same, if_pos (Ne.symm same)]
    rfl

theorem Step.call_constructs (addresses : AddressTable) (fuel line : Nat) (ofClass : Class)
    (arguments : List Value) (machine : Machine) :
    (Step.call addresses (fuel + 1) line (.type ofClass) arguments).Constructs
      (fun bound => Step.invoke addresses fuel bound arguments) line ofClass arguments.length
      ofClass.initializer? machine := by
  have arity : ofClass.arity = ofClass.initializer?.elim 0 Closure.arity := by
    rw [Class.arity]
    cases ofClass.initializer? <;> rfl
  have checked := Step.checkArity_eq line ofClass.arity arguments.length machine
  have isNew : machine.fields[machine.fields.size]? = none := by simp
  have created : Step.newInstance ofClass machine = .ok ⟨machine.fields.size, ofClass⟩
      { machine with fields := machine.fields.push ∅ } := rfl
  constructor
  · intro different
    rw [← arity] at different ⊢
    rw [if_neg different] at checked
    rw [Step.call.eq_def]
    simp only [Bind.bind, EStateM.bind, checked]
  · intro same none
    rw [← arity] at same
    rw [if_pos same] at checked
    refine ⟨⟨machine.fields.size, ofClass⟩, rfl, isNew, ?_⟩
    rw [Step.call.eq_def]
    simp only [Bind.bind, EStateM.bind, checked, created, none]
    rfl
  · intro same initializer found
    rw [← arity] at same
    rw [if_pos same] at checked
    rcases Step.bindMethod_isBound ⟨machine.fields.size, ofClass⟩ initializer
      { machine with fields := machine.fields.push ∅ } with ⟨bound, ready, binds, isBound⟩
    refine ⟨⟨machine.fields.size, ofClass⟩, bound, ready, rfl, isNew, ?_, ?_⟩
    · exact ⟨isBound.behaviour, isBound.isNew, isBound.enclosing, isBound.holds⟩
    · rw [Step.call.eq_def]
      simp only [Bind.bind, EStateM.bind, checked, created, found, binds]

/-! ## What initialisers yield -/

/--
The call of a class fails if the number of arguments is not that of the nearest `init` among the
instance methods of the class and its superclasses, or zero if there is none.  Otherwise this
`init` is bound to a new instance and runs once, and unless it fails the call yields the instance.
In every session a call of an initialiser yields the instance that the function was bound to, and
nothing else, however its body ends; other functions yield what they return.  Of the instance
methods of a class those called `init` are initialisers; no class method is one.
-/
theorem constructs_and_initialises (clock : Float) (inputs : List Input) :
    (∀ (addresses : AddressTable) (fuel line : Nat) (ofClass : Class) (arguments : List Value)
      (machine : Machine),
      ∃ found, (∀ other, ofClass.Finds "init" other ↔ other = found) ∧
        (Step.call addresses (fuel + 1) line (.type ofClass) arguments).Constructs
          (fun bound => Step.invoke addresses fuel bound arguments) line ofClass arguments.length
          found machine) ∧
    let noted := (Session.start clock).answerNoted inputs []
    noted.1 = (Session.start clock).answer inputs ∧
      (∀ past closure flow value future definition,
        noted.2 = past ++ .yields closure flow value :: future →
        (closure.behaviour = .body definition true → ∃ target, value = .object target ∧
          ∀ other, .binds closure other ∈ past ↔ other = target) ∧
        (closure.behaviour = .body definition false → value = flow.callResult)) ∧
      ∀ past type future, noted.2 = past ++ .makes type :: future →
        (∀ (name : String) (method : Closure), type.own.methods[name]? = some method →
          ∃ definition, method.behaviour = .body definition (name == "init")) ∧
        ∀ (name : String) (method : Closure), type.own.classMethods[name]? = some method →
          ∃ definition, method.behaviour = .body definition false := by
  have ends := Session.answerNoted_endsRight clock inputs
  refine ⟨?_, ends.same, ?_, ?_⟩
  · intro addresses fuel line ofClass arguments machine
    exact ⟨ofClass.initializer?, ofClass.finds_iff "init",
      Step.call_constructs addresses fuel line ofClass arguments machine⟩
  · intro past closure flow value future definition same
    have right := ends.right past (.yields closure flow value) future same definition
    constructor
    · intro behaves
      rcases right true behaves with ⟨⟨target, noted⟩, only⟩
      refine ⟨target, only target noted, ?_⟩
      intro other
      constructor
      · intro also
        exact Value.object.inj ((only other also).symm.trans (only target noted))
      · rintro rfl
        exact noted
    · exact right false
  · intro past type future same
    exact ends.right past (.makes type) future same

/-- A text with an initialiser that returns early, and with a class method called `init`. -/
def makesGate : String :=
  "class Gate { init() { while (true) { if (true) return; } } class init() { return nil; } }
  Gate().init();"

/-- Its initialiser, which keeps some environment. -/
def gateInit (id : Nat) (environment : FrameId) : Closure :=
  ⟨id, "init", .body (.mk [] [.whileLoop (.literal (.bool true))
    (.block [.ifElse (.literal (.bool true)) (.returnValue 1 none) none])]) true, environment⟩

/-- The class method of the same name. -/
def gateClassInit : Closure :=
  ⟨2, "init", .body (.mk [] [.returnValue 1 (some (.literal .nil))]) false, Machine.root⟩

/-- The class that the text makes. -/
def gate : Class where
  own := ⟨3, "Gate", (∅ : Table Closure).insert "init" (gateInit 1 Machine.root),
    (∅ : Table Closure).insert "init" gateClassInit⟩
  inherited := []

/-- The class takes no argument, and its initialiser yields the instance when it returns early. -/
theorem constructs_and_initialises_gate :
    Step.call ∅ 9 1 (.type gate) [.nil] (Machine.start 0) =
        .error (.fault ⟨1, .wrongArity 0 1⟩) (Machine.start 0) ∧
      (∃ past, ((Session.start 0).answerNoted [.source 30 makesGate] []).2 =
          past ++ [.yields (gateInit 5 5) (.returned .nil) (.object ⟨0, gate⟩)] ∧
        .binds (gateInit 5 5) ⟨0, gate⟩ ∈ past) ∧
      ∃ definition, gateClassInit.behaviour = .body definition false := by
  have gateFinds : gate.own.methods["init"]? = some (gateInit 1 Machine.root) := by
    cbv
  have gateFindsInClass : gate.own.classMethods["init"]? = some gateClassInit := by
    cbv
  have first : ((Session.start 0).answerNoted [.source 30 makesGate] []).2.head? =
      some (.makes gate) := by
    cbv
  have last : ((Session.start 0).answerNoted [.source 30 makesGate] []).2.getLast? =
      some (.yields (gateInit 5 5) (.returned .nil) (.object ⟨0, gate⟩)) := by
    cbv
  rcases constructs_and_initialises 0 [.source 30 makesGate] with ⟨calls, -, yields, makes⟩
  refine ⟨?_, ?_, ?_⟩
  · rcases calls ∅ 8 1 gate [.nil] (Machine.start 0) with ⟨found, only, constructs⟩
    have isFound := (only _).mp (.declared gateFinds)
    subst isFound
    exact constructs.wrongArity (by decide)
  · rcases List.getLast?_eq_some_iff.mp last with ⟨past, same⟩
    refine ⟨past, same, ?_⟩
    rcases (yields past _ _ _ [] _ same).1 rfl with ⟨target, isObject, binds⟩
    cases isObject
    exact (binds _).mpr rfl
  · rcases List.head?_eq_some_iff.mp first with ⟨future, same⟩
    exact (makes [] gate future same).2 "init" gateClassInit gateFindsInClass

end Lox
