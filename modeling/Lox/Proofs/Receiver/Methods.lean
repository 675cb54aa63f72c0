import Lox.Proofs.Receiver.Steps

/-!
# Methods that a ledger knows

The steps that make functions, bind methods and use `this` and `super`, the last in code that
stands in the scopes of a program and has a tie.  Where `this` or `super` may stand, the
frames hold what the tie says.
-/

namespace Lox.Tied

section

variable {setting : Setting} {around : Surroundings} {scopes : Scopes} {start : Moment}
  {ledger : Ledger} {layout : Layout Local}

/-! ## What is known fits -/

theorem IsTied.fits {closure : Closure} (tied : IsTied setting ledger layout closure) :
    closure.Fits setting layout [] := by
  rcases tied with ⟨around, scopes, chain, fits, -⟩
  exact ⟨around, scopes, chain, fits⟩

theorem IsHomed.fits {method : Closure} (homed : IsHomed setting ledger layout method) :
    method.Fits setting layout [[.this]] := by
  rcases homed with ⟨around, scopes, chain, fits, -⟩
  exact ⟨around, scopes, chain, fits⟩

/-- The functions in a class that the ledger knows. -/
theorem classFits {type : Class}
    (known : type.All (IsTied setting ledger layout) (IsHomed setting ledger layout)) :
    type.Fits setting layout := by
  intro body member
  constructor
  · exact fun name method found => ((known body member).methods name method found).fits
  · exact fun name method found => ((known body member).classMethods name method found).fits

theorem IsKnown.fits {value : Value} (known : IsKnown setting ledger layout value) :
    value.Fits setting layout := by
  cases value with
  | function closure => exact IsTied.fits known
  | type ofClass => exact classFits known
  | object target => exact classFits known
  | _ => trivial

/-! ## Making functions -/

/-- Noting the tie of a function that is new. -/
theorem Ledger.le_noteTie {id : Nat} (fresh : ledger.ties id = none) (tie : Option Tie) :
    ledger.Le (ledger.noteTie id tie) := by
  refine ⟨?_, fun _ _ noted => noted, fun _ _ noted => noted⟩
  intro other found noted
  have different : other ≠ id := by
    rintro rfl
    rw [fresh] at noted
    cases noted
  exact (if_neg different).trans noted

/-- A function is made, and its tie is noted. -/
theorem tells_newClosure (knows : Knows setting ledger start) (fits : start.Fits setting)
    (tie : Option Tie) (frame : FrameId) (name : String) (behaviour : Behaviour) :
    Tells setting (.quiet (.newClosure frame name behaviour))
      (Step.newClosure tie frame name behaviour) start ledger fun closure finish after =>
        after.ties closure.id = tie ∧ closure.environment = frame ∧
          closure.behaviour = behaviour ∧ finish.layout = start.layout := by
  apply Tells.intro (Watched.runs_newClosure fits frame name behaviour)
  · rintro closure finish taken follows ⟨environment, behaves, layout⟩
    replace taken : Lox.Step.newClosure frame name behaviour start.machine =
      .ok closure finish.machine := taken
    rcases EStateM.Result.ok.inj taken with ⟨made, step⟩
    have isNew : closure.id = start.machine.nextId := by
      rw [← made]
    have noted := Ledger.le_noteTie (knows.fresh closure.id (Nat.le_of_eq isNew.symm)).1 tie
    refine ⟨ledger.noteTie closure.id tie, ?_, noted, ?_, if_pos rfl, environment, behaves,
      layout⟩
    · have first : Step.ordinary (.newClosure frame name behaviour) ⟨start.machine, ledger⟩ =
          .ok closure ⟨finish.machine, ledger⟩ := by
        rw [Step.ordinary, taken]
      simp only [Step.newClosure, Bind.bind, EStateM.bind, first]
      rfl
    · constructor
      · rw [layout, ← step]
        have functions := knows.functions.imp
          (fun _ tied => tied.mono (.refl _) noted (.refl _))
          (fun _ homed => homed.mono (.refl _) noted (.refl _))
        exact functions.congr rfl rfl rfl
      · intro id isLater
        rw [← step] at isLater
        have isLater : start.machine.nextId + 1 ≤ id := isLater
        have different : id ≠ closure.id := by omega
        rw [Ledger.noteTie]
        dsimp only
        rw [if_neg different]
        exact knows.fresh id (by omega)
      · rw [layout, ← step]
        exact knows.holders
  · intro stop finish impossible
    cases impossible

/-! ## Methods -/

/-- A method that is bound to an instance is tied to it. -/
theorem tells_bindMethod (knows : Knows setting ledger start) (fits : start.Fits setting)
    {target : Instance} {method : Closure}
    (known : IsKnown setting ledger start.layout (.object target))
    (homed : IsHomed setting ledger start.layout method) :
    Tells setting (Watched.bindMethod target method) (Step.bindMethod target method) start ledger
      fun closure finish after => IsTied setting after finish.layout closure := by
  rcases homed with ⟨around, scopes, chain, body, home, isHome, above⟩
  have hold : Slot.Fits setting start.layout .this (.initialised (.object target)) := by
    constructor
    · rintro value ⟨⟩
      exact known.fits
    · exact fun _ => ⟨target, rfl⟩
  have told : Tells setting (Watched.bindMethod target method) (do
      let frame ← Step.newHolder method.environment (.object target)
      Step.newClosure (some ⟨target, home⟩) frame method.name method.behaviour) start ledger
      fun closure finish after => IsTied setting after finish.layout closure := by
    apply (tells_newHolder knows fits chain (.inl rfl) hold known).bind
      (Watched.runs_newFrame fits chain (.cons hold .nil))
    rintro frame middle after follows ⟨isNew, layout, inFrame⟩ noted knows ⟨holds, -, isOuter⟩
    apply (tells_newClosure knows follows.fits (some ⟨target, home⟩) frame method.name
      method.behaviour).imp
    rintro closure finish last notedThen ⟨isTie, environment, behaviour, same⟩
    refine ⟨around, [.this] :: scopes, ?_, ?_, ?_⟩
    · rw [environment, same]
      exact inFrame
    · rw [behaviour]
      exact body
    · intro _
      refine ⟨⟨target, home⟩, isTie, ?_⟩
      rw [environment, same]
      have enclosed : middle.layout.enclosing frame = some method.environment := by
        rw [layout, isNew]
        exact if_pos rfl
      apply Tie.Leads.bound inFrame.lt_size enclosed
      · exact Nat.lt_of_lt_of_le isOuter follows.ordered.size
      · exact notedThen.holders _ _ holds
      · intro allowed
        rcases above allowed with ⟨superclass, further, extends_, same, holds⟩
        exact ⟨superclass, further, extends_, same,
          notedThen.holders _ _ (noted.holders _ _ holds)⟩
  apply told.congr rfl rfl
  rw [Step.bindMethod, Lox.Step.get_bind, isHome]

/-- A function value whose function is tied. -/
theorem tells_bindMethod_function (knows : Knows setting ledger start) (fits : start.Fits setting)
    {target : Instance} {method : Closure}
    (known : IsKnown setting ledger start.layout (.object target))
    (homed : IsHomed setting ledger start.layout method) :
    Tells setting (do return Value.function (← Watched.bindMethod target method))
      (do return Value.function (← Step.bindMethod target method)) start ledger
      (Known setting) := by
  have targetFits : target.ofClass.Fits setting start.layout := classFits known
  apply (tells_bindMethod knows fits known homed).bind
    (Watched.runs_bindMethod fits targetFits homed.fits)
  intro closure finish after _ _ _ knows tied
  exact .pure knows tied

theorem tells_property (knows : Knows setting ledger start) (fits : start.Fits setting)
    {target : Value} (known : IsKnown setting ledger start.layout target) (name : Name) :
    Tells setting (Watched.property target name) (Step.property target name) start ledger
      (Known setting) := by
  cases target with
  | object target =>
    apply (tells_field? knows target name.text).bind (Watched.runs_field? fits target name.text)
    rintro value? middle after _ ⟨rfl, -⟩ noted knows valueKnown
    cases value? with
    | some value => exact .pure knows (valueKnown value rfl)
    | none =>
      have stillKnown := known.mono (.refl _) noted (.refl _)
      dsimp only
      cases found : target.ofClass.method? name.text with
      | none => exact .fail knows name.line _
      | some method =>
        exact tells_bindMethod_function knows fits stillKnown (Class.All.method? stillKnown found)
  | type target =>
    rw [Watched.property, Step.property]
    cases found : target.classMethod? name.text with
    | none => exact .fail knows name.line _
    | some method => exact .pure knows (Class.All.classMethod? known found)
  | _ => exact .fail knows name.line _

end

/-! ## Code with a tie -/

/-- Code stands in scopes, and `this` and `super` lead to what its tie says. -/
structure Code (setting : Setting) (around : Surroundings) (scopes : Scopes) (tie : Option Tie)
    (start : Moment) (ledger : Ledger) : Prop where
  fits : start.Fits setting
  stands : start.Stands setting around scopes
  knows : Knows setting ledger start
  leads : around.allowsThis → ∃ found, tie = some found ∧
    found.Leads ledger start.layout around.allowsSuper scopes start.machine.current

namespace Code

variable {setting : Setting} {around : Surroundings} {scopes : Scopes} {tie : Option Tie}
  {start finish : Moment} {ledger after : Ledger}

/-- Code goes on if no slot was added to a frame. -/
theorem follow (code : Code setting around scopes tie start ledger)
    (follows : Follows setting start finish) (still : start.layout.Still finish.layout)
    (noted : ledger.Le after) (knows : Knows setting after finish) :
    Code setting around scopes tie finish after := by
  refine ⟨follows.fits, code.stands.follow follows still, knows, ?_⟩
  intro allowed
  rcases code.leads allowed with ⟨found, same, leads⟩
  refine ⟨found, same, ?_⟩
  rw [follows.current]
  exact leads.mono noted follows.ordered

/-- The same with what was declared in the innermost scope in the meantime. -/
theorem declare (plain : setting.Plain) (code : Code setting around scopes tie start ledger)
    (follows : Follows setting start finish) {locals : List Local}
    (named : Local.AreNamed setting.names locals)
    (row : finish.layout.row start.machine.current = (scopes.declare locals).headD [])
    (noted : ledger.Le after) (knows : Knows setting after finish) :
    Code setting around (scopes.declare locals) tie finish after := by
  refine ⟨follows.fits, code.stands.declare follows named row, knows, ?_⟩
  intro allowed
  rcases code.leads allowed with ⟨found, same, leads⟩
  refine ⟨found, same, ?_⟩
  rw [follows.current]
  exact (leads.declare plain code.stands.named named).mono noted follows.ordered

/-! ## Using `this` and `super` -/

section

variable (exact : setting.Exact) (code : Code setting around scopes tie start ledger)
include exact code

/-- The value of `this` is the instance of the tie. -/
theorem tells_this {id : Nat}
    (isKnown : ⟨id, "this", around.allowsThis, scopes⟩ ∈ setting.occurrences) (line : Nat) :
    Tells setting (Watched.use setting.addresses (.read id ⟨"this", line⟩)) (Step.this tie) start
      ledger (Known setting) := by
  have allowed : around.allowsThis := exact.legal _ isKnown
  rcases code.leads allowed with ⟨found, rfl, depth, holder, located, reaches, holds, -⟩
  have recorded := exact.recorded _ isKnown
  rw [Occurrence.address?, if_pos allowed] at recorded
  replace recorded : setting.addresses[id]? = some ⟨depth, 0⟩ := recorded.trans located
  have slot := code.knows.get?_eq reaches holds
  have value : IsKnown setting ledger start.layout (.object found.target) :=
    code.knows.functions.get? slot
  apply Tells.note code.fits code.knows fun _ => rfl
  intro middle follows machine layout knows
  rw [← layout] at value
  have told : Tells setting (pure (.object found.target)) (pure (.object found.target)) middle
      ledger (Known setting) := .pure knows value
  have taken : Step.readVariable setting.addresses id ⟨"this", line⟩ middle.machine =
      .ok (.object found.target) middle.machine := by
    rw [machine, Step.readVariable_eq, Step.slot?, recorded]
    dsimp only
    rw [slot]
  show Tells setting (.quiet (Step.readVariable setting.addresses id ⟨"this", line⟩)) _ _ _ _
  exact told.congr taken rfl rfl

/-- A method of the superclass is looked up as the tie says. -/
theorem tells_super {id : Nat}
    (isKnown : ⟨id, "super", around.allowsSuper, scopes⟩ ∈ setting.occurrences) (line : Nat)
    (method : Name) :
    Tells setting (Watched.use setting.addresses (.super id line method))
      (Step.superMethod tie method) start ledger (Known setting) := by
  have allowed : around.allowsSuper := exact.legal _ isKnown
  have isMethod : around.allowsThis := by
    cases around with
    | method => rfl
    | _ => cases allowed
  rcases code.leads isMethod with ⟨found, rfl, depth, holder, -, reaches, holds, above⟩
  rcases above allowed with ⟨superclass, outer, extends_, located, reaches', holds'⟩
  have recorded := exact.recorded _ isKnown
  rw [Occurrence.address?, if_pos allowed] at recorded
  replace recorded : setting.addresses[id]? = some ⟨depth + 1, 0⟩ := recorded.trans located
  have thisSlot := code.knows.get?_eq reaches holds
  have superSlot := code.knows.get?_eq reaches' holds'
  have superHere : Step.superclass? setting.addresses id start.machine = some superclass := by
    simp only [Step.superclass?, recorded, superSlot]
  have thisHere : Step.receiver? setting.addresses id start.machine = some found.target := by
    simp only [Step.receiver?, recorded, thisSlot]
  have target : IsKnown setting ledger start.layout (.object found.target) :=
    code.knows.functions.get? thisSlot
  have type : IsKnown setting ledger start.layout (.type superclass) :=
    code.knows.functions.get? superSlot
  have taken := Step.superMethod_eq setting.addresses id line method start.machine
  simp only [superHere, thisHere] at taken
  apply Tells.note code.fits code.knows fun _ => rfl
  intro middle follows machine layout knows
  rw [← machine] at taken
  rw [← layout] at target type
  cases isMethod : superclass.method? method.text with
  | none =>
    have begins : Step.superMethod (some found) method =
        Step.ordinary (.fail method.line (.undefinedProperty method.text)) := by
      simp only [Step.superMethod, Step.extended, extends_, Option.map_some, isMethod]
    simp only [isMethod] at taken
    rw [begins]
    exact (Tells.fail knows method.line (.undefinedProperty method.text)).congr taken
      (Watched.events_superMethod taken) rfl
  | some bound =>
    have begins : Step.superMethod (some found) method =
        (do return .function (← Step.bindMethod found.target bound) : Step Value) := by
      simp only [Step.superMethod, Step.extended, extends_, Option.map_some, isMethod]
    simp only [isMethod] at taken
    rw [begins]
    have homed := Class.All.method? type isMethod
    apply (tells_bindMethod_function knows follows.fits target homed).congr taken _ rfl
    simp only [Watched.superMethod, taken]
    rfl

end

end Code

end Lox.Tied
