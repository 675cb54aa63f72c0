import Lox.Proofs.Lexical.Match
import Lox.Proofs.Machine.Operations
import Lox.Proofs.Receiver.Functions
import Lox.Proofs.Receiver.Ledger

/-!
# What a ledger knows

A ledger knows a function if the frames that hold `this` and `super`, as the scopes around
the function say, hold what is noted of it.  `Knows` is the invariant of every execution:
the ledger knows all functions in the machine, nothing is noted of identities that are not
given away, and the frames noted as holders have one slot with what is noted.
-/

namespace Lox

/-! ## Ways outward -/

/-- So many frames further out lies another frame. -/
inductive Layout.Reaches {σ : Type} (layout : Layout σ) : FrameId → Nat → FrameId → Prop where
  | here {frame : FrameId} (isFrame : frame < layout.size) : Reaches layout frame 0 frame
  | further {frame outer found : FrameId} {depth : Nat} (isFrame : frame < layout.size)
      (enclosed : layout.enclosing frame = some outer) (rest : Reaches layout outer depth found) :
      Reaches layout frame (depth + 1) found

namespace Layout.Reaches

variable {σ : Type} {layout later : Layout σ} {frame found : FrameId} {depth : Nat}

theorem mono (reaches : layout.Reaches frame depth found) (grown : layout.Le later) :
    later.Reaches frame depth found := by
  induction reaches with
  | here isFrame => exact .here (Nat.lt_of_lt_of_le isFrame grown.size)
  | further isFrame enclosed _ induction =>
    apply Reaches.further (Nat.lt_of_lt_of_le isFrame grown.size) _ induction
    exact (grown.enclosing _ isFrame).trans enclosed

/-- The frames of a machine are where its layout says. -/
theorem ancestor?_eq {frames : Frames Value} (reaches : layout.Reaches frame depth found)
    (same : layout.enclosing = frames.enclosing?) :
    frames.ancestor? frame depth = some found := by
  induction reaches with
  | here => rfl
  | further _ enclosed _ induction =>
    rw [same] at enclosed
    simpa [Frames.ancestor?, enclosed] using induction

end Layout.Reaches

/-- Among names that are not `this` or `super`, one of these is found further out. -/
theorem locate?_cons_of_areNamed {names : String → Prop} {scope : List Local}
    (named : Local.AreNamed names scope) {text : String}
    (isOther : ∀ name, names name → name ≠ text) (outer : List (List String)) :
    locate? text (scope.map Local.text :: outer) =
      (locate? text outer).map fun address => { address with depth := address.depth + 1 } := by
  have absent : latest? text (scope.map Local.text) = none := by
    rw [latest?_eq_none_iff]
    intro member
    rcases List.mem_map.mp member with ⟨declared, inScope, rfl⟩
    rcases named declared inScope with ⟨name, rfl, isName⟩
    exact isOther _ isName rfl
  rw [locate?, absent]

namespace Tied

/-! ## Ledgers -/

/-- One ledger after another: what is noted stays. -/
structure Ledger.Le (before after : Ledger) : Prop where
  ties : ∀ id tie, before.ties id = some tie → after.ties id = some tie
  homes : ∀ id home, before.homes id = some home → after.homes id = some home
  holders : ∀ frame value, before.holders frame = some value → after.holders frame = some value

namespace Ledger.Le

theorem refl (ledger : Ledger) : ledger.Le ledger :=
  ⟨fun _ _ noted => noted, fun _ _ noted => noted, fun _ _ noted => noted⟩

theorem trans {first second third : Ledger} (before : first.Le second) (after : second.Le third) :
    first.Le third := by
  constructor
  · exact fun id tie noted => after.ties id tie (before.ties id tie noted)
  · exact fun id home noted => after.homes id home (before.homes id home noted)
  · exact fun frame value noted => after.holders frame value (before.holders frame value noted)

end Ledger.Le

/-! ## Ties -/

/--
From a frame, which is that of scopes, `this` leads to a frame that holds the instance of a
tie.  Where `super` may stand, it leads to the frame around that one, and this holds the
superclass of the class that declares the method.
-/
def Tie.Leads (ledger : Ledger) (layout : Layout Local) (inherits : Bool) (scopes : Scopes)
    (frame : FrameId) (tie : Tie) : Prop :=
  ∃ depth holder, locate? Local.this.text scopes.names = some ⟨depth, 0⟩ ∧
    layout.Reaches frame depth holder ∧ ledger.holders holder = some (.object tie.target) ∧
    (inherits → ∃ superclass outer, tie.home.superclass? = some superclass ∧
      locate? Local.super.text scopes.names = some ⟨depth + 1, 0⟩ ∧
      layout.Reaches frame (depth + 1) outer ∧ ledger.holders outer = some (.type superclass))

namespace Tie.Leads

variable {ledger after : Ledger} {layout later : Layout Local} {inherits : Bool} {scopes : Scopes}
  {frame : FrameId} {tie : Tie}

theorem mono (leads : tie.Leads ledger layout inherits scopes frame) (noted : ledger.Le after)
    (grown : layout.Le later) : tie.Leads after later inherits scopes frame := by
  rcases leads with ⟨depth, holder, located, reaches, holds, above⟩
  refine ⟨depth, holder, located, reaches.mono grown, noted.holders _ _ holds, ?_⟩
  intro allowed
  rcases above allowed with ⟨superclass, outer, extends_, located', reaches', holds'⟩
  exact ⟨superclass, outer, extends_, located', reaches'.mono grown, noted.holders _ _ holds'⟩

section

variable {names : String → Prop}
  (plain : ∀ name, names name → name ≠ Local.this.text ∧ name ≠ Local.super.text)
include plain

/-- A scope of names may be opened. -/
theorem enter (leads : tie.Leads ledger layout inherits scopes frame) {scope : List Local}
    (named : Local.AreNamed names scope) {inner : FrameId} (isFrame : inner < layout.size)
    (enclosed : layout.enclosing inner = some frame) :
    tie.Leads ledger layout inherits (scope :: scopes) inner := by
  rcases leads with ⟨depth, holder, located, reaches, holds, above⟩
  refine ⟨depth + 1, holder, ?_, .further isFrame enclosed reaches, holds, ?_⟩
  · rw [Scopes.names, List.map_cons,
      locate?_cons_of_areNamed named fun name isName => (plain name isName).1]
    exact congrArg _ located
  · intro allowed
    rcases above allowed with ⟨superclass, outer, extends_, located', reaches', holds'⟩
    refine ⟨superclass, outer, extends_, ?_, .further isFrame enclosed reaches', holds'⟩
    rw [Scopes.names, List.map_cons,
      locate?_cons_of_areNamed named fun name isName => (plain name isName).2]
    exact congrArg _ located'

/-- Names may be declared in a scope of names. -/
theorem declare (leads : tie.Leads ledger layout inherits scopes frame)
    (before : Local.AreNamed names (scopes.headD [])) {locals : List Local}
    (named : Local.AreNamed names locals) :
    tie.Leads ledger layout inherits (scopes.declare locals) frame := by
  cases scopes with
  | nil => exact leads
  | cons scope outer =>
    replace before : Local.AreNamed names scope := before
    have all : Local.AreNamed names (scope ++ locals) :=
      List.forall_mem_append.mpr ⟨before, named⟩
    have same : ∀ text, (∀ name, names name → name ≠ text) →
        locate? text (Scopes.names ((scope ++ locals) :: outer)) =
          locate? text (Scopes.names (scope :: outer)) := by
      intro text isOther
      rw [Scopes.names, Scopes.names, List.map_cons, List.map_cons,
        locate?_cons_of_areNamed all isOther, locate?_cons_of_areNamed before isOther]
    rcases leads with ⟨depth, holder, located, reaches, holds, above⟩
    refine ⟨depth, holder, ?_, reaches, holds, ?_⟩
    · exact (same _ fun name isName => (plain name isName).1).trans located
    · intro allowed
      rcases above allowed with ⟨superclass, around, extends_, located', reaches', holds'⟩
      refine ⟨superclass, around, extends_, ?_, reaches', holds'⟩
      exact (same _ fun name isName => (plain name isName).2).trans located'

end

/-- The frame that a method keeps when it is bound holds the instance. -/
theorem bound {outer : FrameId} (isFrame : frame < layout.size)
    (enclosed : layout.enclosing frame = some outer) (outerIsFrame : outer < layout.size)
    (holds : ledger.holders frame = some (.object tie.target))
    (above : inherits → ∃ superclass further, tie.home.superclass? = some superclass ∧
      scopes = [.super] :: further ∧ ledger.holders outer = some (.type superclass)) :
    tie.Leads ledger layout inherits ([.this] :: scopes) frame := by
  refine ⟨0, frame, rfl, .here isFrame, holds, ?_⟩
  intro allowed
  rcases above allowed with ⟨superclass, further, extends_, rfl, holds'⟩
  exact ⟨superclass, outer, extends_, rfl, .further isFrame enclosed (.here outerIsFrame), holds'⟩

end Tie.Leads

/-! ## Functions that a ledger knows -/

section

variable (setting : Setting) (ledger : Ledger) (layout : Layout Local)

/-- What is noted of a function leads to the frames that the scopes around it lead to. -/
def IsTied (closure : Closure) : Prop :=
  ∃ around scopes, layout.Chain scopes closure.environment ∧
    (∀ definition isInitializer, closure.behaviour = .body definition isInitializer →
      definition.Fits setting around scopes) ∧
    (around.allowsThis → ∃ tie, ledger.ties closure.id = some tie ∧
      tie.Leads ledger layout around.allowsSuper scopes closure.environment)

/--
The class that declares an instance method is noted.  If it extends a class, then the method
keeps the frame that holds this one.
-/
def IsHomed (method : Closure) : Prop :=
  ∃ around scopes, layout.Chain scopes method.environment ∧
    (∀ definition isInitializer, method.behaviour = .body definition isInitializer →
      definition.Fits setting around ([.this] :: scopes)) ∧
    ∃ home, ledger.homes method.id = some home ∧
      (around.allowsSuper → ∃ superclass further, home.superclass? = some superclass ∧
        scopes = [.super] :: further ∧ ledger.holders method.environment = some (.type superclass))

/-- The ledger knows the functions in a value. -/
abbrev IsKnown (value : Value) : Prop :=
  value.All (IsTied setting ledger layout) (IsHomed setting ledger layout)

/-- What holds at every moment of every execution. -/
structure Knows (moment : Moment) : Prop where
  functions : moment.machine.All (IsTied setting ledger moment.layout)
    (IsHomed setting ledger moment.layout)
  fresh : ∀ id, moment.machine.nextId ≤ id → ledger.ties id = none ∧ ledger.homes id = none
  /-- The frames for `this` and `super` hold what is noted, in their only slot. -/
  holders : ∀ frame value, ledger.holders frame = some value →
    moment.machine.frames.slots frame = #[.initialised value] ∧
      (moment.layout.row frame = [.this] ∨ moment.layout.row frame = [.super])

end

section

variable {setting setting' : Setting} {ledger after : Ledger} {layout later : Layout Local}
  (read : setting.Le setting') (noted : ledger.Le after) (grown : layout.Le later)
include read noted grown

theorem IsTied.mono {closure : Closure} (tied : IsTied setting ledger layout closure) :
    IsTied setting' after later closure := by
  rcases tied with ⟨around, scopes, chain, fits, ties⟩
  refine ⟨around, scopes, chain.mono grown, ?_, ?_⟩
  · exact fun definition isInitializer behaves => (fits definition isInitializer behaves).mono read
  · intro allowed
    rcases ties allowed with ⟨tie, isNoted, leads⟩
    exact ⟨tie, noted.ties _ _ isNoted, leads.mono noted grown⟩

theorem IsHomed.mono {method : Closure} (homed : IsHomed setting ledger layout method) :
    IsHomed setting' after later method := by
  rcases homed with ⟨around, scopes, chain, fits, home, isNoted, above⟩
  refine ⟨around, scopes, chain.mono grown, ?_, home, noted.homes _ _ isNoted, ?_⟩
  · exact fun definition isInitializer behaves => (fits definition isInitializer behaves).mono read
  · intro allowed
    rcases above allowed with ⟨superclass, further, extends_, same, holds⟩
    exact ⟨superclass, further, extends_, same, noted.holders _ _ holds⟩

theorem IsKnown.mono {value : Value} (known : IsKnown setting ledger layout value) :
    IsKnown setting' after later value :=
  Value.All.imp (fun _ tied => tied.mono read noted grown)
    (fun _ homed => homed.mono read noted grown) known

end

/-! ## Looking up `this` and `super` -/

namespace Knows

variable {setting setting' : Setting} {ledger : Ledger} {moment finish : Moment}

theorem mono (knows : Knows setting ledger moment) (read : setting.Le setting') :
    Knows setting' ledger moment := by
  refine ⟨?_, knows.fresh, knows.holders⟩
  exact knows.functions.imp (fun _ tied => tied.mono read (.refl _) (.refl _))
    (fun _ homed => homed.mono read (.refl _) (.refl _))

/-- Only the machine and the layout count. -/
theorem congr (knows : Knows setting ledger moment) (machine : finish.machine = moment.machine)
    (layout : finish.layout = moment.layout) : Knows setting ledger finish := by
  constructor
  · rw [machine, layout]
    exact knows.functions
  · rw [machine]
    exact knows.fresh
  · rw [machine, layout]
    exact knows.holders

/-- The slot of a holder that is reached. -/
theorem get?_eq (knows : Knows setting ledger moment) {frame holder : FrameId} {depth : Nat}
    (reaches : moment.layout.Reaches frame depth holder) {value : Value}
    (holds : ledger.holders holder = some value) :
    moment.machine.frames.get? frame depth 0 = some (.initialised value) := by
  have further : moment.machine.frames.ancestor? frame depth = some holder :=
    reaches.ancestor?_eq rfl
  rw [Frames.get?, further]
  dsimp only
  rw [(knows.holders holder value holds).1]
  rfl

/-- A frame with a slot for a name is no holder. -/
theorem holders_eq_none (knows : Knows setting ledger moment) {frame : FrameId}
    (isOther : moment.layout.row frame ≠ [.this] ∧ moment.layout.row frame ≠ [.super]) :
    ledger.holders frame = none := by
  apply Option.eq_none_iff_forall_ne_some.mpr
  intro value holds
  rcases (knows.holders frame value holds).2 with isThis | isSuper
  · exact isOther.1 isThis
  · exact isOther.2 isSuper

end Knows

end Tied

end Lox
