import Lox.Proofs.Lexical.Match

/-!
# Steps that do the same

`Simulates` says of a step of the machine with frames and one of the machine with cells
that they end in the same way, with the same error if they fail, and that the machines
match afterwards.  Below are its laws and the steps that make and use variables.
-/

namespace Lox

open Lexical (Environment)

/-- A machine with frames and one with cells, and the cells for the slots. -/
structure Pairing where
  layout : Layout Placed
  machine : Machine
  reference : Lexical.Machine

/-- The two machines match. -/
structure Pairing.Fits (setting : Setting) (pairing : Pairing) : Prop where
  frames : pairing.machine.frames.Matches setting pairing.layout pairing.reference.cells
  agrees : pairing.machine.Agrees setting pairing.layout pairing.reference

/-- Later on the machines still match, frames only have grown, and the same code runs. -/
structure Leads (setting : Setting) (start finish : Pairing) : Prop where
  fits : finish.Fits setting
  ordered : start.layout.Le finish.layout
  current : finish.machine.current = start.machine.current

theorem Leads.refl {setting : Setting} {pairing : Pairing} (fits : pairing.Fits setting) :
    Leads setting pairing pairing :=
  ⟨fits, .refl _, rfl⟩

theorem Leads.trans {setting : Setting} {first second third : Pairing}
    (before : Leads setting first second) (after : Leads setting second third) :
    Leads setting first third :=
  ⟨after.fits, before.ordered.trans after.ordered, after.current.trans before.current⟩

section

variable {α β γ δ : Type}

/-- Two steps end in the same way: both yield results, or both stop for the same reason. -/
inductive EndAlike (setting : Setting) (start : Pairing) (post : α → β → Pairing → Prop) :
    EStateM.Result Stop Machine α → EStateM.Result Stop Lexical.Machine β → Prop where
  | ok {result result' machine reference} (layout : Layout Placed)
      (leads : Leads setting start ⟨layout, machine, reference⟩)
      (holds : post result result' ⟨layout, machine, reference⟩) :
      EndAlike setting start post (.ok result machine) (.ok result' reference)
  | error (stop : Stop) {machine reference} (layout : Layout Placed)
      (leads : Leads setting start ⟨layout, machine, reference⟩) :
      EndAlike setting start post (.error stop machine) (.error stop reference)

/-- Two steps that end in the same way when they start on machines that match. -/
def Simulates (setting : Setting) (step : Step α) (reference : Lexical.Step β) (start : Pairing)
    (post : α → β → Pairing → Prop) : Prop :=
  EndAlike setting start post (step start.machine) (reference start.reference)

variable {setting : Setting} {start middle : Pairing} {step : Step α} {reference : Lexical.Step β}
  {post post' : α → β → Pairing → Prop}

theorem EndAlike.after {result : EStateM.Result Stop Machine α}
    {result' : EStateM.Result Stop Lexical.Machine β} (leads : Leads setting start middle)
    (same : EndAlike setting middle post result result') :
    EndAlike setting start post result result' := by
  cases same with
  | ok layout further holds => exact .ok layout (leads.trans further) holds
  | error stop layout further => exact .error stop layout (leads.trans further)

namespace Simulates

theorem imp (same : Simulates setting step reference start post)
    (weaker : ∀ result result' finish, Leads setting start finish → post result result' finish →
      post' result result' finish) : Simulates setting step reference start post' := by
  rw [Simulates] at same ⊢
  revert same
  generalize step start.machine = ends
  generalize reference start.reference = ends'
  intro same
  cases same with
  | ok layout leads holds => exact .ok layout leads (weaker _ _ _ leads holds)
  | error stop layout leads => exact .error stop layout leads

theorem pure {result : α} {result' : β} (fits : start.Fits setting)
    (holds : post result result' start) :
    Simulates setting (Pure.pure result) (Pure.pure result') start post :=
  .ok start.layout (.refl fits) holds

theorem bind {next : α → Step γ} {next' : β → Lexical.Step δ} {post' : γ → δ → Pairing → Prop}
    (same : Simulates setting step reference start post)
    (rest : ∀ result result' middle, Leads setting start middle → post result result' middle →
      Simulates setting (next result) (next' result') middle post') :
    Simulates setting (step >>= next) (reference >>= next') start post' := by
  show EndAlike setting start post' (EStateM.bind step next start.machine)
    (EStateM.bind reference next' start.reference)
  rw [Simulates] at same
  rw [EStateM.bind, EStateM.bind]
  revert same
  generalize step start.machine = ends
  generalize reference start.reference = ends'
  intro same
  cases same with
  | ok layout leads holds => exact (rest _ _ _ leads holds).after leads
  | error stop layout leads => exact .error stop layout leads

/-- Two steps that do what others do. -/
theorem congr {other : Step α} {other' : Lexical.Step β}
    (same : Simulates setting other other' start post)
    (left : step start.machine = other start.machine)
    (right : reference start.reference = other' start.reference) :
    Simulates setting step reference start post := by
  rw [Simulates, left, right]
  exact same

/-- Only the second one of two steps does something afterwards. -/
theorem bind_right {next' : β → Lexical.Step δ} {post' : α → δ → Pairing → Prop}
    (same : Simulates setting step reference start post)
    (rest : ∀ result result' middle, Leads setting start middle → post result result' middle →
      Simulates setting (Pure.pure result) (next' result') middle post') :
    Simulates setting step (reference >>= next') start post' := by
  rw [← bind_pure step]
  exact same.bind rest

/-- Two steps of which the results are known. -/
theorem of_ok {result : α} {result' : β} (finish : Pairing)
    (left : step start.machine = .ok result finish.machine)
    (right : reference start.reference = .ok result' finish.reference)
    (leads : Leads setting start finish) (holds : post result result' finish) :
    Simulates setting step reference start post := by
  rw [Simulates, left, right]
  exact .ok finish.layout leads holds

/-- Only the first one of two steps does something first. -/
theorem step_left {next : γ → Step α} {first : Step γ} {result : γ} (middle : Pairing)
    (taken : first start.machine = .ok result middle.machine)
    (still : middle.reference = start.reference) (leads : Leads setting start middle)
    (rest : Simulates setting (next result) reference middle post) :
    Simulates setting (first >>= next) reference start post := by
  have left : (first >>= next) start.machine = next result middle.machine := by
    show EStateM.bind _ _ _ = _
    rw [EStateM.bind, taken]
  rw [Simulates, left, ← still]
  exact rest.after leads

/-- The first one of two steps looks at its machine. -/
theorem look_left {next : γ → Step α} {first : Step γ} {result : γ} (fits : start.Fits setting)
    (taken : first start.machine = .ok result start.machine)
    (rest : Simulates setting (next result) reference start post) :
    Simulates setting (first >>= next) reference start post :=
  step_left start taken rfl (.refl fits) rest

theorem fail (line : Nat) (fault : RuntimeFault) (fits : start.Fits setting) :
    Simulates setting (Step.fail line fault : Step α) (Lexical.Step.fail line fault) start post :=
  .error _ start.layout (.refl fits)

theorem outOfFuel (fits : start.Fits setting) :
    Simulates setting (throw .outOfFuel : Step α) (throw .outOfFuel : Lexical.Step β) start post :=
  .error _ start.layout (.refl fits)

/-- Two results of operators. -/
theorem ofExcept {related : α → β → Prop} {result : Except RuntimeError α}
    {result' : Except RuntimeError β} (fits : start.Fits setting)
    (same : Except.Related related result result')
    (holds : ∀ left right, related left right → post left right start) :
    Simulates setting (Step.ofExcept result) (Lexical.Step.ofExcept result') start post := by
  cases same with
  | ok same => exact .ok start.layout (.refl fits) (holds _ _ same)
  | error error => exact .error _ start.layout (.refl fits)

/-- A step in another frame. -/
theorem within {frame : FrameId}
    (same : Simulates setting step reference
      ⟨start.layout, { start.machine with current := frame }, start.reference⟩ post)
    (back : ∀ result result' finish, post result result' finish →
      post' result result'
        ⟨finish.layout, { finish.machine with current := start.machine.current },
          finish.reference⟩) :
    Simulates setting (Step.within frame step) reference start post' := by
  have returns : ∀ {layout : Layout Placed} {machine : Machine} {reference : Lexical.Machine},
      Leads setting ⟨start.layout, { start.machine with current := frame }, start.reference⟩
        ⟨layout, machine, reference⟩ →
      Leads setting start
        ⟨layout, { machine with current := start.machine.current }, reference⟩ := by
    intro layout machine reference leads
    constructor
    · constructor
      · exact leads.fits.frames
      · constructor
        · exact leads.fits.agrees.globals
        · exact leads.fits.agrees.fields_size
        · exact leads.fits.agrees.fields
        · exact leads.fits.agrees.nextId
        · exact leads.fits.agrees.printed
        · exact leads.fits.agrees.clock
    · exact leads.ordered
    · rfl
  rw [Simulates, Step.within]
  rw [Simulates] at same
  revert same
  generalize step _ = ends
  generalize reference _ = ends'
  intro same
  cases same with
  | ok layout leads holds => exact .ok layout (returns leads) (back _ _ _ holds)
  | error stop layout leads => exact .error stop layout (returns leads)

end Simulates

end

/-! ## Code in scopes -/

/-- Code stands in scopes: the current frame is that of the innermost one, which is complete. -/
structure Pairing.Stands (setting : Setting) (around : Surroundings) (places : Places)
    (pairing : Pairing) : Prop where
  around : around.Fits setting.names places.scopes
  named : Local.AreNamed setting.names (places.scopes.headD [])
  chain : pairing.layout.Chain places pairing.machine.current
  row : pairing.layout.row pairing.machine.current = places.headD []

namespace Pairing.Stands

variable {setting : Setting} {around : Surroundings} {places : Places} {start finish : Pairing}

/-- Code still stands in scopes if no slot was added to a frame. -/
theorem follow (stands : start.Stands setting around places) (leads : Leads setting start finish)
    (still : start.layout.Still finish.layout) : finish.Stands setting around places := by
  constructor
  · exact stands.around
  · exact stands.named
  · rw [leads.current]
    exact stands.chain.mono leads.ordered
  · rw [leads.current, still _ stands.chain.lt_size]
    exact stands.row

/-- The same with what was declared in the innermost scope in the meantime. -/
theorem declare (stands : start.Stands setting around places) (leads : Leads setting start finish)
    {placed : List Placed} (named : Local.AreNamed setting.names (placed.map Prod.fst))
    (row : finish.layout.row start.machine.current = (places.declare placed).headD []) :
    finish.Stands setting around (places.declare placed) := by
  have chain := stands.chain.mono leads.ordered
  rw [← leads.current] at chain row
  cases places with
  | nil => exact ⟨stands.around, stands.named, chain, row⟩
  | cons innermost outer =>
    constructor
    · rw [Places.scopes_declare]
      exact stands.around.declare stands.named named
    · rw [Places.scopes_declare]
      exact List.forall_mem_append.mpr ⟨stands.named, named⟩
    · apply chain.extend
      rw [row]
      exact List.prefix_refl _
    · exact row

/-- Code in a scope runs in a frame that is not the root. -/
theorem inRoot (stands : start.Stands setting around places) :
    Step.inRoot start.machine = .ok places.isEmpty start.machine := by
  have iff := stands.chain.eq_root_iff
  have same : (start.machine.current == Machine.root) = places.isEmpty := by
    rw [Bool.eq_iff_iff, beq_iff_eq, List.isEmpty_iff]
    exact iff
  show EStateM.Result.ok (start.machine.current == Machine.root) start.machine = _
  rw [same]

end Pairing.Stands

end Lox
