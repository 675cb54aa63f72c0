import Lox.Proofs.Reach.Evaluation
import Mathlib

/-!
# What calls touch

A container is reached from some values in a machine if a way leads there through slots, the
frames around frames, what functions and the methods of classes keep, and fields, from these
values or from the global variables.

The main statement is `call_local`: a call neither uses nor changes what is not reached from
the function, its arguments and the global variables.
-/

namespace Lox

/-! ## What is reached -/

/-- What is reached in a machine from some values and the global variables. -/
inductive Machine.Reaches (machine : Machine) (roots : List Value) : Container → Prop where
  | root {value container} (member : value ∈ roots) (leads : value.LeadsTo container) :
      Reaches machine roots container
  | global {name : String} {value container}
      (held : machine.globals[name]? = some (.initialised value))
      (leads : value.LeadsTo container) : Reaches machine roots container
  | slot {frame : FrameId} {index : Nat} {value container}
      (reached : Reaches machine roots (.frame frame))
      (held : (machine.frames.slots frame)[index]? = some (.initialised value))
      (leads : value.LeadsTo container) : Reaches machine roots container
  | enclosing {frame outer : FrameId} (reached : Reaches machine roots (.frame frame))
      (encloses : machine.frames.enclosing? frame = some outer) :
      Reaches machine roots (.frame outer)
  | field {id : Nat} {table : Table Value} {name : String} {value container}
      (reached : Reaches machine roots (.object id)) (found : machine.fields[id]? = some table)
      (held : table[name]? = some value) (leads : value.LeadsTo container) :
      Reaches machine roots container

/-- What is not there yet in a machine. -/
def Machine.IsNew (machine : Machine) : Container → Prop
  | .frame id => machine.frames.size ≤ id
  | .object id => machine.fields.size ≤ id

/-- What is reached from some values, and what is not there yet. -/
def Machine.around (machine : Machine) (roots : List Value) : Region :=
  fun container => machine.Reaches roots container ∨ machine.IsNew container

section

variable {machine : Machine} {roots : List Value}

/-- No way leads out of a closed region. -/
theorem Machine.Reaches.inside {region : Region} (closed : region.IsClosed machine)
    (hold : ∀ value ∈ roots, region.Holds value) {container : Container}
    (reached : machine.Reaches roots container) : region container := by
  induction reached with
  | root member leads => exact hold _ member _ leads
  | global held leads => exact closed.globals _ _ held _ leads
  | slot _ held leads inside => exact closed.slots _ _ _ inside held _ leads
  | enclosing _ encloses inside => exact closed.enclosing _ _ inside encloses
  | field _ found held leads inside => exact closed.fields _ _ _ _ inside found held _ leads

/-- What is reached and what is not there yet is a closed region. -/
theorem Machine.isClosed_around (machine : Machine) (roots : List Value) :
    (machine.around roots).IsClosed machine := by
  have noSlots : ∀ frame, machine.frames.size ≤ frame → machine.frames.slots frame = #[] :=
    fun _ beyond => Frames.slots_eq_empty _ beyond
  constructor
  · exact fun frame beyond => .inr beyond
  · exact fun id beyond => .inr beyond
  · intro frame index slot inside here
    rcases inside with reached | isNew
    · cases slot with
      | uninitialised => trivial
      | initialised value => exact fun container leads => .inl (.slot reached here leads)
    · rw [noSlots frame isNew] at here
      cases here
  · intro frame outer inside encloses
    rcases inside with reached | isNew
    · exact .inl (.enclosing reached encloses)
    · have absent : machine.frames.all[frame]? = none := Array.getElem?_eq_none isNew
      rw [Frames.enclosing?, absent] at encloses
      cases encloses
  · intro name slot here
    cases slot with
    | uninitialised => trivial
    | initialised value => exact fun container leads => .inl (.global here leads)
  · intro id table name value inside found held container leads
    rcases inside with reached | isNew
    · exact .inl (.field reached found held leads)
    · rw [Array.getElem?_eq_none isNew] at found
      cases found

theorem Machine.holds_around (machine : Machine) {value : Value} (member : value ∈ roots) :
    (machine.around roots).Holds value :=
  fun _ leads => .inl (.root member leads)

/-- What is not there yet is the same in machines that are alike. -/
theorem Region.Alike.around {other : Machine}
    (alike : Region.Alike (machine.Reaches roots) machine other) :
    Region.Alike (machine.around roots) machine other := by
  refine { alike with slots := ?_, enclosing := ?_, fields := ?_ }
  · rintro frame (reached | isNew)
    · exact alike.slots frame reached
    · rw [Frames.slots_eq_empty _ isNew, Frames.slots_eq_empty _ (alike.size ▸ isNew)]
  · rintro frame (reached | isNew)
    · exact alike.enclosing frame reached
    · have absent : machine.frames.all[frame]? = none := Array.getElem?_eq_none isNew
      have absent' : other.frames.all[frame]? = none :=
        Array.getElem?_eq_none (alike.size ▸ isNew : other.frames.size ≤ frame)
      rw [Frames.enclosing?, Frames.enclosing?, absent, absent']
  · rintro id (reached | isNew)
    · exact alike.fields id reached
    · rw [Array.getElem?_eq_none isNew, Array.getElem?_eq_none (alike.objects ▸ isNew)]

theorem Region.Alike.refl (region : Region) (machine : Machine) : region.Alike machine machine :=
  ⟨rfl, rfl, fun _ _ => rfl, fun _ _ => rfl, fun _ _ => rfl, rfl, rfl, rfl, rfl, rfl⟩

end

/-! ## Calls -/

/-- The result of a step, or why it has none. -/
def Step.outcome {α : Type} (step : Step α) (machine : Machine) : Except Stop α :=
  match step machine with
  | .ok result _ => .ok result
  | .error stop _ => .error stop

/-- How a step ends on two machines that are alike, in terms of its outcome. -/
theorem Region.Ends.outcome {α : Type} {region : Region} {post : α → Prop}
    {left right : Machine} {step : Step α}
    (ends : region.Ends post left right (step left) (step right)) :
    step.outcome right = step.outcome left ∧
      region.Moves left right (step.after left) (step.after right) ∧
      ∀ result, step.outcome left = .ok result → post result := by
  rw [Step.outcome, Step.outcome, Step.after, Step.after]
  revert ends
  generalize step left = first
  generalize step right = second
  rintro (⟨moves, holds⟩ | ⟨stop, moves⟩)
  · refine ⟨rfl, moves, ?_⟩
    rintro result ⟨⟩
    exact holds
  · refine ⟨rfl, moves, ?_⟩
    intro result impossible
    cases impossible

/--
A step neither uses nor changes what is not reached from some values, and what it creates is
new.
-/
structure Step.IsLocal (step : Step Value) (roots : List Value) (machine : Machine) : Prop where
  slots : ∀ frame < machine.frames.size, ¬ machine.Reaches roots (.frame frame) →
    (step.after machine).frames.slots frame = machine.frames.slots frame
  fields : ∀ id < machine.fields.size, ¬ machine.Reaches roots (.object id) →
    (step.after machine).fields[id]? = machine.fields[id]?
  /-- Frames and instances stay, and no frame moves. -/
  stays : machine.frames.size ≤ (step.after machine).frames.size ∧
    machine.fields.size ≤ (step.after machine).fields.size ∧
    ∀ frame < machine.frames.size,
      (step.after machine).frames.enclosing? frame = machine.frames.enclosing? frame
  /-- What is reached afterwards, also from the result, was reached before or is new. -/
  fresh : ∀ container,
    (step.after machine).Reaches ((step.outcome machine).toOption.toList ++ roots) container →
      machine.Reaches roots container ∨ machine.IsNew container
  /--
  On a machine that differs only in what is not reached the step ends in the same way; the
  machines still differ there only, where the other one is also what it was.
  -/
  blind : ∀ other, Region.Alike (machine.Reaches roots) machine other →
    step.outcome other = step.outcome machine ∧
      Region.Alike (machine.around roots) (step.after machine) (step.after other) ∧
      Region.Keeps (machine.around roots) other (step.after other)

/-- Steps that stay in what is around some values are local. -/
theorem Step.StaysIn.isLocal {step : Step Value} {roots : List Value} {machine : Machine}
    (stays : Step.StaysIn (machine.around roots) false (machine.around roots).Holds step) :
    step.IsLocal roots machine := by
  have closed := machine.isClosed_around roots
  have ends : ∀ other, Region.Alike (machine.around roots) machine other →
      Region.Ends (machine.around roots) (machine.around roots).Holds machine other
        (step machine) (step other) :=
    fun other alike => stays machine other ⟨closed, alike⟩ fun impossible => by cases impossible
  rcases (ends machine (.refl _ machine)).outcome with ⟨-, moves, holds⟩
  have outside : ∀ container, ¬ machine.IsNew container → ¬ machine.Reaches roots container →
      ¬ machine.around roots container := by
    rintro container isOld unreached (reached | isNew)
    · exact unreached reached
    · exact isOld isNew
  constructor
  · exact fun frame isFrame unreached =>
      moves.kept.slots frame (outside _ (Nat.not_le_of_lt isFrame) unreached)
  · exact fun id isObject unreached =>
      moves.kept.fields id (outside _ (Nat.not_le_of_lt isObject) unreached)
  · exact ⟨moves.kept.size, moves.kept.objects, moves.kept.enclosing⟩
  · intro container reached
    apply reached.inside moves.fits.closed
    intro value member
    rcases List.mem_append.mp member with isResult | isRoot
    · cases result : step.outcome machine with
      | error stop =>
        rw [result] at isResult
        cases isResult
      | ok found =>
        rw [result] at isResult
        rw [List.mem_singleton.mp isResult]
        exact holds found result
    · exact machine.holds_around isRoot
  · intro other alike
    rcases (ends other alike.around).outcome with ⟨same, moves, -⟩
    exact ⟨same, moves.fits.alike, moves.kept'⟩

/--
Whatever a function does, a call of it, and also one that fails, leaves all slots and fields
as they are that are not reached from the function, its arguments and the global variables,
and does not depend on them; the frames and the instances that it creates are new.
-/
theorem call_local (addresses : AddressTable) (fuel line : Nat) (callee : Value)
    (arguments : List Value) (machine : Machine) :
    (Step.call addresses fuel line callee arguments).IsLocal (callee :: arguments) machine := by
  apply Step.StaysIn.isLocal
  apply (staysWell (machine.around (callee :: arguments)) addresses fuel).call
  · exact machine.holds_around List.mem_cons_self
  · exact fun argument member => machine.holds_around (List.mem_cons_of_mem _ member)

/-! ## Two functions from one factory -/

/-- The body `on = !on; return on;` of a function around which `on` is declared. -/
def flipBody : Function :=
  .mk [] [.expression (.assign ⟨0, ⟨"on", 1⟩⟩ (.unary .not 1 (.read ⟨1, ⟨"on", 1⟩⟩))),
    .returnValue 1 (some (.read ⟨2, ⟨"on", 1⟩⟩))]

/-- The function that was made when the factory was called, and keeps a frame with `on`. -/
def flipIn (frame : FrameId) : Closure :=
  ⟨frame, "flip", .body flipBody false, frame⟩

/-- The root and the frames of two calls of the factory. -/
def twoFlips : Machine :=
  { Machine.start 0 with
    frames := ⟨#[⟨#[], none⟩, ⟨#[.initialised (.bool false)], some 0⟩,
      ⟨#[.initialised (.bool true)], some 0⟩]⟩ }

/-- The frame of the second call is not reached from the function of the first one. -/
theorem unreached_twoFlips : ¬ twoFlips.Reaches [.function (flipIn 1)] (.frame 2) := by
  intro reached
  have closed : Region.IsClosed (fun container => container ≠ .frame 2) twoFlips := by
    constructor
    · rintro frame beyond ⟨⟩
      exact absurd beyond (by decide)
    · intro id _ impossible
      cases impossible
    · intro frame index slot _ here
      have isBool : ∃ value, slot = .initialised (.bool value) := by
        rcases frame with _ | _ | _ | frame <;> rcases index with _ | index <;> cases here
        · exact ⟨false, rfl⟩
        · exact ⟨true, rfl⟩
      rcases isBool with ⟨value, rfl⟩
      intro container leads
      cases leads
    · intro frame outer _ encloses
      rcases frame with _ | _ | _ | frame <;> cases encloses <;> (rintro ⟨⟩)
    · intro name slot here
      replace here : ((∅ : Table (Slot Value)).insert "clock" _)[name]? = some slot := here
      rw [Std.TreeMap.getElem?_insert] at here
      split at here
      · cases here
        rintro container rfl impossible
        cases impossible
      · simp at here
    · intro id table name value _ found
      cases found
  have hold : ∀ value ∈ [Value.function (flipIn 1)],
      Region.Holds (fun container => container ≠ .frame 2) value := by
    intro value member
    rw [List.mem_singleton.mp member]
    rintro container rfl impossible
    cases impossible
  exact reached.inside closed hold rfl

/-- A call of the first function turns its own variable over and leaves the other one alone. -/
theorem call_local_twoFlips :
    let step := Step.call ((((∅ : AddressTable).insert 0 ⟨2, 0⟩).insert 1 ⟨2, 0⟩).insert 2 ⟨2, 0⟩)
      9 1 (.function (flipIn 1)) []
    (step.after twoFlips).frames.slots 2 = twoFlips.frames.slots 2 ∧
      (step.after twoFlips).frames.slots 1 = #[.initialised (.bool true)] ∧
      step.outcome twoFlips = .ok (.bool true) :=
  ⟨(call_local _ 9 1 (.function (flipIn 1)) [] twoFlips).slots 2 (by decide) unreached_twoFlips,
    by cbv, by cbv⟩

end Lox
