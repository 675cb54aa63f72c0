import Lox.Proofs.Renaming.Value

/-!
# Machines that vary

Two machines vary if all values in them do: they have the same frames, globals and fields, and
the same has been printed, but for what was before.  Below is what the operations on frames make
of them.
-/

namespace Lox

/-! ## Arrays -/

/-- Two arrays of the same length whose entries are related. -/
structure Array.Related {α β : Type} (related : α → β → Prop) (left : Array α) (right : Array β) :
    Prop where
  size : left.size = right.size
  entry : ∀ index : Nat, Option.Rel related left[index]? right[index]?

namespace Array.Related

variable {α β : Type} {related related' : α → β → Prop} {left : Array α} {right : Array β}

theorem empty (related : α → β → Prop) : Array.Related related #[] #[] :=
  ⟨rfl, fun _ => .none⟩

theorem push (same : Array.Related related left right) {first : α} {second : β}
    (here : related first second) :
    Array.Related related (left.push first) (right.push second) := by
  constructor
  · rw [Array.size_push, Array.size_push, same.size]
  · intro index
    rw [Array.getElem?_push, Array.getElem?_push, same.size]
    split
    · exact .some here
    · exact same.entry index

theorem modify (same : Array.Related related left right) (index : Nat) {change : α → α}
    {change' : β → β}
    (here : ∀ first second, related first second → related (change first) (change' second)) :
    Array.Related related (left.modify index change) (right.modify index change') := by
  constructor
  · rw [Array.size_modify, Array.size_modify, same.size]
  · intro other
    rw [Array.getElem?_modify, Array.getElem?_modify]
    have entries := same.entry other
    split
    · revert entries
      generalize left[other]? = found
      generalize right[other]? = found'
      rintro (entry | _)
      · exact .some (here _ _ entry)
      · exact .none
    · exact entries

theorem refl {related : α → α → Prop} (itself : ∀ entry, related entry entry)
    (entries : Array α) : Array.Related related entries entries := by
  refine ⟨rfl, ?_⟩
  intro index
  cases entries[index]? with
  | none => exact .none
  | some entry => exact .some (itself entry)

theorem imp (weaker : ∀ first second, related first second → related' first second)
    (same : Array.Related related left right) : Array.Related related' left right :=
  ⟨same.size, fun index => optionRel_imp weaker (same.entry index)⟩

end Array.Related

/-! ## Frames -/

/-- Two frames with related slots. -/
structure Frame.Related (related : Slot Value → Slot Value → Prop) (left right : Frame Value) :
    Prop where
  slots : Array.Related related left.slots right.slots
  enclosing : left.enclosing = right.enclosing

/-- All frames of two machines. -/
def Frames.Related (related : Slot Value → Slot Value → Prop) (left right : Frames Value) : Prop :=
  Array.Related (Frame.Related related) left.all right.all

namespace Frames.Related

variable {related : Slot Value → Slot Value → Prop} {left right : Frames Value}
  (same : Frames.Related related left right)
include same

theorem size_eq : left.size = right.size := same.size

theorem slots (frame : FrameId) :
    Array.Related related (left.slots frame) (right.slots frame) := by
  rw [Frames.slots, Frames.slots]
  have here := same.entry frame
  revert here
  generalize left.all[frame]? = found
  generalize right.all[frame]? = found'
  rintro (here | _)
  · exact here.slots
  · exact .empty _

theorem length_eq (frame : FrameId) : left.length frame = right.length frame :=
  (same.slots frame).size

theorem enclosing?_eq (frame : FrameId) : left.enclosing? frame = right.enclosing? frame := by
  rw [Frames.enclosing?, Frames.enclosing?]
  have here := same.entry frame
  revert here
  generalize left.all[frame]? = found
  generalize right.all[frame]? = found'
  rintro (here | _)
  · exact here.enclosing
  · rfl

theorem ancestor?_eq (frame : FrameId) (depth : Nat) :
    left.ancestor? frame depth = right.ancestor? frame depth := by
  induction depth generalizing frame with
  | zero => rfl
  | succ depth induction =>
    rw [Frames.ancestor?, Frames.ancestor?, same.enclosing?_eq]
    cases right.enclosing? frame with
    | none => rfl
    | some enclosing => exact induction enclosing

theorem get? (frame : FrameId) (depth index : Nat) :
    Option.Rel related (left.get? frame depth index) (right.get? frame depth index) := by
  rw [Frames.get?, Frames.get?, same.ancestor?_eq]
  cases right.ancestor? frame depth with
  | none => exact .none
  | some ancestor => exact (same.slots ancestor).entry index

theorem holder?_eq (frame : FrameId) (depth index : Nat) :
    left.holder? frame depth index = right.holder? frame depth index := by
  rw [Frames.holder?, Frames.holder?, same.ancestor?_eq]
  cases right.ancestor? frame depth with
  | none => rfl
  | some ancestor =>
    dsimp only
    rw [same.length_eq]

theorem addChild (enclosing : FrameId) :
    Frames.Related related (left.addChild enclosing) (right.addChild enclosing) :=
  Array.Related.push same ⟨.empty _, rfl⟩

theorem append (frame : FrameId) {slot slot' : Slot Value} (here : related slot slot') :
    Frames.Related related (left.append frame slot) (right.append frame slot') := by
  simp only [Frames.Related, Frames.append]
  apply Array.Related.modify same
  intro _ _ frames
  exact ⟨frames.slots.push here, frames.enclosing⟩

theorem write (frame : FrameId) (index : Nat) {value value' : Value}
    (here : related (.initialised value) (.initialised value')) :
    Frames.Related related (left.write frame index value) (right.write frame index value') := by
  simp only [Frames.Related, Frames.write]
  apply Array.Related.modify same
  intro _ _ frames
  exact ⟨frames.slots.modify index fun _ _ _ => here, frames.enclosing⟩

/-- Slots are appended for related values. -/
theorem foldl_define (frame : FrameId) {values values' : List Value}
    (all : List.Forall₂ (fun value value' => related (.initialised value) (.initialised value'))
      values values') :
    Frames.Related related (values.foldl (fun frames value => frames.define frame value) left)
      (values'.foldl (fun frames value => frames.define frame value) right) := by
  induction all generalizing left right with
  | nil => exact same
  | cons first _ induction => exact induction (same.append frame first)

end Frames.Related

/-! ## Frames and machines that vary -/

section

variable (variation : Variation)

/-- Two frames. -/
structure Frame.Varies (left right : Frame Value) : Prop where
  slots : Array.Related (Slot.Varies variation) left.slots right.slots
  enclosing : left.enclosing = right.enclosing

/-- All frames of two machines. -/
def Frames.Varies (left right : Frames Value) : Prop :=
  Array.Related (Frame.Varies variation) left.all right.all

/-- Two machines. -/
structure Machine.Varies (left right : Machine) : Prop where
  frames : Frames.Varies variation left.frames right.frames
  current : left.current = right.current
  globals : Table.Related (Slot.Varies variation) left.globals right.globals
  fields : Array.Related (Table.Related (Value.Varies variation)) left.fields right.fields
  nextId : left.nextId = right.nextId
  printed : right.printed = variation.earlier ++ left.printed
  clock : left.clock = right.clock

end

variable {variation : Variation}

theorem Frames.Varies.related {left right : Frames Value}
    (varies : Frames.Varies variation left right) :
    Frames.Related (Slot.Varies variation) left right :=
  Array.Related.imp (fun _ _ same => ⟨same.slots, same.enclosing⟩) varies

theorem Frames.Related.varies {left right : Frames Value}
    (same : Frames.Related (Slot.Varies variation) left right) :
    Frames.Varies variation left right :=
  Array.Related.imp (fun _ _ same => ⟨same.slots, same.enclosing⟩) same

namespace Frames.Varies

variable {left right : Frames Value} (varies : Frames.Varies variation left right)
include varies

theorem size_eq : left.size = right.size := varies.size

theorem length_eq (frame : FrameId) : left.length frame = right.length frame :=
  varies.related.length_eq frame

theorem get? (frame : FrameId) (depth index : Nat) :
    Option.Rel (Slot.Varies variation) (left.get? frame depth index)
      (right.get? frame depth index) :=
  varies.related.get? frame depth index

theorem holder?_eq (frame : FrameId) (depth index : Nat) :
    left.holder? frame depth index = right.holder? frame depth index :=
  varies.related.holder?_eq frame depth index

theorem addChild (enclosing : FrameId) :
    Frames.Varies variation (left.addChild enclosing) (right.addChild enclosing) :=
  (varies.related.addChild enclosing).varies

theorem append (frame : FrameId) {slot slot' : Slot Value}
    (same : Slot.Varies variation slot slot') :
    Frames.Varies variation (left.append frame slot) (right.append frame slot') :=
  (varies.related.append frame same).varies

theorem write (frame : FrameId) (index : Nat) {value value' : Value}
    (same : Value.Varies variation value value') :
    Frames.Varies variation (left.write frame index value) (right.write frame index value') :=
  (varies.related.write frame index (.initialised same)).varies

/-- Slots are appended for related values. -/
theorem foldl_define (frame : FrameId) {values values' : List Value}
    (same : List.Forall₂ (Value.Varies variation) values values') :
    Frames.Varies variation
      (values.foldl (fun frames value => frames.define frame value) left)
      (values'.foldl (fun frames value => frames.define frame value) right) :=
  (varies.related.foldl_define frame (same.imp fun _ _ => .initialised)).varies

end Frames.Varies

/-- The first machine of a session varies with itself. -/
theorem Machine.varies_start (clock : Float) (fresh : variation.earlier = #[]) :
    Machine.Varies variation (Machine.start clock) (Machine.start clock) := by
  have function : Closure.Varies variation ⟨0, "clock", .clock, Machine.root⟩
      ⟨0, "clock", .clock, Machine.root⟩ := ⟨rfl, rfl, rfl, trivial, rfl⟩
  constructor
  · exact (Array.Related.empty _).push ⟨.empty _, rfl⟩
  · rfl
  · exact (Table.related_empty _).insert "clock" (.initialised (.function function))
  · exact .empty _
  · rfl
  · rw [fresh]
    rfl
  · rfl

section

variable {other : Variation} (weaker : variation.Le other) {left right : Machine}
  (varies : left.Varies variation right)
include weaker varies

/-- Machines vary as well if the definitions in them are renamed in the same way, also if
something else has been printed. -/
theorem Machine.Varies.withPrinted {printed printed' : Array String}
    (same : printed' = other.earlier ++ printed) :
    Machine.Varies other { left with printed := printed } { right with printed := printed' } := by
  constructor
  · exact varies.frames.imp fun _ _ same =>
      ⟨same.slots.imp fun _ _ slot => slot.imp weaker, same.enclosing⟩
  · exact varies.current
  · exact fun name => optionRel_imp (fun _ _ slot => slot.imp weaker) (varies.globals name)
  · exact varies.fields.imp fun _ _ table name =>
      optionRel_imp (fun _ _ value => value.imp weaker) (table name)
  · exact varies.nextId
  · exact same
  · exact varies.clock

theorem Machine.Varies.imp (sameEarlier : variation.earlier = other.earlier) :
    Machine.Varies other left right := by
  have printed := varies.printed
  rw [sameEarlier] at printed
  exact varies.withPrinted weaker printed

end

end Lox
