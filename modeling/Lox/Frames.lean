/-!
# Frames

The local variables of a running program live in frames.  A frame is a row of
slots that only grows, and it may be enclosed in another frame.  Functions keep
the frame they were made in, so frames form a forest and are shared; they are
named by their number in the order of their creation.

A variable is found by an address: how many frames further out, and its slot.
-/

namespace Lox

/-- The state of a variable. -/
inductive Slot (α : Type) where
  /-- Declared, but without a value so far. -/
  | uninitialised
  | initialised (value : α)

/-- The number of a frame. -/
abbrev FrameId := Nat

/-- A row of slots and the frame around it. -/
structure Frame (α : Type) where
  slots : Array (Slot α)
  enclosing : Option FrameId

/-- All frames, in the order of their creation. -/
structure Frames (α : Type) where
  all : Array (Frame α)

namespace Frames

variable {α : Type}

/-- There are no frames. -/
def empty : Frames α := ⟨#[]⟩

/-- The number of the frame that is created next. -/
def size (frames : Frames α) : Nat :=
  frames.all.size

/-- Creates a frame that no other frame encloses; its number is `frames.size`. -/
def addRoot (frames : Frames α) : Frames α :=
  ⟨frames.all.push ⟨#[], none⟩⟩

/-- Creates a frame that is enclosed in another one; its number is `frames.size`. -/
def addChild (enclosing : FrameId) (frames : Frames α) : Frames α :=
  ⟨frames.all.push ⟨#[], some enclosing⟩⟩

/-- The slots of a frame; a frame that does not exist has none. -/
def slots (frames : Frames α) (frame : FrameId) : Array (Slot α) :=
  (frames.all[frame]?.map Frame.slots).getD #[]

/-- The number of slots of a frame, which is the index of its next slot. -/
def length (frames : Frames α) (frame : FrameId) : Nat :=
  (frames.slots frame).size

/-- Appends a slot to a frame. -/
def append (frame : FrameId) (slot : Slot α) (frames : Frames α) : Frames α :=
  ⟨frames.all.modify frame fun found => { found with slots := found.slots.push slot }⟩

/-- Appends a slot without a value; its index is `frames.length frame`. -/
def declare (frame : FrameId) (frames : Frames α) : Frames α :=
  frames.append frame .uninitialised

/-- Appends a slot with a value; its index is `frames.length frame`. -/
def define (frame : FrameId) (value : α) (frames : Frames α) : Frames α :=
  frames.append frame (.initialised value)

/-- Gives the variable in a slot of a frame a value; a slot that does not exist stays away. -/
def write (frame : FrameId) (index : Nat) (value : α) (frames : Frames α) : Frames α :=
  ⟨frames.all.modify frame fun found =>
    { found with slots := found.slots.modify index fun _ => .initialised value }⟩

/-- Gives the variable in a slot of a frame a value, if the frame has that slot. -/
def set? (frame : FrameId) (index : Nat) (value : α) (frames : Frames α) : Option (Frames α) :=
  if index < frames.length frame then
    some (frames.write frame index value)
  else
    none

/-- The frame around a frame. -/
def enclosing? (frames : Frames α) (frame : FrameId) : Option FrameId :=
  frames.all[frame]?.bind Frame.enclosing

/-- The frame that lies so many frames further out. -/
def ancestor? (frames : Frames α) (frame : FrameId) : (depth : Nat) → Option FrameId
  | 0 => some frame
  | depth + 1 =>
    match frames.enclosing? frame with
    | some enclosing => frames.ancestor? enclosing depth
    | none => none

/-- The slot of the frame that lies so many frames further out, if there is one. -/
def get? (frames : Frames α) (frame : FrameId) (depth index : Nat) : Option (Slot α) :=
  match frames.ancestor? frame depth with
  | some ancestor => (frames.slots ancestor)[index]?
  | none => none

/-- The frame that lies so many frames further out, if it has a slot of this index. -/
def holder? (frames : Frames α) (frame : FrameId) (depth index : Nat) : Option FrameId :=
  match frames.ancestor? frame depth with
  | some ancestor => if index < frames.length ancestor then some ancestor else none
  | none => none

/-- Gives a variable of the frame that lies so many frames further out a value, if it exists. -/
def assign? (frame : FrameId) (depth index : Nat) (value : α) (frames : Frames α) :
    Option (Frames α) :=
  match frames.holder? frame depth index with
  | some holder => some (frames.write holder index value)
  | none => none

/-! ## What the operations do to frames -/

@[simp] theorem size_addRoot (frames : Frames α) : frames.addRoot.size = frames.size + 1 := by
  simp [addRoot, size]

@[simp] theorem size_addChild (enclosing : FrameId) (frames : Frames α) :
    (frames.addChild enclosing).size = frames.size + 1 := by
  simp [addChild, size]

@[simp] theorem size_append (frame : FrameId) (slot : Slot α) (frames : Frames α) :
    (frames.append frame slot).size = frames.size := by
  simp [append, size]

@[simp] theorem size_write (frame : FrameId) (index : Nat) (value : α) (frames : Frames α) :
    (frames.write frame index value).size = frames.size := by
  simp [write, size]

/-- Appending a slot moves no frame. -/
@[simp] theorem enclosing?_append (frame other : FrameId) (slot : Slot α) (frames : Frames α) :
    (frames.append frame slot).enclosing? other = frames.enclosing? other := by
  by_cases same : frame = other <;>
    simp [append, enclosing?, Array.getElem?_modify, same, Option.bind_map, Function.comp_def]

/-- Giving a variable a value moves no frame. -/
@[simp] theorem enclosing?_write (frame other : FrameId) (index : Nat) (value : α)
    (frames : Frames α) :
    (frames.write frame index value).enclosing? other = frames.enclosing? other := by
  by_cases same : frame = other <;>
    simp [write, enclosing?, Array.getElem?_modify, same, Option.bind_map, Function.comp_def]

/-- A frame that exists gets the slot that is appended to it. -/
theorem slots_append_self (frame : FrameId) (slot : Slot α) (frames : Frames α)
    (isFrame : frame < frames.size) :
    (frames.append frame slot).slots frame = (frames.slots frame).push slot := by
  have found : frames.all[frame]? = some frames.all[frame] := Array.getElem?_eq_getElem isFrame
  simp [append, slots, Array.getElem?_modify, found]

/-- Other frames do not get the slot that is appended to a frame. -/
theorem slots_append_of_ne {frame other : FrameId} (different : frame ≠ other) (slot : Slot α)
    (frames : Frames α) : (frames.append frame slot).slots other = frames.slots other := by
  simp [append, slots, Array.getElem?_modify, different]

/-- Giving a variable a value leaves its frame as long as it is. -/
@[simp] theorem length_write (frame other : FrameId) (index : Nat) (value : α)
    (frames : Frames α) :
    (frames.write frame index value).length other = frames.length other := by
  by_cases same : frame = other
  · simp only [write, length, slots, Array.getElem?_modify, if_pos same, Option.map_map]
    cases frames.all[other]? <;> simp
  · simp [write, length, slots, Array.getElem?_modify, same]

/-- A frame holds the slot of an address exactly if the slot can be read there. -/
theorem isSome_holder? (frames : Frames α) (frame : FrameId) (depth index : Nat) :
    (frames.holder? frame depth index).isSome = (frames.get? frame depth index).isSome := by
  unfold holder? get?
  split
  · next ancestor _ =>
    by_cases inside : index < frames.length ancestor
    · rw [if_pos inside, Array.getElem?_eq_getElem inside]
      rfl
    · rw [if_neg inside, Array.getElem?_eq_none (Nat.le_of_not_lt inside)]
      rfl
  · rfl

end Frames

end Lox
