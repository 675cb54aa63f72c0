import Lox.Proofs.Machine.Layout

/-!
# Frames only grow

No operation on frames moves a frame, takes a slot away or takes the value out of one.
`Frames.Grows` says this of the frames before and after any number of operations.
-/

namespace Lox.Frames

variable {α : Type}

/-- Frames are where they were, and so are their slots; those with a value still have one. -/
structure Grows (before after : Frames α) : Prop where
  size_le : before.size ≤ after.size
  enclosing?_eq : ∀ frame < before.size, after.enclosing? frame = before.enclosing? frame
  length_le : ∀ frame, before.length frame ≤ after.length frame
  initialised : ∀ (frame : FrameId) (index : Nat) (value : α),
    (before.slots frame)[index]? = some (.initialised value) →
      ∃ later : α, (after.slots frame)[index]? = some (.initialised later)

namespace Grows

theorem refl (frames : Frames α) : frames.Grows frames :=
  ⟨Nat.le_refl _, fun _ _ => rfl, fun _ => Nat.le_refl _, fun _ _ value here => ⟨value, here⟩⟩

theorem trans {first second third : Frames α} (grows : first.Grows second)
    (further : second.Grows third) : first.Grows third := by
  constructor
  · exact Nat.le_trans grows.size_le further.size_le
  · intro frame isFrame
    have still : frame < second.size := Nat.lt_of_lt_of_le isFrame grows.size_le
    exact (further.enclosing?_eq frame still).trans (grows.enclosing?_eq frame isFrame)
  · exact fun frame => Nat.le_trans (grows.length_le frame) (further.length_le frame)
  · intro frame index value here
    obtain ⟨later, there⟩ := grows.initialised frame index value here
    exact further.initialised frame index later there

end Grows

/-! ## Single operations -/

/-- A new frame has no slots. -/
@[simp]
theorem slots_addRoot (other : FrameId) (frames : Frames α) :
    frames.addRoot.slots other = frames.slots other := by
  simp only [addRoot, slots, Array.getElem?_push]
  split
  · next same =>
    rw [same, Array.getElem?_eq_none (Nat.le_refl _)]
    rfl
  · rfl

theorem enclosing?_addRoot (other : FrameId) (frames : Frames α) :
    frames.addRoot.enclosing? other = frames.enclosing? other := by
  simp only [addRoot, enclosing?, Array.getElem?_push]
  split
  · next same =>
    rw [same, Array.getElem?_eq_none (Nat.le_refl _)]
    rfl
  · rfl

theorem grows_addRoot (frames : Frames α) : frames.Grows frames.addRoot := by
  constructor
  · rw [size_addRoot]
    exact Nat.le_succ _
  · exact fun frame _ => enclosing?_addRoot frame frames
  · intro frame
    rw [length, length, slots_addRoot]
  · intro frame index value here
    rw [slots_addRoot]
    exact ⟨value, here⟩

theorem grows_addChild (enclosing : FrameId) (frames : Frames α) :
    frames.Grows (frames.addChild enclosing) := by
  constructor
  · rw [size_addChild]
    exact Nat.le_succ _
  · intro frame isFrame
    rw [enclosing?_addChild, if_neg (Nat.ne_of_lt isFrame)]
  · intro frame
    rw [length, length, slots_addChild]
  · intro frame index value here
    rw [slots_addChild]
    exact ⟨value, here⟩

/-- A slot that is appended comes behind the slots that a frame has. -/
theorem slots_append (frame other : FrameId) (slot : Slot α) (frames : Frames α) :
    (frames.append frame slot).slots other =
      if other = frame ∧ frame < frames.size then (frames.slots other).push slot
      else frames.slots other := by
  by_cases same : other = frame
  · subst same
    by_cases isFrame : other < frames.size
    · rw [if_pos ⟨rfl, isFrame⟩, slots_append_self other slot frames isFrame]
    · rw [if_neg fun both => isFrame both.2, slots_eq_empty _ (Nat.le_of_not_lt isFrame),
        slots_eq_empty _ (by simpa using isFrame)]
  · rw [if_neg fun both => same both.1, slots_append_of_ne (Ne.symm same)]

theorem length_append (frame other : FrameId) (slot : Slot α) (frames : Frames α) :
    (frames.append frame slot).length other =
      frames.length other + if other = frame ∧ frame < frames.size then 1 else 0 := by
  simp only [length, slots_append]
  split
  · exact Array.size_push _
  · rfl

/-- The slots that a frame has stay what they are when a slot is appended. -/
theorem getElem?_slots_append {frame other : FrameId} {index : Nat} (slot : Slot α)
    (frames : Frames α) (inside : index < frames.length other) :
    ((frames.append frame slot).slots other)[index]? = (frames.slots other)[index]? := by
  rw [slots_append]
  split
  · rw [Array.getElem?_push_lt inside, Array.getElem?_eq_getElem inside]
  · rfl

theorem grows_append (frame : FrameId) (slot : Slot α) (frames : Frames α) :
    frames.Grows (frames.append frame slot) := by
  constructor
  · rw [size_append]
  · exact fun other _ => enclosing?_append frame other slot frames
  · intro other
    rw [length_append]
    exact Nat.le_add_right _ _
  · intro other index value here
    have inside : index < frames.length other := (Array.getElem?_eq_some_iff.mp here).1
    rw [getElem?_slots_append slot frames inside]
    exact ⟨value, here⟩

/-- Writing changes the slot that is written, if it exists, and no other. -/
theorem getElem?_slots_write (frame other : FrameId) (index index' : Nat) (value : α)
    (frames : Frames α) :
    ((frames.write frame index value).slots other)[index']? =
      if frame = other ∧ index = index' then
        (frames.slots other)[index']?.map fun _ => .initialised value
      else (frames.slots other)[index']? := by
  rw [slots_write]
  by_cases same : frame = other
  · simp only [same, if_true, true_and, Array.getElem?_modify]
  · simp only [same, if_false, false_and]

theorem grows_write (frame : FrameId) (index : Nat) (value : α) (frames : Frames α) :
    frames.Grows (frames.write frame index value) := by
  constructor
  · rw [size_write]
  · exact fun other _ => enclosing?_write frame other index value frames
  · intro other
    rw [length_write]
  · intro other index' former here
    rw [getElem?_slots_write, here]
    split
    · exact ⟨value, rfl⟩
    · exact ⟨former, rfl⟩

/-- Defining variables one after the other. -/
theorem grows_foldl_define (frame : FrameId) (values : List α) (frames : Frames α) :
    frames.Grows (values.foldl (fun frames value => frames.define frame value) frames) := by
  induction values generalizing frames with
  | nil => exact .refl frames
  | cons value others induction =>
    rw [List.foldl_cons]
    exact (grows_append frame (.initialised value) frames).trans (induction _)

end Lox.Frames
