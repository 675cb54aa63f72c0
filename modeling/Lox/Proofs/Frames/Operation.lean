import Lox.Proofs.Frames.Growth

/-!
# Laws of the operations on frames

A frame is reached by many addresses: from itself, and from all frames inside of it.  A value that
is assigned through one address is read through exactly those that lead to the same slot of the
same frame.  `laws_of_isForest` says what the operations do, and what they answer, whatever
operations the frames were made by.
-/

namespace Lox.Frames

variable {α : Type}

/-- An operation on frames. -/
inductive Operation (α : Type) where
  /-- Creates a frame that no other frame encloses. -/
  | root
  /-- Creates a frame that is enclosed in another one. -/
  | child (enclosing : FrameId)
  | declare (frame : FrameId)
  | define (frame : FrameId) (value : α)
  | set (frame : FrameId) (index : Nat) (value : α)
  | assign (frame : FrameId) (depth index : Nat) (value : α)

/-- What an operation answers. -/
inductive Answer where
  /-- The number of the frame that is created. -/
  | frame (number : FrameId)
  /-- The index of the slot that is appended. -/
  | slot (index : Nat)
  /-- Whether there is a variable to be given a value. -/
  | found (isFound : Bool)
deriving DecidableEq, Repr

/-- The frames after an operation that may fail, which changes nothing then. -/
def attempt (frames : Frames α) : Option (Frames α) → Answer × Frames α
  | some after => (.found true, after)
  | none => (.found false, frames)

/-- What an operation answers, and the frames after it. -/
def perform (frames : Frames α) : Operation α → Answer × Frames α
  | .root => (.frame frames.size, frames.addRoot)
  | .child enclosing => (.frame frames.size, frames.addChild enclosing)
  | .declare frame => (.slot (frames.length frame), frames.declare frame)
  | .define frame value => (.slot (frames.length frame), frames.define frame value)
  | .set frame index value => frames.attempt (frames.set? frame index value)
  | .assign frame depth index value => frames.attempt (frames.assign? frame depth index value)

/-- The frame that an operation names exists. -/
def Operation.IsOn (frames : Frames α) : Operation α → Prop
  | .root => True
  | .child frame => frame < frames.size
  | .declare frame => frame < frames.size
  | .define frame _ => frame < frames.size
  | .set frame _ _ => frame < frames.size
  | .assign frame _ _ _ => frame < frames.size

/-- Frames that are made by operations, one after the other. -/
inductive IsForest : Frames α → Prop where
  | empty : IsForest Frames.empty
  | perform {frames : Frames α} (isForest : IsForest frames) (operation : Operation α)
      (isOn : operation.IsOn frames) : IsForest (frames.perform operation).2

/-! ## Giving variables values -/

/-- Setting a slot of a frame is assigning to it from the frame itself. -/
theorem perform_set (frames : Frames α) (frame : FrameId) (index : Nat) (value : α) :
    frames.perform (.set frame index value) = frames.perform (.assign frame 0 index value) := by
  simp only [perform, set?, assign?, holder?, ancestor?]
  split <;> rfl

/-- Assigning to a variable that does not exist changes nothing. -/
theorem perform_assign_of_none {frames : Frames α} {frame : FrameId} {depth index : Nat}
    (absent : frames.get? frame depth index = none) (value : α) :
    frames.perform (.assign frame depth index value) = (.found false, frames) := by
  have noHolder : frames.holder? frame depth index = none := by
    rw [← Option.not_isSome_iff_eq_none, isSome_holder?, absent]
    exact Bool.false_ne_true
  simp only [perform, assign?, noHolder, attempt]

/-- A variable that exists is written where it is found. -/
theorem perform_assign_of_some {frames : Frames α} {frame : FrameId} {depth index : Nat}
    {slot : Slot α} (found : frames.get? frame depth index = some slot) (value : α) :
    ∃ holder, frames.ancestor? frame depth = some holder ∧ index < frames.length holder ∧
      frames.perform (.assign frame depth index value) =
        (.found true, frames.write holder index value) := by
  have isHeld : (frames.holder? frame depth index).isSome := by
    rw [isSome_holder?, found]
    rfl
  obtain ⟨holder, holds⟩ := Option.isSome_iff_exists.mp isHeld
  obtain ⟨reaches, inside⟩ := (frames.holder?_eq_some_iff frame depth index holder).mp holds
  refine ⟨holder, reaches, inside, ?_⟩
  simp only [perform, assign?, holds, attempt]

/-- Frames that lie in each other in the same way are found in the same way. -/
theorem ancestor?_congr {before after : Frames α}
    (enclosing : ∀ frame, after.enclosing? frame = before.enclosing? frame) (frame : FrameId)
    (depth : Nat) : after.ancestor? frame depth = before.ancestor? frame depth := by
  induction depth generalizing frame with
  | zero => rfl
  | succ depth induction =>
    simp only [ancestor?, enclosing]
    split
    · exact induction _
    · rfl

/-- What is read through any address once a slot is written. -/
theorem get?_write {frames : Frames α} {holder : FrameId} {index : Nat}
    (inside : index < frames.length holder) (value : α) (other : FrameId) (depth index' : Nat) :
    (frames.write holder index value).get? other depth index' =
      if frames.ancestor? other depth = some holder ∧ index' = index then
        some (.initialised value)
      else frames.get? other depth index' := by
  have reaches : (frames.write holder index value).ancestor? other depth =
      frames.ancestor? other depth :=
    ancestor?_congr (fun frame => enclosing?_write holder frame index value frames) other depth
  simp only [get?, reaches]
  cases frames.ancestor? other depth with
  | none => simp
  | some ancestor =>
    simp only [getElem?_slots_write, Option.some.injEq, eq_comm (a := holder),
      eq_comm (a := index)]
    split
    · next same =>
      obtain ⟨rfl, rfl⟩ := same
      rw [Array.getElem?_eq_getElem inside]
      rfl
    · rfl

/-! ## Walking out -/

/-- To walk further out is to walk from the frame that is reached. -/
theorem ancestor?_add (frames : Frames α) (frame : FrameId) (first second : Nat) :
    frames.ancestor? frame (first + second) =
      (frames.ancestor? frame first).bind fun reached => frames.ancestor? reached second := by
  induction first generalizing frame with
  | zero =>
    rw [Nat.zero_add]
    rfl
  | succ first induction =>
    rw [Nat.add_right_comm]
    simp only [ancestor?]
    split
    · exact induction _
    · rfl

/-- A frame is enclosed in an older one. -/
theorem IsForest.enclosing?_lt {frames : Frames α} (isForest : frames.IsForest)
    {frame outer : FrameId} (encloses : frames.enclosing? frame = some outer) : outer < frame := by
  induction isForest with
  | empty => simp [Frames.empty, enclosing?] at encloses
  | @perform frames isForest operation isOn induction =>
    -- Only the creation of a frame in another one adds a link, and it leads to an older frame.
    have old : ∀ after : Frames α, (∀ frame, after.enclosing? frame = frames.enclosing? frame) →
        after.enclosing? frame = some outer → outer < frame :=
      fun after same here => induction ((same frame).symm.trans here)
    have attempted : ∀ after : Option (Frames α),
        (∀ changed ∈ after, ∀ frame, changed.enclosing? frame = frames.enclosing? frame) →
        (frames.attempt after).2.enclosing? frame = some outer → outer < frame := by
      intro after same here
      cases after with
      | none => exact induction here
      | some changed => exact old changed (same changed rfl) here
    cases operation with
    | root => exact old _ (fun other => enclosing?_addRoot other frames) encloses
    | child enclosing =>
      simp only [Frames.perform, enclosing?_addChild] at encloses
      split at encloses
      · next isNew =>
        cases encloses
        exact isNew ▸ isOn
      · exact induction encloses
    | declare changed => exact old _ (fun other => enclosing?_append changed other _ frames) encloses
    | define changed value =>
      exact old _ (fun other => enclosing?_append changed other _ frames) encloses
    | set changed index value =>
      refine attempted _ ?_ encloses
      intro after member other
      simp only [set?] at member
      split at member
      · cases member
        exact enclosing?_write changed other index value frames
      · cases member
    | assign changed depth index value =>
      refine attempted _ ?_ encloses
      intro after member other
      simp only [assign?] at member
      split at member
      · cases member
        exact enclosing?_write _ other index value frames
      · cases member

/-- To walk out is to walk to older frames, so every walk ends. -/
theorem IsForest.ancestor?_le {frames : Frames α} (isForest : frames.IsForest)
    {frame outer : FrameId} {depth : Nat} (reaches : frames.ancestor? frame depth = some outer) :
    outer + depth ≤ frame := by
  induction depth generalizing frame with
  | zero =>
    cases reaches
    exact Nat.le_refl _
  | succ depth induction =>
    simp only [ancestor?] at reaches
    split at reaches
    · next enclosing encloses =>
      exact Nat.lt_of_le_of_lt (induction reaches) (isForest.enclosing?_lt encloses)
    · cases reaches

/-! ## The laws -/

/--
An operation appends a slot to a frame and answers its index.  Everything else stays: the slots
that there are, the lengths of other frames, and how frames lie in each other.
-/
structure Appends (frames : Frames α) (frame : FrameId) (slot : Slot α)
    (performed : Answer × Frames α) : Prop where
  answer : performed.1 = .slot (frames.length frame)
  length : performed.2.length frame = frames.length frame + 1
  added : (performed.2.slots frame)[frames.length frame]? = some slot
  kept : ∀ other index, index < frames.length other →
    (performed.2.slots other)[index]? = (frames.slots other)[index]?
  length_of_ne : ∀ other ≠ frame, performed.2.length other = frames.length other
  enclosing? : ∀ other, performed.2.enclosing? other = frames.enclosing? other

theorem appends_append {frames : Frames α} {frame : FrameId} (isFrame : frame < frames.size)
    (slot : Slot α) :
    frames.Appends frame slot (.slot (frames.length frame), frames.append frame slot) := by
  constructor
  · rfl
  · rw [length_append, if_pos ⟨rfl, isFrame⟩]
  · rw [slots_append_self frame slot frames isFrame]
    exact Array.getElem?_push_size
  · exact fun other index inside => getElem?_slots_append slot frames inside
  · intro other different
    rw [length_append, if_neg fun both => different both.1, Nat.add_zero]
  · exact fun other => enclosing?_append frame other slot frames

/-- What the operations on some frames do and answer. -/
structure Laws (frames : Frames α) : Prop where
  /-- To assign succeeds exactly if there is a slot to be read. -/
  assign_answer : ∀ frame depth index value,
    (frames.perform (.assign frame depth index value)).1 =
      .found (frames.get? frame depth index).isSome
  /-- Then the value is read through every address that leads to this slot, and through no other. -/
  get?_assign : ∀ frame depth index value, (frames.get? frame depth index).isSome →
    ∀ other depth' index',
      (frames.perform (.assign frame depth index value)).2.get? other depth' index' =
        if frames.ancestor? other depth' = frames.ancestor? frame depth ∧ index' = index then
          some (.initialised value)
        else frames.get? other depth' index'
  /-- No frame moves, and none gets longer or shorter. -/
  shape_assign : ∀ frame depth index value other,
    (frames.perform (.assign frame depth index value)).2.length other = frames.length other ∧
      (frames.perform (.assign frame depth index value)).2.enclosing? other =
        frames.enclosing? other
  /-- To assign to what is not there changes nothing. -/
  assign_of_none : ∀ frame depth index value, frames.get? frame depth index = none →
    (frames.perform (.assign frame depth index value)).2 = frames
  /-- To set a slot of a frame is to assign to it from there. -/
  set_eq : ∀ frame index value,
    frames.perform (.set frame index value) = frames.perform (.assign frame 0 index value)
  declare : ∀ frame < frames.size,
    frames.Appends frame .uninitialised (frames.perform (.declare frame))
  define : ∀ frame < frames.size, ∀ value,
    frames.Appends frame (.initialised value) (frames.perform (.define frame value))
  ancestor?_add : ∀ frame first second,
    frames.ancestor? frame (first + second) =
      (frames.ancestor? frame first).bind fun reached => frames.ancestor? reached second
  /-- A frame lies in older frames only. -/
  ancestor?_le : ∀ frame depth outer, frames.ancestor? frame depth = some outer →
    outer + depth ≤ frame

/-- Whatever operations frames are made by, the laws hold for the operations that follow. -/
theorem laws_of_isForest {frames : Frames α} (isForest : frames.IsForest) : frames.Laws := by
  constructor
  · intro frame depth index value
    cases found : frames.get? frame depth index with
    | none => rw [perform_assign_of_none found]; rfl
    | some slot =>
      obtain ⟨holder, -, -, performed⟩ := perform_assign_of_some found value
      rw [performed]
      rfl
  · intro frame depth index value isFound other depth' index'
    obtain ⟨slot, found⟩ := Option.isSome_iff_exists.mp isFound
    obtain ⟨holder, reaches, inside, performed⟩ := perform_assign_of_some found value
    rw [performed, reaches]
    exact get?_write inside value other depth' index'
  · intro frame depth index value other
    cases found : frames.get? frame depth index with
    | none =>
      rw [perform_assign_of_none found]
      exact ⟨rfl, rfl⟩
    | some slot =>
      obtain ⟨holder, -, -, performed⟩ := perform_assign_of_some found value
      rw [performed]
      exact ⟨length_write holder other index value frames,
        enclosing?_write holder other index value frames⟩
  · intro frame depth index value absent
    rw [perform_assign_of_none absent]
  · exact frames.perform_set
  · exact fun frame isFrame => appends_append isFrame .uninitialised
  · exact fun frame isFrame value => appends_append isFrame (.initialised value)
  · exact frames.ancestor?_add
  · exact fun frame depth outer reaches => isForest.ancestor?_le reaches

/-- A frame with a variable, and two frames in it. -/
def siblings : Frames Nat :=
  ((Frames.empty.addRoot.declare 0).addChild 0).addChild 0

theorem isForest_siblings : siblings.IsForest :=
  (((IsForest.empty.perform .root trivial).perform (.declare 0) Nat.one_pos).perform (.child 0)
    Nat.one_pos).perform (.child 0) Nat.two_pos

/-- What is assigned from one of two frames is read from the other one. -/
theorem laws_of_isForest_siblings :
    siblings.IsForest ∧
      (siblings.perform (.assign 1 1 0 7)).1 = .found true ∧
      (siblings.perform (.assign 1 1 0 7)).2.get? 2 1 0 = some (.initialised 7) := by
  have laws := laws_of_isForest isForest_siblings
  refine ⟨isForest_siblings, laws.assign_answer 1 1 0 7, ?_⟩
  rw [laws.get?_assign 1 1 0 7 rfl 2 1 0]
  rfl

end Lox.Frames
