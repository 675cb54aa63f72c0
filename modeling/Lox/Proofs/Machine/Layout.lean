import Lox.Machine.Basic
import Mathlib.Data.List.Forall2
import Mathlib.Data.List.Infix
import Mathlib.Tactic.Common

/-!
# Layouts of frames

A layout says which frames there are and, for each frame, what its slots are for.
Frames never move and rows only grow (`Layout.Le`).  `Layout.Chain` says that the
frames from one frame up to the root are those of nested scopes: then the root is
as many frames further out as there are scopes, and each frame on the way has a
slot for each entry of its scope.
-/

namespace Lox

/-! ## Operations on frames -/

namespace Frames

variable {α : Type}

/-- A new frame has no slots, and neither has a frame that does not exist. -/
@[simp]
theorem slots_addChild (enclosing other : FrameId) (frames : Frames α) :
    (frames.addChild enclosing).slots other = frames.slots other := by
  simp only [addChild, slots, Array.getElem?_push]
  split
  · next same =>
    rw [same, Array.getElem?_eq_none (Nat.le_refl _)]
    rfl
  · rfl

theorem enclosing?_addChild (enclosing other : FrameId) (frames : Frames α) :
    (frames.addChild enclosing).enclosing? other =
      if other = frames.size then some enclosing else frames.enclosing? other := by
  simp only [addChild, enclosing?, size, Array.getElem?_push]
  by_cases isNew : other = frames.all.size
  · simp [isNew]
  · simp [isNew]

/-- Frames are not added by defining variables. -/
theorem foldl_define_size (frame : FrameId) (values : List α) (frames : Frames α) :
    (values.foldl (fun frames value => frames.define frame value) frames).size = frames.size := by
  induction values generalizing frames with
  | nil => rfl
  | cons value others induction =>
    rw [List.foldl_cons, induction, define, size_append]

theorem foldl_define_enclosing? (frame other : FrameId) (values : List α) (frames : Frames α) :
    (values.foldl (fun frames value => frames.define frame value) frames).enclosing? other =
      frames.enclosing? other := by
  induction values generalizing frames with
  | nil => rfl
  | cons value others induction =>
    rw [List.foldl_cons, induction, define, enclosing?_append]

theorem foldl_define_slots_of_ne {frame other : FrameId} (different : frame ≠ other)
    (values : List α) (frames : Frames α) :
    (values.foldl (fun frames value => frames.define frame value) frames).slots other =
      frames.slots other := by
  induction values generalizing frames with
  | nil => rfl
  | cons value others induction =>
    rw [List.foldl_cons, induction, define, slots_append_of_ne different]

theorem foldl_define_slots_self {frame : FrameId} (values : List α) (frames : Frames α)
    (isFrame : frame < frames.size) :
    ((values.foldl (fun frames value => frames.define frame value) frames).slots frame).toList =
      (frames.slots frame).toList ++ values.map Slot.initialised := by
  induction values generalizing frames with
  | nil => simp
  | cons value others induction =>
    have still : frame < (frames.define frame value).size := by
      rwa [define, size_append]
    rw [List.foldl_cons, induction _ still, define, slots_append_self frame _ frames isFrame]
    simp

/-- Writing changes one slot at most. -/
theorem slots_write (frame other : FrameId) (index : Nat) (value : α) (frames : Frames α) :
    (frames.write frame index value).slots other =
      if frame = other then (frames.slots other).modify index fun _ => .initialised value
      else frames.slots other := by
  simp only [write, slots, Array.getElem?_modify]
  split
  · cases frames.all[other]? <;> simp
  · rfl

/-- A frame that does not exist has no slots. -/
theorem slots_eq_empty {frame : FrameId} (frames : Frames α) (beyond : frames.size ≤ frame) :
    frames.slots frame = #[] := by
  have absent : frames.all[frame]? = none := Array.getElem?_eq_none beyond
  simp [slots, absent]

section

variable (enclosing : FrameId) (values : List α) (frames : Frames α)

/-- A frame that is added with values holds them. -/
theorem toList_slots_addFrame :
    ((values.foldl (fun rest value => rest.define frames.size value)
      (frames.addChild enclosing)).slots frames.size).toList = values.map Slot.initialised := by
  have isFrame : frames.size < (frames.addChild enclosing).size := by
    rw [size_addChild]
    exact Nat.lt_succ_self _
  rw [foldl_define_slots_self _ _ isFrame, slots_addChild, slots_eq_empty _ (Nat.le_refl _)]
  rfl

/-- The other frames hold what they held. -/
theorem slots_addFrame_of_ne {other : FrameId} (isOld : other ≠ frames.size) :
    (values.foldl (fun rest value => rest.define frames.size value)
      (frames.addChild enclosing)).slots other = frames.slots other := by
  rw [foldl_define_slots_of_ne (Ne.symm isOld), slots_addChild]

end

/-- The holder of a slot is the frame so many frames further out. -/
theorem holder?_eq_some_iff (frames : Frames α) (frame : FrameId) (depth index : Nat)
    (holder : FrameId) :
    frames.holder? frame depth index = some holder ↔
      frames.ancestor? frame depth = some holder ∧ index < frames.length holder := by
  simp only [holder?]
  cases frames.ancestor? frame depth with
  | none => simp
  | some ancestor =>
    by_cases inside : index < frames.length ancestor
    · simp only [if_pos inside, Option.some.injEq]
      constructor
      · rintro rfl
        exact ⟨rfl, inside⟩
      · exact fun found => found.1
    · simp only [if_neg inside, Option.some.injEq]
      constructor
      · exact fun impossible => by cases impossible
      · rintro ⟨rfl, impossible⟩
        exact absurd impossible inside

end Frames

/-! ## Layouts -/

/-- The frames that there are, and what the slots of each are for. -/
@[ext]
structure Layout (σ : Type) where
  size : Nat
  enclosing : FrameId → Option FrameId
  row : FrameId → List σ

namespace Layout

variable {σ τ : Type}

/-- One layout after another: frames do not move, and rows only grow. -/
structure Le (before after : Layout σ) : Prop where
  size : before.size ≤ after.size
  enclosing : ∀ frame < before.size, after.enclosing frame = before.enclosing frame
  row : ∀ frame < before.size, before.row frame <+: after.row frame

theorem Le.refl (layout : Layout σ) : layout.Le layout :=
  ⟨Nat.le_refl _, fun _ _ => rfl, fun _ _ => List.prefix_refl _⟩

theorem Le.trans {first second third : Layout σ} (before : first.Le second)
    (after : second.Le third) : first.Le third := by
  constructor
  · exact Nat.le_trans before.size after.size
  · intro frame isFrame
    have later := Nat.lt_of_lt_of_le isFrame before.size
    exact (after.enclosing frame later).trans (before.enclosing frame isFrame)
  · intro frame isFrame
    have later := Nat.lt_of_lt_of_le isFrame before.size
    exact (before.row frame isFrame).trans (after.row frame later)

/-- Between two layouts frames that exist get no slots, with one exception. -/
def StillBut (except : FrameId) (before after : Layout σ) : Prop :=
  ∀ frame < before.size, frame ≠ except → after.row frame = before.row frame

/-- Between two layouts no frame that exists gets slots. -/
def Still (before after : Layout σ) : Prop :=
  ∀ frame < before.size, after.row frame = before.row frame

theorem Still.refl (layout : Layout σ) : layout.Still layout :=
  fun _ _ => rfl

theorem Still.trans {first second third : Layout σ} (before : first.Still second)
    (ordered : first.Le second) (after : second.Still third) : first.Still third := by
  intro frame isFrame
  rw [after frame (Nat.lt_of_lt_of_le isFrame ordered.size), before frame isFrame]

theorem Still.stillBut {before after : Layout σ} (still : before.Still after)
    (except : FrameId) : before.StillBut except after :=
  fun frame isFrame _ => still frame isFrame

theorem StillBut.trans {first second third : Layout σ} {except : FrameId}
    (before : first.StillBut except second) (ordered : first.Le second)
    (after : second.StillBut except third) : first.StillBut except third := by
  intro frame isFrame different
  have later := Nat.lt_of_lt_of_le isFrame ordered.size
  rw [after frame later different, before frame isFrame different]

/-- Slots of a frame that is new do not count. -/
theorem StillBut.still {before after : Layout σ} {except : FrameId}
    (still : before.StillBut except after) (isNew : before.size ≤ except) :
    before.Still after := by
  intro frame isFrame
  exact still frame isFrame (Nat.ne_of_lt (Nat.lt_of_lt_of_le isFrame isNew))

/-- A frame is added. -/
def add (enclosing : FrameId) (row : List σ) (layout : Layout σ) : Layout σ where
  size := layout.size + 1
  enclosing := fun frame => if frame = layout.size then some enclosing else layout.enclosing frame
  row := fun frame => if frame = layout.size then row else layout.row frame

/-- A slot is added to a frame. -/
def extend (changed : FrameId) (entry : σ) (layout : Layout σ) : Layout σ :=
  { layout with row := fun frame =>
      if frame = changed then layout.row frame ++ [entry] else layout.row frame }

section

variable (layout : Layout σ) (enclosing changed : FrameId) (row : List σ) (entry : σ)

theorem row_add_self : (layout.add enclosing row).row layout.size = row :=
  if_pos rfl

theorem row_add_of_ne {frame : FrameId} (different : frame ≠ layout.size) :
    (layout.add enclosing row).row frame = layout.row frame :=
  if_neg different

theorem still_add : layout.Still (layout.add enclosing row) :=
  fun _ isFrame => if_neg (Nat.ne_of_lt isFrame)

theorem le_add : layout.Le (layout.add enclosing row) := by
  constructor
  · exact Nat.le_succ _
  · exact fun _ isFrame => if_neg (Nat.ne_of_lt isFrame)
  · intro frame isFrame
    rw [layout.still_add enclosing row frame isFrame]

theorem row_extend_self :
    (layout.extend changed entry).row changed = layout.row changed ++ [entry] :=
  if_pos rfl

theorem row_extend_of_ne {frame : FrameId} (different : frame ≠ changed) :
    (layout.extend changed entry).row frame = layout.row frame :=
  if_neg different

theorem stillBut_extend : layout.StillBut changed (layout.extend changed entry) :=
  fun _ _ different => layout.row_extend_of_ne changed entry different

theorem le_extend : layout.Le (layout.extend changed entry) := by
  constructor
  · exact Nat.le_refl _
  · exact fun _ _ => rfl
  · intro frame _
    by_cases same : frame = changed
    · rw [same, row_extend_self]
      exact List.prefix_append _ _
    · rw [row_extend_of_ne _ _ _ same]

end

section

variable {before after last : Layout σ} {enclosing frame : FrameId} {row : List σ}
  (added : after = before.add enclosing row)
include added

theorem Still.of_add : before.Still after := by
  rw [added]
  exact before.still_add enclosing row

variable (isNew : frame = before.size)
include isNew

theorem row_of_add : after.row frame = row := by
  rw [added, isNew]
  exact before.row_add_self enclosing row

theorem enclosing_of_add : after.enclosing frame = some enclosing := by
  rw [added, isNew]
  exact if_pos rfl

/-- What happens in a frame that was added leaves the other frames as they are. -/
theorem Still.of_inside (inside : after.StillBut frame last) : before.Still last := by
  have ordered : before.Le after := by
    rw [added]
    exact before.le_add enclosing row
  have others := ((Still.of_add added).stillBut frame).trans ordered inside
  exact others.still (Nat.le_of_eq isNew.symm)

end

/-- What stands in a list stands in every list that begins with it. -/
theorem getElem?_of_prefix {first second : List σ} (begins : first <+: second) {index : Nat}
    {entry : σ} (here : first[index]? = some entry) : second[index]? = some entry := by
  rcases begins with ⟨rest, rfl⟩
  rw [List.getElem?_append_left (List.getElem?_eq_some_iff.mp here).1]
  exact here

/-! ## Scopes and frames -/

/--
The frames from one frame up to the root are those of nested scopes, innermost
first.  A frame may have more slots than its scope has entries.
-/
inductive Chain (layout : Layout σ) : List (List σ) → FrameId → Prop where
  | root (isFrame : Machine.root < layout.size) : Chain layout [] Machine.root
  | frame {scope : List σ} {scopes : List (List σ)} {frame outer : FrameId}
      (isFrame : frame < layout.size) (inner : frame ≠ Machine.root)
      (enclosed : layout.enclosing frame = some outer) (begins : scope <+: layout.row frame)
      (further : Chain layout scopes outer) : Chain layout (scope :: scopes) frame

namespace Chain

variable {layout later : Layout σ} {scopes : List (List σ)} {frame : FrameId}

theorem lt_size (chain : layout.Chain scopes frame) : frame < layout.size := by
  cases chain with
  | root isFrame => exact isFrame
  | frame isFrame => exact isFrame

/-- Exactly the root is in no scope. -/
theorem eq_root_iff (chain : layout.Chain scopes frame) : frame = Machine.root ↔ scopes = [] := by
  cases chain with
  | root => exact ⟨fun _ => rfl, fun _ => rfl⟩
  | frame _ inner => exact ⟨fun same => absurd same inner, fun impossible => by cases impossible⟩

theorem mono (chain : layout.Chain scopes frame) (ordered : layout.Le later) :
    later.Chain scopes frame := by
  induction chain with
  | root isFrame => exact .root (Nat.lt_of_lt_of_le isFrame ordered.size)
  | frame isFrame inner enclosed begins _ induction =>
    apply Chain.frame (Nat.lt_of_lt_of_le isFrame ordered.size) inner _ _ induction
    · exact (ordered.enclosing _ isFrame).trans enclosed
    · exact begins.trans (ordered.row _ isFrame)

/-- Further entries of a row may count for the scope. -/
theorem extend {scope longer : List σ} (chain : layout.Chain (scope :: scopes) frame)
    (begins : longer <+: layout.row frame) : layout.Chain (longer :: scopes) frame := by
  cases chain with
  | frame isFrame inner enclosed _ further => exact .frame isFrame inner enclosed begins further

/-- A frame that is added is that of a further scope. -/
theorem add (chain : layout.Chain scopes frame) (isFrame : Machine.root < layout.size)
    (scope : List σ) : (layout.add frame scope).Chain (scope :: scopes) layout.size := by
  apply Chain.frame (Nat.lt_succ_self _) (Nat.ne_of_gt isFrame) (if_pos rfl)
  · rw [row_add_self]
  · exact chain.mono (layout.le_add frame scope)

/-- So many frames further out as there are scopes is the root. -/
theorem ancestor?_length {frames : Frames Value} (chain : layout.Chain scopes frame)
    (same : layout.enclosing = frames.enclosing?) :
    frames.ancestor? frame scopes.length = some Machine.root := by
  induction chain with
  | root => rfl
  | frame _ _ enclosed _ _ induction =>
    rw [same] at enclosed
    simpa [Frames.ancestor?, enclosed] using induction

/-- On the way to the root lie the frames of the scopes. -/
theorem exists_ancestor? {frames : Frames Value} (chain : layout.Chain scopes frame)
    (same : layout.enclosing = frames.enclosing?) {depth : Nat} {scope : List σ}
    (here : scopes[depth]? = some scope) :
    ∃ found, frames.ancestor? frame depth = some found ∧ found < layout.size ∧
      found ≠ Machine.root ∧ scope <+: layout.row found := by
  induction chain generalizing depth with
  | root => cases here
  | frame isFrame inner enclosed begins _ induction =>
    cases depth with
    | zero =>
      cases here
      exact ⟨_, rfl, isFrame, inner, begins⟩
    | succ depth =>
      rw [same] at enclosed
      simpa [Frames.ancestor?, enclosed] using induction (by simpa using here)

end Chain

end Layout

end Lox
