import Lox.Proofs.Lexical.Places
import Lox.Proofs.Lexical.Related
import Lox.Proofs.Machine.Fit

/-!
# Frames and cells

A machine with frames matches one with cells if there is a cell for each slot of each
frame, cells hold what the slots hold, and functions keep frames and environments of the
same scopes.  Below is what operations on frames and cells do to this.
-/

namespace Lox

open Lexical (Environment)

/-! ## Programs without faults -/

/-- What is known about programs in which all uses of names are legal. -/
structure Setting.Exact (setting : Setting) : Prop where
  plain : setting.Plain
  legal : ∀ occurrence ∈ setting.occurrences, occurrence.isLegal
  recorded : ∀ occurrence ∈ setting.occurrences,
    setting.addresses[occurrence.id]? = occurrence.address?

/-! ## Values -/

/--
The frame and the environment that a function keeps are those of the same scopes, but
for scopes that are added when it is bound.  The innermost scope of an initialiser is
that of `this`.
-/
def Keeps (setting : Setting) (layout : Layout Placed) (added : Scopes) :
    Keeping FrameId Environment := fun behaviour frame environment =>
  ∃ (around : Surroundings) (places : Places), layout.Chain places frame ∧
    environment = places.environment ∧
    ∀ definition isInitializer, behaviour = .body definition isInitializer →
      definition.Fits setting around (added ++ places.scopes) ∧
        (isInitializer → ∃ outer, added ++ places.scopes = [.this] :: outer)

/-- Two functions that keep the same scopes. -/
abbrev Closure.Matches (setting : Setting) (layout : Layout Placed) (added : Scopes) :
    Closure → Closure Environment → Prop :=
  Closure.Related (Keeps setting layout added)

section

variable (setting : Setting) (layout : Layout Placed)

/-- Two class declarations whose methods keep the same scopes, but for one for `this`. -/
abbrev ClassBody.Matches : ClassBody → ClassBody Environment → Prop :=
  ClassBody.Related (Keeps setting layout []) (Keeps setting layout [[.this]])

/-- Two classes whose methods keep the same scopes. -/
abbrev Class.Matches : Class → Class Environment → Prop :=
  Class.Related (Keeps setting layout []) (Keeps setting layout [[.this]])

/-- Two values whose functions keep the same scopes. -/
abbrev Value.Matches : Value → Value Environment → Prop :=
  Value.Related (Keeps setting layout []) (Keeps setting layout [[.this]])

/-- Two variables whose values match. -/
abbrev Slot.Matches : Slot Value → Slot (Value Environment) → Prop :=
  Slot.Related (Keeps setting layout []) (Keeps setting layout [[.this]])

/-- Two ends of a statement whose values match. -/
abbrev Flow.Matches : Flow → Flow Environment → Prop :=
  Flow.Related (Keeps setting layout []) (Keeps setting layout [[.this]])

/-- A slot holds what it is for, and its cell holds the same. -/
structure Placed.Holds (cells : Array (Slot (Value Environment))) (entry : Placed)
    (slot : Slot Value) : Prop where
  cell : ∃ slot', cells[entry.2]? = some slot' ∧ slot.Matches setting layout slot'
  admitted : entry.1.Admits slot

/-- There is a cell for each slot of each frame. -/
structure Frames.Matches (frames : Frames Value) (cells : Array (Slot (Value Environment))) :
    Prop where
  size : layout.size = frames.size
  enclosing : layout.enclosing = frames.enclosing?
  root_isFrame : Machine.root < layout.size
  root_row : layout.row Machine.root = []
  slots : ∀ frame, List.Forall₂ (Placed.Holds setting layout cells) (layout.row frame)
    (frames.slots frame).toList
  /-- No two slots have the same cell. -/
  distinct : ∀ {frame frame' : FrameId} {index index' : Nat} {declared declared' : Local}
    {cell : Nat}, (layout.row frame)[index]? = some (declared, cell) →
      (layout.row frame')[index']? = some (declared', cell) →
      frame = frame' ∧ index = index'

/-- Two machines agree in what is not local. -/
abbrev Machine.Agrees : Machine → Lexical.Machine → Prop :=
  Machine.Related (Keeps setting layout []) (Keeps setting layout [[.this]])

end

/-! ## More programs and more frames -/

section

variable {setting setting' : Setting} {layout later : Layout Placed}
  (read : setting.Le setting') (grown : layout.Le later)
include read grown

theorem Keeps.mono {added : Scopes} {behaviour : Behaviour} {frame : FrameId}
    {environment : Environment} (keeps : Keeps setting layout added behaviour frame environment) :
    Keeps setting' later added behaviour frame environment := by
  rcases keeps with ⟨around, places, chain, same, body⟩
  refine ⟨around, places, chain.mono grown, same, ?_⟩
  intro definition isInitializer behaves
  rcases body definition isInitializer behaves with ⟨fits, begins⟩
  exact ⟨fits.mono read, begins⟩

theorem Class.Matches.mono {type : Class} {type' : Class Environment}
    (same : type.Matches setting layout type') : type.Matches setting' later type' :=
  Class.Related.imp (fun _ _ _ keeps => keeps.mono read grown)
    (fun _ _ _ keeps => keeps.mono read grown) same

theorem Value.Matches.mono {value : Value} {value' : Value Environment}
    (same : value.Matches setting layout value') : value.Matches setting' later value' :=
  Value.Related.imp (fun _ _ _ keeps => keeps.mono read grown)
    (fun _ _ _ keeps => keeps.mono read grown) same

theorem Slot.Matches.mono {slot : Slot Value} {slot' : Slot (Value Environment)}
    (same : slot.Matches setting layout slot') : slot.Matches setting' later slot' :=
  Slot.Related.imp (fun _ _ _ keeps => keeps.mono read grown)
    (fun _ _ _ keeps => keeps.mono read grown) same

/-- Cells that keep what they hold do no harm. -/
theorem Placed.Holds.mono {cells cells' : Array (Slot (Value Environment))} {entry : Placed}
    {slot : Slot Value} (holds : Placed.Holds setting layout cells entry slot)
    (kept : ∀ (cell : Nat) slot, cells[cell]? = some slot → cells'[cell]? = some slot) :
    Placed.Holds setting' later cells' entry slot := by
  rcases holds with ⟨⟨slot', here, same⟩, admitted⟩
  exact ⟨⟨slot', kept _ _ here, same.mono read grown⟩, admitted⟩

theorem Machine.Agrees.mono {machine : Machine} {reference : Lexical.Machine}
    (agrees : machine.Agrees setting layout reference) :
    machine.Agrees setting' later reference :=
  Machine.Related.imp (fun _ _ _ keeps => keeps.mono read grown)
    (fun _ _ _ keeps => keeps.mono read grown) agrees

end

/-! ## Frames and cells change together -/

/-- Two lists of the same length are related if what they have at each index is. -/
theorem forall₂_of_getElem? {α β : Type} {related : α → β → Prop} {left : List α}
    {right : List β} (length : left.length = right.length)
    (all : ∀ (index : Nat) first second, left[index]? = some first →
      right[index]? = some second → related first second) : List.Forall₂ related left right := by
  apply List.forall₂_iff_get.mpr
  refine ⟨length, ?_⟩
  intro index inLeft inRight
  exact all index _ _ (List.getElem?_eq_getElem inLeft) (List.getElem?_eq_getElem inRight)

namespace Frames.Matches

variable {setting setting' : Setting} {layout : Layout Placed} {frames : Frames Value}
  {cells : Array (Slot (Value Environment))}

theorem mono (fits : frames.Matches setting layout cells) (read : setting.Le setting') :
    frames.Matches setting' layout cells := by
  constructor
  · exact fits.size
  · exact fits.enclosing
  · exact fits.root_isFrame
  · exact fits.root_row
  · exact fun frame => (fits.slots frame).imp
      fun _ _ holds => holds.mono read (.refl _) fun _ _ here => here
  · exact fits.distinct

variable (fits : frames.Matches setting layout cells)
include fits

theorem row_length (frame : FrameId) : (layout.row frame).length = frames.length frame :=
  (fits.slots frame).length_eq

/-- What a slot is for tells what it and its cell hold. -/
theorem exists_slot {frame : FrameId} {index : Nat} {entry : Placed}
    (here : (layout.row frame)[index]? = some entry) :
    ∃ slot slot', (frames.slots frame)[index]? = some slot ∧ cells[entry.2]? = some slot' ∧
      slot.Matches setting layout slot' ∧ entry.1.Admits slot := by
  rcases List.getElem?_eq_some_iff.mp here with ⟨inBounds, rfl⟩
  have inSlots : index < (frames.slots frame).toList.length := by
    rw [← (fits.slots frame).length_eq]
    exact inBounds
  rcases (fits.slots frame).get inBounds inSlots with ⟨⟨slot', found, same⟩, admitted⟩
  refine ⟨_, slot', ?_, found, same, admitted⟩
  rw [← Array.getElem?_toList, List.getElem?_eq_getElem inSlots]
  rfl

theorem cell_lt {frame : FrameId} {index : Nat} {entry : Placed}
    (here : (layout.row frame)[index]? = some entry) : entry.2 < cells.size := by
  rcases fits.exists_slot here with ⟨-, slot', -, found, -, -⟩
  exact (Array.getElem?_eq_some_iff.mp found).1

section

variable (enclosing : FrameId) {locals : List Local}

omit fits in
/-- An entry of a frame that was there before. -/
theorem entry_of_old {frame : FrameId} {index : Nat} {entry : Placed} (isOld : frame ≠ layout.size)
    (here : ((layout.add enclosing (locals.zipIdx cells.size)).row frame)[index]? = some entry) :
    (layout.row frame)[index]? = some entry := by
  rwa [Layout.row_add_of_ne _ _ _ isOld] at here

omit fits in
/-- The cells of the entries of a new frame are numbered one after the other. -/
theorem cell_of_new {index : Nat} {entry : Placed}
    (here : ((layout.add enclosing (locals.zipIdx cells.size)).row layout.size)[index]? =
      some entry) : entry.2 = cells.size + index := by
  rw [Layout.row_add_self, List.getElem?_zipIdx, Option.map_eq_some_iff] at here
  rcases here with ⟨declared, -, rfl⟩
  rfl

/-- No two entries have the same cell when a frame was added. -/
theorem distinct_addFrame {frame frame' : FrameId} {index index' : Nat}
    {declared declared' : Local} {cell : Nat}
    (here : ((layout.add enclosing (locals.zipIdx cells.size)).row frame)[index]? =
      some (declared, cell))
    (here' : ((layout.add enclosing (locals.zipIdx cells.size)).row frame')[index']? =
      some (declared', cell)) : frame = frame' ∧ index = index' := by
  by_cases isNew : frame = layout.size
  · subst isNew
    have first := cell_of_new enclosing here
    by_cases isNew' : frame' = layout.size
    · subst isNew'
      have second := cell_of_new enclosing here'
      simp only at first second
      exact ⟨rfl, by omega⟩
    · have second := fits.cell_lt (entry_of_old enclosing isNew' here')
      simp only at first second
      omega
  · have first := fits.cell_lt (entry_of_old enclosing isNew here)
    by_cases isNew' : frame' = layout.size
    · subst isNew'
      have second := cell_of_new enclosing here'
      simp only at first second
      omega
    · exact fits.distinct (entry_of_old enclosing isNew here) (entry_of_old enclosing isNew' here')

end

/-- A frame is added, with new cells for its slots. -/
theorem addFrame (enclosing : FrameId) {locals : List Local} {values : List Value}
    {values' : List (Value Environment)}
    (same : List.Forall₂ (Value.Matches setting layout) values values')
    (admitted : List.Forall₂ (fun declared value => declared.Admits (.initialised value)) locals
      values) :
    Frames.Matches setting (layout.add enclosing (locals.zipIdx cells.size))
      (values.foldl (fun rest value => rest.define frames.size value) (frames.addChild enclosing))
      (cells ++ (values'.map Slot.initialised).toArray) := by
  have ordered := layout.le_add enclosing (locals.zipIdx cells.size)
  have kept : ∀ (cell : Nat) slot, cells[cell]? = some slot →
      (cells ++ (values'.map Slot.initialised).toArray)[cell]? = some slot := by
    intro cell slot here
    rw [Array.getElem?_append_left (Array.getElem?_eq_some_iff.mp here).1]
    exact here
  constructor
  · show layout.size + 1 = _
    rw [Frames.foldl_define_size, Frames.size_addChild, fits.size]
  · funext frame
    rw [Frames.foldl_define_enclosing?, Frames.enclosing?_addChild, ← fits.size, ← fits.enclosing]
    rfl
  · exact Nat.lt_of_lt_of_le fits.root_isFrame ordered.size
  · rw [layout.still_add _ _ _ fits.root_isFrame]
    exact fits.root_row
  · intro frame
    by_cases isNew : frame = frames.size
    · subst isNew
      rw [Frames.toList_slots_addFrame, ← fits.size, Layout.row_add_self]
      apply forall₂_of_getElem?
      · rw [List.length_zipIdx, admitted.length_eq]
        simp
      · intro index entry slot here found
        rw [List.getElem?_zipIdx, Option.map_eq_some_iff] at here
        rcases here with ⟨declared, isLocal, rfl⟩
        simp only [List.getElem?_map, Option.map_eq_some_iff] at found
        rcases found with ⟨value, isValue, rfl⟩
        rcases List.getElem?_eq_some_iff.mp isLocal with ⟨inLocals, rfl⟩
        rcases List.getElem?_eq_some_iff.mp isValue with ⟨inValues, rfl⟩
        have inValues' : index < values'.length := by
          rw [← same.length_eq]
          exact inValues
        constructor
        · refine ⟨.initialised values'[index], ?_, ?_⟩
          · rw [Array.getElem?_append_right (Nat.le_add_right _ _), Nat.add_sub_cancel_left]
            simp [inValues']
          · exact .initialised ((same.get inValues inValues').mono (.refl setting) ordered)
        · exact admitted.get inLocals inValues
    · rw [Frames.slots_addFrame_of_ne _ _ _ isNew]
      rw [← fits.size] at isNew
      rw [Layout.row_add_of_ne _ _ _ isNew]
      exact (fits.slots frame).imp fun _ _ holds => holds.mono (.refl setting) ordered kept
  · exact fun here here' => distinct_addFrame fits enclosing here here'

/-- A frame gets a slot, with a new cell. -/
theorem addSlot {frame : FrameId} (isFrame : frame < layout.size) (inner : frame ≠ Machine.root)
    {declared : Local} {slot : Slot Value} {slot' : Slot (Value Environment)}
    (same : slot.Matches setting (layout.extend frame (declared, cells.size)) slot')
    (admitted : declared.Admits slot) :
    Frames.Matches setting (layout.extend frame (declared, cells.size)) (frames.append frame slot)
      (cells.push slot') := by
  have ordered := layout.le_extend frame (declared, cells.size)
  have kept : ∀ (cell : Nat) slot, cells[cell]? = some slot →
      (cells.push slot')[cell]? = some slot := by
    intro cell slot here
    rw [Array.getElem?_push, if_neg (Nat.ne_of_lt (Array.getElem?_eq_some_iff.mp here).1)]
    exact here
  have entries : ∀ {other : FrameId} {index : Nat} {entry : Placed},
      ((layout.extend frame (declared, cells.size)).row other)[index]? = some entry →
      (layout.row other)[index]? = some entry ∨
        (other = frame ∧ index = (layout.row frame).length ∧ entry.2 = cells.size) := by
    intro other index entry here
    by_cases same : other = frame
    · subst same
      rw [Layout.row_extend_self, List.getElem?_append] at here
      split at here
      · exact .inl here
      · next beyond =>
        rcases List.getElem?_eq_some_iff.mp here with ⟨inside, last⟩
        rw [List.length_singleton] at inside
        have index_eq : index = (layout.row other).length := by omega
        subst index_eq
        simp only [Nat.sub_self, List.getElem_cons_zero] at last
        exact .inr ⟨rfl, rfl, by rw [← last]⟩
    · rw [Layout.row_extend_of_ne _ _ _ same] at here
      exact .inl here
  constructor
  · show layout.size = _
    rw [Frames.size_append, fits.size]
  · funext other
    rw [Frames.enclosing?_append, ← fits.enclosing]
    rfl
  · exact fits.root_isFrame
  · rw [Layout.row_extend_of_ne _ _ _ (Ne.symm inner)]
    exact fits.root_row
  · intro other
    by_cases changed : other = frame
    · subst changed
      rw [fits.size] at isFrame
      rw [Layout.row_extend_self, Frames.slots_append_self _ _ _ isFrame, Array.toList_push]
      have before := (fits.slots other).imp
        fun _ _ holds => holds.mono (.refl setting) ordered kept
      apply List.rel_append before (.cons _ .nil)
      exact ⟨⟨slot', Array.getElem?_push_size, same⟩, admitted⟩
    · rw [Layout.row_extend_of_ne _ _ _ changed, Frames.slots_append_of_ne (Ne.symm changed)]
      exact (fits.slots other).imp fun _ _ holds => holds.mono (.refl setting) ordered kept
  · intro first second index index' local_ local' cell here here'
    rcases entries here with before | ⟨rfl, rfl, isNew⟩
    · have inside := fits.cell_lt before
      rcases entries here' with before' | ⟨rfl, rfl, isNew'⟩
      · exact fits.distinct before before'
      · simp only at inside isNew'
        omega
    · rcases entries here' with before' | ⟨rfl, rfl, isNew'⟩
      · have inside := fits.cell_lt before'
        simp only at inside isNew
        omega
      · exact ⟨rfl, rfl⟩

/-- A variable gets a value in its slot and in its cell. -/
theorem write {frame : FrameId} {index : Nat} {declared : Local} {cell : Nat}
    (here : (layout.row frame)[index]? = some (declared, cell)) {value : Value}
    {value' : Value Environment} (same : value.Matches setting layout value')
    (admitted : declared.Admits (.initialised value)) :
    Frames.Matches setting layout (frames.write frame index value)
      (cells.modify cell fun _ => .initialised value') := by
  have inCells := fits.cell_lt here
  constructor
  · rw [Frames.size_write]
    exact fits.size
  · funext other
    rw [Frames.enclosing?_write, fits.enclosing]
  · exact fits.root_isFrame
  · exact fits.root_row
  · intro other
    apply forall₂_of_getElem?
    · show _ = (frames.write frame index value).length other
      rw [Frames.length_write, fits.row_length]
    · intro slot entry holder inRow inSlots
      rcases fits.exists_slot inRow with ⟨before, before', was, was', stillSame, stillAdmitted⟩
      rw [Array.getElem?_toList, Frames.slots_write] at inSlots
      by_cases written : frame = other ∧ index = slot
      · rcases written with ⟨rfl, rfl⟩
        rw [here] at inRow
        cases inRow
        rw [if_pos rfl, Array.getElem?_modify, if_pos rfl, was] at inSlots
        cases inSlots
        refine ⟨⟨.initialised value', ?_, .initialised same⟩, admitted⟩
        rw [Array.getElem?_modify, if_pos rfl, was']
        rfl
      · have unchanged : (frames.slots other)[slot]? = some holder := by
          split at inSlots
          · next isFrame =>
            rw [Array.getElem?_modify, if_neg fun isIndex => written ⟨isFrame, isIndex⟩] at inSlots
            exact inSlots
          · exact inSlots
        rw [was] at unchanged
        cases unchanged
        have otherCell : cell ≠ entry.2 := by
          rintro rfl
          exact written (fits.distinct here inRow)
        refine ⟨⟨before', ?_, stillSame⟩, stillAdmitted⟩
        rw [Array.getElem?_modify, if_neg otherCell]
        exact was'
  · exact fits.distinct

end Frames.Matches

end Lox
