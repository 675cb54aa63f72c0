import Lox.Proofs.Machine.Layout

/-!
# Regions of a machine

What programs can change are the slots of frames and the fields of instances.  Values lead
to them: a function to the frame that it keeps, a class to those of its methods and of the
methods that it inherits, an instance to its fields and to its class.

A region is closed if no value in it leads out of it, nor a frame to the one around it
(`Region.IsClosed`).  Two machines are alike in a region if they differ outside of it only
(`Region.Alike`), and a machine keeps what is outside if that does not change
(`Region.Keeps`).  What the machine does in a region preserves all of this.
-/

namespace Lox

/-! ## Values -/

/-- What can be changed: it contains values. -/
inductive Container where
  /-- The slots of a frame. -/
  | frame (id : FrameId)
  /-- The fields of an instance. -/
  | object (id : Nat)

/-- The methods of a class, and those that it inherits, keep frames. -/
def Class.LeadsTo (type : Class) (container : Container) : Prop :=
  ∃ body ∈ type.own :: type.inherited, ∃ (name : String) (method : Closure),
    (body.methods[name]? = some method ∨ body.classMethods[name]? = some method) ∧
      container = .frame method.environment

/-- What a value leads to at once. -/
def Value.LeadsTo : Value → Container → Prop
  | .function closure, container => container = .frame closure.environment
  | .type ofClass, container => ofClass.LeadsTo container
  | .object target, container => container = .object target.id ∨ target.ofClass.LeadsTo container
  | _, _ => False

/-- A part of what can be changed. -/
abbrev Region := Container → Prop

namespace Region

variable (region : Region)

/-- A value does not lead out of a region. -/
def Holds (value : Value) : Prop :=
  ∀ container, value.LeadsTo container → region container

/-- A slot does not lead out of a region. -/
def HoldsSlot : Slot Value → Prop
  | .uninitialised => True
  | .initialised value => region.Holds value

/-- The methods in a table do not lead out of a region. -/
def HoldsMethods (table : Table Closure) : Prop :=
  ∀ (name : String) (method : Closure), table[name]? = some method →
    region (.frame method.environment)

section

variable {region}

/-- A constant leads nowhere. -/
theorem holds_ofLiteral (literal : Literal) : region.Holds (.ofLiteral literal) := by
  intro container leads
  cases literal <;> cases leads

theorem holds_of_literal {value : Value} (constant : ∃ literal, value = .ofLiteral literal) :
    region.Holds value := by
  rcases constant with ⟨literal, rfl⟩
  exact holds_ofLiteral literal

theorem holds_function {closure : Closure} :
    region.Holds (.function closure) ↔ region (.frame closure.environment) := by
  constructor
  · exact fun holds => holds _ rfl
  · rintro inside container rfl
    exact inside

theorem holds_object {target : Instance} :
    region.Holds (.object target) ↔
      region (.object target.id) ∧ region.Holds (.type target.ofClass) := by
  constructor
  · exact fun holds => ⟨holds _ (.inl rfl), fun container leads => holds container (.inr leads)⟩
  · rintro ⟨inside, holds⟩ container (rfl | leads)
    · exact inside
    · exact holds container leads

/-- The methods that a class finds. -/
theorem Holds.method? {type : Class} (holds : region.Holds (.type type)) {name : String}
    {method : Closure} (found : type.method? name = some method) :
    region (.frame method.environment) := by
  rcases List.exists_of_findSome?_eq_some found with ⟨body, member, here⟩
  exact holds _ ⟨body, member, name, method, .inl here, rfl⟩

theorem Holds.classMethod? {type : Class} (holds : region.Holds (.type type)) {name : String}
    {method : Closure} (found : type.classMethod? name = some method) :
    region (.frame method.environment) := by
  rcases List.exists_of_findSome?_eq_some found with ⟨body, member, here⟩
  exact holds _ ⟨body, member, name, method, .inr here, rfl⟩

/-- A class leads to what its own methods and its superclass lead to. -/
theorem holds_extending {own : ClassBody} (methods : region.HoldsMethods own.methods)
    (classMethods : region.HoldsMethods own.classMethods) {superclass : Option Class}
    (inherited : ∀ type ∈ superclass, region.Holds (.type type)) :
    region.Holds (.type (.extending own superclass)) := by
  have ofOwn : ∀ container (name : String) (method : Closure),
      own.methods[name]? = some method ∨ own.classMethods[name]? = some method →
        container = .frame method.environment → region container := by
    rintro container name method (found | found) rfl
    · exact methods name method found
    · exact classMethods name method found
  cases superclass with
  | none =>
    rintro container ⟨body, member, name, method, found, leads⟩
    rw [List.mem_singleton.mp member] at found
    exact ofOwn container name method found leads
  | some type =>
    rintro container ⟨body, member, name, method, found, leads⟩
    rcases List.mem_cons.mp member with rfl | member
    · exact ofOwn container name method found leads
    · exact inherited type rfl container ⟨body, member, name, method, found, leads⟩

end

/-! ## Machines -/

/-- What is not there yet is in the region, and nothing in the region leads out of it. -/
structure IsClosed (machine : Machine) : Prop where
  newFrame : ∀ frame : FrameId, machine.frames.size ≤ frame → region (.frame frame)
  newObject : ∀ id : Nat, machine.fields.size ≤ id → region (.object id)
  slots : ∀ (frame : FrameId) (index : Nat) (slot : Slot Value), region (.frame frame) →
    (machine.frames.slots frame)[index]? = some slot → region.HoldsSlot slot
  enclosing : ∀ frame outer : FrameId, region (.frame frame) →
    machine.frames.enclosing? frame = some outer → region (.frame outer)
  globals : ∀ (name : String) (slot : Slot Value),
    machine.globals[name]? = some slot → region.HoldsSlot slot
  fields : ∀ (id : Nat) (table : Table Value) (name : String) (value : Value),
    region (.object id) → machine.fields[id]? = some table → table[name]? = some value →
      region.Holds value

/-- Two machines differ at most in the slots and fields outside of a region. -/
structure Alike (left right : Machine) : Prop where
  size : left.frames.size = right.frames.size
  objects : left.fields.size = right.fields.size
  slots : ∀ frame, region (.frame frame) → left.frames.slots frame = right.frames.slots frame
  enclosing : ∀ frame, region (.frame frame) →
    left.frames.enclosing? frame = right.frames.enclosing? frame
  fields : ∀ id : Nat, region (.object id) → left.fields[id]? = right.fields[id]?
  current : left.current = right.current
  globals : left.globals = right.globals
  nextId : left.nextId = right.nextId
  printed : left.printed = right.printed
  clock : left.clock = right.clock

/-- No slot and no field outside of a region changes, and no frame moves. -/
structure Keeps (before after : Machine) : Prop where
  current : after.current = before.current
  size : before.frames.size ≤ after.frames.size
  objects : before.fields.size ≤ after.fields.size
  slots : ∀ frame, ¬ region (.frame frame) →
    after.frames.slots frame = before.frames.slots frame
  enclosing : ∀ frame < before.frames.size,
    after.frames.enclosing? frame = before.frames.enclosing? frame
  fields : ∀ id : Nat, ¬ region (.object id) → after.fields[id]? = before.fields[id]?

/-- Two machines are alike in a region that is closed in the first of them. -/
structure Fits (left right : Machine) : Prop where
  closed : region.IsClosed left
  alike : region.Alike left right

/-- Two machines go on to two others that are alike, and keep what is outside of a region. -/
structure Moves (left right left' right' : Machine) : Prop where
  fits : region.Fits left' right'
  kept : region.Keeps left left'
  kept' : region.Keeps right right'

variable {region} {machine left right : Machine}

/-! ## What frames in the region lead to -/

/-- The way outward does not leave the region. -/
theorem IsClosed.ancestor? (closed : region.IsClosed machine) {frame ancestor : FrameId}
    (inside : region (.frame frame)) {depth : Nat}
    (found : machine.frames.ancestor? frame depth = some ancestor) :
    region (.frame ancestor) := by
  induction depth generalizing frame with
  | zero =>
    cases found
    exact inside
  | succ depth induction =>
    rw [Frames.ancestor?] at found
    split at found
    · next enclosing encloses =>
      exact induction (closed.enclosing frame enclosing inside encloses) found
    · cases found

/-- A slot that is found from a frame of the region leads back into it. -/
theorem IsClosed.get? (closed : region.IsClosed machine) {frame : FrameId}
    (inside : region (.frame frame)) {depth index : Nat} {slot : Slot Value}
    (found : machine.frames.get? frame depth index = some slot) : region.HoldsSlot slot := by
  rw [Frames.get?] at found
  split at found
  · next ancestor further =>
    exact closed.slots ancestor index slot (closed.ancestor? inside further) found
  · cases found

namespace Fits

variable (fits : region.Fits left right) {frame : FrameId} (inside : region (.frame frame))
include fits inside

/-- From a frame of the region the way outward is the same. -/
theorem ancestor?_eq (depth : Nat) :
    left.frames.ancestor? frame depth = right.frames.ancestor? frame depth := by
  induction depth generalizing frame with
  | zero => rfl
  | succ depth induction =>
    rw [Frames.ancestor?, Frames.ancestor?, ← fits.alike.enclosing frame inside]
    cases encloses : left.frames.enclosing? frame with
    | none => rfl
    | some enclosing => exact induction (fits.closed.enclosing frame enclosing inside encloses)

theorem get?_eq (depth index : Nat) :
    left.frames.get? frame depth index = right.frames.get? frame depth index := by
  rw [Frames.get?, Frames.get?, ← fits.ancestor?_eq inside depth]
  cases further : left.frames.ancestor? frame depth with
  | none => rfl
  | some ancestor =>
    dsimp only
    rw [fits.alike.slots ancestor (fits.closed.ancestor? inside further)]

theorem holder?_eq (depth index : Nat) :
    left.frames.holder? frame depth index = right.frames.holder? frame depth index := by
  rw [Frames.holder?, Frames.holder?, ← fits.ancestor?_eq inside depth]
  cases further : left.frames.ancestor? frame depth with
  | none => rfl
  | some ancestor =>
    dsimp only
    rw [Frames.length, Frames.length,
      fits.alike.slots ancestor (fits.closed.ancestor? inside further)]

end Fits

/-- What holds a slot that is found from a frame of the region is in it, too. -/
theorem IsClosed.holder? (closed : region.IsClosed machine) {frame holder : FrameId}
    (inside : region (.frame frame)) {depth index : Nat}
    (found : machine.frames.holder? frame depth index = some holder) : region (.frame holder) :=
  closed.ancestor? inside ((Frames.holder?_eq_some_iff _ _ _ _ _).mp found).1

/-! ## Machines that keep what is outside -/

namespace Keeps

variable {first second third : Machine}

theorem refl (region : Region) (machine : Machine) : region.Keeps machine machine :=
  ⟨rfl, Nat.le_refl _, Nat.le_refl _, fun _ _ => rfl, fun _ _ => rfl, fun _ _ => rfl⟩

theorem trans (before : region.Keeps first second) (after : region.Keeps second third) :
    region.Keeps first third := by
  constructor
  · exact after.current.trans before.current
  · exact Nat.le_trans before.size after.size
  · exact Nat.le_trans before.objects after.objects
  · exact fun frame outside => (after.slots frame outside).trans (before.slots frame outside)
  · intro frame isFrame
    have isFrameThen := Nat.lt_of_lt_of_le isFrame before.size
    exact (after.enclosing frame isFrameThen).trans (before.enclosing frame isFrame)
  · exact fun id outside => (after.fields id outside).trans (before.fields id outside)

/-- Neither frames nor fields change. -/
theorem still (frames : second.frames = first.frames) (fields : second.fields = first.fields)
    (current : second.current = first.current) : region.Keeps first second := by
  refine ⟨current, ?_, ?_, ?_, ?_, ?_⟩
  · rw [frames]
  · rw [fields]
  · exact fun frame _ => by rw [frames]
  · exact fun frame _ => by rw [frames]
  · exact fun id _ => by rw [fields]

/-- A frame is added. -/
theorem addFrame (isNew : region (.frame machine.frames.size)) (enclosing : FrameId)
    (values : List Value) :
    region.Keeps machine { machine with
      frames := values.foldl (fun frames value => frames.define machine.frames.size value)
        (machine.frames.addChild enclosing) } := by
  refine ⟨rfl, ?_, Nat.le_refl _, ?_, ?_, fun _ _ => rfl⟩
  · show _ ≤ Frames.size (values.foldl _ (machine.frames.addChild enclosing))
    rw [Frames.foldl_define_size, Frames.size_addChild]
    exact Nat.le_succ _
  · intro frame outside
    have different : frame ≠ machine.frames.size := by
      rintro rfl
      exact outside isNew
    exact Frames.slots_addFrame_of_ne enclosing values machine.frames different
  · intro frame isFrame
    show Frames.enclosing? (values.foldl _ (machine.frames.addChild enclosing)) frame = _
    rw [Frames.foldl_define_enclosing?, Frames.enclosing?_addChild, if_neg (Nat.ne_of_lt isFrame)]

/-- A frame of the region gets a slot. -/
theorem append {frame : FrameId} (inside : region (.frame frame)) (slot : Slot Value) :
    region.Keeps machine { machine with frames := machine.frames.append frame slot } := by
  refine ⟨rfl, ?_, Nat.le_refl _, ?_, ?_, fun _ _ => rfl⟩
  · exact Nat.le_of_eq (Frames.size_append frame slot machine.frames).symm
  · intro other outside
    have different : frame ≠ other := by
      rintro rfl
      exact outside inside
    exact Frames.slots_append_of_ne different slot machine.frames
  · exact fun other _ => Frames.enclosing?_append frame other slot machine.frames

/-- A variable of a frame of the region gets a value. -/
theorem write {frame : FrameId} (inside : region (.frame frame)) (index : Nat) (value : Value) :
    region.Keeps machine { machine with frames := machine.frames.write frame index value } := by
  refine ⟨rfl, ?_, Nat.le_refl _, ?_, ?_, fun _ _ => rfl⟩
  · exact Nat.le_of_eq (Frames.size_write frame index value machine.frames).symm
  · intro other outside
    have different : frame ≠ other := by
      rintro rfl
      exact outside inside
    show (machine.frames.write frame index value).slots other = _
    rw [Frames.slots_write, if_neg different]
  · exact fun other _ => Frames.enclosing?_write frame other index value machine.frames

/-- A field of an instance of the region gets a value. -/
theorem setField {id : Nat} (inside : region (.object id)) (name : String) (value : Value) :
    region.Keeps machine
      { machine with fields := machine.fields.modify id (·.insert name value) } := by
  refine ⟨rfl, Nat.le_refl _, ?_, fun _ _ => rfl, fun _ _ => rfl, ?_⟩
  · show _ ≤ (machine.fields.modify id _).size
    rw [Array.size_modify]
  · intro other outside
    have different : id ≠ other := by
      rintro rfl
      exact outside inside
    show (machine.fields.modify id _)[other]? = _
    rw [Array.getElem?_modify, if_neg different]

/-- An instance is added. -/
theorem newInstance (isNew : region (.object machine.fields.size)) :
    region.Keeps machine { machine with fields := machine.fields.push ∅ } := by
  refine ⟨rfl, Nat.le_refl _, ?_, fun _ _ => rfl, fun _ _ => rfl, ?_⟩
  · show _ ≤ (machine.fields.push ∅).size
    rw [Array.size_push]
    exact Nat.le_succ _
  · intro other outside
    have different : other ≠ machine.fields.size := by
      rintro rfl
      exact outside isNew
    show (machine.fields.push ∅)[other]? = _
    rw [Array.getElem?_push, if_neg different]

end Keeps

/-! ## Machines that stay closed -/

namespace IsClosed

variable (closed : region.IsClosed machine)
include closed

/-- Neither variables nor fields change. -/
theorem congr {after : Machine} (frames : after.frames = machine.frames)
    (globals : after.globals = machine.globals) (fields : after.fields = machine.fields) :
    region.IsClosed after := by
  constructor
  · rw [frames]
    exact closed.newFrame
  · rw [fields]
    exact closed.newObject
  · rw [frames]
    exact closed.slots
  · rw [frames]
    exact closed.enclosing
  · rw [globals]
    exact closed.globals
  · rw [fields]
    exact closed.fields

/-- A frame is added. -/
theorem addFrame {enclosing : FrameId} (inside : region (.frame enclosing)) {values : List Value}
    (hold : ∀ value ∈ values, region.Holds value) :
    region.IsClosed { machine with
      frames := values.foldl (fun frames value => frames.define machine.frames.size value)
        (machine.frames.addChild enclosing) } := by
  refine ⟨?_, closed.newObject, ?_, ?_, closed.globals, closed.fields⟩
  · intro frame beyond
    dsimp only at beyond
    rw [Frames.foldl_define_size, Frames.size_addChild] at beyond
    exact closed.newFrame frame (Nat.le_of_succ_le beyond)
  · intro frame index slot isInside here
    dsimp only at here
    by_cases same : frame = machine.frames.size
    · rw [same, ← Array.getElem?_toList, Frames.toList_slots_addFrame] at here
      rcases List.mem_map.mp (List.mem_of_getElem? here) with ⟨value, member, rfl⟩
      exact hold value member
    · rw [Frames.slots_addFrame_of_ne _ _ _ same] at here
      exact closed.slots frame index slot isInside here
  · intro frame outer isInside here
    dsimp only at here
    rw [Frames.foldl_define_enclosing?, Frames.enclosing?_addChild] at here
    split at here
    · cases here
      exact inside
    · exact closed.enclosing frame outer isInside here

/-- A frame gets a slot. -/
theorem append (frame : FrameId) {slot : Slot Value} (holds : region.HoldsSlot slot) :
    region.IsClosed { machine with frames := machine.frames.append frame slot } := by
  refine ⟨?_, closed.newObject, ?_, ?_, closed.globals, closed.fields⟩
  · intro other beyond
    rw [Frames.size_append] at beyond
    exact closed.newFrame other beyond
  · intro other index found isInside here
    dsimp only at here
    by_cases same : frame = other
    · subst same
      by_cases isFrame : frame < machine.frames.size
      · rw [Frames.slots_append_self frame slot machine.frames isFrame, Array.getElem?_push] at here
        split at here
        · cases here
          exact holds
        · exact closed.slots frame index found isInside here
      · have beyond := Nat.le_of_not_lt isFrame
        rw [← Frames.size_append frame slot] at beyond
        rw [Frames.slots_eq_empty _ beyond] at here
        cases here
    · rw [Frames.slots_append_of_ne same] at here
      exact closed.slots other index found isInside here
  · intro other outer isInside here
    rw [Frames.enclosing?_append] at here
    exact closed.enclosing other outer isInside here

/-- A variable gets a value. -/
theorem write (frame : FrameId) (index : Nat) {value : Value} (holds : region.Holds value) :
    region.IsClosed { machine with frames := machine.frames.write frame index value } := by
  refine ⟨?_, closed.newObject, ?_, ?_, closed.globals, closed.fields⟩
  · intro other beyond
    rw [Frames.size_write] at beyond
    exact closed.newFrame other beyond
  · intro other place found isInside here
    dsimp only at here
    rw [Frames.slots_write] at here
    split at here
    · rw [Array.getElem?_modify] at here
      split at here
      · rcases Option.map_eq_some_iff.mp here with ⟨before, -, rfl⟩
        exact holds
      · exact closed.slots other place found isInside here
    · exact closed.slots other place found isInside here
  · intro other outer isInside here
    rw [Frames.enclosing?_write] at here
    exact closed.enclosing other outer isInside here

/-- A global variable is declared or gets a value. -/
theorem setGlobal (name : String) {slot : Slot Value} (holds : region.HoldsSlot slot) :
    region.IsClosed { machine with globals := machine.globals.insert name slot } := by
  refine ⟨closed.newFrame, closed.newObject, closed.slots, closed.enclosing, ?_, closed.fields⟩
  intro other found here
  dsimp only at here
  rw [Std.TreeMap.getElem?_insert] at here
  split at here
  · cases here
    exact holds
  · exact closed.globals other found here

/-- A field of an instance gets a value. -/
theorem setField (id : Nat) (name : String) {value : Value} (holds : region.Holds value) :
    region.IsClosed
      { machine with fields := machine.fields.modify id (·.insert name value) } := by
  refine ⟨closed.newFrame, ?_, closed.slots, closed.enclosing, closed.globals, ?_⟩
  · intro other beyond
    rw [Array.size_modify] at beyond
    exact closed.newObject other beyond
  · intro other table field found isInside here inTable
    dsimp only at here
    rw [Array.getElem?_modify] at here
    split at here
    · rcases Option.map_eq_some_iff.mp here with ⟨before, wasHere, rfl⟩
      rw [Std.TreeMap.getElem?_insert] at inTable
      split at inTable
      · cases inTable
        exact holds
      · exact closed.fields other before field found isInside wasHere inTable
    · exact closed.fields other table field found isInside here inTable

/-- An instance without fields is added. -/
theorem newInstance : region.IsClosed { machine with fields := machine.fields.push ∅ } := by
  refine ⟨closed.newFrame, ?_, closed.slots, closed.enclosing, closed.globals, ?_⟩
  · intro other beyond
    rw [Array.size_push] at beyond
    exact closed.newObject other (Nat.le_of_succ_le beyond)
  · intro other table field found isInside here inTable
    dsimp only at here
    rw [Array.getElem?_push] at here
    split at here
    · cases here
      simp at inTable
    · exact closed.fields other table field found isInside here inTable

end IsClosed

/-! ## Machines that stay alike -/

namespace Alike

variable (alike : region.Alike left right)
include alike

/-- A frame is added to both. -/
theorem addFrame (enclosing : FrameId) (values : List Value) :
    region.Alike
      { left with
        frames := values.foldl (fun frames value => frames.define left.frames.size value)
          (left.frames.addChild enclosing) }
      { right with
        frames := values.foldl (fun frames value => frames.define right.frames.size value)
          (right.frames.addChild enclosing) } := by
  have before := alike
  refine { alike with size := ?_, slots := ?_, enclosing := ?_ }
  · simp only [Frames.foldl_define_size, Frames.size_addChild, alike.size]
  · intro frame inside
    dsimp only
    by_cases isNew : frame = left.frames.size
    · apply Array.toList_inj.mp
      rw [isNew, Frames.toList_slots_addFrame, alike.size, Frames.toList_slots_addFrame]
    · rw [Frames.slots_addFrame_of_ne _ _ _ isNew]
      rw [alike.size] at isNew
      rw [Frames.slots_addFrame_of_ne _ _ _ isNew]
      exact alike.slots frame inside
  · intro frame inside
    dsimp only
    rw [Frames.foldl_define_enclosing?, Frames.foldl_define_enclosing?,
      Frames.enclosing?_addChild, Frames.enclosing?_addChild, alike.size,
      alike.enclosing frame inside]

/-- A frame gets a slot in both. -/
theorem append (frame : FrameId) (slot : Slot Value) :
    region.Alike { left with frames := left.frames.append frame slot }
      { right with frames := right.frames.append frame slot } := by
  refine { alike with size := ?_, slots := ?_, enclosing := ?_ }
  · simp only [Frames.size_append, alike.size]
  · intro other inside
    dsimp only
    by_cases same : frame = other
    · subst same
      by_cases isFrame : frame < left.frames.size
      · have isFrame' := isFrame
        rw [alike.size] at isFrame'
        rw [Frames.slots_append_self _ _ _ isFrame, Frames.slots_append_self _ _ _ isFrame',
          alike.slots frame inside]
      · have beyond := Nat.le_of_not_lt isFrame
        have beyond' := beyond
        rw [← Frames.size_append frame slot] at beyond
        rw [alike.size, ← Frames.size_append frame slot] at beyond'
        rw [Frames.slots_eq_empty _ beyond, Frames.slots_eq_empty _ beyond']
    · rw [Frames.slots_append_of_ne same, Frames.slots_append_of_ne same]
      exact alike.slots other inside
  · intro other inside
    dsimp only
    rw [Frames.enclosing?_append, Frames.enclosing?_append]
    exact alike.enclosing other inside

/-- A variable gets a value in both. -/
theorem write (frame : FrameId) (index : Nat) (value : Value) :
    region.Alike { left with frames := left.frames.write frame index value }
      { right with frames := right.frames.write frame index value } := by
  refine { alike with size := ?_, slots := ?_, enclosing := ?_ }
  · simp only [Frames.size_write, alike.size]
  · intro other inside
    dsimp only
    rw [Frames.slots_write, Frames.slots_write, alike.slots other inside]
  · intro other inside
    dsimp only
    rw [Frames.enclosing?_write, Frames.enclosing?_write]
    exact alike.enclosing other inside

/-- A field gets a value in both. -/
theorem setField (id : Nat) (name : String) (value : Value) :
    region.Alike { left with fields := left.fields.modify id (·.insert name value) }
      { right with fields := right.fields.modify id (·.insert name value) } := by
  refine { alike with objects := ?_, fields := ?_ }
  · simp only [Array.size_modify, alike.objects]
  · intro other inside
    dsimp only
    rw [Array.getElem?_modify, Array.getElem?_modify, alike.fields other inside]

/-- An instance is added to both. -/
theorem newInstance :
    region.Alike { left with fields := left.fields.push ∅ }
      { right with fields := right.fields.push ∅ } := by
  refine { alike with objects := ?_, fields := ?_ }
  · simp only [Array.size_push, alike.objects]
  · intro other inside
    dsimp only
    rw [Array.getElem?_push, Array.getElem?_push, alike.objects, alike.fields other inside]

end Alike

end Region

end Lox
