import Lox.Proofs.Frames.Growth
import Lox.Proofs.Moves.Evaluation

/-!
# Moves that only add to frames

What a single move does to the frames of a machine (`Move.Grows`), what moves in a row do
(`Move.Run`), and that each step of the evaluator makes such moves only.  The frames of a machine
are told apart by what they are for: the roles of all frames, in the order of their creation.
-/

namespace Lox

/-- Variables are declared in frames of blocks and of bodies of functions, and in no others. -/
def Role.Declares : Role → Prop
  | .block => True
  | .body => True
  | _ => False

/--
The frames of a machine are for these purposes.  The first one is the root, which has no slots, and
code runs in the root or where variables are declared.
-/
structure Machine.Has (machine : Machine) (roles : List Role) : Prop where
  length_eq : roles.length = machine.frames.size
  root : roles[Machine.root]? = some .root
  eq_root : ∀ frame : FrameId, roles[frame]? = some .root → frame = Machine.root
  runs : ∃ role, roles[machine.current]? = some role ∧ (role = .root ∨ role.Declares)
  empty : machine.frames.length Machine.root = 0

namespace Move

/--
A move adds to the frames of a machine.  Of those that exist at most the current one gets slots,
and only if variables are declared there.
-/
structure Grows (roles : List Role) (move : Move) : Prop where
  size_eq : move.after.frames.size = move.before.frames.size + move.made.length
  grows : move.before.frames.Grows move.after.frames
  gains : ∀ frame : FrameId, frame < move.before.frames.size →
    move.before.frames.length frame < move.after.frames.length frame →
      frame = move.before.current ∧ ∃ role, roles[frame]? = some role ∧ role.Declares

/-- A move that leaves all frames as long as they are. -/
theorem Grows.of_length_eq {roles : List Role} {before after : Machine}
    (size_eq : after.frames.size = before.frames.size)
    (grows : before.frames.Grows after.frames)
    (length_eq : ∀ frame, after.frames.length frame = before.frames.length frame) :
    Grows roles ⟨before, after, []⟩ :=
  ⟨size_eq, grows, fun frame _ longer => absurd (length_eq frame) (Nat.ne_of_gt longer)⟩

/--
Moves in a row, each of which begins where the one before it ends.  They lead from a machine whose
frames have these roles to another machine.
-/
inductive Run : List Role → Machine → List Move → Machine → Prop where
  | nil {roles : List Role} {machine : Machine} (has : machine.Has roles) :
    Run roles machine [] machine
  | cons {roles : List Role} {move : Move} {others : List Move} {last : Machine}
    (has : move.before.Has roles) (grows : move.Grows roles)
    (run : Run (roles ++ move.made) move.after others last) :
    Run roles move.before (move :: others) last

namespace Run

variable {roles : List Role} {first middle last : Machine} {moves others : List Move}

theorem has (run : Run roles first moves last) : first.Has roles := by
  cases run with
  | nil has => exact has
  | cons has _ _ => exact has

/-- The roles of the frames that are made come behind those of the others. -/
theorem has_last (run : Run roles first moves last) : last.Has (roles ++ moves.flatMap made) := by
  induction run with
  | nil has =>
    rw [List.flatMap_nil, List.append_nil]
    exact has
  | cons _ _ _ induction =>
    rw [List.flatMap_cons, ← List.append_assoc]
    exact induction

theorem append (run : Run roles first moves middle)
    (further : Run (roles ++ moves.flatMap made) middle others last) :
    Run roles first (moves ++ others) last := by
  induction run with
  | nil _ =>
    rw [List.flatMap_nil, List.append_nil] at further
    exact further
  | cons has grows _ induction =>
    rw [List.flatMap_cons, ← List.append_assoc] at further
    exact .cons has grows (induction further)

theorem before_eq {move : Move} (run : Run roles first (move :: moves) last) :
    move.before = first := by
  cases run
  rfl

theorem linked (run : Run roles first moves last) {index : Nat} {move next : Move}
    (here : moves[index]? = some move) (after : moves[index + 1]? = some next) :
    next.before = move.after := by
  induction run generalizing index with
  | nil _ => cases here
  | cons _ _ run induction =>
    cases index with
    | zero =>
      cases here
      obtain ⟨others, rfl⟩ := List.head?_eq_some_iff.mp (List.head?_eq_getElem?.trans after)
      exact run.before_eq
    | succ index => exact induction here after

/-- From any move on, moves in a row are moves in a row. -/
theorem drop (run : Run roles first moves last) {index : Nat} {move : Move}
    (here : moves[index]? = some move) :
    move.Grows (roles ++ (moves.take index).flatMap made) ∧
      Run (roles ++ (moves.take index).flatMap made) move.before (moves.drop index) last := by
  induction run generalizing index with
  | nil _ => cases here
  | cons has grows run induction =>
    cases index with
    | zero =>
      cases here
      rw [List.take_zero, List.flatMap_nil, List.append_nil]
      exact ⟨grows, .cons has grows run⟩
    | succ index =>
      rw [List.take_succ_cons, List.flatMap_cons, ← List.append_assoc]
      exact induction here

/-- Up to the end of any move, moves in a row are moves in a row. -/
theorem take (run : Run roles first moves last) {index : Nat} {move : Move}
    (here : moves[index]? = some move) : Run roles first (moves.take (index + 1)) move.after := by
  induction run generalizing index with
  | nil _ => cases here
  | cons has grows run induction =>
    cases index with
    | zero =>
      cases here
      exact .cons has grows (.nil run.has)
    | succ index => exact .cons has grows (induction here)

/-- Moves in a row add to frames as single moves do, and only where variables are declared. -/
theorem grows (run : Run roles first moves last) :
    first.frames.Grows last.frames ∧ ∀ (frame : FrameId) (role : Role),
      roles[frame]? = some role → ¬role.Declares →
        last.frames.length frame = first.frames.length frame := by
  induction run with
  | nil _ => exact ⟨.refl _, fun _ _ _ _ => rfl⟩
  | @cons roles move _ _ has grows _ induction =>
    refine ⟨grows.grows.trans induction.1, ?_⟩
    intro frame role isRole declaresNone
    have isFrame : frame < roles.length := (List.getElem?_eq_some_iff.mp isRole).1
    have still : (roles ++ move.made)[frame]? = some role := by
      rw [List.getElem?_append_left isFrame]
      exact isRole
    rw [induction.2 frame role still declaresNone]
    refine Nat.le_antisymm (Nat.not_lt.mp fun longer => ?_) (grows.grows.length_le frame)
    rw [has.length_eq] at isFrame
    obtain ⟨-, _, isOther, declares⟩ := grows.gains frame isFrame longer
    cases isRole.symm.trans isOther
    exact declaresNone declares

/-- A single move. -/
theorem single {move : Move} (has : move.before.Has roles) (grows : move.Grows roles)
    (hasThen : move.after.Has (roles ++ move.made)) : Run roles move.before [move] move.after :=
  .cons has grows (.nil hasThen)

end Run

end Move

namespace Machine.Has

variable {roles : List Role} {move : Move}

/-- After a move the frames have their roles, and new ones too. -/
theorem afterMove (has : move.before.Has roles) (grows : move.Grows roles)
    (inner : Role.root ∉ move.made)
    (runs : ∃ role, (roles ++ move.made)[move.after.current]? = some role ∧
      (role = .root ∨ role.Declares)) : move.after.Has (roles ++ move.made) := by
  constructor
  · rw [List.length_append, has.length_eq, grows.size_eq]
  · rw [List.getElem?_append_left (List.getElem?_eq_some_iff.mp has.root).1]
    exact has.root
  · intro frame isRoot
    by_cases exists_ : frame < roles.length
    · rw [List.getElem?_append_left exists_] at isRoot
      exact has.eq_root frame isRoot
    · rw [List.getElem?_append_right (Nat.le_of_not_lt exists_)] at isRoot
      exact absurd (List.mem_of_getElem? isRoot) inner
  · exact runs
  · -- A root with slots would be a frame in which variables are declared.
    have isFrame : Machine.root < move.before.frames.size := by
      rw [← has.length_eq]
      exact (List.getElem?_eq_some_iff.mp has.root).1
    by_contra gained
    have longer : move.before.frames.length Machine.root < move.after.frames.length Machine.root := by
      rw [has.empty]
      exact Nat.pos_of_ne_zero gained
    obtain ⟨-, role, isRole, declares⟩ := grows.gains Machine.root isFrame longer
    rw [has.root] at isRole
    cases isRole
    exact declares

/-- The same if the code goes on where it was. -/
theorem afterStep (has : move.before.Has roles) (grows : move.Grows roles)
    (inner : Role.root ∉ move.made) (current : move.after.current = move.before.current) :
    move.after.Has (roles ++ move.made) := by
  obtain ⟨role, isRole, runs⟩ := has.runs
  refine has.afterMove grows inner ⟨role, ?_, runs⟩
  rw [current, List.getElem?_append_left (List.getElem?_eq_some_iff.mp isRole).1]
  exact isRole

/-- Only another frame is the current one. -/
theorem enter {machine : Machine} (has : machine.Has roles) {frame : FrameId} {role : Role}
    (isRole : roles[frame]? = some role) (runs : role = .root ∨ role.Declares) :
    Machine.Has { machine with current := frame } roles :=
  ⟨has.length_eq, has.root, has.eq_root, ⟨role, isRole, runs⟩, has.empty⟩

end Machine.Has

/-- No frame changes but for the values of variables. -/
structure Machine.Stays (before after : Machine) : Prop where
  current : after.current = before.current
  size_eq : after.frames.size = before.frames.size
  grows : before.frames.Grows after.frames
  length_eq : ∀ frame, after.frames.length frame = before.frames.length frame

namespace Machine.Stays

variable {first second third : Machine}

theorem still (frames : second.frames = first.frames) (current : second.current = first.current) :
    first.Stays second := by
  constructor
  · exact current
  · rw [frames]
  · rw [frames]
    exact .refl _
  · exact fun frame => by rw [frames]

theorem trans (stays : first.Stays second) (further : second.Stays third) : first.Stays third := by
  constructor
  · exact further.current.trans stays.current
  · exact further.size_eq.trans stays.size_eq
  · exact stays.grows.trans further.grows
  · exact fun frame => (further.length_eq frame).trans (stays.length_eq frame)

theorem write (frame : FrameId) (index : Nat) (value : Value) :
    first.Stays { first with frames := first.frames.write frame index value } := by
  constructor
  · rfl
  · exact Frames.size_write _ _ _ _
  · exact Frames.grows_write _ _ _ _
  · exact fun other => Frames.length_write _ _ _ _ _

/-- It is a move by itself. -/
theorem run {roles : List Role} (stays : first.Stays second) (has : first.Has roles) :
    Move.Run roles first [⟨first, second, []⟩] second := by
  have grows : Move.Grows roles ⟨first, second, []⟩ :=
    .of_length_eq stays.size_eq stays.grows stays.length_eq
  exact .single has grows (has.afterStep grows List.not_mem_nil stays.current)

end Machine.Stays

namespace Step

variable {α β : Type} {step : Step α} {next : α → Step β} {result : α} {stop : Stop}
  {machine after' : Machine}

theorem after_of_ok (ends : step machine = .ok result after') : step.after machine = after' := by
  rw [after, ends]

theorem after_of_error (ends : step machine = .error stop after') :
    step.after machine = after' := by
  rw [after, ends]

theorem after_bind_ok (ends : step machine = .ok result after') :
    (step >>= next).after machine = (next result).after after' := by
  simp only [after, Bind.bind, EStateM.bind, ends]

theorem after_bind_error (ends : step machine = .error stop after') :
    (step >>= next).after machine = after' := by
  simp only [after, Bind.bind, EStateM.bind, ends]

end Step

/-- No frame changes in a step, however it ends, but for the values of variables. -/
def Step.Stays {α : Type} (step : Step α) : Prop :=
  ∀ machine : Machine, machine.Stays (step.after machine)

namespace Step.Stays

variable {α β : Type} {step : Step α} {next : α → Step β}

theorem bind (first : step.Stays) (rest : ∀ result, (next result).Stays) :
    (step >>= next).Stays := by
  intro machine
  have stays := first machine
  cases ends : step machine with
  | ok result after =>
    rw [after_of_ok ends] at stays
    rw [after_bind_ok ends]
    exact stays.trans (rest result after)
  | error stop after =>
    rw [after_of_error ends] at stays
    rw [after_bind_error ends]
    exact stays

/-- A step that leaves the frames alone. -/
theorem still (same : ∀ machine, (step.after machine).frames = machine.frames ∧
    (step.after machine).current = machine.current) : step.Stays :=
  fun machine => .still (same machine).1 (same machine).2

theorem pure (result : α) : (Pure.pure result : Step α).Stays :=
  still fun _ => ⟨rfl, rfl⟩

theorem get : (MonadState.get : Step Machine).Stays :=
  still fun _ => ⟨rfl, rfl⟩

theorem fail (line : Nat) (fault : RuntimeFault) : (Step.fail line fault : Step α).Stays :=
  still fun _ => ⟨rfl, rfl⟩

theorem outOfFuel : (throw .outOfFuel : Step α).Stays :=
  still fun _ => ⟨rfl, rfl⟩

theorem ofExcept (result : Except RuntimeError α) : (Step.ofExcept result).Stays := by
  cases result <;> exact still fun _ => ⟨rfl, rfl⟩

theorem print (text : String) : (Step.print text).Stays :=
  still fun _ => ⟨rfl, rfl⟩

theorem setGlobal (name : String) (slot : Slot Value) : (Step.setGlobal name slot).Stays :=
  still fun _ => ⟨rfl, rfl⟩

theorem freshId : Step.freshId.Stays :=
  still fun _ => ⟨rfl, rfl⟩

theorem setSlot (index : Nat) (value : Value) : (Step.setSlot index value).Stays :=
  fun machine => .write machine.current index value

theorem newInstance (ofClass : Class) : (Step.newInstance ofClass).Stays :=
  still fun _ => ⟨rfl, rfl⟩

theorem setField (target : Instance) (name : String) (value : Value) :
    (Step.setField target name value).Stays :=
  still fun _ => ⟨rfl, rfl⟩

theorem field? (target : Instance) (name : String) : (Step.field? target name).Stays := by
  apply still
  intro machine
  rw [Step.after, Step.field?_eq]
  exact ⟨rfl, rfl⟩

theorem checkArity (line expected given : Nat) : (Step.checkArity line expected given).Stays := by
  rw [Step.checkArity]
  split
  · exact fail line _
  · exact pure ()

theorem newClosure (frame : FrameId) (name : String) (behaviour : Behaviour) :
    (Step.newClosure frame name behaviour).Stays :=
  freshId.bind fun _ => pure _

theorem newMethods (frame : FrameId) (allowInitializer : Bool) (methods : List NamedFunction)
    (table : Table Closure) : (Step.newMethods frame allowInitializer methods table).Stays := by
  induction methods generalizing table with
  | nil => exact pure table
  | cons first others induction =>
    rcases first with ⟨name, definition⟩
    exact (newClosure frame name.text _).bind fun method => induction _

theorem readVariable (addresses : AddressTable) (id : Nat) (name : Name) :
    (Step.readVariable addresses id name).Stays := by
  apply still
  intro machine
  rw [Step.after, Step.readVariable_eq]
  cases slot? addresses id name.text machine with
  | none => exact ⟨rfl, rfl⟩
  | some slot => cases slot <;> exact ⟨rfl, rfl⟩

theorem assignVariable (addresses : AddressTable) (target : Reference) (value : Value) :
    (Step.assignVariable addresses target value).Stays := by
  intro machine
  rw [Step.after, Step.assignVariable_eq]
  cases addresses[target.id]? with
  | none =>
    dsimp only
    by_cases exists_ : machine.globals.contains target.name.text = true
    · rw [if_pos exists_]
      exact .still rfl rfl
    · rw [if_neg exists_]
      exact .still rfl rfl
  | some address =>
    dsimp only
    cases machine.frames.holder? machine.current address.depth address.slot with
    | none => exact .still rfl rfl
    | some holder => exact .write holder address.slot value

theorem superclass (addresses : AddressTable) (target : Option Reference) :
    (Step.superclass addresses target).Stays := by
  cases target with
  | none => exact pure none
  | some target =>
    apply (readVariable addresses target.id target.name).bind
    intro value
    cases value with
    | type superclass => exact pure _
    | _ => exact fail target.name.line _

end Step.Stays

/-! ## Traced steps -/

namespace Traced

variable {α β : Type}

/-- The moves that are made from a machine lead to the one in which the step ends. -/
def GrowsAt (roles : List Role) (machine : Machine) (traced : Traced α) : Prop :=
  machine.Has roles → Move.Run roles machine (traced.moves machine) (traced.step.after machine)

/-- The same from every machine. -/
def Grows (traced : Traced α) : Prop :=
  ∀ roles machine, traced.GrowsAt roles machine

/-! ### Laws -/

theorem GrowsAt.bind {roles : List Role} {machine : Machine} {first : Traced α}
    {next : α → Traced β} (grows : first.GrowsAt roles machine)
    (rest : ∀ result after, first.step machine = .ok result after →
      (next result).GrowsAt (roles ++ (first.moves machine).flatMap Move.made) after) :
    (first >>= next).GrowsAt roles machine := by
  intro has
  have run := grows has
  rw [Traced.step_bind]
  cases ends : first.step machine with
  | ok result after =>
    rw [Step.after_of_ok ends] at run
    rw [moves_bind_ok ends, Step.after_bind_ok ends]
    exact run.append (rest result after ends run.has_last)
  | error stop after =>
    rw [Step.after_of_error ends] at run
    rw [moves_bind_error ends, Step.after_bind_error ends]
    exact run

/-- A slot is added where variables are declared: code runs nowhere else but in the root. -/
theorem GrowsAt.newSlot {roles : List Role} {machine : Machine}
    (inner : machine.current ≠ Machine.root) (slot : Slot Value) :
    (plain (Step.newSlot slot)).GrowsAt roles machine := by
  intro has
  obtain ⟨role, isRole, runs⟩ := has.runs
  have declares : role.Declares := by
    rcases runs with rfl | declares
    · exact absurd (has.eq_root _ isRole) inner
    · exact declares
  have grows : Move.Grows roles ⟨machine, (Step.newSlot slot).after machine, []⟩ := by
    refine ⟨Frames.size_append _ _ _, Frames.grows_append _ _ _, ?_⟩
    intro frame _ longer
    have isCurrent : frame = machine.current := by
      by_contra isOther
      have same : ((Step.newSlot slot).after machine).frames.length frame =
          machine.frames.length frame := by
        show (machine.frames.append machine.current slot).length frame = _
        rw [Frames.length_append, if_neg fun both => isOther both.1]
        rfl
      exact absurd longer (Nat.not_lt_of_le (Nat.le_of_eq same))
    subst isCurrent
    exact ⟨rfl, role, isRole, declares⟩
  exact Move.Run.single has grows (has.afterStep grows List.not_mem_nil rfl)

namespace Grows

theorem bind {first : Traced α} {next : α → Traced β} (grows : first.Grows)
    (rest : ∀ result, (next result).Grows) : (first >>= next).Grows :=
  fun roles machine => (grows roles machine).bind fun result after _ => rest result _ after

theorem pure (result : α) : (Pure.pure result : Traced α).Grows :=
  fun _ _ has => .nil has

/-- A step in which no frame changes but for the values of variables. -/
theorem plain {step : Step α} (stays : step.Stays) : (Traced.plain step).Grows :=
  fun _ machine has => (stays machine).run has

theorem outOfFuel : (Traced.plain (throw .outOfFuel) : Traced α).Grows :=
  plain .outOfFuel

theorem fail (line : Nat) (fault : RuntimeFault) :
    (Traced.plain (Step.fail line fault) : Traced α).Grows :=
  plain (.fail line fault)

/-- What is done by code that is in a frame in which variables are declared. -/
theorem within {traced : Traced α} (grows : traced.Grows) {roles : List Role} {frame : FrameId}
    {role : Role} (isRole : roles[frame]? = some role) (declares : role.Declares)
    (machine : Machine) : (Traced.within frame traced).GrowsAt roles machine := by
  intro has
  have moves : ∀ {roles : List Role} {first : Machine} (last : FrameId),
      Move.Grows roles ⟨first, { first with current := last }, []⟩ :=
    fun _ => .of_length_eq rfl (.refl _) fun _ => rfl
  have inside := grows roles _ (has.enter isRole (.inr declares))
  have ended := inside.has_last
  obtain ⟨caller, isCaller, runs⟩ := has.runs
  have still : (roles ++ (traced.moves { machine with current := frame }).flatMap
      Move.made)[machine.current]? = some caller := by
    rw [List.getElem?_append_left (List.getElem?_eq_some_iff.mp isCaller).1]
    exact isCaller
  have leaves := Move.Run.single ended (moves machine.current)
    (by rw [List.append_nil]; exact ended.enter still runs)
  have enters := Move.Run.single has (moves frame)
    (by rw [List.append_nil]; exact has.enter isRole (.inr declares))
  have returned : (Step.within frame traced.step).after machine =
      { traced.step.after { machine with current := frame } with current := machine.current } := by
    rw [Step.after, Step.within, Step.after]
    cases traced.step { machine with current := frame } <;> rfl
  show Move.Run roles machine ([_] ++ (_ ++ [_])) ((Step.within frame traced.step).after machine)
  rw [returned]
  refine enters.append ?_
  rw [List.flatMap_singleton, List.append_nil]
  exact inside.append leaves

theorem newFrame {role : Role} (inner : role ≠ .root) (enclosing : FrameId)
    (values : List Value) : (newFrame role enclosing values).Grows := by
  intro roles machine has
  have grows : Move.Grows roles
      ⟨machine, (Step.newFrame enclosing values).after machine, [role]⟩ := by
    constructor
    · show Frames.size (values.foldl _ (machine.frames.addChild enclosing)) = _
      rw [Frames.foldl_define_size, Frames.size_addChild]
      rfl
    · exact (Frames.grows_addChild enclosing machine.frames).trans
        (Frames.grows_foldl_define _ values _)
    · intro frame isFrame longer
      have same : ((Step.newFrame enclosing values).after machine).frames.length frame =
          machine.frames.length frame := by
        show Array.size (Frames.slots (values.foldl _ (machine.frames.addChild enclosing)) _) = _
        rw [Frames.slots_addFrame_of_ne _ _ _ (Nat.ne_of_lt isFrame)]
        rfl
      exact absurd longer (Nat.not_lt_of_le (Nat.le_of_eq same))
  have isNew : Role.root ∉ [role] := by
    rw [List.mem_singleton]
    exact Ne.symm inner
  exact Move.Run.single has grows (has.afterStep grows isNew rfl)

/-- A frame that is made has its role. -/
theorem newFrame_bind {role : Role} (inner : role ≠ .root) (enclosing : FrameId)
    (values : List Value) {next : FrameId → Traced β}
    (rest : ∀ (frame : FrameId) (roles : List Role) (machine : Machine),
      roles[frame]? = some role → (next frame).GrowsAt roles machine) :
    (Traced.newFrame role enclosing values >>= next).Grows := by
  intro roles machine has
  refine (newFrame inner enclosing values roles machine).bind ?_ has
  rintro frame after ⟨⟩
  apply rest
  show (roles ++ [role])[machine.frames.size]? = some role
  rw [← has.length_eq, List.getElem?_concat_length]

/-- A name is declared, globally in the root and by a new slot elsewhere. -/
theorem declareName {slot : Slot Value} {globally : Traced β} {locally : Nat → Traced β}
    (growsGlobally : globally.Grows) (growsLocally : ∀ index, (locally index).Grows) :
    (do
      let isGlobal ← Traced.plain Step.inRoot
      if isGlobal then globally else Traced.plain (Step.newSlot slot) >>= locally).Grows := by
  intro roles machine
  have asks : (Traced.plain Step.inRoot).Grows := plain (Step.Stays.get.bind fun _ => .pure _)
  refine (asks roles machine).bind ?_
  rintro isGlobal after ⟨⟩
  cases isGlobal : machine.current == Machine.root with
  | true => exact growsGlobally _ machine
  | false =>
    refine GrowsAt.bind (.newSlot (ne_of_beq_false isGlobal) slot) ?_
    exact fun index after _ => growsLocally index _ after

end Grows

end Traced

end Lox
