import Lox.Proofs.History.Evaluation
import Lox.Proofs.History.Method
import Lox.Proofs.Machine.Agreement
import Lox.Proofs.Machine.Current
import Lox.Proofs.Machine.Values
import Lox.Proofs.Receiver.Declarations

/-!
# Invariants of histories

What is known of a machine and of the values in it, given what has been done.  An invariant says
what each deed does to this; frames, and steps that only read, do not concern it.
-/

namespace Lox

/-- A value is neither a class nor an instance. -/
def Value.IsPlain : Value → Prop
  | .type _ => False
  | .object _ => False
  | _ => True

theorem Value.isPlain_ofLiteral (literal : Literal) : (Value.ofLiteral literal).IsPlain := by
  cases literal <;> trivial

/-- What is known of machines and values, and is kept by everything that is done. -/
structure Invariant where
  /-- What is known of a machine, apart from the values in it. -/
  Holds : History → Machine → Prop
  /-- What is known of a value. -/
  Knows : History → Value → Prop
  /-- Whether the code in the root may declare variables. -/
  DeclaresGlobals : Prop
  grows {past now : History} {value : Value} (later : past <+: now) (known : Knows past value) :
    Knows now value
  plain {past : History} {value : Value} (isPlain : value.IsPlain) : Knows past value
  congr {past : History} {before after : Machine} (holds : Holds past before)
    (globals : after.globals = before.globals) (fields : after.fields = before.fields)
    (nextId : before.nextId ≤ after.nextId) : Holds past after
  declares {past : History} {machine : Machine} (may : DeclaresGlobals)
    (holds : Holds past machine) (name : String) (slot : Slot Value) :
    Holds past { machine with globals := machine.globals.insert name slot }
  assigns {past : History} {machine : Machine} (holds : Holds past machine) (name : String)
    (value : Value) :
    Holds (past ++ [.assigns name value])
      { machine with globals := machine.globals.insert name (.initialised value) }
  makes {past : History} {machine : Machine} (holds : Holds past machine) (name : String)
    {superclass : Option Class} (known : ∀ type ∈ superclass, Knows past (.type type))
    {methods classMethods : List NamedFunction} {table classTable : Table Closure}
    (filled : NamedFunction.Fill true methods table)
    (classFilled : NamedFunction.Fill false classMethods classTable) (type : Class)
    (same : type = .extending ⟨machine.nextId, name, table, classTable⟩ superclass) :
    Holds (past ++ [.makes type methods classMethods])
        { machine with nextId := machine.nextId + 1 } ∧
      Knows (past ++ [.makes type methods classMethods]) (.type type)
  creates {past : History} {machine : Machine} (holds : Holds past machine) {ofClass : Class}
    (known : Knows past (.type ofClass)) :
    Holds (past ++ [.creates ⟨machine.fields.size, ofClass⟩])
        { machine with fields := machine.fields.push ∅ } ∧
      Knows (past ++ [.creates ⟨machine.fields.size, ofClass⟩])
        (.object ⟨machine.fields.size, ofClass⟩)
  sets {past : History} {machine : Machine} (holds : Holds past machine) {target : Instance}
    (known : Knows past (.object target)) (name : String) {value : Value}
    (knownValue : Knows past value) :
    Holds (past ++ [.sets target name value])
      { machine with fields := machine.fields.modify target.id (·.insert name value) }
  accesses {past : History} {machine : Machine} (holds : Holds past machine) {target : Value}
    (known : Knows past target) (name : Name) :
    Holds (past ++ [.accesses target name machine (Step.property target name machine)]) machine

namespace Invariant

/-- The invariant holds of a machine, and the values in it are known. -/
structure Covers (invariant : Invariant) (past : History) (machine : Machine) : Prop where
  holds : invariant.Holds past machine
  values : machine.Values (invariant.Knows past)

variable {invariant : Invariant} {past now : History} {machine after : Machine}

/-- Of values in a machine more is known later. -/
theorem valuesLater (values : machine.Values (invariant.Knows past)) (later : past <+: now) :
    machine.Values (invariant.Knows now) :=
  values.imp fun _ known => invariant.grows later known

/-- Neither variables nor fields change. -/
theorem Covers.congr (covers : invariant.Covers past machine)
    (frames : after.frames = machine.frames) (globals : after.globals = machine.globals)
    (fields : after.fields = machine.fields) (nextId : machine.nextId ≤ after.nextId) :
    invariant.Covers past after :=
  ⟨invariant.congr covers.holds globals fields nextId, covers.values.congr frames globals fields⟩

/-- All of some values are known. -/
def KnowsAll (invariant : Invariant) (past : History) (values : List Value) : Prop :=
  ∀ value ∈ values, invariant.Knows past value

/-- A value that is returned is known. -/
def KnowsFlow (invariant : Invariant) (past : History) : Flow → Prop
  | .returned value => invariant.Knows past value
  | _ => True

/-- What a call yields is known. -/
theorem knows_callResult {flow : Flow} (known : invariant.KnowsFlow past flow) :
    invariant.Knows past flow.callResult := by
  cases flow with
  | returned value => exact known
  | _ => exact invariant.plain trivial

/-- The slot of a variable has no value, or a known one. -/
def KnowsSlot (invariant : Invariant) (past : History) (slot : Slot Value) : Prop :=
  ∀ value, slot = .initialised value → invariant.Knows past value

theorem knowsSlot_uninitialised : invariant.KnowsSlot past .uninitialised :=
  fun _ impossible => by cases impossible

theorem knowsSlot_initialised {value : Value} (known : invariant.Knows past value) :
    invariant.KnowsSlot past (.initialised value) := by
  rintro other ⟨⟩
  exact known

/-- In a frame code may declare variables. -/
def MayDeclare (invariant : Invariant) (frame : FrameId) : Prop :=
  frame = Machine.root → invariant.DeclaresGlobals

end Invariant

namespace Recorded

variable {α β : Type} {invariant : Invariant} {isReady : FrameId → Prop} {past now : History}
  {machine : Machine}

/-- How a step ends: the invariant holds again, and what the step yields has a property. -/
structure Takes (invariant : Invariant) (now : History) (machine : Machine)
    (recorded : Recorded α) (yields : History → α → Prop) : Prop where
  rests : machine.Rests (recorded.step.after machine)
  covers : invariant.Covers (now ++ recorded.deeds machine) (recorded.step.after machine)
  yields : ∀ result after, recorded.step machine = .ok result after →
    yields (now ++ recorded.deeds machine) result

/-- After a past, a step keeps the invariant in frames of a kind. -/
def Keeps (invariant : Invariant) (isReady : FrameId → Prop) (past : History)
    (recorded : Recorded α) (yields : History → α → Prop) : Prop :=
  ∀ now machine, past <+: now → machine.HasRoot → isReady machine.current →
    invariant.Covers now machine → recorded.Takes invariant now machine yields

/-! ## Laws -/

/-- Nothing is recorded of a quiet step. -/
theorem append_deeds_quiet (now : History) (step : Step α) (machine : Machine) :
    now ++ (quiet step).deeds machine = now :=
  List.append_nil now

/-- After a step another one is taken, unless the first one stops. -/
theorem Takes.bind {first : Recorded α} {next : α → Recorded β} {middle : History → α → Prop}
    {yields : History → β → Prop} (taken : first.Takes invariant now machine middle)
    (rest : ∀ result after, first.step machine = .ok result after →
      (next result).Takes invariant (now ++ first.deeds machine) after yields) :
    (first >>= next).Takes invariant now machine yields := by
  rcases taken with ⟨rests, covers, -⟩
  rw [Step.after] at rests covers
  cases ends : first.step machine with
  | ok result after =>
    rw [ends] at rests covers
    rcases rest result after ends with ⟨rests', covers', yields'⟩
    rw [Step.after] at rests' covers'
    constructor
    · rw [Step.after, step_bind_ok ends]
      exact rests.trans rests'
    · rw [Step.after, step_bind_ok ends, deeds_bind_ok ends, ← List.append_assoc]
      exact covers'
    · rw [step_bind_ok ends, deeds_bind_ok ends, ← List.append_assoc]
      exact yields'
  | error stop after =>
    rw [ends] at rests covers
    constructor
    · rw [Step.after, step_bind_error ends]
      exact rests
    · rw [Step.after, step_bind_error ends, deeds_bind_error ends]
      exact covers
    · rw [step_bind_error ends]
      intro result after impossible
      cases impossible

/-- A step that ends with a result leaves the machine after it. -/
theorem after_eq {step : Step α} {result : α} {after : Machine}
    (ends : step machine = .ok result after) : step.after machine = after := by
  rw [Step.after, ends]

namespace Keeps

variable {first : Recorded α} {next : α → Recorded β} {middle : History → α → Prop}
  {yields : History → β → Prop} {step : Step α}

theorem bind (kept : first.Keeps invariant isReady past middle)
    (rest : ∀ now result, past <+: now → middle now result →
      (next result).Keeps invariant isReady now yields) :
    (first >>= next).Keeps invariant isReady past yields := by
  intro now machine later hasRoot ready covers
  have taken := kept now machine later hasRoot ready covers
  refine taken.bind ?_
  intro result after ends
  rcases taken with ⟨rests, covers, yields⟩
  rw [after_eq ends] at rests covers
  refine rest _ result (later.trans (List.prefix_append _ _)) (yields result after ends) _ after
    (List.prefix_refl _) (rests.root hasRoot) ?_ covers
  rw [rests.current]
  exact ready

theorem pure {yields : History → α → Prop} {result : α}
    (yielded : ∀ now, past <+: now → yields now result) :
    (Pure.pure result : Recorded α).Keeps invariant isReady past yields := by
  intro now machine later _ _ covers
  have none : now ++ (Pure.pure result : Recorded α).deeds machine = now := List.append_nil now
  constructor
  · exact .refl machine
  · rw [none]
    exact covers
  · intro other after ends
    cases ends
    rw [none]
    exact yielded now later

/-- What a step yields may be known better. -/
theorem imp {middle weaker : History → α → Prop} (kept : first.Keeps invariant isReady past middle)
    (implies : ∀ now result, past <+: now → middle now result → weaker now result) :
    first.Keeps invariant isReady past weaker := by
  intro now machine later hasRoot ready covers
  rcases kept now machine later hasRoot ready covers with ⟨rests, covers, yields⟩
  refine ⟨rests, covers, ?_⟩
  intro result after ends
  exact implies _ result (later.trans (List.prefix_append _ _)) (yields result after ends)

/-- In another frame a step of another kind may be taken. -/
theorem within {frame : FrameId} {isInner : FrameId → Prop} {yields : History → α → Prop}
    (kept : first.Keeps invariant isInner past yields) (ready : isInner frame) :
    (within frame first).Keeps invariant isReady past yields := by
  intro now machine later hasRoot _ covers
  have inside := kept now { machine with current := frame } later (hasRoot.congr rfl) ready
    (covers.congr rfl rfl rfl (Nat.le_refl _))
  rcases inside with ⟨rests, covers, yields⟩
  have deeds : (Recorded.within frame first).deeds machine =
      first.deeds { machine with current := frame } := rfl
  rw [Step.after] at rests covers
  cases ends : first.step { machine with current := frame } with
  | ok result after =>
    have taken : (Recorded.within frame first).step machine =
        .ok result { after with current := machine.current } := by
      simp only [step_within, Step.within, ends]
    rw [ends] at rests covers
    constructor
    · rw [Step.after, taken]
      exact rests.within
    · rw [Step.after, taken, deeds]
      exact covers.congr rfl rfl rfl (Nat.le_refl _)
    · intro other ending same
      rw [taken] at same
      cases same
      rw [deeds]
      exact yields result after ends
  | error stop after =>
    have taken : (Recorded.within frame first).step machine =
        .error stop { after with current := machine.current } := by
      simp only [step_within, Step.within, ends]
    rw [ends] at rests covers
    constructor
    · rw [Step.after, taken]
      exact rests.within
    · rw [Step.after, taken, deeds]
      exact covers.congr rfl rfl rfl (Nat.le_refl _)
    · intro other ending same
      rw [taken] at same
      cases same

/-! ## Single steps -/

/-- A step after which the code goes on where it was. -/
theorem single {recorded : Recorded α} {yields : History → α → Prop}
    (restores : recorded.step.Restores)
    (covered : ∀ now machine, past <+: now → machine.HasRoot → invariant.Covers now machine →
      invariant.Covers (now ++ recorded.deeds machine) (recorded.step.after machine) ∧
      ∀ result after, recorded.step machine = .ok result after →
        yields (now ++ recorded.deeds machine) result) :
    recorded.Keeps invariant isReady past yields := by
  intro now machine later hasRoot _ covers
  rcases covered now machine later hasRoot covers with ⟨covers, yields⟩
  exact ⟨restores machine, covers, yields⟩

/-- A step of which nothing is recorded. -/
theorem quiet {yields : History → α → Prop} (restores : step.Restores)
    (covered : ∀ now machine, past <+: now → machine.HasRoot → invariant.Covers now machine →
      invariant.Covers now (step.after machine) ∧
      ∀ result after, step machine = .ok result after → yields now result) :
    (quiet step).Keeps invariant isReady past yields := by
  refine single restores ?_
  intro now machine
  rw [append_deeds_quiet]
  exact covered now machine

/-- A step that changes nothing. -/
theorem still {yields : History → α → Prop} (same : ∀ machine, step.after machine = machine)
    (yielded : ∀ now machine, past <+: now → invariant.Covers now machine →
      ∀ result after, step machine = .ok result after → yields now result) :
    (Recorded.quiet step).Keeps invariant isReady past yields := by
  apply quiet
  · intro machine
    rw [same]
    exact .refl machine
  · intro now machine later _ covers
    rw [same]
    exact ⟨covers, yielded now machine later covers⟩

theorem fail {yields : History → α → Prop} (line : Nat) (fault : RuntimeFault) :
    (Recorded.quiet (Step.fail line fault)).Keeps invariant isReady past yields :=
  still (fun _ => rfl) fun _ _ _ _ _ _ impossible => by cases impossible

theorem outOfFuel {yields : History → α → Prop} :
    (Recorded.quiet (throw .outOfFuel)).Keeps invariant isReady past yields :=
  still (fun _ => rfl) fun _ _ _ _ _ _ impossible => by cases impossible

theorem get : (Recorded.quiet MonadState.get).Keeps invariant isReady past
    fun now machine => machine.Values (invariant.Knows now) := by
  apply still (fun _ => rfl)
  intro now machine _ covers result after ends
  cases ends
  exact covers.values

/-- The results of operators are plain. -/
theorem ofExcept {result : Except RuntimeError Value}
    (constant : ∀ value, result = .ok value → ∃ literal, value = .ofLiteral literal) :
    (Recorded.quiet (Step.ofExcept result)).Keeps invariant isReady past invariant.Knows := by
  cases result with
  | ok result =>
    apply still (fun _ => rfl)
    intro now machine _ _ value after ends
    cases ends
    rcases constant result rfl with ⟨literal, rfl⟩
    exact invariant.plain (Value.isPlain_ofLiteral literal)
  | error error => exact still (fun _ => rfl) fun _ _ _ _ _ _ impossible => by cases impossible

end Keeps

end Recorded

end Lox
