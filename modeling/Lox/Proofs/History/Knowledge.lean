import Lox.Proofs.History.Resolution

/-!
# What a history says about a machine

The fields of a machine are what they were last set to, and identities are given away once.  This
is an invariant of everything that is done (`Invariant.described`), so all deeds of a program are
right, in particular all accesses of properties.
-/

namespace Lox

/-- All deeds of a history are right, and it says what the fields of a machine are. -/
structure History.Describes (history : History) (machine : Machine) : Prop where
  right : history.AreRight
  fields : ∀ (target : Instance) (name : String),
    machine.fields[target.id]?.bind (·[name]?) = history.lastSet? target name
  created : ∀ target, .creates target ∈ history → target.id < machine.fields.size
  made : ∀ type, history.Makes type → type.own.id < machine.nextId

namespace History

/-- What was done before is what was done, unless it is done now. -/
theorem mem_concat {past : History} {first last : Deed} :
    first ∈ past ++ [last] ↔ first ∈ past ∨ first = last := by
  rw [List.mem_append, List.mem_singleton]

theorem makes_concat {past : History} {deed : Deed} {type : Class} :
    (past ++ [deed]).Makes type ↔
      past.Makes type ∨ ∃ methods classMethods, deed = .makes type methods classMethods := by
  constructor
  · rintro ⟨methods, classMethods, member⟩
    rcases mem_concat.mp member with before | rfl
    · exact .inl ⟨methods, classMethods, before⟩
    · exact .inr ⟨methods, classMethods, rfl⟩
  · rintro (before | ⟨methods, classMethods, rfl⟩)
    · exact before.mono (List.prefix_append _ _)
    · exact ⟨methods, classMethods, mem_concat.mpr (.inr rfl)⟩

/-- A field that is not set is what it was. -/
theorem lastSet?_append {target : Instance} {name : String} (past : History) {deeds : History}
    (unset : ∀ deed ∈ deeds, deed.set? target name = none) :
    (past ++ deeds).lastSet? target name = past.lastSet? target name := by
  rw [lastSet?, last?_append, last?_eq_none unset]
  rfl

/-- A class has methods for a value: it is the value, or the value is an instance of it. -/
inductive Serves : Class → Value → Prop where
  | itself (type : Class) : Serves type (.type type)
  | instance_ (target : Instance) : Serves target.ofClass (.object target)

/-- A class that has methods for a known value was made. -/
theorem AreRight.makes_of_serves {past : History} (right : past.AreRight) {type : Class}
    {target : Value} (serves : Serves type target) (known : past.Knows target) :
    past.Makes type := by
  cases serves with
  | itself => exact known
  | instance_ target =>
    rcases right.of_mem known with ⟨earlier, isEarlier, isRight⟩
    exact isRight.1.mono isEarlier

/-- What is said of fields and methods decides how properties are resolved. -/
theorem Resolves.imp {first second : History} {name : Name} {before : Machine} {target : Value}
    {ending : EStateM.Result Stop Machine Value}
    (resolves : first.Resolves name before target ending)
    (fields : ∀ object, target = .object object →
      first.lastSet? object name.text = second.lastSet? object name.text)
    (methods : ∀ kind type found, Serves type target →
      first.Finds kind name.text type found → second.Finds kind name.text type found) :
    second.Resolves name before target ending := by
  cases resolves with
  | field set => exact .field ((fields _ rfl).symm.trans set)
  | method unset finds isBound globals unchanged =>
    exact .method ((fields _ rfl).symm.trans unset) (methods _ _ _ (.instance_ _) finds) isBound
      globals unchanged
  | noMethod unset finds =>
    exact .noMethod ((fields _ rfl).symm.trans unset) (methods _ _ _ (.instance_ _) finds)
  | classMethod finds => exact .classMethod (methods _ _ _ (.itself _) finds)
  | noClassMethod finds => exact .noClassMethod (methods _ _ _ (.itself _) finds)
  | plain isPlain => exact .plain isPlain

/-- Whatever else is done, a property of a known value resolves as before, unless it is set. -/
theorem AreRight.resolves_append_iff {past deeds : History} (right : (past ++ deeds).AreRight)
    (rightPast : past.AreRight) {target : Value} (known : past.Knows target) {name : Name}
    (unset : ∀ object, target = .object object → ∀ deed ∈ deeds,
      deed.set? object name.text = none) {before : Machine}
    {ending : EStateM.Result Stop Machine Value} :
    (past ++ deeds).Resolves name before target ending ↔
      past.Resolves name before target ending := by
  have fields : ∀ object, target = .object object →
      (past ++ deeds).lastSet? object name.text = past.lastSet? object name.text :=
    fun object same => lastSet?_append past (unset object same)
  have methods : ∀ kind type found, Serves type target →
      ((past ++ deeds).Finds kind name.text type found ↔
        past.Finds kind name.text type found) := by
    intro kind type found serves
    have makes := rightPast.makes_of_serves serves known
    rw [rightPast.finds_iff makes, right.finds_iff (makes.mono (List.prefix_append _ _))]
  constructor
  · intro resolves
    exact resolves.imp fields fun kind type found serves => (methods kind type found serves).mp
  · intro resolves
    exact resolves.imp (fun object same => (fields object same).symm)
      fun kind type found serves => (methods kind type found serves).mpr

namespace Describes

variable {past : History} {machine : Machine} (describes : past.Describes machine)
include describes

theorem congr {after : Machine} (fields : after.fields = machine.fields)
    (nextId : machine.nextId ≤ after.nextId) : past.Describes after := by
  constructor
  · exact describes.right
  · rw [fields]
    exact describes.fields
  · rw [fields]
    exact describes.created
  · exact fun type makes => Nat.lt_of_lt_of_le (describes.made type makes) nextId

/-- A right deed that neither makes classes or instances nor sets fields. -/
theorem other {deed : Deed} (right : deed.IsRight past)
    (notMakes : ∀ type methods classMethods, deed ≠ .makes type methods classMethods)
    (notCreates : ∀ target, deed ≠ .creates target)
    (notSets : ∀ target name, deed.set? target name = none) : (past ++ [deed]).Describes machine := by
  constructor
  · exact describes.right.concat right
  · intro target name
    rw [lastSet?_append past fun other member => List.mem_singleton.mp member ▸ notSets target name]
    exact describes.fields target name
  · intro target member
    rcases mem_concat.mp member with before | same
    · exact describes.created target before
    · exact absurd same.symm (notCreates target)
  · intro type makes
    rcases makes_concat.mp makes with before | ⟨methods, classMethods, same⟩
    · exact describes.made type before
    · exact absurd same (notMakes type methods classMethods)

/-- A class is made whose superclass was made before. -/
theorem makes {name : String} {superclass : Option Class}
    (known : ∀ type ∈ superclass, past.Makes type) {methods classMethods : List NamedFunction}
    {table classTable : Table Closure} (filled : NamedFunction.Fill true methods table)
    (classFilled : NamedFunction.Fill false classMethods classTable) {type : Class}
    (same : type = .extending ⟨machine.nextId, name, table, classTable⟩ superclass) :
    History.Describes (past ++ [.makes type methods classMethods])
      { machine with nextId := machine.nextId + 1 } := by
  have own : type.own = ⟨machine.nextId, name, table, classTable⟩ := by
    rw [same]
    cases superclass <;> rfl
  have isMade : type.IsMade past methods classMethods := by
    constructor
    · intro found extends_
      rw [same, Class.superclass?_extending] at extends_
      exact known found extends_
    · intro other makes
      rw [own]
      exact describes.made other makes
    · intro kind
      rw [own]
      cases kind with
      | ofInstances => exact filled
      | ofClass => exact classFilled
  constructor
  · exact describes.right.concat isMade
  · intro target name
    rw [lastSet?_append past fun other member => List.mem_singleton.mp member ▸ rfl]
    exact describes.fields target name
  · intro target member
    rcases mem_concat.mp member with before | impossible
    · exact describes.created target before
    · cases impossible
  · intro other makes
    rcases makes_concat.mp makes with before | ⟨_, _, isMade⟩
    · exact Nat.lt_succ_of_lt (describes.made other before)
    · cases isMade
      rw [own]
      exact Nat.lt_succ_self _

/-- An instance of a class is made that was made before. -/
theorem creates {ofClass : Class} (known : past.Makes ofClass) :
    History.Describes (past ++ [.creates ⟨machine.fields.size, ofClass⟩])
      { machine with fields := machine.fields.push ∅ } := by
  constructor
  · exact describes.right.concat ⟨known, describes.created⟩
  · intro target name
    rw [lastSet?_append past fun other member => List.mem_singleton.mp member ▸ rfl,
      ← describes.fields target name]
    dsimp only
    rw [Array.getElem?_push]
    split
    · next isNew =>
      rw [isNew, Array.getElem?_eq_none (Nat.le_refl _)]
      simp
    · rfl
  · intro target member
    dsimp only
    rw [Array.size_push]
    rcases mem_concat.mp member with before | isNew
    · exact Nat.lt_succ_of_lt (describes.created target before)
    · cases isNew
      exact Nat.lt_succ_self _
  · intro type makes
    rcases makes_concat.mp makes with before | ⟨_, _, impossible⟩
    · exact describes.made type before
    · cases impossible

/-- A field is set of an instance that was made before. -/
theorem sets {target : Instance} (known : .creates target ∈ past) (name : String) {value : Value}
    (knownValue : past.Knows value) :
    History.Describes (past ++ [.sets target name value])
      { machine with fields := machine.fields.modify target.id (·.insert name value) } := by
  constructor
  · exact describes.right.concat ⟨known, knownValue⟩
  · intro other field
    have before := describes.fields other field
    dsimp only
    rw [lastSet?, last?_append, last?_singleton, Deed.set?, Array.getElem?_modify]
    by_cases same : target.id = other.id
    · have isInstance := describes.created target known
      have exists_ : machine.fields[target.id]? = some machine.fields[target.id] :=
        Array.getElem?_eq_getElem isInstance
      rw [← same, exists_] at before
      rw [if_pos same, ← same, exists_, Option.map_some, Option.bind_some,
        Std.TreeMap.getElem?_insert]
      by_cases isField : name = field
      · rw [if_pos (by rw [isField]; exact Std.ReflCmp.compare_self), if_pos ⟨rfl, isField⟩]
        rfl
      · rw [if_neg fun equal => isField (Std.LawfulEqCmp.eq_of_compare equal),
          if_neg fun both => isField both.2, Option.none_or]
        exact before
    · rw [if_neg same, if_neg fun both => same both.1, Option.none_or]
      exact before
  · intro other member
    dsimp only
    rw [Array.size_modify]
    rcases mem_concat.mp member with before | impossible
    · exact describes.created other before
    · cases impossible
  · intro type makes
    rcases makes_concat.mp makes with before | ⟨_, _, impossible⟩
    · exact describes.made type before
    · cases impossible

/-- Looking up a property of a known value ends as the history says. -/
theorem resolves_property {target : Value} (known : past.Knows target) (name : Name) :
    past.Resolves name machine target (Step.property target name machine) := by
  cases target with
  | object target =>
    have makes := describes.right.makes_of_serves (.instance_ target) known
    have finds := describes.right.finds_find? makes .ofInstances name.text
    have fields := describes.fields target name.text
    show past.Resolves name machine _ (EStateM.bind _ _ machine)
    rw [EStateM.bind, Step.field?_eq, fields]
    cases set : past.lastSet? target name.text with
    | some value => exact .field set
    | none =>
      dsimp only
      cases found : target.ofClass.method? name.text with
      | none => exact .noMethod set (found ▸ finds)
      | some method =>
        rcases Step.bindMethod_isBound target method machine with ⟨bound, after, taken, isBound⟩
        have unchanged : after.globals = machine.globals ∧ after.fields = machine.fields := by
          cases taken
          exact ⟨rfl, rfl⟩
        show past.Resolves name machine _ (EStateM.bind _ _ machine)
        rw [EStateM.bind, taken]
        exact .method set (found ▸ finds) isBound unchanged.1 unchanged.2
  | type type =>
    have finds := describes.right.finds_find? known .ofClass name.text
    rw [Step.property.eq_def]
    dsimp only
    cases found : type.classMethod? name.text with
    | none => exact .noClassMethod (found ▸ finds)
    | some method => exact .classMethod (found ▸ finds)
  | _ => exact .plain trivial

end Describes

end History

/-- A history that describes a machine goes on describing it. -/
def Invariant.described : Invariant where
  Holds := History.Describes
  Knows := History.Knows
  DeclaresGlobals := True
  grows later known := known.mono later
  plain isPlain := History.knows_plain isPlain
  congr describes _ fields nextId := describes.congr fields nextId
  declares _ describes _ _ := describes.congr rfl (Nat.le_refl _)
  assigns describes _ _ := by
    refine (describes.other ?_ ?_ ?_ ?_).congr rfl (Nat.le_refl _)
    · trivial
    · exact fun _ _ _ impossible => by cases impossible
    · exact fun _ impossible => by cases impossible
    · exact fun _ _ => rfl
  makes describes _ _ known _ _ _ _ filled classFilled _ same := by
    refine ⟨describes.makes known filled classFilled same, ?_⟩
    exact ⟨_, _, History.mem_concat.mpr (.inr rfl)⟩
  creates describes _ known :=
    ⟨describes.creates known, History.mem_concat.mpr (.inr rfl)⟩
  sets describes _ known name _ knownValue := describes.sets known name knownValue
  accesses describes _ known name := by
    refine describes.other ⟨known, describes.resolves_property known name⟩ ?_ ?_ ?_
    · exact fun _ _ _ impossible => by cases impossible
    · exact fun _ impossible => by cases impossible
    · exact fun _ _ => rfl

end Lox
