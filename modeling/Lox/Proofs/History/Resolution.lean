import Lox.Proofs.History.Assignment
import Lox.Proofs.Session.Construction

/-!
# How properties are resolved

What a property of a value is, as it follows from what has been done: the field of an instance
is what it was last set to, and otherwise the nearest class that declares a method of this name
says what the property is.  A deed is right if it does what this says, and if the classes and
instances in it were made before.
-/

namespace Lox

/-! ## Methods and class methods -/

/-- What the methods of a class are for. -/
inductive MethodKind where
  /-- They are bound to instances. -/
  | ofInstances
  /-- They are called on the class itself. -/
  | ofClass

namespace MethodKind

/-- The methods of a kind that a class declares. -/
def table : MethodKind → ClassBody → Table Closure
  | ofInstances, body => body.methods
  | ofClass, body => body.classMethods

/-- The declarations of a kind among those of a class. -/
def choose (methods classMethods : List NamedFunction) : MethodKind → List NamedFunction
  | ofInstances => methods
  | ofClass => classMethods

/-- Whether methods of a kind may be initialisers. -/
def initialises : MethodKind → Bool
  | ofInstances => true
  | ofClass => false

end MethodKind

/-- The method of a kind in the nearest class that declares one. -/
def Class.find? (kind : MethodKind) (name : String) (type : Class) : Option Closure :=
  (type.own :: type.inherited).findSome? fun body => (kind.table body)[name]?

/-! ## What a history says -/

/-- The value that a deed sets a field of an instance to. -/
def Deed.set? (target : Instance) (name : String) : Deed → Option Value
  | .sets other field value => if other.id = target.id ∧ field = name then some value else none
  | _ => none

namespace History

/-- A class was made. -/
def Makes (history : History) (type : Class) : Prop :=
  ∃ methods classMethods, .makes type methods classMethods ∈ history

/-- A class or an instance was made. -/
def Knows (history : History) : Value → Prop
  | .type type => history.Makes type
  | .object target => .creates target ∈ history
  | _ => True

/-- The value that a field of an instance was last set to. -/
def lastSet? (target : Instance) (name : String) (history : History) : Option Value :=
  history.last? (Deed.set? target name)

/--
The method that a class finds under a name according to the declarations of classes: the last one
in the nearest class that declares one.
-/
inductive Finds (history : History) (kind : MethodKind) (name : String) :
    Class → Option Closure → Prop where
  | declared {type : Class} {methods classMethods : List NamedFunction} {method : Closure}
      {definition : Function} (made : .makes type methods classMethods ∈ history)
      (last : NamedFunction.IsLast name definition (kind.choose methods classMethods))
      (here : (kind.table type.own)[name]? = some method) (named : method.name = name)
      (behaviour : method.behaviour = .body definition (kind.initialises && name == "init")) :
      Finds history kind name type (some method)
  | inherited {type superclass : Class} {methods classMethods : List NamedFunction}
      {found : Option Closure} (made : .makes type methods classMethods ∈ history)
      (lacks : ∀ method ∈ kind.choose methods classMethods, method.name.text ≠ name)
      (extends_ : type.superclass? = some superclass)
      (further : Finds history kind name superclass found) : Finds history kind name type found
  | nowhere {type : Class} {methods classMethods : List NamedFunction}
      (made : .makes type methods classMethods ∈ history)
      (lacks : ∀ method ∈ kind.choose methods classMethods, method.name.text ≠ name)
      (extends_ : type.superclass? = none) : Finds history kind name type none

/-- How it ends to look up a property of a value. -/
inductive Resolves (history : History) (name : Name) (before : Machine) :
    Value → EStateM.Result Stop Machine Value → Prop where
  /-- A field is the value that it was last set to. -/
  | field {target : Instance} {value : Value}
      (set : history.lastSet? target name.text = some value) :
      Resolves history name before (.object target) (.ok value before)
  /-- A method is bound to the instance. -/
  | method {target : Instance} {method bound : Closure} {after : Machine}
      (unset : history.lastSet? target name.text = none)
      (finds : history.Finds .ofInstances name.text target.ofClass (some method))
      (isBound : bound.IsBound method target before after)
      (globals : after.globals = before.globals) (fields : after.fields = before.fields) :
      Resolves history name before (.object target) (.ok (.function bound) after)
  | noMethod {target : Instance} (unset : history.lastSet? target name.text = none)
      (finds : history.Finds .ofInstances name.text target.ofClass none) :
      Resolves history name before (.object target)
        (.error (.fault ⟨name.line, .undefinedProperty name.text⟩) before)
  /-- A class method is not bound. -/
  | classMethod {type : Class} {method : Closure}
      (finds : history.Finds .ofClass name.text type (some method)) :
      Resolves history name before (.type type) (.ok (.function method) before)
  | noClassMethod {type : Class} (finds : history.Finds .ofClass name.text type none) :
      Resolves history name before (.type type)
        (.error (.fault ⟨name.line, .undefinedProperty name.text⟩) before)
  /-- Other values have no properties. -/
  | plain {target : Value} (isPlain : target.IsPlain) :
      Resolves history name before target
        (.error (.fault ⟨name.line, .hasNoProperties⟩) before)

end History

/-! ## Right deeds -/

/--
A class is made after its superclass, with an identity greater than those of all classes before,
and with the methods that are declared last.
-/
structure Class.IsMade (past : History) (type : Class) (methods classMethods : List NamedFunction) :
    Prop where
  superclass : ∀ superclass, type.superclass? = some superclass → past.Makes superclass
  isNew : ∀ other, past.Makes other → other.own.id < type.own.id
  filled : ∀ kind : MethodKind, NamedFunction.Fill kind.initialises
    (kind.choose methods classMethods) (kind.table type.own)

/-- A deed is as it has to be after what was done before. -/
def Deed.IsRight (past : History) : Deed → Prop
  | .makes type methods classMethods => type.IsMade past methods classMethods
  | .creates target => past.Makes target.ofClass ∧ ∀ other, .creates other ∈ past →
      other.id < target.id
  | .sets target _ value => .creates target ∈ past ∧ past.Knows value
  | .accesses target name before ending => past.Knows target ∧
      past.Resolves name before target ending
  | .assigns _ _ => True

/-- All deeds are right. -/
def History.AreRight (history : History) : Prop :=
  ∀ past deed future, history = past ++ deed :: future → deed.IsRight past

namespace History

variable {past now history : History} {kind : MethodKind} {name : String} {type : Class}

theorem Makes.mono (makes : past.Makes type) (later : past <+: now) : now.Makes type := by
  rcases makes with ⟨methods, classMethods, member⟩
  exact ⟨methods, classMethods, later.subset member⟩

theorem Knows.mono {value : Value} (known : past.Knows value) (later : past <+: now) :
    now.Knows value := by
  cases value with
  | type type => exact Makes.mono known later
  | object target => exact later.subset known
  | _ => trivial

/-- Values that are neither classes nor instances are known. -/
theorem knows_plain {value : Value} (isPlain : value.IsPlain) : history.Knows value := by
  cases value with
  | type type => cases isPlain
  | object target => cases isPlain
  | _ => trivial

namespace AreRight

theorem nil : AreRight [] := by
  intro past deed future impossible
  simp at impossible

/-- Another right deed is done. -/
theorem concat (right : past.AreRight) {deed : Deed} (also : deed.IsRight past) :
    (past ++ [deed]).AreRight := by
  intro before other future same
  rcases List.eq_nil_or_concat future with rfl | ⟨between, last, rfl⟩
  · rcases List.append_inj' same rfl with ⟨rfl, isDeed⟩
    cases isDeed
    exact also
  · rw [List.concat_eq_append, ← List.cons_append, ← List.append_assoc] at same
    rcases List.append_inj' same rfl with ⟨rfl, -⟩
    exact right before other between rfl

variable (right : history.AreRight)
include right

/-- A deed is right after some of what was done. -/
theorem of_mem {deed : Deed} (member : deed ∈ history) :
    ∃ past, past <+: history ∧ deed.IsRight past := by
  rcases List.append_of_mem member with ⟨past, future, same⟩
  refine ⟨past, ?_, right past deed future same⟩
  rw [same]
  exact List.prefix_append _ _

/-- Of two deeds one is done before the other. -/
theorem compare {first second : Deed} (member : first ∈ history) (member' : second ∈ history) :
    first = second ∨ (∃ past, first ∈ past ∧ second.IsRight past) ∨
      ∃ past, second ∈ past ∧ first.IsRight past := by
  rcases List.append_of_mem member with ⟨past, future, same⟩
  rw [same] at member'
  rcases List.mem_append.mp member' with before | here
  · exact .inr (.inr ⟨past, before, right past first future same⟩)
  rcases List.mem_cons.mp here with rfl | after
  · exact .inl rfl
  · rcases List.append_of_mem after with ⟨between, rest, rfl⟩
    refine .inr (.inl ⟨past ++ first :: between, by simp, ?_⟩)
    apply right (past ++ first :: between) second rest
    rw [same, List.append_assoc, List.cons_append]

/-- Classes of one identity are one class. -/
theorem eq_of_id {other : Class} (makes : history.Makes type) (makes' : history.Makes other)
    (same : type.own.id = other.own.id) : type = other := by
  rcases makes with ⟨methods, classMethods, member⟩
  rcases makes' with ⟨methods', classMethods', member'⟩
  rcases right.compare member member' with equal | ⟨past, before, isRight⟩ | ⟨past, before, isRight⟩
  · cases equal
    rfl
  · exact absurd same (Nat.ne_of_lt (isRight.isNew type ⟨_, _, before⟩))
  · exact absurd same.symm (Nat.ne_of_lt (isRight.isNew other ⟨_, _, before⟩))

/-- Instances of one identity are one instance. -/
theorem eq_of_instance_id {first second : Instance} (creates : .creates first ∈ history)
    (creates' : .creates second ∈ history) (same : first.id = second.id) : first = second := by
  rcases right.compare creates creates' with equal | ⟨past, before, isRight⟩ |
    ⟨past, before, isRight⟩
  · cases equal
    rfl
  · exact absurd same (Nat.ne_of_lt (isRight.2 first before))
  · exact absurd same.symm (Nat.ne_of_lt (isRight.2 second before))

/-- The superclass of a class was made too, and before it. -/
theorem superclass {superclass : Class} (makes : history.Makes type)
    (extends_ : type.superclass? = some superclass) :
    history.Makes superclass ∧ superclass.own.id < type.own.id := by
  rcases makes with ⟨methods, classMethods, member⟩
  rcases right.of_mem member with ⟨past, earlier, isMade⟩
  have before := isMade.superclass superclass extends_
  exact ⟨before.mono earlier, isMade.isNew superclass before⟩

/-- From a class upwards identities only become smaller: no class extends itself. -/
theorem ids_descend (makes : history.Makes type) :
    ((type.own :: type.inherited).map ClassBody.id).Pairwise (· > ·) := by
  rcases type with ⟨own, inherited⟩
  induction inherited generalizing own with
  | nil => exact List.pairwise_singleton _ _
  | cons next others induction =>
    rcases right.superclass makes rfl with ⟨further, smaller⟩
    have above := induction next further
    refine List.pairwise_cons.mpr ⟨?_, above⟩
    intro id member
    rcases List.mem_cons.mp member with rfl | isOther
    · exact smaller
    · exact Nat.lt_trans ((List.pairwise_cons.mp above).1 id isOther) smaller

/-- A class declares the methods that are in its table. -/
theorem filled {methods classMethods : List NamedFunction}
    (made : .makes type methods classMethods ∈ history) (kind : MethodKind) :
    NamedFunction.Fill kind.initialises (kind.choose methods classMethods)
      (kind.table type.own) := by
  rcases right.of_mem made with ⟨past, -, isMade⟩
  exact isMade.filled kind

/-- What a class finds in tables follows from the declarations. -/
theorem finds_find? (makes : history.Makes type) (kind : MethodKind) (name : String) :
    history.Finds kind name type (type.find? kind name) := by
  rcases type with ⟨own, inherited⟩
  induction inherited generalizing own with
  | nil =>
    rcases makes with ⟨methods, classMethods, made⟩
    have fill := right.filled made kind
    cases here : (kind.table own)[name]? with
    | some method =>
      rcases fill.declared name method here with ⟨definition, last, named, behaviour⟩
      rw [Class.find?, List.findSome?_cons, here]
      exact .declared made last here named behaviour
    | none =>
      rw [Class.find?, List.findSome?_cons, here]
      exact .nowhere made (fill.absent name here) rfl
  | cons next others induction =>
    have further := induction next (right.superclass makes rfl).1
    rcases makes with ⟨methods, classMethods, made⟩
    have fill := right.filled made kind
    cases here : (kind.table own)[name]? with
    | some method =>
      rcases fill.declared name method here with ⟨definition, last, named, behaviour⟩
      rw [Class.find?, List.findSome?_cons, here]
      exact .declared made last here named behaviour
    | none =>
      rw [Class.find?, List.findSome?_cons, here]
      exact .inherited made (fill.absent name here) rfl further

/-- A class finds one method under a name, or none. -/
theorem finds_iff (makes : history.Makes type) {found : Option Closure} :
    history.Finds kind name type found ↔ found = type.find? kind name := by
  constructor
  · -- A name that is not declared is not in the table.
    have lacking : ∀ {type : Class} {methods classMethods : List NamedFunction},
        .makes type methods classMethods ∈ history →
        (∀ method ∈ kind.choose methods classMethods, method.name.text ≠ name) →
          (kind.table type.own)[name]? = none := by
      intro type methods classMethods made lacks
      cases here : (kind.table type.own)[name]? with
      | none => rfl
      | some method =>
        rcases (right.filled made kind).declared name method here with
          ⟨definition, ⟨before, own, after, same, named, -⟩, -⟩
        exact absurd named (lacks (.mk own definition) (by simp [same]))
    intro finds
    clear makes
    induction finds with
    | declared made last here => rw [Class.find?, List.findSome?_cons, here]
    | @inherited type superclass _ _ found made lacks extends_ _ induction =>
      have absent := lacking made lacks
      rcases type with ⟨own, _ | ⟨next, others⟩⟩
      · cases extends_
      · cases extends_
        show found = List.findSome? _ (own :: next :: others)
        rw [induction, List.findSome?_cons, absent]
        rfl
    | @nowhere type _ _ made lacks extends_ =>
      have absent := lacking made lacks
      rcases type with ⟨own, _ | ⟨next, others⟩⟩
      · rw [Class.find?, List.findSome?_cons, absent]
        rfl
      · cases extends_
  · rintro rfl
    exact right.finds_find? makes kind name

end AreRight

end History

end Lox
