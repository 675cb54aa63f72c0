import Lox.Machine.Evaluation
import Lox.Proofs.Lexical.Machine
import Mathlib.Data.List.Forall2
import Mathlib.Data.Option.Basic

/-!
# Values that differ in environments only

Two values are related if they are the same but for what their functions keep, where
another relation holds.  Operators cannot tell them apart.
-/

namespace Lox

variable {ε ε' : Type}

/-- What functions keep: their behaviour and the environments they were made in. -/
abbrev Keeping (ε ε' : Type) := Behaviour → ε → ε' → Prop

/-- Two functions that differ in what they keep. -/
structure Closure.Related (keeps : Keeping ε ε') (left : Closure ε) (right : Closure ε') :
    Prop where
  id : left.id = right.id
  name : left.name = right.name
  behaviour : left.behaviour = right.behaviour
  environment : keeps left.behaviour left.environment right.environment

/-- Two tables that define the same names. -/
def Table.Related {α β : Type} (related : α → β → Prop) (left : Table α) (right : Table β) :
    Prop :=
  ∀ name : String, Option.Rel related left[name]? right[name]?

theorem Table.Related.refl {α : Type} {related : α → α → Prop}
    (itself : ∀ entry, related entry entry) (table : Table α) :
    Table.Related related table table := by
  intro name
  cases table[name]? with
  | none => exact .none
  | some entry => exact .some (itself entry)

theorem Table.Related.contains_eq {α β : Type} {related : α → β → Prop} {left : Table α}
    {right : Table β} (same : Table.Related related left right) (name : String) :
    left.contains name = right.contains name := by
  have here := same name
  rw [Std.TreeMap.contains_eq_isSome_getElem?, Std.TreeMap.contains_eq_isSome_getElem?]
  revert here
  generalize left[name]? = found
  generalize right[name]? = found'
  rintro (_ | _) <;> rfl

/-- Two tables still define the same names after the same name is defined in them. -/
theorem Table.Related.insert {α β : Type} {related : α → β → Prop} {left : Table α}
    {right : Table β} (same : Table.Related related left right) (name : String) {first : α}
    {second : β} (here : related first second) :
    Table.Related related (left.insert name first) (right.insert name second) := by
  intro other
  rw [Std.TreeMap.getElem?_insert, Std.TreeMap.getElem?_insert]
  split
  · exact .some here
  · exact same other

theorem Table.related_empty {α β : Type} (related : α → β → Prop) :
    Table.Related related ∅ ∅ := by
  intro name
  simp

section

variable (functions methods : Keeping ε ε')

/-- Two class declarations; their instance methods may keep something else than functions. -/
structure ClassBody.Related (left : ClassBody ε) (right : ClassBody ε') : Prop where
  id : left.id = right.id
  name : left.name = right.name
  methods : Table.Related (Closure.Related methods) left.methods right.methods
  classMethods : Table.Related (Closure.Related functions) left.classMethods right.classMethods

/-- Two classes. -/
structure Class.Related (left : Class ε) (right : Class ε') : Prop where
  own : ClassBody.Related functions methods left.own right.own
  inherited : List.Forall₂ (ClassBody.Related functions methods) left.inherited right.inherited

/-- Two values. -/
inductive Value.Related : Value ε → Value ε' → Prop where
  | nil : Related .nil .nil
  | bool (value : Bool) : Related (.bool value) (.bool value)
  | number (value : Float) : Related (.number value) (.number value)
  | string (value : String) : Related (.string value) (.string value)
  | function {left right} (related : Closure.Related functions left right) :
      Related (.function left) (.function right)
  | type {left right} (related : Class.Related functions methods left right) :
      Related (.type left) (.type right)
  | object (id : Nat) {left right} (related : Class.Related functions methods left right) :
      Related (.object ⟨id, left⟩) (.object ⟨id, right⟩)

/-- Two variables. -/
inductive Slot.Related : Slot (Value ε) → Slot (Value ε') → Prop where
  | uninitialised : Related .uninitialised .uninitialised
  | initialised {left right} (related : Value.Related functions methods left right) :
      Related (.initialised left) (.initialised right)

/-- Two ends of a statement. -/
inductive Flow.Related : Flow ε → Flow ε' → Prop where
  | normal {left right} (related : Option.Rel (Value.Related functions methods) left right) :
      Related (.normal left) (.normal right)
  | returned {left right} (related : Value.Related functions methods left right) :
      Related (.returned left) (.returned right)
  | broken : Related .broken .broken

end

/-- Two machines, but for their local variables. -/
structure Machine.Related (functions methods : Keeping FrameId Lexical.Environment)
    (machine : Machine) (reference : Lexical.Machine) : Prop where
  globals : Table.Related (Slot.Related functions methods) machine.globals reference.globals
  fields_size : machine.fields.size = reference.fields.size
  fields : ∀ id : Nat, Option.Rel (Table.Related (Value.Related functions methods))
    machine.fields[id]? reference.fields[id]?
  nextId : machine.nextId = reference.nextId
  printed : machine.printed = reference.printed
  clock : machine.clock = reference.clock

/-! ## Classes -/

/-- In related lists the same is found. -/
theorem findSome?_related {α α' β β' : Type} {related : α → β → Prop} {related' : α' → β' → Prop}
    {find : α → Option α'} {find' : β → Option β'} {left : List α} {right : List β}
    (all : List.Forall₂ related left right)
    (same : ∀ first second, related first second →
      Option.Rel related' (find first) (find' second)) :
    Option.Rel related' (left.findSome? find) (right.findSome? find') := by
  induction all with
  | nil => exact .none
  | cons first _ induction =>
    rw [List.findSome?_cons, List.findSome?_cons]
    have here := same _ _ first
    revert here
    generalize find _ = found
    generalize find' _ = found'
    rintro (here | _)
    · exact .some here
    · exact induction

section

variable {functions methods : Keeping ε ε'}

namespace Class.Related

variable {left : Class ε} {right : Class ε'} (related : Class.Related functions methods left right)
include related

/-- The same method is found in related classes. -/
theorem method? (name : String) :
    Option.Rel (Closure.Related methods) (left.method? name) (right.method? name) := by
  apply findSome?_related (.cons related.own related.inherited)
  exact fun first second same => same.methods name

theorem classMethod? (name : String) :
    Option.Rel (Closure.Related functions) (left.classMethod? name) (right.classMethod? name) := by
  apply findSome?_related (.cons related.own related.inherited)
  exact fun first second same => same.classMethods name

end Class.Related

/-- A class extends another one in the same way. -/
theorem Class.related_extending {own : ClassBody ε} {own' : ClassBody ε'}
    (related : ClassBody.Related functions methods own own') {superclass : Option (Class ε)}
    {superclass' : Option (Class ε')}
    (inherited : Option.Rel (Class.Related functions methods) superclass superclass') :
    Class.Related functions methods (.extending own superclass) (.extending own' superclass') := by
  cases inherited with
  | none => exact ⟨related, .nil⟩
  | some further => exact ⟨related, .cons further.own further.inherited⟩

theorem Closure.Related.arity_eq {keeps : Keeping ε ε'} {left : Closure ε} {right : Closure ε'}
    (related : Closure.Related keeps left right) : left.arity = right.arity := by
  rw [Closure.arity, Closure.arity, related.behaviour]

theorem Class.Related.arity_eq {left : Class ε} {right : Class ε'}
    (related : Class.Related functions methods left right) : left.arity = right.arity := by
  have same := related.method? "init"
  rw [Class.arity, Class.arity, Class.initializer?, Class.initializer?]
  revert same
  generalize left.method? "init" = found
  generalize right.method? "init" = found'
  rintro (same | _)
  · exact same.arity_eq
  · rfl

/-! ## Operators -/

namespace Value.Related

variable {left second : Value ε} {right second' : Value ε'}

theorem ofLiteral (literal : Literal) :
    Value.Related functions methods (.ofLiteral literal) (.ofLiteral literal) := by
  cases literal <;> constructor

theorem isTruthy_eq (related : Value.Related functions methods left right) :
    left.isTruthy = right.isTruthy := by
  cases related <;> rfl

theorem display_eq (related : Value.Related functions methods left right) :
    left.display = right.display := by
  cases related with
  | function related => rw [Value.display, Value.display, related.name]
  | type related => exact related.own.name
  | object id related => exact congrArg (· ++ " instance") related.own.name
  | _ => rfl

theorem result_eq (related : Value.Related functions methods left right) :
    left.result = right.result := by
  have same := related.display_eq
  cases related with
  | string value => rfl
  | _ => exact same

theorem equals_eq (first : Value.Related functions methods left right)
    (other : Value.Related functions methods second second') :
    left.equals second = right.equals second' := by
  cases first with
  | function first =>
    cases other with
    | function other => rw [Value.equals, Value.equals, first.id, other.id]
    | _ => rfl
  | type first =>
    cases other with
    | type other => rw [Value.equals, Value.equals, first.own.id, other.own.id]
    | _ => rfl
  | _ => cases other <;> rfl

end Value.Related

/-- Two results that are related, or the same error. -/
inductive Except.Related {α β : Type} (related : α → β → Prop) :
    Except RuntimeError α → Except RuntimeError β → Prop where
  | ok {left right} (same : related left right) : Related related (.ok left) (.ok right)
  | error (error : RuntimeError) : Related related (.error error) (.error error)

variable {left second : Value ε} {right second' : Value ε'}

theorem expectNumber_eq (line : Nat) (related : Value.Related functions methods left right) :
    left.expectNumber line = right.expectNumber line := by
  cases related <;> rfl

/-- Unary operators do not look at environments. -/
theorem UnaryOp.apply_related (op : UnaryOp) (line : Nat)
    (related : Value.Related functions methods left right) :
    Except.Related (Value.Related functions methods) (op.apply line left) (op.apply line right) := by
  cases op with
  | negate =>
    simp only [UnaryOp.apply, expectNumber_eq line related]
    cases right.expectNumber line with
    | ok number => exact .ok (.number _)
    | error error => exact .error error
  | not =>
    rw [UnaryOp.apply, UnaryOp.apply, related.isTruthy_eq]
    exact .ok (.bool _)

theorem BinaryOp.applyNumbers_related (line : Nat) {operation : Float → Float → Value ε}
    {operation' : Float → Float → Value ε'}
    (same : ∀ first second, Value.Related functions methods (operation first second)
      (operation' first second))
    (first : Value.Related functions methods left right)
    (other : Value.Related functions methods second second') :
    Except.Related (Value.Related functions methods) (applyNumbers line operation left second)
      (applyNumbers line operation' right second') := by
  simp only [applyNumbers, expectNumber_eq line first, expectNumber_eq line other]
  cases right.expectNumber line with
  | error error => exact .error error
  | ok number =>
    cases second'.expectNumber line with
    | error error => exact .error error
    | ok number' => exact .ok (same number number')

theorem BinaryOp.applyDivide_related (line : Nat)
    (first : Value.Related functions methods left right)
    (other : Value.Related functions methods second second') :
    Except.Related (Value.Related functions methods) (applyDivide line left second)
      (applyDivide line right second') := by
  simp only [applyDivide, expectNumber_eq line first, expectNumber_eq line other]
  cases right.expectNumber line with
  | error error => exact .error error
  | ok number =>
    cases second'.expectNumber line with
    | error error => exact .error error
    | ok number' =>
      show Except.Related _ (if number' == 0 then _ else _) (if number' == 0 then _ else _)
      split
      · exact .error _
      · exact .ok (.number _)

theorem BinaryOp.applyAdd_related (line : Nat)
    (first : Value.Related functions methods left right)
    (other : Value.Related functions methods second second') :
    Except.Related (Value.Related functions methods) (applyAdd line left second)
      (applyAdd line right second') := by
  have display := first.display_eq
  have display' := other.display_eq
  cases first with
  | string value =>
    cases other <;> (simp only [applyAdd, display']; exact .ok (.string _))
  | number value =>
    cases other with
    | number => exact .ok (.number _)
    | string =>
      simp only [applyAdd, display]
      exact .ok (.string _)
    | _ => exact .error _
  | _ =>
    cases other with
    | string =>
      simp only [applyAdd, display]
      exact .ok (.string _)
    | _ => exact .error _

/-- Binary operators do not look at environments. -/
theorem BinaryOp.apply_related (op : BinaryOp) (line : Nat)
    (first : Value.Related functions methods left right)
    (other : Value.Related functions methods second second') :
    Except.Related (Value.Related functions methods) (op.apply line left second)
      (op.apply line right second') := by
  cases op with
  | add => exact applyAdd_related line first other
  | divide => exact applyDivide_related line first other
  | equal =>
    rw [BinaryOp.apply, BinaryOp.apply, first.equals_eq other]
    exact .ok (.bool _)
  | notEqual =>
    rw [BinaryOp.apply, BinaryOp.apply, first.equals_eq other]
    exact .ok (.bool _)
  | _ =>
    apply applyNumbers_related line _ first other
    intro number number'
    constructor

theorem LogicalOp.decides_eq (op : LogicalOp)
    (related : Value.Related functions methods left right) :
    op.decides left = op.decides right := by
  cases op with
  | or => exact related.isTruthy_eq
  | and => exact congrArg (!·) related.isTruthy_eq

/-! ## Flows -/

theorem Flow.Related.callResult {flow : Flow ε} {flow' : Flow ε'}
    (related : Flow.Related functions methods flow flow') :
    Value.Related functions methods flow.callResult flow'.callResult := by
  cases related with
  | returned related => exact related
  | _ => exact .nil

theorem Flow.Related.programResult {flow : Flow ε} {flow' : Flow ε'}
    (related : Flow.Related functions methods flow flow') :
    Option.Rel (Value.Related functions methods) flow.programResult flow'.programResult := by
  cases related with
  | normal related => exact related
  | _ => exact .none

end

/-! ## Weaker relations -/

section

variable {functions functions' methods methods' : Keeping ε ε'}

theorem Closure.Related.imp {keeps keeps' : Keeping ε ε'} {left : Closure ε} {right : Closure ε'}
    (weaker : ∀ behaviour environment environment', keeps behaviour environment environment' →
      keeps' behaviour environment environment') (related : Closure.Related keeps left right) :
    Closure.Related keeps' left right :=
  ⟨related.id, related.name, related.behaviour, weaker _ _ _ related.environment⟩

theorem optionRel_imp {α β : Type} {related related' : α → β → Prop} {left : Option α}
    {right : Option β} (weaker : ∀ left right, related left right → related' left right)
    (same : Option.Rel related left right) : Option.Rel related' left right := by
  cases same with
  | none => exact .none
  | some same => exact .some (weaker _ _ same)

theorem optionRel_bind {α α' β β' : Type} {related : α → β → Prop} {related' : α' → β' → Prop}
    {next : α → Option α'} {next' : β → Option β'} {left : Option α} {right : Option β}
    (same : Option.Rel related left right)
    (rest : ∀ first second, related first second →
      Option.Rel related' (next first) (next' second)) :
    Option.Rel related' (left >>= next) (right >>= next') := by
  cases same with
  | none => exact .none
  | some same => exact rest _ _ same

variable
  (functionsWeaker : ∀ behaviour environment environment',
    functions behaviour environment environment' → functions' behaviour environment environment')
  (methodsWeaker : ∀ behaviour environment environment',
    methods behaviour environment environment' → methods' behaviour environment environment')
include functionsWeaker methodsWeaker

theorem ClassBody.Related.imp {left : ClassBody ε} {right : ClassBody ε'}
    (related : ClassBody.Related functions methods left right) :
    ClassBody.Related functions' methods' left right := by
  constructor
  · exact related.id
  · exact related.name
  · exact fun name => optionRel_imp (fun _ _ same => same.imp methodsWeaker) (related.methods name)
  · exact fun name =>
      optionRel_imp (fun _ _ same => same.imp functionsWeaker) (related.classMethods name)

theorem Class.Related.imp {left : Class ε} {right : Class ε'}
    (related : Class.Related functions methods left right) :
    Class.Related functions' methods' left right :=
  ⟨related.own.imp functionsWeaker methodsWeaker,
    related.inherited.imp fun _ _ same => same.imp functionsWeaker methodsWeaker⟩

theorem Value.Related.imp {left : Value ε} {right : Value ε'}
    (related : Value.Related functions methods left right) :
    Value.Related functions' methods' left right := by
  cases related with
  | nil => exact .nil
  | bool => exact .bool _
  | number => exact .number _
  | string => exact .string _
  | function related => exact .function (related.imp functionsWeaker)
  | type related => exact .type (related.imp functionsWeaker methodsWeaker)
  | object id related => exact .object id (related.imp functionsWeaker methodsWeaker)

theorem Slot.Related.imp {left : Slot (Value ε)} {right : Slot (Value ε')}
    (related : Slot.Related functions methods left right) :
    Slot.Related functions' methods' left right := by
  cases related with
  | uninitialised => exact .uninitialised
  | initialised related => exact .initialised (related.imp functionsWeaker methodsWeaker)

end

theorem Machine.Related.imp {functions functions' methods methods' :
    Keeping FrameId Lexical.Environment}
    (functionsWeaker : ∀ behaviour environment environment',
      functions behaviour environment environment' → functions' behaviour environment environment')
    (methodsWeaker : ∀ behaviour environment environment',
      methods behaviour environment environment' → methods' behaviour environment environment')
    {machine : Machine} {reference : Lexical.Machine}
    (related : machine.Related functions methods reference) :
    machine.Related functions' methods' reference := by
  constructor
  · exact fun name => optionRel_imp (fun _ _ same => same.imp functionsWeaker methodsWeaker)
      (related.globals name)
  · exact related.fields_size
  · exact fun id => optionRel_imp
      (fun _ _ table name => optionRel_imp
        (fun _ _ same => same.imp functionsWeaker methodsWeaker) (table name))
      (related.fields id)
  · exact related.nextId
  · exact related.printed
  · exact related.clock

end Lox
