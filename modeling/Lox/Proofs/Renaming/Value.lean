import Lox.Proofs.Lexical.Related
import Lox.Proofs.Renaming.Operator
import Lox.Proofs.Renaming.Tree
import Lox.Proofs.Tree.Made

/-!
# Machines whose programs are renamed

Two machines are variants of each other if they are the same but for the ids and the lines in
the definitions of their functions.  A variation also says which definitions there are, so that
`Machine.Varies` can carry what holds of all of them.
-/

namespace Lox

/-- How the definitions in two machines differ, and which definitions are in the first one. -/
structure Variation where
  change : Renaming
  allowed : Function → Prop
  /-- The functions that a function makes are there, too. -/
  closed : ∀ definition, allowed definition → Stmt.MakeAll allowed definition.body
  /-- What the second machine has printed before. -/
  earlier : Array String := #[]

/-- All definitions may be there. -/
def Renaming.variation (change : Renaming) : Variation where
  change := change
  allowed := fun _ => True
  closed := fun _ _ => Stmt.makeAll_of_forall (fun _ => trivial) _

/-- What a renamed function does. -/
def Behaviour.rename (change : Renaming) : Behaviour → Behaviour
  | .clock => .clock
  | .body definition isInitializer => .body (definition.rename change) isInitializer

/-- What a function does is among the definitions that are there. -/
def Behaviour.IsAllowed (allowed : Function → Prop) : Behaviour → Prop
  | .clock => True
  | .body definition _ => allowed definition

section

variable (variation : Variation)

/-- Two functions that differ in their definitions. -/
structure Closure.Varies (left right : Closure) : Prop where
  id : left.id = right.id
  name : left.name = right.name
  behaviour : right.behaviour = left.behaviour.rename variation.change
  allowed : left.behaviour.IsAllowed variation.allowed
  environment : left.environment = right.environment

/-- Two class declarations. -/
structure ClassBody.Varies (left right : ClassBody) : Prop where
  id : left.id = right.id
  name : left.name = right.name
  methods : Table.Related (Closure.Varies variation) left.methods right.methods
  classMethods : Table.Related (Closure.Varies variation) left.classMethods right.classMethods

/-- Two classes. -/
structure Class.Varies (left right : Class) : Prop where
  own : ClassBody.Varies variation left.own right.own
  inherited : List.Forall₂ (ClassBody.Varies variation) left.inherited right.inherited

/-- Two values. -/
inductive Value.Varies : Value → Value → Prop where
  | literal (value : Literal) : Varies (.ofLiteral value) (.ofLiteral value)
  | function {left right} (varies : Closure.Varies variation left right) :
      Varies (.function left) (.function right)
  | type {left right} (varies : Class.Varies variation left right) :
      Varies (.type left) (.type right)
  | object (id : Nat) {left right} (varies : Class.Varies variation left right) :
      Varies (.object ⟨id, left⟩) (.object ⟨id, right⟩)

/-- Two variables. -/
inductive Slot.Varies : Slot Value → Slot Value → Prop where
  | uninitialised : Varies .uninitialised .uninitialised
  | initialised {left right} (varies : Value.Varies variation left right) :
      Varies (.initialised left) (.initialised right)

/-- Two ends of a statement. -/
inductive Flow.Varies : Flow → Flow → Prop where
  | normal {left right} (varies : Option.Rel (Value.Varies variation) left right) :
      Varies (.normal left) (.normal right)
  | returned {left right} (varies : Value.Varies variation left right) :
      Varies (.returned left) (.returned right)
  | broken : Varies .broken .broken

end

variable {variation : Variation}

/-! ## Classes -/

namespace Class.Varies

variable {left right : Class} (varies : Class.Varies variation left right)
include varies

theorem method? (name : String) :
    Option.Rel (Closure.Varies variation) (left.method? name) (right.method? name) := by
  apply findSome?_related (.cons varies.own varies.inherited)
  exact fun first second same => same.methods name

theorem classMethod? (name : String) :
    Option.Rel (Closure.Varies variation) (left.classMethod? name) (right.classMethod? name) := by
  apply findSome?_related (.cons varies.own varies.inherited)
  exact fun first second same => same.classMethods name

end Class.Varies

/-- A class extends another one in the same way. -/
theorem Class.varies_extending {own own' : ClassBody} (varies : ClassBody.Varies variation own own')
    {superclass superclass' : Option Class}
    (inherited : Option.Rel (Class.Varies variation) superclass superclass') :
    Class.Varies variation (.extending own superclass) (.extending own' superclass') := by
  cases inherited with
  | none => exact ⟨varies, .nil⟩
  | some further => exact ⟨varies, .cons further.own further.inherited⟩

theorem Closure.Varies.arity_eq {left right : Closure}
    (varies : Closure.Varies variation left right) :
    left.arity = right.arity := by
  rw [Closure.arity, Closure.arity, varies.behaviour]
  cases left.behaviour with
  | clock => rfl
  | body definition isInitializer =>
    show definition.parameters.length = (definition.rename variation.change).parameters.length
    rw [Function.parameters_rename, List.length_map]

theorem Class.Varies.arity_eq {left right : Class} (varies : Class.Varies variation left right) :
    left.arity = right.arity := by
  have same := varies.method? "init"
  rw [Class.arity, Class.arity, Class.initializer?, Class.initializer?]
  revert same
  generalize left.method? "init" = found
  generalize right.method? "init" = found'
  rintro (same | _)
  · exact same.arity_eq
  · rfl

/-! ## Values -/

namespace Value.Varies

theorem nil : Value.Varies variation .nil .nil := .literal .nil

theorem number (value : Float) : Value.Varies variation (.number value) (.number value) :=
  .literal (.number value)

/-- Operators cannot tell the two values apart. -/
theorem alike {left right : Value} (varies : Value.Varies variation left right) :
    left.Alike right := by
  cases varies with
  | literal value => cases value <;> constructor
  | function varies => exact .function varies.id varies.name
  | type varies => exact .type varies.own.id varies.own.name
  | object id varies => exact .object rfl varies.own.name

end Value.Varies

theorem Flow.Varies.callResult {flow flow' : Flow} (varies : Flow.Varies variation flow flow') :
    Value.Varies variation flow.callResult flow'.callResult := by
  cases varies with
  | returned varies => exact varies
  | _ => exact .nil

theorem Flow.Varies.programResult {flow flow' : Flow} (varies : Flow.Varies variation flow flow') :
    Option.Rel (Value.Varies variation) flow.programResult flow'.programResult := by
  cases varies with
  | normal varies => exact varies
  | _ => exact .none

/-! ## Weaker relations -/

/-- The definitions of one variation are renamed in the same way by another one. -/
def Variation.Le (variation other : Variation) : Prop :=
  ∀ definition, variation.allowed definition →
    other.allowed definition ∧ definition.rename variation.change = definition.rename other.change

section

variable {other : Variation} (weaker : variation.Le other)
include weaker

theorem Closure.Varies.imp {left right : Closure} (varies : Closure.Varies variation left right) :
    Closure.Varies other left right := by
  rcases varies with ⟨id, name, behaviour, allowed, environment⟩
  suffices same : right.behaviour = left.behaviour.rename other.change ∧
      left.behaviour.IsAllowed other.allowed from ⟨id, name, same.1, same.2, environment⟩
  rw [behaviour]
  revert allowed
  cases left.behaviour with
  | clock => exact fun _ => ⟨rfl, trivial⟩
  | body definition isInitializer =>
    intro allowed
    rcases weaker definition allowed with ⟨still, same⟩
    exact ⟨congrArg (Behaviour.body · isInitializer) same, still⟩

theorem ClassBody.Varies.imp {left right : ClassBody}
    (varies : ClassBody.Varies variation left right) : ClassBody.Varies other left right := by
  constructor
  · exact varies.id
  · exact varies.name
  · exact fun name => optionRel_imp (fun _ _ same => same.imp weaker) (varies.methods name)
  · exact fun name => optionRel_imp (fun _ _ same => same.imp weaker) (varies.classMethods name)

theorem Class.Varies.imp {left right : Class} (varies : Class.Varies variation left right) :
    Class.Varies other left right :=
  ⟨varies.own.imp weaker, varies.inherited.imp fun _ _ same => same.imp weaker⟩

theorem Value.Varies.imp {left right : Value} (varies : Value.Varies variation left right) :
    Value.Varies other left right := by
  cases varies with
  | literal value => exact .literal value
  | function varies => exact .function (varies.imp weaker)
  | type varies => exact .type (varies.imp weaker)
  | object id varies => exact .object id (varies.imp weaker)

theorem Slot.Varies.imp {left right : Slot Value} (varies : Slot.Varies variation left right) :
    Slot.Varies other left right := by
  cases varies with
  | uninitialised => exact .uninitialised
  | initialised varies => exact .initialised (varies.imp weaker)

end

end Lox
