import Lox.Proofs.Renaming.Machine
import Lox.Proofs.Spelling.Tree

/-!
# Machines whose programs are spelt differently

Two machines are respelt if they are the same but for how the names in their functions are spelt,
and these differ only where it does not matter: local variables are found at recorded places, so
their names count for nothing but the texts of faults.
-/

namespace Lox

/-- What may be spelt differently in two programs. -/
structure Respelling where
  /-- The places of local variables. -/
  addresses : AddressTable
  /-- How a local variable may be spelt in the two programs. -/
  renamed : String → String → Prop

/-! ## Names that may differ -/

/-- Two faults: the same, but for the name of a variable. -/
inductive RuntimeFault.Respelt (renamed : String → String → Prop) :
    RuntimeFault → RuntimeFault → Prop where
  | same (fault : RuntimeFault) : Respelt renamed fault fault
  | undefinedVariable {name name'} (differs : renamed name name') :
      Respelt renamed (.undefinedVariable name) (.undefinedVariable name')
  | uninitialisedVariable {name name'} (differs : renamed name name') :
      Respelt renamed (.uninitialisedVariable name) (.uninitialisedVariable name')

section

variable (respelling : Respelling)

/-- A name is spelt in the same way, unless it is that of a local variable. -/
def Mention.Agrees (text text' : Name → String) : Mention → Prop
  | declaration name isLocal => isLocal ∨ text name = text' name
  | parameter _ => True
  | use target => text target.name = text' target.name ∨
    respelling.addresses[target.id]?.isSome ∧
      respelling.renamed (text target.name) (text' target.name)
  | label name => text name = text' name

/-- Two spellings differ only in the names of local variables. -/
structure Spelling.Agrees (spelling spelling' : Spelling) (mentions : List Mention) : Prop where
  line : spelling.line = spelling'.line
  mention : ∀ mention ∈ mentions, mention.Agrees respelling spelling.text spelling'.text

/-- Two behaviours that are spelt differently. -/
inductive Behaviour.Respelt : Behaviour → Behaviour → Prop where
  | clock : Respelt .clock .clock
  | body {spelling spelling' : Spelling} {definition : Function}
    (agrees : spelling.Agrees respelling spelling' definition.mentions) (isInitializer : Bool) :
    Respelt (.body (definition.spell spelling) isInitializer)
      (.body (definition.spell spelling') isInitializer)

/-- Two functions. -/
structure Closure.Respelt (left right : Closure) : Prop where
  id : left.id = right.id
  name : left.name = right.name
  behaviour : left.behaviour.Respelt respelling right.behaviour
  environment : left.environment = right.environment

/-- Two class declarations. -/
structure ClassBody.Respelt (left right : ClassBody) : Prop where
  id : left.id = right.id
  name : left.name = right.name
  methods : Table.Related (Closure.Respelt respelling) left.methods right.methods
  classMethods : Table.Related (Closure.Respelt respelling) left.classMethods right.classMethods

/-- Two classes. -/
structure Class.Respelt (left right : Class) : Prop where
  own : ClassBody.Respelt respelling left.own right.own
  inherited : List.Forall₂ (ClassBody.Respelt respelling) left.inherited right.inherited

/-- Two values. -/
inductive Value.Respelt : Value → Value → Prop where
  | literal (value : Literal) : Respelt (.ofLiteral value) (.ofLiteral value)
  | function {left right} (respelt : Closure.Respelt respelling left right) :
      Respelt (.function left) (.function right)
  | type {left right} (respelt : Class.Respelt respelling left right) :
      Respelt (.type left) (.type right)
  | object (id : Nat) {left right} (respelt : Class.Respelt respelling left right) :
      Respelt (.object ⟨id, left⟩) (.object ⟨id, right⟩)

/-- Two variables. -/
inductive Slot.Respelt : Slot Value → Slot Value → Prop where
  | uninitialised : Respelt .uninitialised .uninitialised
  | initialised {left right} (respelt : Value.Respelt respelling left right) :
      Respelt (.initialised left) (.initialised right)

/-- Two ends of a statement. -/
inductive Flow.Respelt : Flow → Flow → Prop where
  | normal {left right} (respelt : Option.Rel (Value.Respelt respelling) left right) :
      Respelt (.normal left) (.normal right)
  | returned {left right} (respelt : Value.Respelt respelling left right) :
      Respelt (.returned left) (.returned right)
  | broken : Respelt .broken .broken

/-- Two machines whose code runs in a frame. -/
structure Machine.Respelt (frame : FrameId) (left right : Machine) : Prop where
  frames : Frames.Related (Slot.Respelt respelling) left.frames right.frames
  hasRoot : 0 < left.frames.size
  current : left.current = frame
  current' : right.current = frame
  globals : Table.Related (Slot.Respelt respelling) left.globals right.globals
  fields : Array.Related (Table.Related (Value.Respelt respelling)) left.fields right.fields
  nextId : left.nextId = right.nextId
  printed : left.printed = right.printed
  clock : left.clock = right.clock

end

variable {respelling : Respelling}

/-- Fewer names have to agree. -/
theorem Spelling.Agrees.mono {spelling spelling' : Spelling} {mentions fewer : List Mention}
    (agrees : spelling.Agrees respelling spelling' mentions) (subset : fewer ⊆ mentions) :
    spelling.Agrees respelling spelling' fewer :=
  ⟨agrees.line, fun mention member => agrees.mention mention (subset member)⟩

/-! ## Nothing is spelt differently -/

theorem Spelling.Agrees.refl (respelling : Respelling) (spelling : Spelling)
    (mentions : List Mention) : spelling.Agrees respelling spelling mentions := by
  refine ⟨rfl, ?_⟩
  intro mention _
  cases mention with
  | declaration => exact .inr rfl
  | parameter => trivial
  | use => exact .inl rfl
  | label => exact rfl

theorem Behaviour.respelt_refl (respelling : Respelling) (behaviour : Behaviour) :
    behaviour.Respelt respelling behaviour := by
  cases behaviour with
  | clock => exact .clock
  | body definition isInitializer =>
    have plain : Behaviour.Respelt respelling (.body (definition.spell .plain) isInitializer)
        (.body (definition.spell .plain) isInitializer) :=
      .body (.refl respelling .plain definition.mentions) isInitializer
    rwa [definition.spell_plain] at plain

theorem Closure.respelt_refl (respelling : Respelling) (closure : Closure) :
    closure.Respelt respelling closure :=
  ⟨rfl, rfl, closure.behaviour.respelt_refl respelling, rfl⟩

theorem ClassBody.respelt_refl (respelling : Respelling) (body : ClassBody) :
    body.Respelt respelling body :=
  ⟨rfl, rfl, .refl (Closure.respelt_refl respelling) _,
    .refl (Closure.respelt_refl respelling) _⟩

theorem Class.respelt_refl (respelling : Respelling) (type : Class) :
    type.Respelt respelling type :=
  ⟨type.own.respelt_refl respelling,
    List.forall₂_same.mpr fun body _ => body.respelt_refl respelling⟩

theorem Value.respelt_refl (respelling : Respelling) (value : Value) :
    value.Respelt respelling value := by
  cases value with
  | nil => exact .literal .nil
  | bool value => exact .literal (.bool value)
  | number value => exact .literal (.number value)
  | string value => exact .literal (.string value)
  | function closure => exact .function (closure.respelt_refl respelling)
  | type type => exact .type (type.respelt_refl respelling)
  | object owner => exact .object owner.id (owner.ofClass.respelt_refl respelling)

theorem Slot.respelt_refl (respelling : Respelling) (slot : Slot Value) :
    slot.Respelt respelling slot := by
  cases slot with
  | uninitialised => exact .uninitialised
  | initialised value => exact .initialised (value.respelt_refl respelling)

/-- A machine whose code runs in a frame is like itself. -/
theorem Machine.respelt_refl (respelling : Respelling) {machine : Machine}
    (hasRoot : 0 < machine.frames.size) :
    machine.Respelt respelling machine.current machine := by
  have frames : Frames.Related (Slot.Respelt respelling) machine.frames machine.frames :=
    .refl (fun frame => ⟨.refl (Slot.respelt_refl respelling) frame.slots, rfl⟩) _
  have fields : Array.Related (Table.Related (Value.Respelt respelling)) machine.fields
      machine.fields := .refl (Table.Related.refl (Value.respelt_refl respelling)) _
  exact ⟨frames, hasRoot, rfl, rfl, .refl (Slot.respelt_refl respelling) _, fields, rfl, rfl, rfl⟩

/-! ## Classes -/

namespace Class.Respelt

variable {left right : Class} (respelt : Class.Respelt respelling left right)
include respelt

theorem method? (name : String) :
    Option.Rel (Closure.Respelt respelling) (left.method? name) (right.method? name) := by
  apply findSome?_related (.cons respelt.own respelt.inherited)
  exact fun first second same => same.methods name

theorem classMethod? (name : String) :
    Option.Rel (Closure.Respelt respelling) (left.classMethod? name)
      (right.classMethod? name) := by
  apply findSome?_related (.cons respelt.own respelt.inherited)
  exact fun first second same => same.classMethods name

end Class.Respelt

/-- A class extends another one in the same way. -/
theorem Class.respelt_extending {own own' : ClassBody}
    (respelt : ClassBody.Respelt respelling own own') {superclass superclass' : Option Class}
    (inherited : Option.Rel (Class.Respelt respelling) superclass superclass') :
    Class.Respelt respelling (.extending own superclass) (.extending own' superclass') := by
  cases inherited with
  | none => exact ⟨respelt, .nil⟩
  | some further => exact ⟨respelt, .cons further.own further.inherited⟩

theorem Closure.Respelt.arity_eq {left right : Closure}
    (respelt : Closure.Respelt respelling left right) : left.arity = right.arity := by
  have behaviours := respelt.behaviour
  rw [Closure.arity, Closure.arity]
  revert behaviours
  generalize left.behaviour = behaviour
  generalize right.behaviour = behaviour'
  intro behaviours
  cases behaviours with
  | clock => rfl
  | body => simp

theorem Class.Respelt.arity_eq {left right : Class}
    (respelt : Class.Respelt respelling left right) : left.arity = right.arity := by
  have same := respelt.method? "init"
  rw [Class.arity, Class.arity, Class.initializer?, Class.initializer?]
  revert same
  generalize left.method? "init" = found
  generalize right.method? "init" = found'
  rintro (same | _)
  · exact same.arity_eq
  · rfl

/-! ## Values -/

theorem Value.Respelt.nil : Value.Respelt respelling .nil .nil := .literal .nil

theorem Value.Respelt.number (value : Float) :
    Value.Respelt respelling (.number value) (.number value) := .literal (.number value)

/-- Operators cannot tell the two values apart. -/
theorem Value.Respelt.alike {left right : Value} (respelt : Value.Respelt respelling left right) :
    left.Alike right := by
  cases respelt with
  | literal value => cases value <;> constructor
  | function respelt => exact .function respelt.id respelt.name
  | type respelt => exact .type respelt.own.id respelt.own.name
  | object id respelt => exact .object rfl respelt.own.name

theorem Flow.Respelt.callResult {flow flow' : Flow} (respelt : flow.Respelt respelling flow') :
    Value.Respelt respelling flow.callResult flow'.callResult := by
  cases respelt with
  | returned respelt => exact respelt
  | _ => exact .nil

theorem Flow.Respelt.programResult {flow flow' : Flow} (respelt : flow.Respelt respelling flow') :
    Option.Rel (Value.Respelt respelling) flow.programResult flow'.programResult := by
  cases respelt with
  | normal respelt => exact respelt
  | _ => exact .none

end Lox
