import Lox.Proofs.Lexical.Evaluation
import Lox.Proofs.Tree.Occurrence

/-!
# Cells are only added

No step of the evaluator without frames takes a cell away, and what a statement declares means
cells that are new.  By induction on the bound of the evaluation, in all functions of the
evaluator at once: `growsWell`.
-/

namespace Lox.Lexical

/-- An inner environment declares names in front of an outer one; their cells are in a range. -/
def Environment.Extends (outer inner : Environment) (first last : CellId) : Prop :=
  ∃ own : Environment, inner = own ++ outer ∧
    ∀ declared ∈ own, first ≤ declared.2 ∧ declared.2 < last

namespace Environment.Extends

variable {outer middle inner : Environment} {first last later : CellId}

theorem refl (environment : Environment) (first last : CellId) :
    environment.Extends environment first last :=
  ⟨[], rfl, nofun⟩

theorem mono (extending : outer.Extends inner first last) {first' last' : CellId}
    (before : first' ≤ first) (after : last ≤ last') : outer.Extends inner first' last' := by
  obtain ⟨own, same, range⟩ := extending
  refine ⟨own, same, fun declared isIn => ?_⟩
  have bounds := range declared isIn
  exact ⟨Nat.le_trans before bounds.1, Nat.lt_of_lt_of_le bounds.2 after⟩

theorem trans (extending : outer.Extends middle first last)
    (further : middle.Extends inner first last) : outer.Extends inner first last := by
  obtain ⟨own, rfl, range⟩ := extending
  obtain ⟨more, rfl, rangeThen⟩ := further
  refine ⟨more ++ own, (List.append_assoc _ _ _).symm, fun declared isIn => ?_⟩
  rcases List.mem_append.mp isIn with isIn | isIn
  · exact rangeThen declared isIn
  · exact range declared isIn

/-- One more name is declared. -/
theorem cons (name : String) {cell : CellId} (new : first ≤ cell) (old : cell < last) :
    outer.Extends ((name, cell) :: outer) first last :=
  ⟨[(name, cell)], rfl, fun declared isIn => by rw [List.mem_singleton.mp isIn]; exact ⟨new, old⟩⟩

end Environment.Extends

namespace Step

variable {α β : Type} {machine : Machine}

/-- A step that starts in this machine only adds cells; a result fits the new number of them. -/
def GrowsFrom (step : Step α) (machine : Machine) (post : α → CellId → Prop) : Prop :=
  match step machine with
  | .ok result after => machine.cells.size ≤ after.cells.size ∧ post result after.cells.size
  | .error _ after => machine.cells.size ≤ after.cells.size

/-- A step only adds cells. -/
def Grows (step : Step α) : Prop :=
  ∀ machine, step.GrowsFrom machine fun _ _ => True

namespace GrowsFrom

variable {step : Step α} {next : α → Step β} {post post' : α → CellId → Prop}
  {last : β → CellId → Prop}

theorem imp (grows : step.GrowsFrom machine post)
    (weaker : ∀ result size, machine.cells.size ≤ size → post result size → post' result size) :
    step.GrowsFrom machine post' := by
  revert grows
  rw [GrowsFrom, GrowsFrom]
  cases step machine with
  | ok result after => exact fun ⟨more, holds⟩ => ⟨more, weaker _ _ more holds⟩
  | error stop after => exact id

theorem bind (grows : step.GrowsFrom machine post)
    (rest : ∀ result middle, machine.cells.size ≤ middle.cells.size →
      post result middle.cells.size → (next result).GrowsFrom middle last) :
    (step >>= next).GrowsFrom machine last := by
  revert grows
  show _ → match EStateM.bind step next machine with
    | .ok result after => _
    | .error _ after => _
  rw [GrowsFrom, EStateM.bind]
  cases step machine with
  | error stop middle => exact id
  | ok result middle =>
    rintro ⟨more, holds⟩
    have ends := rest result middle more holds
    revert ends
    rw [GrowsFrom]
    show _ → match next result middle with
      | .ok result after => _
      | .error _ after => _
    cases next result middle with
    | ok result' after => exact fun ⟨further, holds⟩ => ⟨Nat.le_trans more further, holds⟩
    | error stop after => exact fun further => Nat.le_trans more further

theorem pure {result : α} (holds : post result machine.cells.size) :
    (Pure.pure result : Step α).GrowsFrom machine post :=
  ⟨Nat.le_refl _, holds⟩

theorem throw (stop : Stop) : (MonadExcept.throw stop : Step α).GrowsFrom machine post :=
  Nat.le_refl machine.cells.size

end GrowsFrom

namespace Grows

variable {step : Step α} {next : α → Step β} {post : β → CellId → Prop}

/-- A step that only adds cells, before another one. -/
theorem bindAt (grows : step.Grows)
    (rest : ∀ result middle, machine.cells.size ≤ middle.cells.size →
      (next result).GrowsFrom middle post) : (step >>= next).GrowsFrom machine post :=
  (grows machine).bind fun result middle more _ => rest result middle more

theorem bind (grows : step.Grows) (rest : ∀ result, (next result).Grows) :
    (step >>= next).Grows :=
  fun _ => grows.bindAt fun result middle _ => rest result middle

theorem pure (result : α) : (Pure.pure result : Step α).Grows :=
  fun _ => .pure trivial

theorem throw (stop : Stop) : (MonadExcept.throw stop : Step α).Grows :=
  fun _ => .throw stop

theorem fail (line : Nat) (fault : RuntimeFault) : (Step.fail line fault : Step α).Grows :=
  throw _

theorem get : (MonadState.get : Step Machine).Grows :=
  fun machine => ⟨Nat.le_refl machine.cells.size, trivial⟩

/-- A change that keeps the number of cells. -/
theorem changes {change : Machine → Machine}
    (same : ∀ machine, (change machine).cells.size = machine.cells.size) :
    (modify change : Step Unit).Grows :=
  fun machine => ⟨Nat.le_of_eq (same machine).symm, trivial⟩

end Grows

/-! ## Single steps -/

theorem grows_ofExcept (result : Except RuntimeError α) : (ofExcept result).Grows := by
  cases result with
  | ok result => exact .pure result
  | error error => exact .throw _

theorem grows_print (text : String) : (print text).Grows :=
  .changes fun _ => rfl

theorem grows_freshId : freshId.Grows :=
  fun machine => ⟨Nat.le_refl machine.cells.size, trivial⟩

theorem grows_setCell (cell : CellId) (value : Value Environment) : (setCell cell value).Grows :=
  .changes fun _ => Array.size_modify

theorem grows_setGlobal (name : String) (slot : Slot (Value Environment)) :
    (setGlobal name slot).Grows :=
  .changes fun _ => rfl

theorem grows_setField (target : Instance Environment) (name : String)
    (value : Value Environment) : (setField target name value).Grows :=
  .changes fun _ => rfl

theorem grows_newInstance (ofClass : Class Environment) : (newInstance ofClass).Grows :=
  fun machine => ⟨Nat.le_refl machine.cells.size, trivial⟩

theorem grows_field? (target : Instance Environment) (name : String) :
    (field? target name).Grows := by
  apply Grows.get.bind
  intro machine
  split <;> exact .pure _

theorem grows_readVariable (environment : Environment) (name : Name) :
    (readVariable environment name).Grows := by
  apply Grows.get.bind
  intro machine
  split
  · exact .pure _
  · exact .fail _ _
  · exact .fail _ _

theorem grows_assignVariable (environment : Environment) (name : Name)
    (value : Value Environment) : (assignVariable environment name value).Grows := by
  rw [assignVariable]
  split
  · exact grows_setCell _ _
  · apply Grows.get.bind
    intro machine
    split
    · exact grows_setGlobal _ _
    · exact .fail _ _

theorem grows_checkArity (line expected given : Nat) : (checkArity line expected given).Grows := by
  rw [checkArity]
  split
  · exact .fail _ _
  · exact .pure _

theorem grows_newClosure (environment : Environment) (name : String) (behaviour : Behaviour) :
    (newClosure environment name behaviour).Grows :=
  grows_freshId.bind fun _ => .pure _

/-! ## Declarations -/

/-- A name that is declared means a new cell. -/
theorem declare_growsFrom (environment : Environment) (name : String)
    (slot : Slot (Value Environment)) :
    (declare environment name slot).GrowsFrom machine fun inner last =>
      environment.Extends inner machine.cells.size last := by
  show machine.cells.size ≤ (machine.cells.push slot).size ∧ Environment.Extends _ _ _ _
  rw [Array.size_push]
  exact ⟨Nat.le_succ _, .cons name (Nat.le_refl _) (Nat.lt_succ_self _)⟩

theorem grows_declare (environment : Environment) (name : String)
    (slot : Slot (Value Environment)) : (declare environment name slot).Grows :=
  fun _ => (declare_growsFrom environment name slot).imp fun _ _ _ _ => trivial

theorem grows_declareAll (environment : Environment) (names : List Name)
    (values : List (Value Environment)) : (declareAll environment names values).Grows := by
  induction names generalizing environment values with
  | nil =>
    rw [declareAll]
    · exact .pure _
    · nofun
  | cons name names induction =>
    cases values with
    | nil =>
      rw [declareAll]
      · exact .pure _
      · nofun
    | cons value values =>
      rw [declareAll]
      exact (grows_declare _ _ _).bind fun inner => induction inner values

theorem introduce_growsFrom (inside : Bool) (environment : Environment) (name : String) :
    (introduce inside environment name).GrowsFrom machine fun inner last =>
      environment.Extends inner machine.cells.size last := by
  rw [introduce]
  split
  · exact declare_growsFrom _ _ _
  · exact (grows_setGlobal _ _).bindAt fun _ _ _ => .pure (.refl _ _ _)

theorem grows_initialise (inside : Bool) (environment : Environment) (name : String)
    (value : Value Environment) : (initialise inside environment name value).Grows := by
  rw [initialise.eq_def]
  split
  · exact grows_setCell _ _
  · exact grows_setGlobal _ _

theorem grows_newMethods (environment : Environment) (allowInitializer : Bool)
    (methods : List NamedFunction) (table : Table (Closure Environment)) :
    (newMethods environment allowInitializer methods table).Grows := by
  induction methods generalizing table with
  | nil =>
    rw [newMethods]
    exact .pure _
  | cons first others induction =>
    rcases first with ⟨name, definition⟩
    rw [newMethods]
    exact (grows_newClosure _ _ _).bind fun method => induction _

theorem grows_superclass (environment : Environment) (target : Option Reference) :
    (superclass environment target).Grows := by
  cases target with
  | none => exact .pure _
  | some target =>
    apply (grows_readVariable _ _).bind
    intro value
    split
    · exact .pure _
    · exact .fail _ _

theorem grows_methodEnvironment (environment : Environment)
    (superclass : Option (Class Environment)) :
    (methodEnvironment environment superclass).Grows := by
  cases superclass with
  | none => exact .pure _
  | some superclass => exact grows_declare _ _ _

/-- Makes the value of a class whose name is declared. -/
def newClass (inside : Bool) (environment : Environment) (name : Name)
    (superclassName : Option Reference) (methods classMethods : List NamedFunction) :
    Step (Value Environment) := do
  let superclass ← superclass environment superclassName
  let inClass ← methodEnvironment environment superclass
  let methods ← newMethods inClass true methods ∅
  let classMethods ← newMethods inClass false classMethods ∅
  let value := Value.type (.extending ⟨← freshId, name.text, methods, classMethods⟩ superclass)
  initialise inside environment name.text value
  return value

theorem grows_newClass (inside : Bool) (environment : Environment) (name : Name)
    (superclassName : Option Reference) (methods classMethods : List NamedFunction) :
    (newClass inside environment name superclassName methods classMethods).Grows := by
  apply (grows_superclass _ _).bind
  intro superclass
  apply (grows_methodEnvironment _ _).bind
  intro inClass
  apply (grows_newMethods _ _ _ _).bind
  intro methods
  apply (grows_newMethods _ _ _ _).bind
  intro classMethods
  apply grows_freshId.bind
  intro id
  exact (grows_initialise _ _ _ _).bind fun _ => .pure _

theorem declareClass_eq (inside : Bool) (environment : Environment) (name : Name)
    (superclassName : Option Reference) (methods classMethods : List NamedFunction) :
    declareClass inside environment name superclassName methods classMethods = do
      let environment ← introduce inside environment name.text
      let value ← newClass inside environment name superclassName methods classMethods
      return (value, environment) := by
  simp [declareClass, newClass]

theorem declareClass_growsFrom (inside : Bool) (environment : Environment) (name : Name)
    (superclassName : Option Reference) (methods classMethods : List NamedFunction) :
    (declareClass inside environment name superclassName methods classMethods).GrowsFrom machine
      fun result last => environment.Extends result.2 machine.cells.size last := by
  rw [declareClass_eq]
  apply (introduce_growsFrom inside environment name.text).bind
  intro inner middle more extending
  apply (grows_newClass _ _ _ _ _ _).bindAt
  intro value last further
  exact .pure (extending.mono (Nat.le_refl _) further)

theorem declareFunction_growsFrom (inside : Bool) (environment : Environment) (name : Name)
    (definition : Function) :
    (declareFunction inside environment name definition).GrowsFrom machine fun inner last =>
      environment.Extends inner machine.cells.size last := by
  rw [declareFunction]
  split
  · apply (introduce_growsFrom true environment name.text).bind
    intro inner middle more extending
    apply (grows_newClosure _ _ _).bindAt
    intro closure second further
    apply (grows_initialise _ _ _ _).bindAt
    intro _ third last
    exact .pure (extending.mono (Nat.le_refl _) (Nat.le_trans further last))
  · apply (grows_newClosure _ _ _).bindAt
    intro closure second further
    exact (grows_setGlobal _ _).bindAt fun _ _ _ => .pure (.refl _ _ _)

/-! ## Instances -/

theorem grows_bindMethod (target : Instance Environment) (method : Closure Environment) :
    (bindMethod target method).Grows :=
  (grows_declare _ _ _).bind fun _ => grows_newClosure _ _ _

theorem grows_property (target : Value Environment) (name : Name) :
    (property target name).Grows := by
  rw [property.eq_def]
  split
  · apply (grows_field? _ _).bind
    intro found
    split
    · exact .pure _
    · split
      · exact (grows_bindMethod _ _).bind fun _ => .pure _
      · exact .fail _ _
  · split
    · exact .pure _
    · exact .fail _ _
  · exact .fail _ _

theorem grows_superMethod (environment : Environment) (line : Nat) (method : Name) :
    (superMethod environment line method).Grows := by
  apply Grows.get.bind
  intro machine
  split
  · apply Grows.get.bind
    intro machine'
    split
    · split
      · exact (grows_bindMethod _ _).bind fun _ => .pure _
      · exact .fail _ _
    · exact .fail _ _
  · exact .fail _ _

/-! ## The evaluator -/

/-- Within this bound the functions of the evaluator only add cells. -/
structure GrowsWell (fuel : Nat) : Prop where
  evaluate (environment : Environment) (expression : Expr) :
    (evaluate fuel environment expression).Grows
  evaluateAll (environment : Environment) (expressions : List Expr) :
    (evaluateAll fuel environment expressions).Grows
  call (line : Nat) (callee : Value Environment) (arguments : List (Value Environment)) :
    (call fuel line callee arguments).Grows
  invoke (closure : Closure Environment) (arguments : List (Value Environment)) :
    (invoke fuel closure arguments).Grows
  execute (inside : Bool) (environment : Environment) (statement : Stmt) (machine : Machine) :
    (execute inside fuel environment statement).GrowsFrom machine fun result last =>
      environment.Extends result.2 machine.cells.size last
  executeAll (inside : Bool) (environment : Environment) (result : Option (Value Environment))
    (statements : List Stmt) (machine : Machine) :
    (executeAll inside fuel environment result statements).GrowsFrom machine fun result last =>
      environment.Extends result.2 machine.cells.size last
  loop (inside : Bool) (environment : Environment) (condition : Expr) (body : Stmt) :
    (loop inside fuel environment condition body).Grows

section

variable {fuel : Nat} (rules : GrowsWell fuel)
include rules

/-- The statements of a block or function; what they declare is forgotten. -/
theorem GrowsWell.inner (environment : Environment) (result : Option (Value Environment))
    (statements : List Stmt) : (Step.executeAll true fuel environment result statements).Grows :=
  fun machine => (rules.executeAll true environment result statements machine).imp
    fun _ _ _ _ => trivial

theorem grows_evaluate (environment : Environment) (expression : Expr) :
    (evaluate (fuel + 1) environment expression).Grows := by
  cases expression with
  | literal value =>
    rw [evaluate]
    exact .pure _
  | group inner =>
    rw [evaluate]
    exact rules.evaluate environment inner
  | unary op line operand =>
    rw [evaluate]
    exact (rules.evaluate environment operand).bind fun _ => grows_ofExcept _
  | binary op line left right =>
    rw [evaluate]
    apply (rules.evaluate environment left).bind
    intro _
    exact (rules.evaluate environment right).bind fun _ => grows_ofExcept _
  | logical op line left right =>
    rw [evaluate]
    apply (rules.evaluate environment left).bind
    intro value
    split
    · exact .pure _
    · exact rules.evaluate environment right
  | read target =>
    rw [evaluate]
    exact grows_readVariable _ _
  | assign target value =>
    rw [evaluate]
    apply (rules.evaluate environment value).bind
    intro value
    exact (grows_assignVariable _ _ _).bind fun _ => .pure _
  | call callee line arguments =>
    rw [evaluate]
    apply (rules.evaluate environment callee).bind
    intro callee
    apply (rules.evaluateAll environment arguments).bind
    exact fun arguments => rules.call line callee arguments
  | function definition =>
    rw [evaluate]
    exact (grows_newClosure _ _ _).bind fun _ => .pure _
  | get object name =>
    rw [evaluate]
    exact (rules.evaluate environment object).bind fun _ => grows_property _ _
  | set object name value =>
    rw [evaluate]
    apply (rules.evaluate environment object).bind
    intro target
    split
    · apply (rules.evaluate environment value).bind
      intro value
      exact (grows_setField _ _ _).bind fun _ => .pure _
    · exact .fail _ _
  | this id line =>
    rw [evaluate]
    exact grows_readVariable _ _
  | super id line method =>
    rw [evaluate]
    exact grows_superMethod _ _ _

theorem grows_evaluateAll (environment : Environment) (expressions : List Expr) :
    (evaluateAll (fuel + 1) environment expressions).Grows := by
  cases expressions with
  | nil =>
    rw [evaluateAll]
    exact .pure _
  | cons first others =>
    rw [evaluateAll]
    apply (rules.evaluate environment first).bind
    intro value
    exact (rules.evaluateAll environment others).bind fun _ => .pure _

theorem grows_call (line : Nat) (callee : Value Environment)
    (arguments : List (Value Environment)) :
    (call (fuel + 1) line callee arguments).Grows := by
  rw [call.eq_def]
  dsimp only
  split
  · exact (grows_checkArity _ _ _).bind fun _ => rules.invoke _ _
  · apply (grows_checkArity _ _ _).bind
    intro _
    apply (grows_newInstance _).bind
    intro created
    split
    · apply (grows_bindMethod _ _).bind
      intro bound
      exact (rules.invoke bound arguments).bind fun _ => .pure _
    · exact .pure _
  · exact .fail _ _

theorem grows_invoke (closure : Closure Environment) (arguments : List (Value Environment)) :
    (invoke (fuel + 1) closure arguments).Grows := by
  rw [invoke]
  cases closure.behaviour with
  | clock => exact Grows.get.bind fun _ => .pure _
  | body definition isInitializer =>
    apply (grows_declareAll _ _ _).bind
    intro environment
    apply (rules.inner environment none _).bind
    rintro ⟨flow, _⟩
    cases isInitializer with
    | false => exact .pure _
    | true =>
      apply Grows.get.bind
      intro machine
      split <;> exact .pure _

theorem execute_growsFrom (inside : Bool) (environment : Environment) (statement : Stmt)
    (machine : Machine) :
    (execute inside (fuel + 1) environment statement).GrowsFrom machine fun result last =>
      environment.Extends result.2 machine.cells.size last := by
  cases statement with
  | expression value =>
    rw [execute]
    exact (rules.evaluate environment value).bindAt fun _ _ _ => .pure (.refl _ _ _)
  | print value =>
    rw [execute]
    apply (rules.evaluate environment value).bindAt
    intro value middle _
    exact (grows_print _).bindAt fun _ _ _ => .pure (.refl _ _ _)
  | varDecl name initial =>
    cases initial with
    | none =>
      rw [execute]
      apply (introduce_growsFrom inside environment name.text).bind
      exact fun inner middle _ extending => .pure extending
    | some initial =>
      rw [execute]
      split
      · apply (introduce_growsFrom true environment name.text).bind
        intro inner middle _ extending
        apply (rules.evaluate inner initial).bindAt
        intro value second further
        apply (grows_initialise _ _ _ _).bindAt
        intro _ third last
        exact .pure (extending.mono (Nat.le_refl _) (Nat.le_trans further last))
      · apply (rules.evaluate environment initial).bindAt
        intro value middle _
        exact (grows_setGlobal _ _).bindAt fun _ _ _ => .pure (.refl _ _ _)
  | block body =>
    rw [execute]
    exact (rules.inner environment none body).bindAt fun _ _ _ => .pure (.refl _ _ _)
  | ifElse condition whenTrue whenFalse =>
    cases whenFalse with
    | none =>
      rw [execute]
      apply (rules.evaluate environment condition).bindAt
      intro value middle more
      split
      · exact (rules.execute inside environment whenTrue middle).imp
          fun _ _ _ extending => extending.mono more (Nat.le_refl _)
      · exact .pure (.refl _ _ _)
    | some whenFalse =>
      rw [execute]
      apply (rules.evaluate environment condition).bindAt
      intro value middle more
      split
      · exact (rules.execute inside environment whenTrue middle).imp
          fun _ _ _ extending => extending.mono more (Nat.le_refl _)
      · exact (rules.execute inside environment whenFalse middle).imp
          fun _ _ _ extending => extending.mono more (Nat.le_refl _)
  | whileLoop condition body =>
    rw [execute]
    exact (rules.loop inside environment condition body).bindAt fun _ _ _ => .pure (.refl _ _ _)
  | breakLoop line =>
    rw [execute]
    exact .pure (.refl _ _ _)
  | funDecl function =>
    rcases function with ⟨name, definition⟩
    rw [execute]
    apply (declareFunction_growsFrom inside environment name definition).bind
    exact fun inner middle _ extending => .pure extending
  | returnValue line value =>
    cases value with
    | none =>
      rw [execute]
      exact .pure (.refl _ _ _)
    | some value =>
      rw [execute]
      exact (rules.evaluate environment value).bindAt fun _ _ _ => .pure (.refl _ _ _)
  | classDecl name superclassName methods classMethods =>
    rw [execute]
    apply (declareClass_growsFrom inside environment name superclassName methods
      classMethods).bind
    exact fun inner middle _ extending => .pure extending

theorem executeAll_growsFrom (inside : Bool) (environment : Environment)
    (result : Option (Value Environment)) (statements : List Stmt) (machine : Machine) :
    (executeAll inside (fuel + 1) environment result statements).GrowsFrom machine
      fun result last => environment.Extends result.2 machine.cells.size last := by
  cases statements with
  | nil =>
    rw [executeAll]
    exact .pure (.refl _ _ _)
  | cons first others =>
    rw [executeAll]
    apply (rules.execute inside environment first machine).bind
    rintro ⟨flow, inner⟩ middle more extending
    cases flow with
    | normal result =>
      apply (rules.executeAll inside inner result others middle).imp
      intro last size further extendingThen
      exact (extending.mono (Nat.le_refl _) further).trans
        (extendingThen.mono more (Nat.le_refl _))
    | _ => exact .pure extending

theorem grows_loop (inside : Bool) (environment : Environment) (condition : Expr)
    (body : Stmt) : (loop inside (fuel + 1) environment condition body).Grows := by
  rw [loop]
  apply (rules.evaluate environment condition).bind
  intro value
  split
  · intro machine
    apply (rules.execute inside environment body machine).bind
    rintro ⟨flow, inner⟩ middle _ _
    cases flow with
    | normal _ => exact rules.loop inside environment condition body middle
    | _ => exact .pure trivial
  · exact .pure _

end

/-- A statement; what it declares is forgotten. -/
theorem GrowsWell.statement {fuel : Nat} (rules : GrowsWell fuel) (inside : Bool)
    (environment : Environment) (statement : Stmt) :
    (Step.execute inside fuel environment statement).Grows :=
  fun machine => (rules.execute inside environment statement machine).imp fun _ _ _ _ => trivial

/-- The functions of the evaluator only add cells. -/
theorem growsWell : ∀ fuel, GrowsWell fuel
  | 0 => by constructor <;> intros <;> exact .throw _
  | fuel + 1 =>
    have rules := growsWell fuel
    { evaluate := grows_evaluate rules
      evaluateAll := grows_evaluateAll rules
      call := grows_call rules
      invoke := grows_invoke rules
      execute := execute_growsFrom rules
      executeAll := executeAll_growsFrom rules
      loop := grows_loop rules }

/-- A statement that declares nothing leaves the environment as it is. -/
theorem execute_keepsEnvironment (inside : Bool) (environment : Environment) :
    ∀ (fuel : Nat) (statement : Stmt), statement.locals = [] → ∀ machine,
      (execute inside fuel environment statement).GrowsFrom machine
        fun result _ => result.2 = environment
  | 0, _, _, _ => .throw _
  | fuel + 1, statement, nothing, machine => by
    have rules := growsWell fuel
    cases statement with
    | varDecl | funDecl | classDecl => cases nothing
    | ifElse condition whenTrue whenFalse =>
      cases whenFalse with
      | none =>
        rw [execute]
        apply (rules.evaluate environment condition).bindAt
        intro value middle _
        split
        · exact execute_keepsEnvironment inside environment fuel whenTrue nothing middle
        · exact .pure rfl
      | some whenFalse =>
        have nothing := List.append_eq_nil_iff.mp nothing
        rw [execute]
        apply (rules.evaluate environment condition).bindAt
        intro value middle _
        split
        · exact execute_keepsEnvironment inside environment fuel whenTrue nothing.1 middle
        · exact execute_keepsEnvironment inside environment fuel whenFalse nothing.2 middle
    | expression value =>
      rw [execute]
      exact (rules.evaluate environment value).bindAt fun _ _ _ => .pure rfl
    | print value =>
      rw [execute]
      apply (rules.evaluate environment value).bindAt
      intro value middle _
      exact (grows_print _).bindAt fun _ _ _ => .pure rfl
    | block body =>
      rw [execute]
      exact (rules.inner environment none body).bindAt fun _ _ _ => .pure rfl
    | whileLoop condition body =>
      rw [execute]
      exact (rules.loop inside environment condition body).bindAt fun _ _ _ => .pure rfl
    | breakLoop line =>
      rw [execute]
      exact .pure rfl
    | returnValue line value =>
      cases value with
      | none =>
        rw [execute]
        exact .pure rfl
      | some value =>
        rw [execute]
        exact (rules.evaluate environment value).bindAt fun _ _ _ => .pure rfl

end Step

end Lox.Lexical
