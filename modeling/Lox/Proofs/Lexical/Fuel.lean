import Lox.Proofs.Lexical.Evaluation

/-!
# More fuel

What an evaluation yields that is not cut off by the bound on its depth, it yields with every
greater bound: by induction on the bound, in all functions of the evaluator at once
(`refinesWell`).  So an evaluation finishes in at most one way, whatever the bounds are.
-/

namespace Lox

variable {σ α β : Type}

/-! ## Steps that finish -/

/-- A result that the bound did not cut off. -/
def IsSettled : EStateM.Result Stop σ α → Prop
  | .error .outOfFuel _ => False
  | _ => True

/-- A step for each bound: one of them ends like this and is not cut off. -/
def Finishes (step : Nat → EStateM Stop σ α) (machine : σ) (result : EStateM.Result Stop σ α) :
    Prop :=
  IsSettled result ∧ ∃ fuel, step fuel machine = result

/-- The second step ends like the first one wherever that one is not cut off. -/
def Refines (step other : EStateM Stop σ α) : Prop :=
  ∀ machine, IsSettled (step machine) → other machine = step machine

/-- A step that ends in the same way with every greater bound. -/
def IsSteady (step : Nat → EStateM Stop σ α) : Prop :=
  ∀ fuel, Refines (step fuel) (step (fuel + 1))

namespace Refines

variable {step other third : EStateM Stop σ α} {next next' : α → EStateM Stop σ β}

theorem refl (step : EStateM Stop σ α) : Refines step step :=
  fun _ _ => rfl

theorem trans (refines : Refines step other) (further : Refines other third) :
    Refines step third := by
  intro machine settled
  have same := refines machine settled
  rw [← same] at settled ⊢
  exact further machine settled

theorem outOfFuel : Refines (throw .outOfFuel) step :=
  fun _ impossible => impossible.elim

theorem bind (refines : Refines step other) (rest : ∀ result, Refines (next result) (next' result)) :
    Refines (step >>= next) (other >>= next') := by
  intro machine settled
  have first := refines machine
  change IsSettled (EStateM.bind step next machine) at settled
  show EStateM.bind other next' machine = EStateM.bind step next machine
  rw [EStateM.bind] at settled ⊢
  rw [EStateM.bind]
  revert first settled
  cases step machine with
  | ok result after =>
    intro first settled
    rw [first trivial]
    exact rest result after settled
  | error stop after =>
    intro first settled
    rw [first (by cases stop <;> exact settled)]

end Refines

namespace IsSteady

variable {step : Nat → EStateM Stop σ α} {machine : σ} {result : EStateM.Result Stop σ α}

theorem le (steady : IsSteady step) {fuel more : Nat} (isMore : fuel ≤ more) :
    Refines (step fuel) (step more) := by
  induction isMore with
  | refl => exact .refl _
  | step _ induction => exact induction.trans (steady _)

/-- From some bound on, the step ends like this. -/
theorem exists_le (steady : IsSteady step) (finishes : Finishes step machine result) :
    ∃ fuel, ∀ more, fuel ≤ more → step more machine = result := by
  obtain ⟨settled, fuel, ends⟩ := finishes
  refine ⟨fuel, fun more isMore => ?_⟩
  rw [← ends] at settled ⊢
  exact steady.le isMore machine settled

/-- A step finishes in at most one way. -/
theorem unique (steady : IsSteady step) {result' : EStateM.Result Stop σ α}
    (finishes : Finishes step machine result) (finishes' : Finishes step machine result') :
    result = result' := by
  obtain ⟨fuel, ends⟩ := steady.exists_le finishes
  obtain ⟨fuel', ends'⟩ := steady.exists_le finishes'
  rw [← ends _ (Nat.le_max_left fuel fuel'), ← ends' _ (Nat.le_max_right fuel fuel')]

end IsSteady

/-! ## Sequences of steps -/

section

variable {step : Nat → EStateM Stop σ α} {next : α → Nat → EStateM Stop σ β} {machine : σ}

theorem IsSteady.const (step : EStateM Stop σ α) : IsSteady fun _ => step :=
  fun _ => .refl step

theorem IsSteady.bind (steady : IsSteady step) (rest : ∀ result, IsSteady (next result)) :
    IsSteady fun fuel => step fuel >>= fun result => next result fuel :=
  fun fuel => (steady fuel).bind fun result => rest result fuel

/-- Of two steps that finish, the first one finishes, too, and then the second one unless it failed. -/
theorem exists_of_bind {step : EStateM Stop σ α} {next : α → EStateM Stop σ β}
    {result : EStateM.Result Stop σ β} (ends : (step >>= next) machine = result)
    (settled : IsSettled result) :
    (∃ stop after, step machine = .error stop after ∧ result = .error stop after ∧
      IsSettled (.error stop after : EStateM.Result Stop σ α)) ∨
    ∃ value middle, step machine = .ok value middle ∧ next value middle = result := by
  change EStateM.bind step next machine = result at ends
  rw [EStateM.bind] at ends
  subst ends
  revert settled
  cases step machine with
  | ok value middle => exact fun _ => .inr ⟨value, middle, rfl, rfl⟩
  | error stop after =>
    intro settled
    refine .inl ⟨stop, after, rfl, rfl, ?_⟩
    cases stop <;> exact settled

theorem finishes_bind (steady : IsSteady step) (rest : ∀ result, IsSteady (next result))
    {result : EStateM.Result Stop σ β} :
    Finishes (fun fuel => step fuel >>= fun result => next result fuel) machine result ↔
      (∃ stop after, Finishes step machine (.error stop after) ∧ result = .error stop after) ∨
      ∃ value middle, Finishes step machine (.ok value middle) ∧
        Finishes (next value) middle result := by
  constructor
  · rintro ⟨settled, fuel, ends⟩
    rcases exists_of_bind ends settled with ⟨stop, after, fails, same, failed⟩ |
      ⟨value, middle, first, last⟩
    · exact .inl ⟨stop, after, ⟨failed, fuel, fails⟩, same⟩
    · exact .inr ⟨value, middle, ⟨trivial, fuel, first⟩, settled, fuel, last⟩
  · rintro (⟨stop, after, fails, rfl⟩ | ⟨value, middle, first, last⟩)
    · obtain ⟨settled, fuel, ends⟩ := fails
      refine ⟨by cases stop <;> exact settled, fuel, ?_⟩
      show EStateM.bind (step fuel) _ machine = _
      rw [EStateM.bind, ends]
    · obtain ⟨fuel, ends⟩ := steady.exists_le first
      obtain ⟨fuel', ends'⟩ := (rest value).exists_le last
      refine ⟨last.1, max fuel fuel', ?_⟩
      show EStateM.bind (step _) _ machine = _
      rw [EStateM.bind, ends _ (Nat.le_max_left _ _)]
      exact ends' _ (Nat.le_max_right _ _)

theorem finishes_const {step : EStateM Stop σ α} {result : EStateM.Result Stop σ α} :
    Finishes (fun _ => step) machine result ↔ IsSettled result ∧ step machine = result :=
  ⟨fun ⟨settled, _, ends⟩ => ⟨settled, ends⟩, fun ⟨settled, ends⟩ => ⟨settled, 0, ends⟩⟩

/-- A step that cannot do anything without fuel. -/
theorem finishes_succ (empty : step 0 = throw .outOfFuel) {result : EStateM.Result Stop σ α} :
    Finishes step machine result ↔ Finishes (fun fuel => step (fuel + 1)) machine result := by
  constructor
  · rintro ⟨settled, fuel, ends⟩
    cases fuel with
    | zero =>
      rw [empty] at ends
      subst ends
      exact settled.elim
    | succ fuel => exact ⟨settled, fuel, ends⟩
  · exact fun ⟨settled, fuel, ends⟩ => ⟨settled, fuel + 1, ends⟩

end

/-! ## The evaluator -/

namespace Lexical.Step

/-- With the next greater bound the functions of the evaluator end in the same way. -/
structure RefinesWell (fuel : Nat) : Prop where
  evaluate (environment : Environment) (expression : Expr) :
    Refines (evaluate fuel environment expression) (evaluate (fuel + 1) environment expression)
  evaluateAll (environment : Environment) (expressions : List Expr) :
    Refines (evaluateAll fuel environment expressions)
      (evaluateAll (fuel + 1) environment expressions)
  call (line : Nat) (callee : Value Environment) (arguments : List (Value Environment)) :
    Refines (call fuel line callee arguments) (call (fuel + 1) line callee arguments)
  invoke (closure : Closure Environment) (arguments : List (Value Environment)) :
    Refines (invoke fuel closure arguments) (invoke (fuel + 1) closure arguments)
  execute (inside : Bool) (environment : Environment) (statement : Stmt) :
    Refines (execute inside fuel environment statement)
      (execute inside (fuel + 1) environment statement)
  executeAll (inside : Bool) (environment : Environment) (result : Option (Value Environment))
    (statements : List Stmt) :
    Refines (executeAll inside fuel environment result statements)
      (executeAll inside (fuel + 1) environment result statements)
  loop (inside : Bool) (environment : Environment) (condition : Expr) (body : Stmt) :
    Refines (loop inside fuel environment condition body)
      (loop inside (fuel + 1) environment condition body)

section

variable {fuel : Nat} (rules : RefinesWell fuel)
include rules

theorem refines_evaluate (environment : Environment) (expression : Expr) :
    Refines (evaluate (fuel + 1) environment expression)
      (evaluate (fuel + 2) environment expression) := by
  cases expression with
  | literal | read | function | this | super =>
    rw [evaluate, evaluate]
    exact .refl _
  | group inner =>
    rw [evaluate, evaluate]
    exact rules.evaluate environment inner
  | unary op line operand =>
    rw [evaluate, evaluate]
    exact (rules.evaluate environment operand).bind fun _ => .refl _
  | binary op line left right =>
    rw [evaluate, evaluate]
    apply (rules.evaluate environment left).bind
    intro _
    exact (rules.evaluate environment right).bind fun _ => .refl _
  | logical op line left right =>
    rw [evaluate, evaluate]
    apply (rules.evaluate environment left).bind
    intro value
    split
    · exact .refl _
    · exact rules.evaluate environment right
  | assign target value =>
    rw [evaluate, evaluate]
    exact (rules.evaluate environment value).bind fun _ => .refl _
  | call callee line arguments =>
    rw [evaluate, evaluate]
    apply (rules.evaluate environment callee).bind
    intro callee
    apply (rules.evaluateAll environment arguments).bind
    exact fun arguments => rules.call line callee arguments
  | get object name =>
    rw [evaluate, evaluate]
    exact (rules.evaluate environment object).bind fun _ => .refl _
  | set object name value =>
    rw [evaluate, evaluate]
    apply (rules.evaluate environment object).bind
    intro target
    cases target with
    | object => exact (rules.evaluate environment value).bind fun _ => .refl _
    | _ => exact .refl _

theorem refines_evaluateAll (environment : Environment) (expressions : List Expr) :
    Refines (evaluateAll (fuel + 1) environment expressions)
      (evaluateAll (fuel + 2) environment expressions) := by
  cases expressions with
  | nil =>
    rw [evaluateAll, evaluateAll]
    exact .refl _
  | cons first others =>
    rw [evaluateAll, evaluateAll]
    apply (rules.evaluate environment first).bind
    intro value
    exact (rules.evaluateAll environment others).bind fun _ => .refl _

theorem refines_call (line : Nat) (callee : Value Environment)
    (arguments : List (Value Environment)) :
    Refines (call (fuel + 1) line callee arguments) (call (fuel + 2) line callee arguments) := by
  cases callee with
  | function closure =>
    rw [call, call]
    exact (Refines.refl _).bind fun _ => rules.invoke closure arguments
  | type ofClass =>
    rw [call, call]
    apply (Refines.refl _).bind
    intro _
    apply (Refines.refl _).bind
    intro created
    cases ofClass.initializer? with
    | none => exact .refl _
    | some initializer =>
      apply (Refines.refl _).bind
      intro bound
      exact (rules.invoke bound arguments).bind fun _ => .refl _
  | _ =>
    rw [call, call]
    · exact .refl _
    all_goals intros; contradiction

theorem refines_invoke (closure : Closure Environment) (arguments : List (Value Environment)) :
    Refines (invoke (fuel + 1) closure arguments) (invoke (fuel + 2) closure arguments) := by
  rw [invoke, invoke]
  cases closure.behaviour with
  | clock => exact .refl _
  | body definition isInitializer =>
    apply (Refines.refl _).bind
    intro environment
    exact (rules.executeAll true environment none definition.body).bind fun _ => .refl _

theorem refines_execute (inside : Bool) (environment : Environment) (statement : Stmt) :
    Refines (execute inside (fuel + 1) environment statement)
      (execute inside (fuel + 2) environment statement) := by
  cases statement with
  | expression value =>
    rw [execute, execute]
    exact (rules.evaluate environment value).bind fun _ => .refl _
  | print value =>
    rw [execute, execute]
    exact (rules.evaluate environment value).bind fun _ => .refl _
  | varDecl name initial =>
    cases initial with
    | none =>
      rw [execute, execute]
      exact .refl _
    | some initial =>
      rw [execute, execute]
      cases inside with
      | true =>
        apply (Refines.refl _).bind
        intro environment
        exact (rules.evaluate environment initial).bind fun _ => .refl _
      | false => exact (rules.evaluate environment initial).bind fun _ => .refl _
  | block body =>
    rw [execute, execute]
    exact (rules.executeAll true environment none body).bind fun _ => .refl _
  | ifElse condition whenTrue whenFalse =>
    cases whenFalse with
    | none =>
      rw [execute, execute]
      apply (rules.evaluate environment condition).bind
      intro value
      split
      · exact rules.execute inside environment whenTrue
      · exact .refl _
    | some whenFalse =>
      rw [execute, execute]
      apply (rules.evaluate environment condition).bind
      intro value
      split
      · exact rules.execute inside environment whenTrue
      · exact rules.execute inside environment whenFalse
  | whileLoop condition body =>
    rw [execute, execute]
    exact (rules.loop inside environment condition body).bind fun _ => .refl _
  | returnValue line value =>
    cases value with
    | none =>
      rw [execute, execute]
      exact .refl _
    | some value =>
      rw [execute, execute]
      exact (rules.evaluate environment value).bind fun _ => .refl _
  | funDecl function =>
    rcases function with ⟨name, definition⟩
    rw [execute, execute]
    exact .refl _
  | breakLoop | classDecl =>
    rw [execute, execute]
    exact .refl _

theorem refines_executeAll (inside : Bool) (environment : Environment)
    (result : Option (Value Environment)) (statements : List Stmt) :
    Refines (executeAll inside (fuel + 1) environment result statements)
      (executeAll inside (fuel + 2) environment result statements) := by
  cases statements with
  | nil =>
    rw [executeAll, executeAll]
    exact .refl _
  | cons first others =>
    rw [executeAll, executeAll]
    apply (rules.execute inside environment first).bind
    rintro ⟨flow, environment⟩
    cases flow with
    | normal result => exact rules.executeAll inside environment result others
    | _ => exact .refl _

theorem refines_loop (inside : Bool) (environment : Environment) (condition : Expr)
    (body : Stmt) :
    Refines (loop inside (fuel + 1) environment condition body)
      (loop inside (fuel + 2) environment condition body) := by
  rw [loop, loop]
  apply (rules.evaluate environment condition).bind
  intro value
  split
  · apply (rules.execute inside environment body).bind
    rintro ⟨flow, _⟩
    cases flow with
    | normal _ => exact rules.loop inside environment condition body
    | _ => exact .refl _
  · exact .refl _

end

/-- Any greater bound gives the same result as one that is not reached. -/
theorem refinesWell : ∀ fuel, RefinesWell fuel
  | 0 => by constructor <;> intros <;> exact .outOfFuel
  | fuel + 1 =>
    have rules := refinesWell fuel
    { evaluate := refines_evaluate rules
      evaluateAll := refines_evaluateAll rules
      call := refines_call rules
      invoke := refines_invoke rules
      execute := refines_execute rules
      executeAll := refines_executeAll rules
      loop := refines_loop rules }

theorem steady_evaluate (environment : Environment) (expression : Expr) :
    IsSteady fun fuel => evaluate fuel environment expression :=
  fun fuel => (refinesWell fuel).evaluate environment expression

theorem steady_execute (inside : Bool) (environment : Environment) (statement : Stmt) :
    IsSteady fun fuel => execute inside fuel environment statement :=
  fun fuel => (refinesWell fuel).execute inside environment statement

theorem steady_executeAll (inside : Bool) (environment : Environment)
    (result : Option (Value Environment)) (statements : List Stmt) :
    IsSteady fun fuel => executeAll inside fuel environment result statements :=
  fun fuel => (refinesWell fuel).executeAll inside environment result statements

theorem steady_loop (inside : Bool) (environment : Environment) (condition : Expr)
    (body : Stmt) : IsSteady fun fuel => loop inside fuel environment condition body :=
  fun fuel => (refinesWell fuel).loop inside environment condition body

end Lexical.Step

end Lox
