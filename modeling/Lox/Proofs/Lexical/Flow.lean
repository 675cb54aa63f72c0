import Lox.Proofs.Lexical.Fuel
import Lox.Proofs.Lexical.Growth

/-!
# How statements end

A statement that finishes does so by what its parts do: a block by its statements in their order,
a `while` loop turn by turn.  No bound on the depth of the evaluation is left in this.
-/

namespace Lox

namespace Lexical.Step

/-- How a statement ends; what it declares is forgotten. -/
def flow (inside : Bool) (environment : Environment) (statement : Stmt)
    (fuel : Nat) : Step (Flow Environment) := do
  let (flow, _) ← execute inside fuel environment statement
  return flow

theorem steady_flow (inside : Bool) (environment : Environment)
    (statement : Stmt) : IsSteady (flow inside environment statement) :=
  (steady_execute inside environment statement).bind fun _ => .const _

/-- How statements end that are executed one after the other in one block. -/
def flowAll (environment : Environment) (result : Option (Value Environment))
    (statements : List Stmt) (fuel : Nat) : Step (Flow Environment) := do
  let (flow, _) ← executeAll true fuel environment result statements
  return flow

theorem steady_flowAll (environment : Environment) (result : Option (Value Environment))
    (statements : List Stmt) : IsSteady (flowAll environment result statements) :=
  (steady_executeAll true environment result statements).bind fun _ => .const _

variable {inside : Bool} {environment : Environment} {machine : Machine}
  {ending : EStateM.Result Stop Machine (Flow Environment)}
  {result : Option (Value Environment)} {statement : Stmt} {statements : List Stmt}

/-! ## Statements by their parts -/

theorem finishes_block : Finishes (flow inside environment (.block statements)) machine ending ↔
    Finishes (flowAll environment none statements) machine ending := by
  rw [finishes_succ (by rw [flow, execute]; rfl)]
  simp only [flow, execute, bind_assoc, pure_bind]
  exact Iff.rfl

theorem finishes_while {condition : Expr} {body : Stmt} :
    Finishes (flow inside environment (.whileLoop condition body)) machine ending ↔
      Finishes (fun fuel => loop inside fuel environment condition body) machine ending := by
  rw [finishes_succ (by rw [flow, execute]; rfl)]
  simp only [flow, execute, bind_assoc, pure_bind, bind_pure]

theorem finishes_flow_error {stop : Stop} {after : Machine} :
    Finishes (flow inside environment statement) machine (.error stop after) ↔
      Finishes (fun fuel => execute inside fuel environment statement) machine
        (.error stop after) := by
  unfold flow
  rw [finishes_bind (steady_execute inside environment statement) fun _ => .const _]
  simp only [finishes_const]
  constructor
  · rintro (⟨_, _, ends, same⟩ | ⟨value, _, _, -, impossible⟩)
    · cases same
      exact ends
    · cases impossible
  · exact fun ends => .inl ⟨_, _, ends, rfl⟩

theorem finishes_flow_ok {result : Flow Environment} {after : Machine} :
    Finishes (flow inside environment statement) machine (.ok result after) ↔
      ∃ inner, Finishes (fun fuel => execute inside fuel environment statement) machine
        (.ok (result, inner) after) := by
  unfold flow
  rw [finishes_bind (steady_execute inside environment statement) fun _ => .const _]
  simp only [finishes_const]
  constructor
  · rintro (⟨_, _, _, impossible⟩ | ⟨⟨_, inner⟩, _, ends, -, same⟩)
    · cases impossible
    · cases same
      exact ⟨inner, ends⟩
  · exact fun ⟨inner, ends⟩ => .inr ⟨_, _, ends, trivial, rfl⟩

/-- A statement that declares nothing leaves the environment as it is. -/
theorem environment_of_finishes (nothing : statement.locals = [])
    {result : Flow Environment × Environment} {after : Machine}
    (ends : Finishes (fun fuel => execute inside fuel environment statement) machine
      (.ok result after)) : result.2 = environment := by
  obtain ⟨-, fuel, ends⟩ := ends
  have keeps := execute_keepsEnvironment inside environment fuel statement nothing machine
  rw [GrowsFrom, show execute inside fuel environment statement machine = _ from ends] at keeps
  exact keeps.2

theorem finishes_nil :
    Finishes (flowAll environment result []) machine ending ↔
      ending = .ok (.normal result) machine := by
  rw [finishes_succ (by rw [flowAll, executeAll]; rfl)]
  simp only [flowAll, executeAll, pure_bind]
  rw [finishes_const]
  constructor
  · rintro ⟨-, ends⟩
    exact ends.symm
  · rintro rfl
    exact ⟨trivial, rfl⟩

/-- What happens behind the first statement. -/
def flowRest (statements : List Stmt) : Flow Environment × Environment → Nat →
    Step (Flow Environment)
  | (.normal result, environment), fuel => flowAll environment result statements fuel
  | (.returned value, _), _ => return .returned value
  | (.broken, _), _ => return .broken

theorem finishes_cons :
    Finishes (flowAll environment result (statement :: statements)) machine ending ↔
      (∃ stop after, Finishes (fun fuel => execute true fuel environment statement) machine
        (.error stop after) ∧ ending = .error stop after) ∨
      ∃ value middle, Finishes (fun fuel => execute true fuel environment statement) machine
        (.ok value middle) ∧ Finishes (flowRest statements value) middle ending := by
  rw [finishes_succ (by rw [flowAll, executeAll]; rfl), ← finishes_bind]
  · have same : ∀ fuel, flowAll environment result (statement :: statements) (fuel + 1) =
        execute true fuel environment statement >>= fun value => flowRest statements value fuel := by
      intro fuel
      rw [flowAll, executeAll, bind_assoc]
      apply bind_congr
      rintro ⟨_ | _ | _, _⟩ <;> simp [flowRest, flowAll]
    simp only [same]
  · exact steady_execute true environment statement
  · rintro ⟨_ | _ | _, _⟩
    · exact steady_flowAll _ _ _
    · exact .const _
    · exact .const _

/-- One statement in a block of its own. -/
theorem finishes_single :
    Finishes (flowAll environment result [statement]) machine ending ↔
      Finishes (flow true environment statement) machine ending := by
  have parts : Finishes (fun fuel => do
      return (← execute true fuel environment statement).1) machine ending ↔ _ :=
    finishes_bind (steady_execute true environment statement) fun _ => .const _
  change Finishes (flow true environment statement) machine ending ↔ _ at parts
  rw [finishes_cons, parts]
  apply or_congr_right
  apply exists_congr
  rintro ⟨first, inner⟩
  apply exists_congr
  intro middle
  apply and_congr_right
  intro _
  rw [finishes_const]
  cases first with
  | normal result =>
    show Finishes (flowAll inner result []) middle ending ↔ _
    rw [finishes_nil]
    exact ⟨fun ends => ⟨ends ▸ trivial, ends.symm⟩, fun ⟨_, ends⟩ => ends.symm⟩
  | returned value => exact finishes_const
  | broken => exact finishes_const

theorem finishes_expression {value : Expr} :
    Finishes (flow true environment (.expression value)) machine ending ↔
      Finishes (fun fuel => do return .normal (some (← evaluate fuel environment value))) machine
        ending := by
  rw [finishes_succ (by rw [flow, execute]; rfl)]
  simp only [flow, execute, bind_assoc, pure_bind]

/-- What a `while` loop does behind its body. -/
def loopRest (inside : Bool) (environment : Environment) (condition : Expr) (body : Stmt) :
    Flow Environment → Nat → Step (Flow Environment)
  | .normal _, fuel => loop inside fuel environment condition body
  | .broken, _ => return .normal none
  | .returned value, _ => return .returned value

theorem steady_loopRest (inside : Bool) (environment : Environment) (condition : Expr)
    (body : Stmt) (result : Flow Environment) :
    IsSteady (loopRest inside environment condition body result) := by
  cases result with
  | normal => exact steady_loop inside environment condition body
  | broken => exact .const _
  | returned => exact .const _

/-- One turn of a `while` loop whose condition holds. -/
def turn (inside : Bool) (environment : Environment) (condition : Expr) (body : Stmt)
    (fuel : Nat) : Step (Flow Environment) :=
  flow inside environment body fuel >>= fun result =>
    loopRest inside environment condition body result fuel

theorem steady_turn (inside : Bool) (environment : Environment) (condition : Expr) (body : Stmt) :
    IsSteady (turn inside environment condition body) :=
  (steady_flow inside environment body).bind
    fun result => steady_loopRest inside environment condition body result

theorem finishes_turn {condition : Expr} {body : Stmt} :
    Finishes (turn inside environment condition body) machine ending ↔
      (∃ stop after, Finishes (flow inside environment body) machine (.error stop after) ∧
        ending = .error stop after) ∨
      ∃ result middle, Finishes (flow inside environment body) machine (.ok result middle) ∧
        Finishes (loopRest inside environment condition body result) middle ending :=
  finishes_bind (steady_flow inside environment body)
    fun result => steady_loopRest inside environment condition body result

theorem finishes_loop {condition : Expr} {body : Stmt} :
    Finishes (fun fuel => loop inside fuel environment condition body) machine ending ↔
      (∃ stop after, Finishes (fun fuel => evaluate fuel environment condition) machine
        (.error stop after) ∧ ending = .error stop after) ∨
      ∃ value middle, Finishes (fun fuel => evaluate fuel environment condition) machine
        (.ok value middle) ∧
          Finishes (fun fuel => if value.isTruthy then turn inside environment condition body fuel
            else return .normal none) middle ending := by
  rw [finishes_succ (by rw [loop]), ← finishes_bind (steady_evaluate environment condition)]
  · have same : ∀ fuel, loop inside (fuel + 1) environment condition body =
        evaluate fuel environment condition >>= fun value =>
          if value.isTruthy then turn inside environment condition body fuel
          else return .normal none := by
      intro fuel
      rw [loop]
      apply bind_congr
      intro value
      split
      · rw [turn, flow, bind_assoc]
        apply bind_congr
        rintro ⟨_ | _ | _, _⟩ <;> rfl
      · rfl
    simp only [same]
  · intro value
    split
    · exact steady_turn inside environment condition body
    · exact .const _

end Lexical.Step

end Lox
