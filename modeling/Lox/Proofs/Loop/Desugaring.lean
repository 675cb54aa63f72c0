import Lox.Proofs.Loop.Rules

/-!
# Loops with three clauses as loops with one condition

The tree of a `for` loop is a block that executes the initial statement and then a `while` loop,
whose body is a block that ends with the increment.  `finishes_tree_iff` says that this tree ends
in exactly the ways in which the loop ends that is said by its clauses.
-/

namespace Lox

open Lexical (Environment)

namespace ForLoop

open Lexical.Step (flow flowAll flowRest finishes_block finishes_while finishes_nil finishes_cons
  finishes_single finishes_expression finishes_flow_ok finishes_flow_error)

variable {loop : ForLoop} {scope environment : Environment} {machine : Lexical.Machine}
  {ending : Ending}

/-! ## The clauses in the tree -/

/-- The condition of the `while` loop. -/
def whileCondition (loop : ForLoop) : Expr :=
  loop.condition.getD (.literal (.bool true))

/-- The body of the `while` loop. -/
def whileBody (loop : ForLoop) : Stmt :=
  match loop.increment with
  | some increment => .block [loop.body, .expression increment]
  | none => loop.body

theorem tree_eq (loop : ForLoop) :
    loop.tree = .block (loop.initial.toList ++ [.whileLoop loop.whileCondition loop.whileBody]) :=
  rfl

/-- A condition that is absent is one that holds. -/
theorem finishes_test {result : EStateM.Result Stop Lexical.Machine Bool} :
    Finishes (loop.test scope) machine result ↔
      Finishes (fun fuel => do
        return (← Lexical.Step.evaluate fuel scope loop.whileCondition).isTruthy) machine result := by
  rcases loop with ⟨initial, _ | condition, increment, body⟩
  · have later : Finishes (fun fuel => do
        return (← Lexical.Step.evaluate fuel scope
          (whileCondition ⟨initial, none, increment, body⟩)).isTruthy) machine result ↔ _ :=
      finishes_succ (by rw [Lexical.Step.evaluate]; rfl)
    rw [later]
    simp only [whileCondition, Option.getD_none, Lexical.Step.evaluate, pure_bind,
      Value.ofLiteral, Value.isTruthy]
    exact Iff.rfl
  · exact Iff.rfl

theorem finishes_test_ok {holds : Bool} {after : Lexical.Machine} :
    Finishes (loop.test scope) machine (.ok holds after) ↔
      ∃ value, Finishes (fun fuel => Lexical.Step.evaluate fuel scope loop.whileCondition) machine
        (.ok value after) ∧ value.isTruthy = holds := by
  rw [finishes_test, finishes_bind (Lexical.Step.steady_evaluate _ _) fun _ => .const _]
  simp only [finishes_const]
  constructor
  · rintro (⟨_, _, _, impossible⟩ | ⟨value, _, ends, -, same⟩)
    · cases impossible
    · cases same
      exact ⟨value, ends, rfl⟩
  · rintro ⟨value, ends, rfl⟩
    exact .inr ⟨value, after, ends, trivial, rfl⟩

theorem finishes_test_error {stop : Stop} {after : Lexical.Machine} :
    Finishes (loop.test scope) machine (.error stop after) ↔
      Finishes (fun fuel => Lexical.Step.evaluate fuel scope loop.whileCondition) machine
        (.error stop after) := by
  rw [finishes_test, finishes_bind (Lexical.Step.steady_evaluate _ _) fun _ => .const _]
  simp only [finishes_const]
  constructor
  · rintro (⟨_, _, ends, same⟩ | ⟨value, _, ends, -, impossible⟩)
    · cases same
      exact ends
    · cases impossible
  · exact fun ends => .inl ⟨_, _, ends, rfl⟩

/-! ## The increment behind the body -/

/-- What the body of the `while` loop does behind the body of the loop. -/
def close (loop : ForLoop) (scope : Environment) :
    Flow Environment → Nat → Lexical.Step (Flow Environment)
  | .normal result, fuel =>
    match loop.increment with
    | none => return .normal result
    | some increment => do
      return .normal (some (← Lexical.Step.evaluate fuel scope increment))
  | unfinished, _ => return unfinished

theorem finishes_whileBody (nothing : loop.body.locals = []) :
    Finishes (flow true scope loop.whileBody) machine ending ↔
      (∃ stop after, Finishes (loop.run scope) machine (.error stop after) ∧
        ending = .error stop after) ∨
      ∃ flow middle, Finishes (loop.run scope) machine (.ok flow middle) ∧
        Finishes (loop.close scope flow) middle ending := by
  rcases loop with ⟨initial, condition, _ | increment, body⟩
  · change Finishes (flow true scope body) machine ending ↔
      (∃ stop after, Finishes (flow true scope body) machine (.error stop after) ∧ _) ∨
      ∃ result middle, Finishes (flow true scope body) machine (.ok result middle) ∧ _
    constructor
    · intro ends
      cases ending with
      | error stop after => exact .inl ⟨stop, after, ends, rfl⟩
      | ok result after =>
        refine .inr ⟨result, after, ends, ?_⟩
        cases result <;> exact finishes_const.mpr ⟨trivial, rfl⟩
    · rintro (⟨stop, after, ends, rfl⟩ | ⟨result, middle, ends, last⟩)
      · exact ends
      · have same : (.ok result middle : Ending) = ending := by
          cases result <;> exact (finishes_const.mp last).2
        rw [← same]
        exact ends
  · change Finishes (flow true scope (.block [body, .expression increment])) machine ending ↔
      (∃ stop after, Finishes (flow true scope body) machine (.error stop after) ∧ _) ∨
      ∃ result middle, Finishes (flow true scope body) machine (.ok result middle) ∧ _
    rw [finishes_block, finishes_cons]
    apply or_congr
    · simp only [finishes_flow_error]
    · constructor
      · rintro ⟨⟨result, inner⟩, middle, ends, rest⟩
        obtain rfl : inner = scope := Lexical.Step.environment_of_finishes nothing ends
        refine ⟨result, middle, finishes_flow_ok.mpr ⟨inner, ends⟩, ?_⟩
        cases result with
        | normal result => exact finishes_expression.mp (finishes_single.mp rest)
        | _ => exact rest
      · rintro ⟨result, middle, ends, last⟩
        obtain ⟨inner, ends⟩ := finishes_flow_ok.mp ends
        obtain rfl : inner = scope := Lexical.Step.environment_of_finishes nothing ends
        refine ⟨(result, inner), middle, ends, ?_⟩
        cases result with
        | normal result => exact finishes_single.mpr (finishes_expression.mpr last)
        | _ => exact last

theorem finishes_close_error {result : Option (Value Environment)} {stop : Stop}
    {after : Lexical.Machine} :
    Finishes (loop.close scope (.normal result)) machine (.error stop after) ↔
      Finishes (loop.advance scope) machine (.error stop after) := by
  rcases loop with ⟨initial, condition, _ | increment, body⟩
  · constructor <;> intro ends <;> cases (finishes_const.mp ends).2
  · unfold close advance
    dsimp only
    rw [finishes_bind (Lexical.Step.steady_evaluate _ _) fun _ => .const _,
      finishes_bind (Lexical.Step.steady_evaluate _ _) fun _ => .const _]
    apply or_congr
    · constructor <;> exact fun ⟨stop, after, ends, same⟩ => ⟨stop, after, ends, by cases same; rfl⟩
    · simp only [finishes_const]
      constructor <;> exact fun ⟨_, _, _, _, impossible⟩ => nomatch impossible

theorem finishes_close_ok {result : Option (Value Environment)} {last : Flow Environment}
    {after : Lexical.Machine}
    (ends : Finishes (loop.close scope (.normal result)) machine (.ok last after)) :
    Finishes (loop.advance scope) machine (.ok () after) ∧ ∃ result, last = .normal result := by
  rcases loop with ⟨initial, condition, _ | increment, body⟩
  · obtain ⟨-, same⟩ := finishes_const.mp ends
    cases same
    exact ⟨finishes_const.mpr ⟨trivial, rfl⟩, result, rfl⟩
  · unfold close at ends
    dsimp only at ends
    rw [finishes_bind (Lexical.Step.steady_evaluate _ _) fun _ => .const _] at ends
    rcases ends with ⟨_, _, _, impossible⟩ | ⟨value, middle, first, last⟩
    · cases impossible
    · obtain ⟨-, same⟩ := finishes_const.mp last
      cases same
      refine ⟨?_, some value, rfl⟩
      unfold advance
      dsimp only
      rw [finishes_bind (Lexical.Step.steady_evaluate _ _) fun _ => .const _]
      exact .inr ⟨value, after, first, finishes_const.mpr ⟨trivial, rfl⟩⟩

theorem exists_finishes_close {result : Option (Value Environment)} {after : Lexical.Machine}
    (advances : Finishes (loop.advance scope) machine (.ok () after)) :
    ∃ last, Finishes (loop.close scope (.normal result)) machine (.ok (.normal last) after) := by
  rcases loop with ⟨initial, condition, _ | increment, body⟩
  · obtain ⟨-, same⟩ := finishes_const.mp advances
    cases same
    exact ⟨result, finishes_const.mpr ⟨trivial, rfl⟩⟩
  · unfold advance at advances
    dsimp only at advances
    rw [finishes_bind (Lexical.Step.steady_evaluate _ _) fun _ => .const _] at advances
    rcases advances with ⟨_, _, _, impossible⟩ | ⟨value, middle, first, last⟩
    · cases impossible
    · obtain ⟨-, same⟩ := finishes_const.mp last
      cases same
      refine ⟨some value, ?_⟩
      unfold close
      dsimp only
      rw [finishes_bind (Lexical.Step.steady_evaluate _ _) fun _ => .const _]
      exact .inr ⟨value, after, first, finishes_const.mpr ⟨trivial, rfl⟩⟩

/-! ## The whole loop -/

/-- The turns of the `while` loop, by induction on the bound of the evaluation. -/
theorem turns_of_loop (nothing : loop.body.locals = []) (fuel : Nat)
    (ends : Lexical.Step.loop true fuel scope loop.whileCondition loop.whileBody machine = ending)
    (settled : IsSettled ending) : loop.Turns scope machine ending := by
  induction fuel generalizing machine ending with
  | zero =>
    subst ends
    exact settled.elim
  | succ fuel induction =>
    rw [Lexical.Step.loop] at ends
    rcases exists_of_bind ends settled with ⟨stop, after, fails, rfl, failed⟩ |
      ⟨value, first, tests, goesOn⟩
    · exact .testFails (finishes_test_error.mpr ⟨failed, fuel, fails⟩)
    · have tests : Finishes (loop.test scope) machine (.ok value.isTruthy first) :=
        finishes_test_ok.mpr ⟨value, ⟨trivial, fuel, tests⟩, rfl⟩
      cases holds : value.isTruthy with
      | false =>
        rw [holds] at goesOn tests
        rw [if_neg Bool.false_ne_true] at goesOn
        cases goesOn
        exact .stops tests
      | true =>
        rw [holds] at goesOn tests
        rw [if_pos rfl] at goesOn
        rcases exists_of_bind goesOn settled with ⟨stop, after, fails, rfl, failed⟩ |
          ⟨⟨result, inner⟩, second, ends, goesOn⟩
        · have fails : Finishes (flow true scope loop.whileBody) first (.error stop after) :=
            finishes_flow_error.mpr ⟨failed, fuel, fails⟩
          rcases (finishes_whileBody nothing).mp fails with ⟨_, _, fails, same⟩ |
            ⟨result, second, runs, closes⟩
          · cases same
            exact .bodyFails tests fails
          · cases result with
            | normal result => exact .incrementFails tests runs (finishes_close_error.mp closes)
            | _ => cases (finishes_const.mp closes).2
        · have finishes : Finishes (flow true scope loop.whileBody) first (.ok result second) :=
            finishes_flow_ok.mpr ⟨inner, trivial, fuel, ends⟩
          rcases (finishes_whileBody nothing).mp finishes with ⟨_, _, _, impossible⟩ |
            ⟨whole, middle, runs, closes⟩
          · cases impossible
          · cases whole with
            | normal whole =>
              obtain ⟨advances, last, rfl⟩ := finishes_close_ok closes
              exact .again tests runs advances (induction goesOn settled)
            | broken =>
              obtain ⟨-, same⟩ := finishes_const.mp closes
              cases same
              cases goesOn
              exact .breaks tests runs
            | returned value =>
              obtain ⟨-, same⟩ := finishes_const.mp closes
              cases same
              cases goesOn
              exact .returns tests runs

/-- A turn of the loop is one of the `while` loop. -/
theorem finishes_loop_of_turn {first : Lexical.Machine}
    (holds : Finishes (loop.test scope) machine (.ok true first))
    (turns : Finishes (Lexical.Step.turn true scope loop.whileCondition loop.whileBody) first
      ending) :
    Finishes (fun fuel => Lexical.Step.loop true fuel scope loop.whileCondition loop.whileBody)
      machine ending := by
  obtain ⟨value, tests, holds⟩ := finishes_test_ok.mp holds
  refine Lexical.Step.finishes_loop.mpr (.inr ⟨value, first, tests, ?_⟩)
  simp only [holds, if_true]
  exact turns

/-- The turns of the loop are those of the `while` loop. -/
theorem finishes_of_turns (nothing : loop.body.locals = [])
    (turns : loop.Turns scope machine ending) :
    Finishes (fun fuel => Lexical.Step.loop true fuel scope loop.whileCondition loop.whileBody)
      machine ending := by
  induction turns with
  | testFails fails =>
    exact Lexical.Step.finishes_loop.mpr (.inl ⟨_, _, finishes_test_error.mp fails, rfl⟩)
  | stops holdsNot =>
    obtain ⟨value, tests, holdsNot⟩ := finishes_test_ok.mp holdsNot
    refine Lexical.Step.finishes_loop.mpr (.inr ⟨value, _, tests, ?_⟩)
    simp only [holdsNot, Bool.false_eq_true, if_false]
    exact finishes_const.mpr ⟨trivial, rfl⟩
  | bodyFails holds fails =>
    apply finishes_loop_of_turn holds
    apply Lexical.Step.finishes_turn.mpr
    exact .inl ⟨_, _, (finishes_whileBody nothing).mpr (.inl ⟨_, _, fails, rfl⟩), rfl⟩
  | breaks holds leaves =>
    apply finishes_loop_of_turn holds
    apply Lexical.Step.finishes_turn.mpr
    have leaves : Finishes (flow true scope loop.whileBody) _ (.ok .broken _) :=
      (finishes_whileBody nothing).mpr
        (.inr ⟨.broken, _, leaves, finishes_const.mpr ⟨trivial, rfl⟩⟩)
    exact .inr ⟨.broken, _, leaves, finishes_const.mpr ⟨trivial, rfl⟩⟩
  | @returns _ _ value _ holds leaves =>
    apply finishes_loop_of_turn holds
    apply Lexical.Step.finishes_turn.mpr
    have leaves : Finishes (flow true scope loop.whileBody) _ (.ok (.returned value) _) :=
      (finishes_whileBody nothing).mpr
        (.inr ⟨.returned value, _, leaves, finishes_const.mpr ⟨trivial, rfl⟩⟩)
    exact .inr ⟨.returned value, _, leaves, finishes_const.mpr ⟨trivial, rfl⟩⟩
  | incrementFails holds runs fails =>
    apply finishes_loop_of_turn holds
    apply Lexical.Step.finishes_turn.mpr
    refine .inl ⟨_, _, (finishes_whileBody nothing).mpr (.inr ⟨_, _, runs, ?_⟩), rfl⟩
    exact finishes_close_error.mpr fails
  | again holds runs advances _ induction =>
    apply finishes_loop_of_turn holds
    apply Lexical.Step.finishes_turn.mpr
    obtain ⟨last, closes⟩ := exists_finishes_close advances
    exact .inr ⟨.normal last, _, (finishes_whileBody nothing).mpr (.inr ⟨_, _, runs, closes⟩),
      induction⟩

theorem finishes_whileLoop (nothing : loop.body.locals = []) :
    Finishes (flow true scope (.whileLoop loop.whileCondition loop.whileBody)) machine ending ↔
      loop.Turns scope machine ending := by
  rw [finishes_while]
  constructor
  · exact fun ⟨settled, fuel, ends⟩ => turns_of_loop nothing fuel ends settled
  · exact fun turns => finishes_of_turns nothing turns

/-- What stands in the first clause runs to its end unless it fails. -/
theorem normal_of_isInitial {initial : Stmt} (isInitial : initial.IsInitial)
    {result : Flow Environment × Environment} {after : Lexical.Machine}
    (ends : Finishes (fun fuel => Lexical.Step.execute true fuel environment initial) machine
      (.ok result after)) : ∃ value, result.1 = .normal value := by
  obtain ⟨-, fuel, ends⟩ := (finishes_succ (by rw [Lexical.Step.execute])).mp ends
  dsimp only at ends
  cases isInitial with
  | varDecl name initial =>
    cases initial with
    | none =>
      rw [Lexical.Step.execute] at ends
      rcases exists_of_bind ends trivial with ⟨_, _, _, impossible, -⟩ | ⟨_, _, -, same⟩
      · cases impossible
      · cases same
        exact ⟨_, rfl⟩
    | some initial =>
      rw [Lexical.Step.execute, if_pos rfl] at ends
      rcases exists_of_bind ends trivial with ⟨_, _, _, impossible, -⟩ | ⟨inner, _, -, ends⟩
      · cases impossible
      rcases exists_of_bind ends trivial with ⟨_, _, _, impossible, -⟩ | ⟨value, _, -, ends⟩
      · cases impossible
      rcases exists_of_bind ends trivial with ⟨_, _, _, impossible, -⟩ | ⟨_, _, -, same⟩
      · cases impossible
      · cases same
        exact ⟨_, rfl⟩
  | expression value =>
    rw [Lexical.Step.execute] at ends
    rcases exists_of_bind ends trivial with ⟨_, _, _, impossible, -⟩ | ⟨_, _, -, same⟩
    · cases impossible
    · cases same
      exact ⟨_, rfl⟩

theorem finishes_begin_error {initial : Stmt} (first : loop.initial = some initial) {stop : Stop}
    {after : Lexical.Machine} :
    Finishes (loop.begin environment) machine (.error stop after) ↔
      Finishes (fun fuel => Lexical.Step.execute true fuel environment initial) machine
        (.error stop after) := by
  unfold begin
  simp only [first]
  rw [finishes_bind (Lexical.Step.steady_execute true environment initial) fun _ => .const _]
  simp only [finishes_const]
  constructor
  · rintro (⟨_, _, ends, same⟩ | ⟨_, _, _, -, impossible⟩)
    · cases same
      exact ends
    · cases impossible
  · exact fun ends => .inl ⟨_, _, ends, rfl⟩

theorem finishes_begin_ok {initial : Stmt} (first : loop.initial = some initial)
    {after : Lexical.Machine} :
    Finishes (loop.begin environment) machine (.ok scope after) ↔
      ∃ result, Finishes (fun fuel => Lexical.Step.execute true fuel environment initial) machine
        (.ok (result, scope) after) := by
  unfold begin
  simp only [first]
  rw [finishes_bind (Lexical.Step.steady_execute true environment initial) fun _ => .const _]
  simp only [finishes_const]
  constructor
  · rintro (⟨_, _, _, impossible⟩ | ⟨⟨result, _⟩, _, ends, -, same⟩)
    · cases impossible
    · cases same
      exact ⟨result, ends⟩
  · exact fun ⟨result, ends⟩ => .inr ⟨_, _, ends, trivial, rfl⟩

theorem runs_iff : loop.Runs environment machine ending ↔
    (∃ stop after, Finishes (loop.begin environment) machine (.error stop after) ∧
      ending = .error stop after) ∨
    ∃ scope first, Finishes (loop.begin environment) machine (.ok scope first) ∧
      loop.Turns scope first ending := by
  constructor
  · rintro (fails | ⟨begins, turns⟩)
    · exact .inl ⟨_, _, fails, rfl⟩
    · exact .inr ⟨_, _, begins, turns⟩
  · rintro (⟨_, _, fails, rfl⟩ | ⟨_, _, begins, turns⟩)
    · exact .initialFails fails
    · exact .begins begins turns

/--
The tree of a loop ends in exactly the ways in which the loop ends that is said by its clauses.
-/
theorem finishes_tree_iff {inside : Bool} (isInitial : ∀ initial ∈ loop.initial, initial.IsInitial)
    (nothing : loop.body.locals = []) :
    Finishes (flow inside environment loop.tree) machine ending ↔
      loop.Runs environment machine ending := by
  rw [tree_eq, finishes_block, runs_iff]
  cases first : loop.initial with
  | none =>
    have begins : loop.begin environment = fun _ => return environment := by
      funext fuel
      rw [begin, first]
    rw [Option.toList_none, List.nil_append, finishes_single, finishes_whileLoop nothing, begins]
    simp only [finishes_const]
    constructor
    · exact fun turns => .inr ⟨environment, machine, ⟨trivial, rfl⟩, turns⟩
    · rintro (⟨_, _, ⟨-, impossible⟩, -⟩ | ⟨_, _, ⟨-, same⟩, turns⟩)
      · cases impossible
      · cases same
        exact turns
  | some initial =>
    have isInitial := isInitial initial (first ▸ rfl)
    rw [Option.toList_some, List.singleton_append, finishes_cons]
    simp only [finishes_begin_error first, finishes_begin_ok first]
    apply or_congr_right
    constructor
    · rintro ⟨⟨result, scope⟩, middle, ends, rest⟩
      obtain ⟨value, same⟩ := normal_of_isInitial isInitial ends
      obtain rfl : result = .normal value := same
      exact ⟨scope, middle, ⟨_, ends⟩, (finishes_whileLoop nothing).mp (finishes_single.mp rest)⟩
    · rintro ⟨scope, middle, ⟨result, ends⟩, turns⟩
      obtain ⟨value, same⟩ := normal_of_isInitial isInitial ends
      obtain rfl : result = .normal value := same
      exact ⟨_, middle, ends, finishes_single.mpr ((finishes_whileLoop nothing).mpr turns)⟩

end ForLoop

end Lox
