import Lox.Proofs.Spelling.Steps

/-!
# Programs that are spelt differently do the same

Two programs that differ only in the names of local variables do the same on machines that are
respelt: by induction on the bound of the evaluation, in all functions of the evaluator at once
(`evaluatorRespelt`).  A local variable is declared by code in some frame but the outermost, where
its name is not looked at.
-/

namespace Lox

/-- Within a bound on their depth the evaluators do the same with programs spelt differently. -/
structure EvaluatorRespelt (respelling : Respelling) (fuel : Nat) : Prop where
  evaluate : ∀ (frame : FrameId) {spelling spelling' : Spelling} (expression : Expr),
    spelling.Agrees respelling spelling' expression.mentions →
    Step.Respelt respelling frame (Value.Respelt respelling)
      (Step.evaluate respelling.addresses fuel (expression.spell spelling))
      (Step.evaluate respelling.addresses fuel (expression.spell spelling'))
  evaluateAll : ∀ (frame : FrameId) {spelling spelling' : Spelling} (expressions : List Expr),
    spelling.Agrees respelling spelling' (Expr.mentionsAll expressions) →
    Step.Respelt respelling frame (List.Forall₂ (Value.Respelt respelling))
      (Step.evaluateAll respelling.addresses fuel (Expr.spellAll spelling expressions))
      (Step.evaluateAll respelling.addresses fuel (Expr.spellAll spelling' expressions))
  call : ∀ (frame : FrameId) (line : Nat) {callee callee' arguments arguments'},
    Value.Respelt respelling callee callee' →
    List.Forall₂ (Value.Respelt respelling) arguments arguments' →
    Step.Respelt respelling frame (Value.Respelt respelling)
      (Step.call respelling.addresses fuel line callee arguments)
      (Step.call respelling.addresses fuel line callee' arguments')
  invoke : ∀ (frame : FrameId) {closure closure' arguments arguments'},
    Closure.Respelt respelling closure closure' →
    List.Forall₂ (Value.Respelt respelling) arguments arguments' →
    Step.Respelt respelling frame (Value.Respelt respelling)
      (Step.invoke respelling.addresses fuel closure arguments)
      (Step.invoke respelling.addresses fuel closure' arguments')
  execute : ∀ (frame : FrameId) {spelling spelling' : Spelling} {isLocal : Bool}
    (statement : Stmt), (isLocal → frame ≠ Machine.root) →
    spelling.Agrees respelling spelling' (statement.mentions isLocal) →
    Step.Respelt respelling frame (Flow.Respelt respelling)
      (Step.execute respelling.addresses fuel (statement.spell spelling))
      (Step.execute respelling.addresses fuel (statement.spell spelling'))
  executeAll : ∀ (frame : FrameId) {spelling spelling' : Spelling} {isLocal : Bool}
    (statements : List Stmt) {result result'}, (isLocal → frame ≠ Machine.root) →
    spelling.Agrees respelling spelling' (Stmt.mentionsAll isLocal statements) →
    Option.Rel (Value.Respelt respelling) result result' →
    Step.Respelt respelling frame (Flow.Respelt respelling)
      (Step.executeAll respelling.addresses fuel result (Stmt.spellAll spelling statements))
      (Step.executeAll respelling.addresses fuel result' (Stmt.spellAll spelling' statements))
  loop : ∀ (frame : FrameId) {spelling spelling' : Spelling} {isLocal : Bool} (condition : Expr)
    (body : Stmt), (isLocal → frame ≠ Machine.root) →
    spelling.Agrees respelling spelling' (condition.mentions ++ body.mentions isLocal) →
    Step.Respelt respelling frame (Flow.Respelt respelling)
      (Step.loop respelling.addresses fuel (condition.spell spelling) (body.spell spelling))
      (Step.loop respelling.addresses fuel (condition.spell spelling') (body.spell spelling'))

namespace Spelling.Agrees

variable {respelling : Respelling} {spelling spelling' : Spelling} {first second : List Mention}

theorem left (agrees : spelling.Agrees respelling spelling' (first ++ second)) :
    spelling.Agrees respelling spelling' first :=
  agrees.mono (List.subset_append_left _ _)

theorem right (agrees : spelling.Agrees respelling spelling' (first ++ second)) :
    spelling.Agrees respelling spelling' second :=
  agrees.mono (List.subset_append_right _ _)

theorem tail {mention : Mention}
    (agrees : spelling.Agrees respelling spelling' (mention :: second)) :
    spelling.Agrees respelling spelling' second :=
  agrees.mono (List.subset_cons_self _ _)

/-- Both spellings have things on the same lines. -/
theorem line_eq (agrees : spelling.Agrees respelling spelling' first) (line : Nat) :
    spelling'.line line = spelling.line line :=
  (congrFun agrees.line line).symm

/-- A variable that is declared outside of all frames is global. -/
theorem declaration {name : Name} {isLocal : Bool}
    (agrees : spelling.Agrees respelling spelling' (.declaration name isLocal :: second))
    {frame : FrameId} (inner : isLocal → frame ≠ Machine.root) :
    (name.spell spelling).text = (name.spell spelling').text ∨ frame ≠ Machine.root := by
  rcases agrees.mention _ List.mem_cons_self with inScope | same
  · exact .inr (inner inScope)
  · exact .inl same

end Spelling.Agrees

namespace EvaluatorRespelt

variable {respelling : Respelling} {fuel : Nat} (rules : EvaluatorRespelt respelling fuel)
  (frame : FrameId) {spelling spelling' : Spelling}
include rules

theorem next_evaluateAll (expressions : List Expr)
    (agrees : spelling.Agrees respelling spelling' (Expr.mentionsAll expressions)) :
    Step.Respelt respelling frame (List.Forall₂ (Value.Respelt respelling))
      (Step.evaluateAll respelling.addresses (fuel + 1) (Expr.spellAll spelling expressions))
      (Step.evaluateAll respelling.addresses (fuel + 1) (Expr.spellAll spelling' expressions)) := by
  cases expressions with
  | nil => exact .pure .nil
  | cons first others =>
    rw [Expr.spellAll, Expr.spellAll, Step.evaluateAll, Step.evaluateAll]
    apply (rules.evaluate frame first agrees.left).bind
    intro value value' same
    apply (rules.evaluateAll frame others agrees.right).bind
    intro values values' sameAll
    exact .pure (.cons same sameAll)

theorem next_call (line : Nat) {callee callee' : Value} {arguments arguments' : List Value}
    (same : Value.Respelt respelling callee callee')
    (sameAll : List.Forall₂ (Value.Respelt respelling) arguments arguments') :
    Step.Respelt respelling frame (Value.Respelt respelling)
      (Step.call respelling.addresses (fuel + 1) line callee arguments)
      (Step.call respelling.addresses (fuel + 1) line callee' arguments') := by
  cases same with
  | literal value => cases value <;> exact .fail line .notCallable
  | object => exact .fail line .notCallable
  | function same =>
    rw [Step.call, Step.call, ← same.arity_eq, ← sameAll.length_eq]
    apply (Step.Respelt.checkArity line _ arguments.length).bind
    intro _ _ _
    exact rules.invoke frame same sameAll
  | @type ofClass ofClass' same =>
    rw [Step.call, Step.call, ← same.arity_eq, ← sameAll.length_eq]
    apply (Step.Respelt.checkArity line ofClass.arity arguments.length).bind
    intro _ _ _
    apply (Step.Respelt.newInstance same).bind
    intro created created' object
    have initializers := same.method? "init"
    rw [Class.initializer?, Class.initializer?]
    revert initializers
    generalize ofClass.method? "init" = found
    generalize ofClass'.method? "init" = found'
    rintro (initializer | _)
    · apply (Step.Respelt.bindMethod object initializer).bind
      intro bound bound' boundSame
      apply (rules.invoke frame boundSame sameAll).bind
      intro _ _ _
      exact .pure object
    · exact .pure object

theorem next_invoke {closure closure' : Closure} {arguments arguments' : List Value}
    (same : Closure.Respelt respelling closure closure')
    (sameAll : List.Forall₂ (Value.Respelt respelling) arguments arguments') :
    Step.Respelt respelling frame (Value.Respelt respelling)
      (Step.invoke respelling.addresses (fuel + 1) closure arguments)
      (Step.invoke respelling.addresses (fuel + 1) closure' arguments') := by
  rcases closure with ⟨id, name, behaviour, environment⟩
  rcases closure' with ⟨id', name', behaviour', environment'⟩
  rcases same with ⟨rfl, rfl, behaviours, rfl⟩
  rw [Step.invoke, Step.invoke]
  cases behaviours with
  | clock =>
    apply Step.Respelt.get.bind
    intro machine machine' respelt
    rw [respelt.clock]
    exact .pure (.number _)
  | @body spelling spelling' definition agrees isInitializer =>
    dsimp only
    rw [Function.body_spell, Function.body_spell]
    apply (Step.Respelt.newFrame environment sameAll).bind
    rintro parameters _ ⟨rfl, -⟩
    apply (Step.Respelt.newFrame parameters .nil).bind
    rintro body _ ⟨rfl, inner⟩
    have inside : spelling.Agrees respelling spelling'
        (Stmt.mentionsAll true definition.body) := by
      cases definition
      exact agrees.right
    apply (Step.Respelt.within (rules.executeAll body _ (fun _ => inner) inside .none)).bind
    intro flow flow' flows
    cases isInitializer with
    | false => exact .pure flows.callResult
    | true =>
      apply Step.Respelt.get.bind
      intro machine machine' respelt
      have slots := respelt.frames.get? environment 0 0
      revert slots
      generalize machine.frames.get? environment 0 0 = slot
      generalize machine'.frames.get? environment 0 0 = slot'
      rintro (slot | _)
      · cases slot with
        | uninitialised => exact .pure .nil
        | initialised this => exact .pure this
      · exact .pure .nil

theorem next_evaluate (expression : Expr)
    (agrees : spelling.Agrees respelling spelling' expression.mentions) :
    Step.Respelt respelling frame (Value.Respelt respelling)
      (Step.evaluate respelling.addresses (fuel + 1) (expression.spell spelling))
      (Step.evaluate respelling.addresses (fuel + 1) (expression.spell spelling')) := by
  cases expression with
  | literal value => exact .pure (.literal value)
  | group inner => exact rules.evaluate frame inner agrees
  | unary op line operand =>
    rw [Expr.spell, Expr.spell, agrees.line_eq, Step.evaluate, Step.evaluate]
    apply (rules.evaluate frame operand agrees).bind
    intro value value' same
    exact .ofExcept (.unary op same.alike)
  | binary op line left right =>
    rw [Expr.spell, Expr.spell, agrees.line_eq, Step.evaluate, Step.evaluate]
    apply (rules.evaluate frame left agrees.left).bind
    intro value value' same
    apply (rules.evaluate frame right agrees.right).bind
    intro other other' sameOther
    exact .ofExcept (.binary op same.alike sameOther.alike)
  | logical op line left right =>
    rw [Expr.spell, Expr.spell, Step.evaluate, Step.evaluate]
    apply (rules.evaluate frame left agrees.left).bind
    intro value value' same
    rw [op.decides_of_alike same.alike]
    split
    · exact .pure same
    · exact rules.evaluate frame right agrees.right
  | read target => exact .readVariable (agrees.use List.mem_cons_self)
  | assign target value =>
    rw [Expr.spell, Expr.spell, Step.evaluate, Step.evaluate]
    apply (rules.evaluate frame value agrees.tail).bind
    intro result result' same
    apply (Step.Respelt.assignVariable (target.spell spelling) (target.spell spelling') rfl
      (agrees.use List.mem_cons_self) same).bind
    intro _ _ _
    exact .pure same
  | call callee line arguments =>
    rw [Expr.spell, Expr.spell, agrees.line_eq, Step.evaluate, Step.evaluate]
    apply (rules.evaluate frame callee agrees.left).bind
    intro value value' same
    apply (rules.evaluateAll frame arguments agrees.right).bind
    intro values values' sameAll
    exact rules.call frame _ same sameAll
  | function definition =>
    rw [Expr.spell, Expr.spell, Step.evaluate, Step.evaluate]
    apply Step.Respelt.get.bind
    intro machine machine' respelt
    rw [respelt.current, respelt.current']
    apply (Step.Respelt.newClosure frame "anonymous" (.body agrees false)).bind
    intro closure closure' same
    exact .pure (.function same)
  | get object name =>
    rw [Expr.spell, Expr.spell, Step.evaluate, Step.evaluate]
    apply (rules.evaluate frame object agrees.left).bind
    intro value value' same
    rw [← agrees.right.label List.mem_cons_self]
    exact .property same _
  | set object name value =>
    rw [Expr.spell, Expr.spell, ← agrees.right.label List.mem_cons_self, Step.evaluate,
      Step.evaluate]
    apply (rules.evaluate frame object agrees.left).bind
    intro target target' same
    cases same with
    | literal value => cases value <;> exact .fail _ .hasNoFields
    | object id same =>
      apply (rules.evaluate frame value agrees.right.tail).bind
      intro result result' sameResult
      apply (Step.Respelt.setField rfl _ sameResult).bind
      intro _ _ _
      exact .pure sameResult
    | _ => exact .fail _ .hasNoFields
  | this id line =>
    rw [Expr.spell, Expr.spell, Step.evaluate, Step.evaluate]
    exact .readVariable ⟨congrFun agrees.line line, .inl rfl⟩
  | super id line method =>
    rw [Expr.spell, Expr.spell, agrees.line_eq, ← agrees.label List.mem_cons_self, Step.evaluate]
    exact .superMethod id _ _

section

variable {isLocal : Bool} (inner : isLocal → frame ≠ Machine.root)
include inner

theorem next_executeAll (statements : List Stmt) {result result' : Option Value}
    (agrees : spelling.Agrees respelling spelling' (Stmt.mentionsAll isLocal statements))
    (same : Option.Rel (Value.Respelt respelling) result result') :
    Step.Respelt respelling frame (Flow.Respelt respelling)
      (Step.executeAll respelling.addresses (fuel + 1) result
        (Stmt.spellAll spelling statements))
      (Step.executeAll respelling.addresses (fuel + 1) result'
        (Stmt.spellAll spelling' statements)) := by
  cases statements with
  | nil => exact .pure (.normal same)
  | cons first others =>
    rw [Stmt.spellAll, Stmt.spellAll, Step.executeAll, Step.executeAll]
    apply (rules.execute frame first inner agrees.left).bind
    intro flow flow' flows
    cases flows with
    | normal result => exact rules.executeAll frame others inner agrees.right result
    | returned value => exact .pure (.returned value)
    | broken => exact .pure .broken

theorem next_loop (condition : Expr) (body : Stmt)
    (agrees : spelling.Agrees respelling spelling'
      (condition.mentions ++ body.mentions isLocal)) :
    Step.Respelt respelling frame (Flow.Respelt respelling)
      (Step.loop respelling.addresses (fuel + 1) (condition.spell spelling)
        (body.spell spelling))
      (Step.loop respelling.addresses (fuel + 1) (condition.spell spelling')
        (body.spell spelling')) := by
  rw [Step.loop, Step.loop]
  apply (rules.evaluate frame condition agrees.left).bind
  intro value value' same
  rw [same.alike.isTruthy_eq]
  split
  · apply (rules.execute frame body inner agrees.right).bind
    intro flow flow' flows
    cases flows with
    | normal => exact rules.loop frame condition body inner agrees
    | returned value => exact .pure (.returned value)
    | broken => exact .pure (.normal .none)
  · exact .pure (.normal .none)

/-- Declaring a variable with an initialiser. -/
theorem next_varDecl (name : Name) (initial : Expr)
    (agrees : spelling.Agrees respelling spelling'
      (.declaration name isLocal :: initial.mentions)) :
    Step.Respelt respelling frame (Flow.Respelt respelling)
      (Step.execute respelling.addresses (fuel + 1)
        ((Stmt.varDecl name (some initial)).spell spelling))
      (Step.execute respelling.addresses (fuel + 1)
        ((Stmt.varDecl name (some initial)).spell spelling')) := by
  have texts := agrees.declaration inner
  rw [Stmt.spell, Stmt.spell, Step.execute, Step.execute]
  apply Step.Respelt.inRoot.bind
  rintro _ _ ⟨rfl, rfl⟩
  cases isGlobal : frame == Machine.root with
  | true =>
    have text := texts.resolve_right (not_not_intro (beq_iff_eq.mp isGlobal))
    rw [text]
    apply (rules.evaluate frame initial agrees.tail).bind
    intro value value' same
    apply (Step.Respelt.setGlobal _ (.initialised same)).bind
    intro _ _ _
    exact .pure (.normal .none)
  | false =>
    apply (Step.Respelt.newSlot .uninitialised).bind
    rintro index _ rfl
    apply (rules.evaluate frame initial agrees.tail).bind
    intro value value' same
    apply (Step.Respelt.setSlot index same).bind
    intro _ _ _
    exact .pure (.normal .none)

theorem next_execute (statement : Stmt)
    (agrees : spelling.Agrees respelling spelling' (statement.mentions isLocal)) :
    Step.Respelt respelling frame (Flow.Respelt respelling)
      (Step.execute respelling.addresses (fuel + 1) (statement.spell spelling))
      (Step.execute respelling.addresses (fuel + 1) (statement.spell spelling')) := by
  cases statement with
  | expression value =>
    rw [Stmt.spell, Stmt.spell, Step.execute, Step.execute]
    apply (rules.evaluate frame value agrees).bind
    intro result result' same
    exact .pure (.normal (.some same))
  | print value =>
    rw [Stmt.spell, Stmt.spell, Step.execute, Step.execute]
    apply (rules.evaluate frame value agrees).bind
    intro result result' same
    rw [same.alike.display_eq]
    apply (Step.Respelt.print result'.display).bind
    intro _ _ _
    exact .pure (.normal .none)
  | varDecl name initial =>
    cases initial with
    | none =>
      rw [Stmt.spell, Stmt.spell, Step.execute_varDecl_none, Step.execute_varDecl_none]
      apply Step.Respelt.inRoot.bind
      rintro _ _ ⟨rfl, rfl⟩
      apply (Step.Respelt.declareName (agrees.declaration inner)).bind
      rintro _ _ _
      exact .pure (.normal .none)
    | some initial => exact rules.next_varDecl frame inner name initial agrees
  | block body =>
    rw [Stmt.spell, Stmt.spell, Step.execute, Step.execute]
    apply Step.Respelt.get.bind
    intro machine machine' respelt
    rw [respelt.current, respelt.current']
    apply (Step.Respelt.newFrame frame .nil).bind
    rintro block _ ⟨rfl, notRoot⟩
    exact .within (rules.executeAll block body (fun _ => notRoot) agrees .none)
  | ifElse condition whenTrue whenFalse =>
    cases whenFalse with
    | none =>
      rw [Stmt.spell, Stmt.spell, Step.execute, Step.execute]
      apply (rules.evaluate frame condition agrees.left).bind
      intro value value' same
      rw [same.alike.isTruthy_eq]
      split
      · exact rules.execute frame whenTrue inner agrees.right
      · exact .pure (.normal .none)
    | some whenFalse =>
      rw [Stmt.spell, Stmt.spell, Step.execute, Step.execute]
      apply (rules.evaluate frame condition agrees.left.left).bind
      intro value value' same
      rw [same.alike.isTruthy_eq]
      split
      · exact rules.execute frame whenTrue inner agrees.left.right
      · exact rules.execute frame whenFalse inner agrees.right
  | whileLoop condition body => exact rules.loop frame condition body inner agrees
  | breakLoop line => exact .pure .broken
  | funDecl function =>
    rcases function with ⟨name, definition⟩
    rw [Stmt.spell, Stmt.spell, ← agrees.label List.mem_cons_self, Step.execute, Step.execute]
    apply Step.Respelt.get.bind
    intro machine machine' respelt
    rw [respelt.current, respelt.current']
    apply (Step.Respelt.newClosure frame _ (.body agrees.tail false)).bind
    intro closure closure' same
    apply (Step.Respelt.defineVariable _ (.function same)).bind
    intro _ _ _
    exact .pure (.normal .none)
  | returnValue line value =>
    cases value with
    | none => exact .pure (.returned .nil)
    | some value =>
      rw [Stmt.spell, Stmt.spell, Step.execute, Step.execute]
      apply (rules.evaluate frame value agrees).bind
      intro result result' same
      exact .pure (.returned same)
  | classDecl name superclass methods classMethods =>
    rw [Stmt.spell, Stmt.spell, Step.execute, Step.execute]
    apply (Step.Respelt.declareClass agrees).bind
    intro value value' same
    exact .pure (.normal (.some same))

end

end EvaluatorRespelt

/-- The evaluators do the same for every bound. -/
theorem evaluatorRespelt (respelling : Respelling) (fuel : Nat) :
    EvaluatorRespelt respelling fuel := by
  induction fuel with
  | zero => constructor <;> intros <;> exact .outOfFuel
  | succ fuel rules =>
    constructor
    · exact fun frame _ _ => rules.next_evaluate frame
    · exact fun frame _ _ => rules.next_evaluateAll frame
    · exact fun frame line _ _ _ _ => rules.next_call frame line
    · exact fun frame _ _ _ _ => rules.next_invoke frame
    · exact fun frame _ _ _ statement inner => rules.next_execute frame inner statement
    · exact fun frame _ _ _ statements _ _ inner => rules.next_executeAll frame inner statements
    · exact fun frame _ _ _ condition body inner => rules.next_loop frame inner condition body

/-- A program that is spelt differently does the same. -/
theorem Step.Respelt.interpret {respelling : Respelling} {spelling spelling' : Spelling}
    (fuel : Nat) (program : List Stmt)
    (agrees : spelling.Agrees respelling spelling' (Program.mentions program))
    {result result' : Option Value} (same : Option.Rel (Value.Respelt respelling) result result') :
    Step.Respelt respelling Machine.root (Option.Rel (Value.Respelt respelling))
      (Step.interpret respelling.addresses fuel result (Stmt.spellAll spelling program))
      (Step.interpret respelling.addresses fuel result' (Stmt.spellAll spelling' program)) := by
  induction program generalizing result result' with
  | nil => exact .pure same
  | cons first others induction =>
    rw [Program.mentions, Stmt.mentionsAll] at agrees
    rw [Stmt.spellAll, Stmt.spellAll, Step.interpret, Step.interpret]
    apply ((evaluatorRespelt respelling fuel).execute Machine.root first _ agrees.left).bind
    · intro flow flow' flows
      exact induction agrees.right flows.programResult
    · intro impossible
      cases impossible

end Lox
