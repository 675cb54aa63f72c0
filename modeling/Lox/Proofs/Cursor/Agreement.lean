import Lox.Proofs.Cursor.Follows
import Lox.Proofs.Grammar.Soundness

/-!
# All rules follow the tokens by an index

Each rule over a cursor does what the rule does that reads from the front, by induction on the
bound on the depth of their calls (`rulesFollow`).  So do the declarations of a program:
`follows_declarations`.
-/

namespace Lox.Grammar

/-- The methods of a class with one turn of their loop apart. -/
theorem methodsRest_eq (fuel : Nat) :
    methodsRest (fuel + 1) = do
      if (← sees (.symbol .rightBrace)) || (← atEnd) then
        demandSymbol .rightBrace .classBodyEnd
        return ([], [])
      else
        let first ← (do
          let ofClass ← accepts (.keyword .classWord)
          return (ofClass, ← namedFunction fuel .method) : Rule (Bool × NamedFunction))
        let (methods, classMethods) ← methodsRest fuel
        return if first.1 then (methods, first.2 :: classMethods)
          else (first.2 :: methods, classMethods) := by
  rw [methodsRest]
  apply bind_congr
  intro closing
  apply bind_congr
  intro ending
  split
  · rfl
  · rw [bind_assoc]
    apply bind_congr
    intro ofClass
    cases ofClass <;> simp

namespace Cursor

variable {α β : Type} {cursor : Cursor} {state : State} {count : Nat}
  {pending : List SyntaxError}

/-- Within this bound each rule does what the other one does, wherever the cursor is. -/
structure RulesFollow (fuel : Nat) : Prop where
  expression (cursor : Cursor) (state : State) :
    (expression fuel).Follows (Grammar.expression fuel) 1 cursor state
  operation (cursor : Cursor) (state : State) (level : Level) :
    (operation fuel level).Follows (Grammar.operation fuel level) 1 cursor state
  operationRest (cursor : Cursor) (state : State) (level : Level) (left : Expr) :
    (operationRest fuel level left).Follows (Grammar.operationRest fuel level left) 0 cursor state
  operand (cursor : Cursor) (state : State) (level : Level) :
    (operand fuel level).Follows (Grammar.operand fuel level) 1 cursor state
  unary (cursor : Cursor) (state : State) :
    (unary fuel).Follows (Grammar.unary fuel) 1 cursor state
  calls (cursor : Cursor) (state : State) (callee : Expr) :
    (calls fuel callee).Follows (Grammar.calls fuel callee) 0 cursor state
  arguments (cursor : Cursor) (state : State) :
    (arguments fuel).Follows (Grammar.arguments fuel) 0 cursor state
  argumentValues (cursor : Cursor) (state : State) (length : Nat) :
    (argumentValues fuel length).Follows (Grammar.argumentValues fuel length) 1 cursor state
  primary (cursor : Cursor) (state : State) :
    (primary fuel).Follows (Grammar.primary fuel) 1 cursor state
  functionRest (cursor : Cursor) (state : State) (role : FunctionRole) :
    (functionRest fuel role).Follows (Grammar.functionRest fuel role) 1 cursor state
  namedFunction (cursor : Cursor) (state : State) (role : FunctionRole) :
    (namedFunction fuel role).Follows (Grammar.namedFunction fuel role) 1 cursor state
  blockRest (cursor : Cursor) (state : State) (breakable : Bool) :
    (blockRest fuel breakable).Follows (Grammar.blockRest fuel breakable) 1 cursor state
  declaration (cursor : Cursor) (state : State) (breakable : Bool) :
    (declaration fuel breakable).Follows (Grammar.declaration fuel breakable) 1 cursor state
  classRest (cursor : Cursor) (state : State) :
    (classRest fuel).Follows (Grammar.classRest fuel) 1 cursor state
  methodsRest (cursor : Cursor) (state : State) :
    (methodsRest fuel).Follows (Grammar.methodsRest fuel) 1 cursor state
  variableRest (cursor : Cursor) (state : State) :
    (variableRest fuel).Follows (Grammar.variableRest fuel) 1 cursor state
  statement (cursor : Cursor) (state : State) (breakable : Bool) :
    (statement fuel breakable).Follows (Grammar.statement fuel breakable) 1 cursor state
  forRest (cursor : Cursor) (state : State) :
    (forRest fuel).Follows (Grammar.forRest fuel) 1 cursor state
  forInitial (cursor : Cursor) (state : State) :
    (forInitial fuel).Follows (Grammar.forInitial fuel) 1 cursor state
  optionalExpression (cursor : Cursor) (state : State) (follower : Symbol) :
    (optionalExpression fuel follower).Follows (Grammar.optionalExpression fuel follower) 0 cursor
      state
  expressionStatement (cursor : Cursor) (state : State) :
    (expressionStatement fuel).Follows (Grammar.expressionStatement fuel) 1 cursor state

/-! ## Rules that need no expressions -/

/-- An operator is read, or nothing. -/
theorem follows_nextConnective? (level : Level) {next : Option (Connective × Nat) → Rule β}
    {next' : Option (Connective × Nat) → Grammar.Rule β}
    (found : ∀ operator middle state', Grows cursor middle 1 →
      (next (some operator)).Follows (next' (some operator)) (count - 1) middle state')
    (missing : (next none).Follows (next' none) count cursor state) :
    (nextConnective? level >>= next).Follows (Grammar.nextConnective? level >>= next') count cursor
      state := by
  rw [nextConnective?, bind_assoc, Grammar.nextConnective?, bind_assoc]
  apply follows_peek
  intro token isLeft
  cases isOperator : Connective.ofKind? token.kind with
  | none => exact missing
  | some connective =>
    have isToken := (joins_of_ofKind? isOperator).isEnding_eq
    simp only
    split
    · rw [bind_assoc, bind_assoc]
      apply (follows_skip (isLeft isToken)).bind
      exact fun _ middle state' grows => found _ middle state' grows
    · exact missing

theorem follows_nextUnaryOp? {next : Option (UnaryOp × Nat) → Rule β}
    {next' : Option (UnaryOp × Nat) → Grammar.Rule β}
    (found : ∀ operator middle state', Grows cursor middle 1 →
      (next (some operator)).Follows (next' (some operator)) (count - 1) middle state')
    (missing : (next none).Follows (next' none) count cursor state) :
    (nextUnaryOp? >>= next).Follows (Grammar.nextUnaryOp? >>= next') count cursor state := by
  rw [nextUnaryOp?, bind_assoc, Grammar.nextUnaryOp?, bind_assoc]
  apply follows_peek
  intro token isLeft
  cases isOperator : unaryOp? token.kind with
  | none => exact missing
  | some op =>
    have isToken := (precedes_of_unaryOp? isOperator).isEnding_eq
    simp only
    rw [bind_assoc, bind_assoc]
    apply (follows_skip (isLeft isToken)).bind
    exact fun _ middle state' grows => found _ middle state' grows

theorem follows_noteOverflow (length : Nat) (fault : SyntaxFault) :
    (noteOverflow length fault).Follows (Grammar.noteOverflow length fault) 0 cursor state := by
  rw [noteOverflow, Grammar.noteOverflow]
  split
  · exact follows_peek fun token _ => follows_note token fault
  · exact .pure ()

theorem follows_parameterNames (fuel length : Nat) (cursor : Cursor) (state : State) :
    (parameterNames fuel length).Follows (Grammar.parameterNames fuel length) 1 cursor state := by
  induction fuel generalizing length cursor state with
  | zero => exact .exhausted
  | succ fuel induction =>
    rw [parameterNames, Grammar.parameterNames]
    apply (follows_noteOverflow length _).bind
    intro _ first state₁ _
    apply (follows_demandName _).bind
    intro name second state₂ _
    apply follows_ifAccepts
    · intro third state₃ _
      exact (induction (length + 1) third state₃).bind fun _ _ _ _ => .pure _
    · exact .pure _

theorem follows_parameters (fuel : Nat) :
    (parameters fuel).Follows (Grammar.parameters fuel) 0 cursor state := by
  rw [parameters, Grammar.parameters]
  apply (follows_sees _).bind
  intro none after state' _
  split
  · exact .pure _
  · exact (follows_parameterNames fuel 0 after state').weaken (Nat.zero_le _)

theorem Tracks.seesNext_eq (tracks : Tracks pending cursor state) {token : Token} {rest : List Token}
    (here : state.rest = token :: rest) (kind : Kind) :
    seesNext kind cursor = .ok ((rest.head?.getD state.ending).kind.same kind) cursor := by
  have found : cursor.tokens[cursor.current + 1]? = some (rest.head?.getD state.ending) := by
    rw [tracks.getElem? 1, here]
    cases rest <;> rfl
  show EStateM.bind (look (cursor.current + 1)) (fun token => pure (token.kind.same kind)) cursor = _
  rw [EStateM.bind, look_eq found]
  rfl

/-- The token behind the next one is looked at only if the next one is not the end. -/
theorem Tracks.seesFunctionDeclaration_eq (tracks : Tracks pending cursor state) :
    ∃ found, seesFunctionDeclaration cursor = .ok found cursor ∧
      Grammar.seesFunctionDeclaration state = .ok found state ∧
      (found = true → state.rest ≠ []) := by
  have next := fun (token : Token) (rest : List Token) (here : state.rest = token :: rest) =>
    tracks.seesNext_eq here
  have last := tracks.isEnding
  rw [seesFunctionDeclaration]
  show ∃ found, EStateM.bind (sees _) _ cursor = _ ∧ _
  rw [EStateM.bind, tracks.sees_eq]
  obtain ⟨_ | ⟨token, rest⟩, ending, nextId, errors⟩ := state
  · exact ⟨false, rfl, rfl, nofun⟩
  · rw [List.head?_cons, Option.any_some]
    refine ⟨token.kind.same (.keyword .funWord) &&
      !(rest.head?.getD ending).kind.same (.symbol .leftParen), ?_, ?_,
      fun _ => List.cons_ne_nil _ _⟩
    · cases token.kind.same (.keyword .funWord) with
      | false => rfl
      | true =>
        show EStateM.bind (seesNext _) _ cursor = _
        rw [EStateM.bind, next token rest rfl]
        rfl
    · cases rest with
      | cons second others => rfl
      | nil =>
        have other : ending.kind.same (.symbol .leftParen) = false := by
          cases isOf : ending.kind <;> simp_all [Kind.isEnding, Kind.same]
        show EStateM.Result.ok (token.kind.same (.keyword .funWord)) _ = _
        rw [List.head?_nil, Option.getD_none, other, Bool.not_false, Bool.and_true]

theorem follows_seesFunctionDeclaration {whenSeen whenMissing : Rule β}
    {whenSeen' whenMissing' : Grammar.Rule β}
    (seen : state.rest ≠ [] → whenSeen.Follows whenSeen' count cursor state)
    (missing : whenMissing.Follows whenMissing' count cursor state) :
    Rule.Follows (seesFunctionDeclaration >>= fun found =>
        if found = true then whenSeen else whenMissing)
      (Grammar.seesFunctionDeclaration >>= fun found =>
        if found = true then whenSeen' else whenMissing') count cursor state := by
  intro tracks
  obtain ⟨found, sees, sees', isLeft⟩ := tracks.seesFunctionDeclaration_eq
  show Agree cursor count (EStateM.bind seesFunctionDeclaration _ cursor)
    (EStateM.bind Grammar.seesFunctionDeclaration _ state)
  rw [EStateM.bind, EStateM.bind, sees, sees']
  cases found with
  | true => exact seen (isLeft rfl) tracks
  | false => exact missing tracks

theorem follows_assignment (target : Expr) (sign : Token) (value : Expr) :
    (assignment target sign value).Follows (Grammar.assignment target sign value) 0 cursor
      state := by
  cases target with
  | read | get => exact .pure _
  | _ => exact (follows_note sign _).bind fun _ _ _ _ => .pure _

/-! ## Expressions -/

section

variable {fuel : Nat} (rules : RulesFollow fuel) (cursor : Cursor) (state : State)
include rules

theorem follows_expression :
    (expression (fuel + 1)).Follows (Grammar.expression (fuel + 1)) 1 cursor state := by
  rw [expression, Grammar.expression]
  apply (rules.operation cursor state .or).bind
  intro target first state₁ _
  apply follows_accept
  · intro sign second state₂ _
    apply (rules.expression second state₂).bind
    exact fun value _ _ _ => follows_assignment target sign value
  · exact .pure _

theorem follows_operation (level : Level) :
    (operation (fuel + 1) level).Follows (Grammar.operation (fuel + 1) level) 1 cursor state := by
  rw [operation, Grammar.operation]
  apply (rules.operand cursor state level).bind
  exact fun left first state₁ _ => rules.operationRest first state₁ level left

theorem follows_operationRest (level : Level) (left : Expr) :
    (operationRest (fuel + 1) level left).Follows (Grammar.operationRest (fuel + 1) level left) 0
      cursor state := by
  rw [operationRest, Grammar.operationRest]
  apply follows_nextConnective?
  · rintro ⟨connective, line⟩ first state₁ _
    apply (rules.operand first state₁ level).bind
    exact fun right second state₂ _ => rules.operationRest second state₂ level _
  · exact .pure _

theorem follows_operand (level : Level) :
    (operand (fuel + 1) level).Follows (Grammar.operand (fuel + 1) level) 1 cursor state := by
  rw [operand, Grammar.operand]
  cases level.tighter? with
  | some tighter => exact rules.operation cursor state tighter
  | none => exact rules.unary cursor state

theorem follows_unary :
    (unary (fuel + 1)).Follows (Grammar.unary (fuel + 1)) 1 cursor state := by
  rw [unary, Grammar.unary]
  apply follows_nextUnaryOp?
  · rintro ⟨op, line⟩ first state₁ _
    apply (rules.unary first state₁).bind
    exact fun _ _ _ _ => .pure _
  · apply (rules.primary cursor state).bind
    exact fun callee first state₁ _ => rules.calls first state₁ callee

theorem follows_calls (callee : Expr) :
    (calls (fuel + 1) callee).Follows (Grammar.calls (fuel + 1) callee) 0 cursor state := by
  rw [calls, Grammar.calls]
  apply follows_ifAccepts
  · intro first state₁ _
    apply (rules.arguments first state₁).bind
    intro arguments second state₂ _
    apply (follows_demand _ _).bind
    exact fun closing third state₃ _ => rules.calls third state₃ _
  apply follows_ifAccepts
  · intro first state₁ _
    apply (follows_demandName _).bind
    exact fun name second state₂ _ => rules.calls second state₂ _
  · exact .pure _

theorem follows_arguments :
    (arguments (fuel + 1)).Follows (Grammar.arguments (fuel + 1)) 0 cursor state := by
  rw [arguments, Grammar.arguments]
  apply (follows_sees _).bind
  intro none first state₁ _
  split
  · exact .pure _
  · exact (rules.argumentValues first state₁ 0).weaken (Nat.zero_le _)

theorem follows_argumentValues (length : Nat) :
    (argumentValues (fuel + 1) length).Follows (Grammar.argumentValues (fuel + 1) length) 1 cursor
      state := by
  rw [argumentValues, Grammar.argumentValues]
  apply (follows_noteOverflow length _).bind
  intro _ first state₁ _
  apply (rules.expression first state₁).bind
  intro value second state₂ _
  apply follows_ifAccepts
  · intro third state₃ _
    apply (rules.argumentValues third state₃ (length + 1)).bind
    exact fun _ _ _ _ => .pure _
  · exact .pure _

theorem follows_primary :
    (primary (fuel + 1)).Follows (Grammar.primary (fuel + 1)) 1 cursor state := by
  rw [primary, Grammar.primary]
  apply follows_peek
  intro token isLeft
  have skips : ∀ {kind : Kind} {next : Unit → Rule Expr} {next' : Unit → Grammar.Rule Expr},
      token.kind = kind → kind.isEnding = false →
      (∀ first state₁, (next ()).Follows (next' ()) 0 first state₁) →
      Rule.Follows (skip >>= next) (Grammar.skip >>= next') 1 cursor state := by
    rintro kind next next' rfl isToken continues
    exact (follows_skip (isLeft isToken)).bind fun _ first state₁ _ => continues first state₁
  -- The case split opens one of the two rules; the other one looks at the same kind.
  split <;> try simp only [‹token.kind = _›]
  · next isOf =>
    exact skips isOf rfl fun _ _ => .pure _
  · next isOf =>
    exact skips isOf rfl fun _ _ => .pure _
  · next isOf =>
    exact skips isOf rfl fun _ _ => .pure _
  · next isOf =>
    exact skips isOf rfl fun _ _ => .pure _
  · next isOf =>
    exact skips isOf rfl fun _ _ => .pure _
  · next isOf =>
    apply skips isOf rfl
    exact fun _ _ => follows_freshId.bind fun _ _ _ _ => .pure _
  · next isOf =>
    apply skips isOf rfl
    intro first state₁
    apply (follows_demandSymbol _ _).bind
    intro _ second state₂ _
    apply (follows_demandName _).bind
    intro method third state₃ _
    exact follows_freshId.bind fun _ _ _ _ => .pure _
  · next isOf =>
    apply skips isOf rfl
    exact fun _ _ => follows_freshId.bind fun _ _ _ _ => .pure _
  · next isOf =>
    apply skips isOf rfl
    intro first state₁
    apply (rules.expression first state₁).bind
    intro inner second state₂ _
    apply (follows_demandSymbol _ _).bind
    exact fun _ _ _ _ => .pure _
  · next isOf =>
    apply skips isOf rfl
    intro first state₁
    apply (follows_demandSymbol _ _).bind
    intro _ second state₂ _
    apply (rules.functionRest second state₂ .function).bind
    exact fun _ _ _ _ => .pure _
  -- No kind is named here; the other rule comes to its last case as well.
  · first
    | exact follows_fail _
    | split <;> first | exact follows_fail _ | simp_all

/-! ## Functions and blocks -/

theorem follows_functionRest (role : FunctionRole) :
    (functionRest (fuel + 1) role).Follows (Grammar.functionRest (fuel + 1) role) 1 cursor
      state := by
  rw [functionRest, Grammar.functionRest]
  apply (follows_parameters fuel).bind
  intro parameters first state₁ _
  apply (follows_demandSymbol _ _).bind
  intro _ second state₂ _
  apply (follows_demandSymbol _ _).bind
  intro _ third state₃ _
  apply (rules.blockRest third state₃ false).bind
  exact fun _ _ _ _ => .pure _

theorem follows_namedFunction (role : FunctionRole) :
    (namedFunction (fuel + 1) role).Follows (Grammar.namedFunction (fuel + 1) role) 1 cursor
      state := by
  rw [namedFunction, Grammar.namedFunction]
  apply (follows_demandName _).bind
  intro name first state₁ _
  apply (follows_demandSymbol _ _).bind
  intro _ second state₂ _
  apply (rules.functionRest second state₂ role).bind
  exact fun _ _ _ _ => .pure _

omit rules in
/-- The end of a list of declarations or methods, or another element of it. -/
theorem follows_atClosing {what : Demand} {result : α} {whenGoesOn : Rule α}
    {whenGoesOn' : Grammar.Rule α}
    (goesOn : state.rest ≠ [] → whenGoesOn.Follows whenGoesOn' 1 cursor state) :
    Rule.Follows (sees (.symbol .rightBrace) >>= fun closing => atEnd >>= fun ending =>
        if (closing || ending) = true then
          demandSymbol .rightBrace what >>= fun _ => pure result
        else
          whenGoesOn)
      (Grammar.sees (.symbol .rightBrace) >>= fun closing => Grammar.atEnd >>= fun ending =>
        if (closing || ending) = true then
          Grammar.demandSymbol .rightBrace what >>= fun _ => pure result
        else
          whenGoesOn') 1 cursor state := by
  intro tracks
  show Agree cursor 1 (EStateM.bind (sees _) _ cursor) (EStateM.bind (Grammar.sees _) _ state)
  rw [EStateM.bind, EStateM.bind, tracks.sees_eq, sees_eq]
  show Agree cursor 1 (EStateM.bind atEnd _ cursor) (EStateM.bind Grammar.atEnd _ state)
  rw [EStateM.bind, tracks.atEnd_eq]
  show Agree cursor 1 _ ((if _ then _ else _ : Grammar.Rule α) state)
  by_cases closes : (state.rest.head?.any (·.kind.same (.symbol .rightBrace)) ||
    state.rest.isEmpty) = true
  · simp only [closes, if_true]
    exact (follows_demandSymbol _ _).bind (fun _ _ _ _ => .pure _) tracks
  · simp only [closes, Bool.false_eq_true, if_false]
    apply goesOn _ tracks
    rintro none
    rw [none] at closes
    exact closes rfl

theorem follows_blockRest (breakable : Bool) :
    (blockRest (fuel + 1) breakable).Follows (Grammar.blockRest (fuel + 1) breakable) 1 cursor
      state := by
  rw [blockRest, Grammar.blockRest]
  apply follows_atClosing
  intro isLeft
  have turn := follows_declarationTurn .block (rules.declaration cursor state breakable)
  have turned : Rule.Follows _ _ 1 cursor state :=
    turn.weaken (by have := List.length_pos_iff.mpr isLeft; omega)
  apply turned.bind
  intro first middle state₁ _
  apply (rules.blockRest middle state₁ breakable).bind
  exact fun _ _ _ _ => .pure _

theorem follows_declaration (breakable : Bool) :
    (declaration (fuel + 1) breakable).Follows (Grammar.declaration (fuel + 1) breakable) 1 cursor
      state := by
  rw [declaration, Grammar.declaration]
  apply follows_ifAccepts
  · exact fun first state₁ _ => (rules.classRest first state₁).weaken (Nat.zero_le _)
  apply follows_seesFunctionDeclaration
  · intro isLeft
    apply (follows_skip isLeft).bind
    intro _ first state₁ _
    apply (rules.namedFunction first state₁ .function).bind
    exact fun _ _ _ _ => .pure _
  apply follows_ifAccepts
  · exact fun first state₁ _ => (rules.variableRest first state₁).weaken (Nat.zero_le _)
  · exact rules.statement cursor state breakable

theorem follows_classRest :
    (classRest (fuel + 1)).Follows (Grammar.classRest (fuel + 1)) 1 cursor state := by
  rw [classRest, Grammar.classRest]
  apply (follows_demandName _).bind
  intro name first state₁ _
  have rest : ∀ (superclass : Option Reference) (second : Cursor) (state₂ : State),
      Rule.Follows (demandSymbol .leftBrace .classBodyStart >>= fun _ =>
          methodsRest fuel >>= fun members =>
            pure (Stmt.classDecl name superclass members.1 members.2))
        (Grammar.demandSymbol .leftBrace .classBodyStart >>= fun _ =>
          Grammar.methodsRest fuel >>= fun members =>
            pure (Stmt.classDecl name superclass members.1 members.2)) 0 second state₂ := by
    intro superclass second state₂
    apply (follows_demandSymbol _ _).bind
    intro _ third state₃ _
    apply (rules.methodsRest third state₃).bind
    exact fun _ _ _ _ => .pure _
  apply follows_ifAccepts
  · intro second state₂ _
    apply (follows_demandName _).bind
    intro superName third state₃ _
    apply follows_freshId.bind
    exact fun id fourth state₄ _ => rest _ fourth state₄
  · exact rest none first state₁

theorem follows_methodsRest :
    (methodsRest (fuel + 1)).Follows (Grammar.methodsRest (fuel + 1)) 1 cursor state := by
  rw [methodsRest, methodsRest_eq]
  apply follows_atClosing
  intro _
  have method : Rule.Follows (do
        let ofClass ← accepts (.keyword .classWord)
        return (ofClass, ← namedFunction fuel .method))
      (do
        let ofClass ← Grammar.accepts (.keyword .classWord)
        return (ofClass, ← Grammar.namedFunction fuel .method)) 1 cursor state := by
    apply (follows_accepts _).bind
    intro ofClass first state₁ _
    apply (rules.namedFunction first state₁ .method).bind
    exact fun _ _ _ _ => .pure _
  apply (follows_methodTurn method).bind
  rintro ⟨ofClass, function⟩ first state₁ _
  apply (rules.methodsRest first state₁).bind
  exact fun _ _ _ _ => .pure _

theorem follows_variableRest :
    (variableRest (fuel + 1)).Follows (Grammar.variableRest (fuel + 1)) 1 cursor state := by
  rw [variableRest, Grammar.variableRest]
  apply (follows_demandName _).bind
  intro name first state₁ _
  have rest : ∀ (initial : Option Expr) (second : Cursor) (state₂ : State),
      Rule.Follows (demandSymbol .semicolon .variableEnd >>= fun _ => pure (Stmt.varDecl name initial))
        (Grammar.demandSymbol .semicolon .variableEnd >>= fun _ => pure (Stmt.varDecl name initial)) 0
        second state₂ :=
    fun initial second state₂ => (follows_demandSymbol _ _).bind fun _ _ _ _ => .pure _
  apply follows_ifAccepts
  · intro second state₂ _
    apply (rules.expression second state₂).bind
    exact fun value third state₃ _ => rest (some value) third state₃
  · exact rest none first state₁

/-! ## Statements -/

theorem follows_optionalExpression (follower : Symbol) :
    (optionalExpression (fuel + 1) follower).Follows
      (Grammar.optionalExpression (fuel + 1) follower) 0 cursor state := by
  rw [optionalExpression, Grammar.optionalExpression]
  apply (follows_sees _).bind
  intro none first state₁ _
  split
  · exact .pure _
  · apply (rules.expression first state₁).bind
    exact fun _ _ _ _ => .pure _

theorem follows_expressionStatement :
    (expressionStatement (fuel + 1)).Follows (Grammar.expressionStatement (fuel + 1)) 1 cursor
      state := by
  rw [expressionStatement, Grammar.expressionStatement]
  apply (rules.expression cursor state).bind
  intro value first state₁ _
  apply follows_atEnd.bind
  intro ending second state₂ _
  split
  · exact .pure _
  · apply (follows_demandSymbol _ _).bind
    exact fun _ _ _ _ => .pure _

theorem follows_forInitial :
    (forInitial (fuel + 1)).Follows (Grammar.forInitial (fuel + 1)) 1 cursor state := by
  rw [forInitial, Grammar.forInitial]
  apply follows_ifAccepts
  · exact fun _ _ _ => .pure _
  apply follows_ifAccepts
  · intro first state₁ _
    apply (rules.variableRest first state₁).bind
    exact fun _ _ _ _ => .pure _
  · apply (rules.expressionStatement cursor state).bind
    exact fun _ _ _ _ => .pure _

theorem follows_forRest :
    (forRest (fuel + 1)).Follows (Grammar.forRest (fuel + 1)) 1 cursor state := by
  rw [forRest, Grammar.forRest]
  apply (follows_demandSymbol _ _).bind
  intro _ first state₁ _
  apply (rules.forInitial first state₁).bind
  intro initial second state₂ _
  apply (rules.optionalExpression second state₂ .semicolon).bind
  intro condition third state₃ _
  apply (follows_demandSymbol _ _).bind
  intro _ fourth state₄ _
  apply (rules.optionalExpression fourth state₄ .rightParen).bind
  intro increment fifth state₅ _
  apply (follows_demandSymbol _ _).bind
  intro _ sixth state₆ _
  apply (rules.statement sixth state₆ true).bind
  exact fun _ _ _ _ => .pure _

theorem follows_statement (breakable : Bool) :
    (statement (fuel + 1) breakable).Follows (Grammar.statement (fuel + 1) breakable) 1 cursor
      state := by
  rw [statement, Grammar.statement]
  apply follows_peek
  intro token isLeft
  have skips : ∀ {kind : Kind} {next : Unit → Rule Stmt} {next' : Unit → Grammar.Rule Stmt},
      token.kind = kind → kind.isEnding = false →
      (∀ first state₁, (next ()).Follows (next' ()) 0 first state₁) →
      Rule.Follows (skip >>= next) (Grammar.skip >>= next') 1 cursor state := by
    rintro kind next next' rfl isToken continues
    exact (follows_skip (isLeft isToken)).bind fun _ first state₁ _ => continues first state₁
  have condition : ∀ {start finish : Demand} {next : Expr → Rule Stmt}
      {next' : Expr → Grammar.Rule Stmt} (first : Cursor) (state₁ : State),
      (∀ value second state₂, (next value).Follows (next' value) 0 second state₂) →
      Rule.Follows (demandSymbol .leftParen start >>= fun _ => expression fuel >>= fun value =>
          demandSymbol .rightParen finish >>= fun _ => next value)
        (Grammar.demandSymbol .leftParen start >>= fun _ => Grammar.expression fuel >>= fun value =>
          Grammar.demandSymbol .rightParen finish >>= fun _ => next' value) 0 first state₁ := by
    intro start finish next next' first state₁ continues
    apply (follows_demandSymbol _ _).bind
    intro _ second state₂ _
    apply (rules.expression second state₂).bind
    intro value third state₃ _
    apply (follows_demandSymbol _ _).bind
    exact fun _ fourth state₄ _ => continues value fourth state₄
  split <;> try simp only [‹token.kind = _›]
  · next isOf =>
    apply skips isOf rfl
    exact fun first state₁ => (rules.forRest first state₁).weaken (Nat.zero_le _)
  · next isOf =>
    apply skips isOf rfl
    intro first state₁
    apply condition first state₁
    intro test second state₂
    apply (rules.statement second state₂ breakable).bind
    intro whenTrue third state₃ _
    apply follows_ifAccepts
    · intro fourth state₄ _
      apply (rules.statement fourth state₄ breakable).bind
      exact fun _ _ _ _ => .pure _
    · exact .pure _
  · next isOf =>
    apply skips isOf rfl
    intro first state₁
    apply condition first state₁
    intro test second state₂
    apply (rules.statement second state₂ true).bind
    exact fun _ _ _ _ => .pure _
  · next isOf =>
    apply skips isOf rfl
    intro first state₁
    apply (rules.optionalExpression first state₁ .semicolon).bind
    intro value second state₂ _
    apply (follows_demandSymbol _ _).bind
    exact fun _ _ _ _ => .pure _
  · next isOf =>
    apply skips isOf rfl
    intro first state₁
    have ends : ∀ (second : Cursor) (state₂ : State),
        Rule.Follows (demandSymbol .semicolon .breakEnd >>= fun _ => pure (Stmt.breakLoop token.line))
          (Grammar.demandSymbol .semicolon .breakEnd >>= fun _ => pure (Stmt.breakLoop token.line)) 0
          second state₂ :=
      fun _ _ => (follows_demandSymbol _ _).bind fun _ _ _ _ => .pure _
    cases breakable with
    | true => exact ends first state₁
    | false =>
      apply follows_peek
      intro place _
      exact (follows_note place _).bind fun _ second state₂ _ => ends second state₂
  · next isOf =>
    apply skips isOf rfl
    intro first state₁
    apply (rules.blockRest first state₁ breakable).bind
    exact fun _ _ _ _ => .pure _
  · next isOf =>
    apply skips isOf rfl
    intro first state₁
    apply (rules.expression first state₁).bind
    intro value second state₂ _
    apply (follows_demandSymbol _ _).bind
    exact fun _ _ _ _ => .pure _
  -- As for `follows_primary`: the other rule comes to its last case as well.
  · first
    | exact rules.expressionStatement cursor state
    | split <;> first | exact rules.expressionStatement cursor state | simp_all

end

/-- Each rule follows the tokens, whatever the bound is. -/
theorem rulesFollow : ∀ fuel, RulesFollow fuel
  | 0 => by constructor <;> intros <;> exact .exhausted
  | fuel + 1 =>
    have rules := rulesFollow fuel
    { expression := follows_expression rules
      operation := follows_operation rules
      operationRest := follows_operationRest rules
      operand := follows_operand rules
      unary := follows_unary rules
      calls := follows_calls rules
      arguments := follows_arguments rules
      argumentValues := follows_argumentValues rules
      primary := follows_primary rules
      functionRest := follows_functionRest rules
      namedFunction := follows_namedFunction rules
      blockRest := follows_blockRest rules
      declaration := follows_declaration rules
      classRest := follows_classRest rules
      methodsRest := follows_methodsRest rules
      variableRest := follows_variableRest rules
      statement := follows_statement rules
      forRest := follows_forRest rules
      forInitial := follows_forInitial rules
      optionalExpression := follows_optionalExpression rules
      expressionStatement := follows_expressionStatement rules }

/-- The declarations of a program follow the tokens, too. -/
theorem follows_declarations (fuel : Nat) (cursor : Cursor) (state : State) :
    (declarations fuel).Follows (Grammar.declarations fuel) 0 cursor state := by
  induction fuel generalizing cursor state with
  | zero => exact .exhausted
  | succ fuel induction =>
    rw [declarations, Grammar.declarations]
    have turn := follows_declarationTurn .program ((rulesFollow fuel).declaration cursor state false)
    apply (turn.weaken (Nat.zero_le _)).bind
    intro first middle state₁ _
    apply follows_atEnd.bind
    intro ending second state₂ _
    split
    · exact .pure _
    · exact (induction second state₂).bind fun _ _ _ _ => .pure _

end Cursor

end Lox.Grammar
