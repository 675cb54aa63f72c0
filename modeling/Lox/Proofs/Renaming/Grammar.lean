import Lox.Proofs.Renaming.Rule

/-!
# Reading moved tokens

All rules of the grammar read moved tokens as they read the tokens, by induction on the bound on
the depth of their calls (`rulesMove`).  So the statements that are read are the same up to ids
and lines, also where something is wrong: `parse_move`.
-/

namespace Lox.Grammar

/-- Within this bound all rules read moved tokens as they read the tokens. -/
structure RulesMove (shift : Shift) (fuel : Nat) : Prop where
  expression :
    Rule.Moves shift (Expr.rename shift.renaming) (expression fuel) (expression fuel)
  operation (level : Level) :
    Rule.Moves shift (Expr.rename shift.renaming) (operation fuel level) (operation fuel level)
  operationRest (level : Level) (left : Expr) :
    Rule.Moves shift (Expr.rename shift.renaming) (operationRest fuel level left)
      (operationRest fuel level (left.rename shift.renaming))
  operand (level : Level) :
    Rule.Moves shift (Expr.rename shift.renaming) (operand fuel level) (operand fuel level)
  unary : Rule.Moves shift (Expr.rename shift.renaming) (unary fuel) (unary fuel)
  calls (callee : Expr) :
    Rule.Moves shift (Expr.rename shift.renaming) (calls fuel callee)
      (calls fuel (callee.rename shift.renaming))
  arguments :
    Rule.Moves shift (Expr.renameAll shift.renaming) (arguments fuel) (arguments fuel)
  argumentValues (count : Nat) :
    Rule.Moves shift (Expr.renameAll shift.renaming) (argumentValues fuel count)
      (argumentValues fuel count)
  primary : Rule.Moves shift (Expr.rename shift.renaming) (primary fuel) (primary fuel)
  functionRest (role : FunctionRole) :
    Rule.Moves shift (Function.rename shift.renaming) (functionRest fuel role)
      (functionRest fuel role)
  namedFunction (role : FunctionRole) :
    Rule.Moves shift (NamedFunction.rename shift.renaming) (namedFunction fuel role)
      (namedFunction fuel role)
  blockRest (breakable : Bool) :
    Rule.Moves shift (Stmt.renameAll shift.renaming) (blockRest fuel breakable)
      (blockRest fuel breakable)
  declaration (breakable : Bool) :
    Rule.Moves shift (Stmt.rename shift.renaming) (declaration fuel breakable)
      (declaration fuel breakable)
  classRest : Rule.Moves shift (Stmt.rename shift.renaming) (classRest fuel) (classRest fuel)
  methodsRest :
    Rule.Moves shift
      (Prod.map (NamedFunction.renameAll shift.renaming) (NamedFunction.renameAll shift.renaming))
      (methodsRest fuel) (methodsRest fuel)
  variableRest :
    Rule.Moves shift (Stmt.rename shift.renaming) (variableRest fuel) (variableRest fuel)
  statement (breakable : Bool) :
    Rule.Moves shift (Stmt.rename shift.renaming) (statement fuel breakable)
      (statement fuel breakable)
  forRest : Rule.Moves shift (Stmt.rename shift.renaming) (forRest fuel) (forRest fuel)
  forInitial :
    Rule.Moves shift (Option.map (Stmt.rename shift.renaming)) (forInitial fuel)
      (forInitial fuel)
  optionalExpression (follower : Symbol) :
    Rule.Moves shift (Option.map (Expr.rename shift.renaming))
      (optionalExpression fuel follower) (optionalExpression fuel follower)
  expressionStatement :
    Rule.Moves shift (Stmt.rename shift.renaming) (expressionStatement fuel)
      (expressionStatement fuel)

variable {shift : Shift} {fuel : Nat}

/-! ## Rules that need no expressions -/

theorem moves_nextConnective? (level : Level) :
    Rule.Moves shift (Option.map (Prod.map id shift.line)) (nextConnective? level)
      (nextConnective? level) := by
  apply Rule.Moves.peek.bind
  intro token
  simp only [Token.kind_move]
  split
  · split
    · exact Rule.Moves.skip.bind fun _ => .pure rfl
    · exact .pure rfl
  · exact .pure rfl

theorem moves_nextUnaryOp? :
    Rule.Moves shift (Option.map (Prod.map id shift.line)) nextUnaryOp? nextUnaryOp? := by
  apply Rule.Moves.peek.bind
  intro token
  simp only [Token.kind_move]
  split
  · exact Rule.Moves.skip.bind fun _ => .pure rfl
  · exact .pure rfl

theorem moves_noteOverflow (count : Nat) (fault : SyntaxFault) :
    Rule.Moves shift id (noteOverflow count fault) (noteOverflow count fault) := by
  rw [noteOverflow]
  split
  · exact Rule.Moves.peek.bind fun token => .note token fault
  · exact .pure rfl

theorem moves_parameterNames (fuel count : Nat) :
    Rule.Moves shift (List.map (Name.rename shift.renaming)) (parameterNames fuel count)
      (parameterNames fuel count) := by
  induction fuel generalizing count with
  | zero => exact .exhausted
  | succ fuel induction =>
    rw [parameterNames]
    apply (moves_noteOverflow count _).bind
    intro _
    apply (Rule.Moves.demandName _).bind
    intro name
    apply (Rule.Moves.accepts _).bind
    intro comma
    rw [id]
    split
    · exact (induction (count + 1)).bind fun others => .pure rfl
    · exact .pure rfl

theorem moves_parameters (fuel : Nat) :
    Rule.Moves shift (List.map (Name.rename shift.renaming)) (parameters fuel)
      (parameters fuel) := by
  apply (Rule.Moves.sees _).bind
  intro closing
  rw [id]
  split
  · exact .pure rfl
  · exact moves_parameterNames fuel 0

theorem moves_seesFunctionDeclaration :
    Rule.Moves shift id seesFunctionDeclaration seesFunctionDeclaration := by
  rintro ⟨_ | ⟨first, _ | ⟨second, rest⟩⟩, ending, nextId, errors⟩ <;> rfl

/-- The tree of a `for` loop on other lines. -/
theorem forLoop_rename (change : Renaming) (initial : Option Stmt)
    (condition increment : Option Expr) (body : Stmt) :
    (forLoop initial condition increment body).rename change =
      forLoop (initial.map (Stmt.rename change)) (condition.map (Expr.rename change))
        (increment.map (Expr.rename change)) (body.rename change) := by
  cases initial <;> cases condition <;> cases increment <;> rfl

theorem moves_assignment (target : Expr) (sign : Token) (value : Expr) :
    Rule.Moves shift (Expr.rename shift.renaming) (assignment target sign value)
      (assignment (target.rename shift.renaming) (sign.move shift.line)
        (value.rename shift.renaming)) := by
  cases target with
  | read target => exact .pure rfl
  | get object name => exact .pure rfl
  | _ => exact (Rule.Moves.note sign .invalidTarget).bind fun _ => .pure rfl

theorem rename_join (change : Renaming) (connective : Connective) (line : Nat)
    (left right : Expr) :
    (connective.join line left right).rename change =
      connective.join (change.line line) (left.rename change) (right.rename change) := by
  cases connective <;> rfl

theorem renameAll_toList (change : Renaming) (first : Option Stmt) :
    Stmt.renameAll change first.toList = (first.map (Stmt.rename change)).toList := by
  cases first <;> rfl

/-! ## Expressions -/

section

variable (rules : RulesMove shift fuel)
include rules

theorem moves_expression :
    Rule.Moves shift (Expr.rename shift.renaming) (expression (fuel + 1))
      (expression (fuel + 1)) := by
  rw [expression]
  apply (rules.operation .or).bind
  intro target
  apply (Rule.Moves.accept _).bind
  intro found
  cases found with
  | some sign => exact rules.expression.bind fun value => moves_assignment target sign value
  | none => exact .pure rfl

theorem moves_operation (level : Level) :
    Rule.Moves shift (Expr.rename shift.renaming) (operation (fuel + 1) level)
      (operation (fuel + 1) level) := by
  rw [operation]
  exact (rules.operand level).bind fun left => rules.operationRest level left

theorem moves_operationRest (level : Level) (left : Expr) :
    Rule.Moves shift (Expr.rename shift.renaming) (operationRest (fuel + 1) level left)
      (operationRest (fuel + 1) level (left.rename shift.renaming)) := by
  rw [operationRest, operationRest]
  apply (moves_nextConnective? level).bind
  rintro (_ | ⟨connective, line⟩)
  · exact .pure rfl
  · apply (rules.operand level).bind
    intro right
    have rest := rules.operationRest level (connective.join line left right)
    rw [rename_join] at rest
    exact rest

theorem moves_operand (level : Level) :
    Rule.Moves shift (Expr.rename shift.renaming) (operand (fuel + 1) level)
      (operand (fuel + 1) level) := by
  rw [operand]
  split
  · exact rules.operation _
  · exact rules.unary

theorem moves_unary :
    Rule.Moves shift (Expr.rename shift.renaming) (unary (fuel + 1)) (unary (fuel + 1)) := by
  rw [unary]
  apply moves_nextUnaryOp?.bind
  rintro (_ | ⟨op, line⟩)
  · exact rules.primary.bind fun callee => rules.calls callee
  · exact rules.unary.bind fun operand => .pure rfl

theorem moves_calls (callee : Expr) :
    Rule.Moves shift (Expr.rename shift.renaming) (calls (fuel + 1) callee)
      (calls (fuel + 1) (callee.rename shift.renaming)) := by
  rw [calls, calls]
  apply (Rule.Moves.accepts _).bind
  intro opening
  rw [id]
  split
  · apply rules.arguments.bind
    intro arguments
    apply (Rule.Moves.demand _ _).bind
    intro closing
    exact rules.calls (.call callee closing.line arguments)
  · apply (Rule.Moves.accepts _).bind
    intro dot
    rw [id]
    split
    · exact (Rule.Moves.demandName _).bind fun name => rules.calls (.get callee name)
    · exact .pure rfl

theorem moves_arguments :
    Rule.Moves shift (Expr.renameAll shift.renaming) (arguments (fuel + 1))
      (arguments (fuel + 1)) := by
  rw [arguments]
  apply (Rule.Moves.sees _).bind
  intro closing
  rw [id]
  split
  · exact .pure rfl
  · exact rules.argumentValues 0

theorem moves_argumentValues (count : Nat) :
    Rule.Moves shift (Expr.renameAll shift.renaming) (argumentValues (fuel + 1) count)
      (argumentValues (fuel + 1) count) := by
  rw [argumentValues]
  apply (moves_noteOverflow count _).bind
  intro _
  apply rules.expression.bind
  intro value
  apply (Rule.Moves.accepts _).bind
  intro comma
  rw [id]
  split
  · exact (rules.argumentValues (count + 1)).bind fun others => .pure rfl
  · exact .pure rfl

theorem moves_primary :
    Rule.Moves shift (Expr.rename shift.renaming) (primary (fuel + 1)) (primary (fuel + 1)) := by
  rw [primary]
  apply Rule.Moves.peek.bind
  intro token
  simp only [Token.kind_move]
  split
  · exact Rule.Moves.skip.bind fun _ => .pure rfl
  · exact Rule.Moves.skip.bind fun _ => .pure rfl
  · exact Rule.Moves.skip.bind fun _ => .pure rfl
  · exact Rule.Moves.skip.bind fun _ => .pure rfl
  · exact Rule.Moves.skip.bind fun _ => .pure rfl
  · exact Rule.Moves.skip.bind fun _ => Rule.Moves.freshId.bind fun id => .pure rfl
  · apply Rule.Moves.skip.bind
    intro _
    apply (Rule.Moves.demandSymbol _ _).bind
    intro _
    apply (Rule.Moves.demandName _).bind
    intro method
    exact Rule.Moves.freshId.bind fun id => .pure rfl
  · exact Rule.Moves.skip.bind fun _ => Rule.Moves.freshId.bind fun id => .pure rfl
  · apply Rule.Moves.skip.bind
    intro _
    apply rules.expression.bind
    intro inner
    exact (Rule.Moves.demandSymbol _ _).bind fun _ => .pure rfl
  · apply Rule.Moves.skip.bind
    intro _
    apply (Rule.Moves.demandSymbol _ _).bind
    intro _
    exact (rules.functionRest .function).bind fun definition => .pure rfl
  · exact .fail _

/-! ## Functions and blocks -/

theorem moves_functionRest (role : FunctionRole) :
    Rule.Moves shift (Function.rename shift.renaming) (functionRest (fuel + 1) role)
      (functionRest (fuel + 1) role) := by
  rw [functionRest]
  apply (moves_parameters fuel).bind
  intro parameters
  apply (Rule.Moves.demandSymbol _ _).bind
  intro _
  apply (Rule.Moves.demandSymbol _ _).bind
  intro _
  exact (rules.blockRest false).bind fun body => .pure rfl

theorem moves_namedFunction (role : FunctionRole) :
    Rule.Moves shift (NamedFunction.rename shift.renaming) (namedFunction (fuel + 1) role)
      (namedFunction (fuel + 1) role) := by
  rw [namedFunction]
  apply (Rule.Moves.demandName _).bind
  intro name
  apply (Rule.Moves.demandSymbol _ _).bind
  intro _
  exact (rules.functionRest role).bind fun definition => .pure rfl

theorem moves_blockRest (breakable : Bool) :
    Rule.Moves shift (Stmt.renameAll shift.renaming) (blockRest (fuel + 1) breakable)
      (blockRest (fuel + 1) breakable) := by
  rw [blockRest]
  apply (Rule.Moves.sees _).bind
  intro closing
  apply Rule.Moves.atEnd.bind
  intro ending
  rw [id, id]
  split
  · exact (Rule.Moves.demandSymbol _ _).bind fun _ => .pure rfl
  · apply (rules.declaration breakable).recovering.bind
    intro first
    apply (rules.blockRest breakable).bind
    intro others
    apply Rule.Moves.pure
    rw [Stmt.renameAll_append, renameAll_toList]

theorem moves_declaration (breakable : Bool) :
    Rule.Moves shift (Stmt.rename shift.renaming) (declaration (fuel + 1) breakable)
      (declaration (fuel + 1) breakable) := by
  rw [declaration]
  apply (Rule.Moves.accepts _).bind
  intro isClass
  rw [id]
  split
  · exact rules.classRest
  apply moves_seesFunctionDeclaration.bind
  intro isFunction
  rw [id]
  split
  · apply Rule.Moves.skip.bind
    intro _
    apply (rules.namedFunction .function).bind
    rintro ⟨name, definition⟩
    exact .pure rfl
  apply (Rule.Moves.accepts _).bind
  intro isVariable
  rw [id]
  split
  · exact rules.variableRest
  · exact rules.statement breakable

theorem moves_classRest :
    Rule.Moves shift (Stmt.rename shift.renaming) (classRest (fuel + 1))
      (classRest (fuel + 1)) := by
  rw [classRest]
  apply (Rule.Moves.demandName _).bind
  intro name
  apply (Rule.Moves.accepts _).bind
  intro extends_
  extract_lets rest
  rw [id]
  split
  · apply (Rule.Moves.demandName _).bind
    intro superName
    apply Rule.Moves.freshId.bind
    intro id
    apply (Rule.Moves.demandSymbol _ _).bind
    intro _
    exact rules.methodsRest.bind fun members => .pure rfl
  · apply (Rule.Moves.demandSymbol _ _).bind
    intro _
    exact rules.methodsRest.bind fun members => .pure rfl

theorem moves_methodsRest :
    Rule.Moves shift
      (Prod.map (NamedFunction.renameAll shift.renaming) (NamedFunction.renameAll shift.renaming))
      (methodsRest (fuel + 1)) (methodsRest (fuel + 1)) := by
  rw [methodsRest]
  apply (Rule.Moves.sees _).bind
  intro closing
  apply Rule.Moves.atEnd.bind
  intro ending
  rw [id, id]
  split
  · exact (Rule.Moves.demandSymbol _ _).bind fun _ => .pure rfl
  apply (Rule.Moves.accepts _).bind
  intro isClassMethod
  rw [id]
  split
  · apply (rules.namedFunction .method).bind
    rintro ⟨name, definition⟩
    exact rules.methodsRest.bind fun members => .pure rfl
  · apply (rules.namedFunction .method).bind
    rintro ⟨name, definition⟩
    exact rules.methodsRest.bind fun members => .pure rfl

theorem moves_variableRest :
    Rule.Moves shift (Stmt.rename shift.renaming) (variableRest (fuel + 1))
      (variableRest (fuel + 1)) := by
  rw [variableRest]
  apply (Rule.Moves.demandName _).bind
  intro name
  apply (Rule.Moves.accepts _).bind
  intro isInitialised
  extract_lets rest
  rw [id]
  split
  · apply rules.expression.bind
    intro initial
    exact (Rule.Moves.demandSymbol _ _).bind fun _ => .pure rfl
  · exact (Rule.Moves.demandSymbol _ _).bind fun _ => .pure rfl

/-! ## Statements -/

theorem moves_statement (breakable : Bool) :
    Rule.Moves shift (Stmt.rename shift.renaming) (statement (fuel + 1) breakable)
      (statement (fuel + 1) breakable) := by
  rw [statement]
  apply Rule.Moves.peek.bind
  intro token
  simp only [Token.kind_move]
  split
  · exact Rule.Moves.skip.bind fun _ => rules.forRest
  · apply Rule.Moves.skip.bind
    intro _
    apply (Rule.Moves.demandSymbol _ _).bind
    intro _
    apply rules.expression.bind
    intro condition
    apply (Rule.Moves.demandSymbol _ _).bind
    intro _
    apply (rules.statement breakable).bind
    intro whenTrue
    apply (Rule.Moves.accepts _).bind
    intro hasElse
    rw [id]
    split
    · exact (rules.statement breakable).bind fun whenFalse => .pure rfl
    · exact .pure rfl
  · apply Rule.Moves.skip.bind
    intro _
    apply (Rule.Moves.demandSymbol _ _).bind
    intro _
    apply rules.expression.bind
    intro condition
    apply (Rule.Moves.demandSymbol _ _).bind
    intro _
    exact (rules.statement true).bind fun body => .pure rfl
  · apply Rule.Moves.skip.bind
    intro _
    apply (rules.optionalExpression _).bind
    intro value
    apply (Rule.Moves.demandSymbol _ _).bind
    intro _
    exact .pure (by cases value <;> rfl)
  · apply Rule.Moves.skip.bind
    intro _
    split
    · exact (Rule.Moves.demandSymbol _ _).bind fun _ => .pure rfl
    · apply Rule.Moves.peek.bind
      intro place
      apply (Rule.Moves.note place _).bind
      intro _
      exact (Rule.Moves.demandSymbol _ _).bind fun _ => .pure rfl
  · exact Rule.Moves.skip.bind fun _ => (rules.blockRest breakable).bind fun body => .pure rfl
  · apply Rule.Moves.skip.bind
    intro _
    apply rules.expression.bind
    intro value
    exact (Rule.Moves.demandSymbol _ _).bind fun _ => .pure rfl
  · exact rules.expressionStatement

theorem moves_forRest :
    Rule.Moves shift (Stmt.rename shift.renaming) (forRest (fuel + 1)) (forRest (fuel + 1)) := by
  rw [forRest]
  apply (Rule.Moves.demandSymbol _ _).bind
  intro _
  apply rules.forInitial.bind
  intro initial
  apply (rules.optionalExpression _).bind
  intro condition
  apply (Rule.Moves.demandSymbol _ _).bind
  intro _
  apply (rules.optionalExpression _).bind
  intro increment
  apply (Rule.Moves.demandSymbol _ _).bind
  intro _
  apply (rules.statement true).bind
  intro body
  exact .pure (forLoop_rename shift.renaming initial condition increment body).symm

theorem moves_forInitial :
    Rule.Moves shift (Option.map (Stmt.rename shift.renaming)) (forInitial (fuel + 1))
      (forInitial (fuel + 1)) := by
  rw [forInitial]
  apply (Rule.Moves.accepts _).bind
  intro isEmpty
  rw [id]
  split
  · exact .pure rfl
  apply (Rule.Moves.accepts _).bind
  intro isVariable
  rw [id]
  split
  · exact rules.variableRest.bind fun initial => .pure rfl
  · exact rules.expressionStatement.bind fun initial => .pure rfl

theorem moves_optionalExpression (follower : Symbol) :
    Rule.Moves shift (Option.map (Expr.rename shift.renaming))
      (optionalExpression (fuel + 1) follower) (optionalExpression (fuel + 1) follower) := by
  rw [optionalExpression]
  apply (Rule.Moves.sees _).bind
  intro absent
  rw [id]
  split
  · exact .pure rfl
  · exact rules.expression.bind fun value => .pure rfl

theorem moves_expressionStatement :
    Rule.Moves shift (Stmt.rename shift.renaming) (expressionStatement (fuel + 1))
      (expressionStatement (fuel + 1)) := by
  rw [expressionStatement]
  apply rules.expression.bind
  intro value
  apply Rule.Moves.atEnd.bind
  intro ending
  rw [id]
  split
  · exact .pure rfl
  · exact (Rule.Moves.demandSymbol _ _).bind fun _ => .pure rfl

end

/-! ## Programs -/

variable (shift)

/-- All rules read moved tokens as they read the tokens. -/
theorem rulesMove : ∀ fuel, RulesMove shift fuel
  | 0 => by
    constructor <;> intros <;> exact .exhausted
  | fuel + 1 =>
    have rules := rulesMove fuel
    { expression := moves_expression rules
      operation := moves_operation rules
      operationRest := moves_operationRest rules
      operand := moves_operand rules
      unary := moves_unary rules
      calls := moves_calls rules
      arguments := moves_arguments rules
      argumentValues := moves_argumentValues rules
      primary := moves_primary rules
      functionRest := moves_functionRest rules
      namedFunction := moves_namedFunction rules
      blockRest := moves_blockRest rules
      declaration := moves_declaration rules
      classRest := moves_classRest rules
      methodsRest := moves_methodsRest rules
      variableRest := moves_variableRest rules
      statement := moves_statement rules
      forRest := moves_forRest rules
      forInitial := moves_forInitial rules
      optionalExpression := moves_optionalExpression rules
      expressionStatement := moves_expressionStatement rules }

theorem moves_declarations (fuel : Nat) :
    Rule.Moves shift (Stmt.renameAll shift.renaming) (declarations fuel) (declarations fuel) := by
  induction fuel with
  | zero => exact .exhausted
  | succ fuel induction =>
    rw [declarations]
    apply ((rulesMove shift fuel).declaration false).recovering.bind
    intro first
    apply Rule.Moves.atEnd.bind
    intro ending
    rw [id]
    split
    · exact .pure (renameAll_toList shift.renaming first).symm
    · apply induction.bind
      intro others
      apply Rule.Moves.pure
      rw [Stmt.renameAll_append, renameAll_toList]

/-- Before the first one of moved tokens is read. -/
theorem State.start_move (firstId : Nat) {tokens : List Token}
    (closed : tokens.any (·.kind.isEnding)) :
    State.start (firstId + shift.distance) (tokens.map (Token.move shift.line)) =
      (State.start firstId tokens).move shift := by
  have sameKinds : (fun token : Token => !token.kind.isEnding) ∘ Token.move shift.line =
      fun token => !token.kind.isEnding := rfl
  have sameEndings : (fun token : Token => token.kind.isEnding) ∘ Token.move shift.line =
      fun token => token.kind.isEnding := rfl
  have found : (tokens.find? (·.kind.isEnding)).isSome := by
    rw [List.find?_isSome]
    exact List.any_eq_true.mp closed
  rcases Option.isSome_iff_exists.mp found with ⟨ending, isFound⟩
  simp only [State.start, State.move, List.takeWhile_map, List.find?_map, sameKinds, sameEndings,
    isFound, Option.map_some, Option.getD_some, Array.map_empty]

/-- If all that is left to read at first is moved, then so is what is read. -/
theorem parse_of_start {firstId firstId' : Nat} {tokens tokens' : List Token}
    (start : State.start firstId' tokens' = (State.start firstId tokens).move shift) :
    parse firstId' tokens' =
      ⟨Stmt.renameAll shift.renaming (parse firstId tokens).statements,
        (parse firstId tokens).errors.map (SyntaxError.move shift.line),
        (parse firstId tokens).nextId + shift.distance⟩ := by
  have sameLength : ((State.start firstId tokens).move shift).rest.length =
      (State.start firstId tokens).rest.length := List.length_map _
  rw [parse, parse, start, sameLength, moves_declarations shift _ (State.start firstId tokens)]
  cases declarations _ (State.start firstId tokens) with
  | ok statements state =>
    simp only [moveResult, State.move, Array.toList_map]
  | error stop state =>
    simp only [moveResult, State.move, Array.toList_map, Stmt.renameAll]

/--
Moved tokens are read as the tokens: the statements are the same up to ids and lines, and the
errors are the same on other lines.
-/
theorem parse_move (firstId : Nat) {tokens : List Token}
    (closed : tokens.any (·.kind.isEnding)) :
    parse (firstId + shift.distance) (tokens.map (Token.move shift.line)) =
      ⟨Stmt.renameAll shift.renaming (parse firstId tokens).statements,
        (parse firstId tokens).errors.map (SyntaxError.move shift.line),
        (parse firstId tokens).nextId + shift.distance⟩ :=
  parse_of_start shift (State.start_move shift firstId closed)

/-- Tokens are moved by greater ids alone, too. -/
theorem State.start_eq_move (firstId : Nat) (tokens : List Token) :
    State.start firstId tokens = (State.start 0 tokens).move ⟨firstId, fun line => line⟩ := by
  have stays : Token.move (fun line => line) = id := rfl
  simp only [State.start, State.move, stays, List.map_id, Array.map_empty, Nat.zero_add, id]

/-- The statements that are read with greater ids are the same but for these ids. -/
theorem statements_parse_eq_renameAll (firstId : Nat) (tokens : List Token) :
    (parse firstId tokens).statements =
      Stmt.renameAll ⟨(· + firstId), fun line => line⟩ (parse 0 tokens).statements := by
  rw [parse_of_start _ (State.start_eq_move firstId tokens)]
  rfl

/-- The syntax errors do not depend on the ids. -/
theorem errors_parse (firstId : Nat) (tokens : List Token) :
    (parse firstId tokens).errors = (parse 0 tokens).errors := by
  rw [parse_of_start _ (State.start_eq_move firstId tokens)]
  exact List.map_id' _

end Lox.Grammar
