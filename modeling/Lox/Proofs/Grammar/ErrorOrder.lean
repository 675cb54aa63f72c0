import Lox.Proofs.Grammar.Finding
import Lox.Proofs.Grammar.Progress
import Lox.Source.Item
import Mathlib

/-!
# The order of syntax errors

All rules of the grammar list what they find in the order of the tokens, but an assignment to what
is no target behind what is wrong in its value, by induction on the bound on the depth of their
calls (`rulesList`).  So the syntax errors of a program are listed in this order: `errors_listed`.
-/

namespace Lox.Grammar

variable {α : Type} {tokens : List Token} {fuel : Nat}

/-- Within this bound all rules list what they find. -/
structure RulesList (tokens : List Token) (fuel : Nat) : Prop where
  expression : (expression fuel).Lists tokens 1 0
  operation (level : Level) : (operation fuel level).Lists tokens 1 0
  operationRest (level : Level) (left : Expr) : (operationRest fuel level left).Lists tokens 0 0
  operand (level : Level) : (operand fuel level).Lists tokens 1 0
  unary : (unary fuel).Lists tokens 1 0
  calls (callee : Expr) : (calls fuel callee).Lists tokens 0 0
  arguments : (arguments fuel).Lists tokens 0 0
  argumentValues (length : Nat) : (argumentValues fuel length).Lists tokens 1 0
  primary : (primary fuel).Lists tokens 1 0
  functionRest (role : FunctionRole) : (functionRest fuel role).Lists tokens 0 0
  namedFunction (role : FunctionRole) : (namedFunction fuel role).Lists tokens 0 0
  blockRest (breakable : Bool) : (blockRest fuel breakable).Lists tokens 1 0
  declaration (breakable : Bool) : (declaration fuel breakable).Lists tokens 0 0
  classRest : (classRest fuel).Lists tokens 0 0
  methodsRest : (methodsRest fuel).Lists tokens 0 0
  variableRest : (variableRest fuel).Lists tokens 0 0
  statement (breakable : Bool) : (statement fuel breakable).Lists tokens 0 0
  forRest : (forRest fuel).Lists tokens 0 0
  forInitial : (forInitial fuel).Lists tokens 0 0
  optionalExpression (follower : Symbol) : (optionalExpression fuel follower).Lists tokens 0 0
  expressionStatement : (expressionStatement fuel).Lists tokens 0 0

/-! ## Rules that need no expressions -/

theorem lists_nextConnective? (level : Level) : (nextConnective? level).Lists tokens 0 0 := by
  apply lists_peek
  intro token
  split
  · split
    · exact lists_skip.bind fun _ => .pure _
    · exact .pure _
  · exact .pure _

theorem lists_nextUnaryOp? : nextUnaryOp?.Lists tokens 0 0 := by
  apply lists_peek
  intro token
  split
  · exact lists_skip.bind fun _ => .pure _
  · exact .pure _

theorem lists_noteOverflow (length : Nat) {fault : SyntaxFault} (isOther : fault ≠ .invalidTarget) :
    (noteOverflow length fault).Lists tokens 0 1 := by
  rw [noteOverflow]
  split
  · exact lists_note isOther
  · exact (Rule.Lists.pure ()).weaken (Nat.le_refl _) (Nat.zero_le _)

theorem lists_parameterNames (fuel length : Nat) :
    (parameterNames fuel length).Lists tokens 1 0 := by
  induction fuel generalizing length with
  | zero => exact .exhausted
  | succ fuel induction =>
    rw [parameterNames]
    apply (lists_noteOverflow length fun impossible => by cases impossible).bind_of_le _ (by decide)
    intro _
    apply (lists_demandName _).bind
    intro name
    apply lists_ifAccepts
    · exact ((induction (length + 1)).bind fun others => .pure _)
    · exact .pure _

theorem lists_parameters (fuel : Nat) : (parameters fuel).Lists tokens 0 0 := by
  rw [parameters]
  apply (lists_sees _).bind
  intro none
  split
  · exact .pure _
  · exact (lists_parameterNames fuel 0).weaken (Nat.zero_le _) (Nat.le_refl _)

theorem lists_seesFunctionDeclaration : seesFunctionDeclaration.Lists tokens 0 0 := by
  rintro place ⟨_ | ⟨token, _ | ⟨next, rest⟩⟩, ending, nextId, errors⟩ isAt <;>
    exact Rule.ListsFrom.quiet isAt rfl

/-! ## Expressions -/

/-- What is known of a result may speak of the run that has it. -/
theorem Rule.Ends.and_eq {rule : Rule α} {state : State} {read : α → State → Prop}
    {failed : Stop → State → Prop} (ends : rule.Ends state read failed) :
    rule.Ends state (fun result after => read result after ∧ rule state = .ok result after)
      failed := by
  revert ends
  rw [Rule.Ends, Rule.Ends]
  cases rule state with
  | ok => exact fun read => ⟨read, rfl⟩
  | error => exact id

/-- An assignment has a target, or it is noted that it has none. -/
theorem ends_assignment {target value : Expr} {sign : Token} {state : State}
    {read : Expr → State → Prop} {failed : Stop → State → Prop}
    (quiet : ∀ result, read result state)
    (noted : ∀ result, read result (state.note (.at sign .invalidTarget))) :
    (assignment target sign value).Ends state read failed := by
  cases target with
  | read | get => exact quiet _
  | _ => exact noted _

theorem lists_expression (rules : RulesList tokens fuel) :
    (expression (fuel + 1)).Lists tokens 1 0 := by
  rw [expression]
  apply (rules.operation .or).bind
  intro target place state isAt
  apply Rule.Ends.bind
  apply ends_accept
  · intro sign rest here isSign
    have read : Passage tokens state place (place + 1) [] { state with rest := rest } :=
      .quiet (isAt.of_cons here) rfl (Nat.le_succ _)
    apply Rule.Ends.seq (rules.expression _ _ read.arrives).and_eq
    · rintro value after ⟨⟨finish, found, passage, advanced, inside⟩, isValue⟩
      have le := passage.listed.le
      apply ends_assignment
      · intro result
        exact ⟨finish, found, read.trans passage, by omega, inside⟩
      · intro result
        refine ⟨finish, found ++ [⟨place, sign, .invalidTarget⟩],
          ⟨⟨passage.arrives.left, passage.arrives.isEnding⟩, ?_, ?_⟩, by omega, ?_⟩
        · rw [State.note, Array.toList_push, passage.errors, List.map_append, List.append_assoc]
          rfl
        · exact .assignment (isAt.getElem?_eq_head here) isSign (Nat.le_refl _)
            ⟨fuel, _, value, after, isValue, read.arrives, passage.arrives⟩ passage.listed inside
            (.nil (Nat.le_refl _))
        · rw [List.forall_mem_append, List.forall_mem_singleton]
          exact ⟨inside, le⟩
    · intro stop after failed error isError
      rcases failed error isError with ⟨finish, found, passage, reported⟩
      exact ⟨finish, found, read.trans passage, reported⟩
  · exact fun _ => Rule.Lists.pure target place state isAt

theorem lists_operation (rules : RulesList tokens fuel) (level : Level) :
    (operation (fuel + 1) level).Lists tokens 1 0 := by
  rw [operation]
  exact (rules.operand level).bind fun left => rules.operationRest level left

theorem lists_operationRest (rules : RulesList tokens fuel) (level : Level) (left : Expr) :
    (operationRest (fuel + 1) level left).Lists tokens 0 0 := by
  rw [operationRest]
  apply (lists_nextConnective? level).bind
  intro operator
  split
  · exact (rules.operand level).bind fun right => rules.operationRest level _
  · exact .pure left

theorem lists_operand (rules : RulesList tokens fuel) (level : Level) :
    (operand (fuel + 1) level).Lists tokens 1 0 := by
  rw [operand]
  split
  · next tighter _ => exact rules.operation tighter
  · exact rules.unary

theorem lists_unary (rules : RulesList tokens fuel) : (unary (fuel + 1)).Lists tokens 1 0 := by
  rw [unary]
  apply lists_nextUnaryOp?.bind
  intro operator
  split
  · exact rules.unary.bind fun operand => .pure _
  · exact rules.primary.bind fun callee => rules.calls callee

theorem lists_calls (rules : RulesList tokens fuel) (callee : Expr) :
    (calls (fuel + 1) callee).Lists tokens 0 0 := by
  rw [calls]
  apply lists_ifAccepts
  · apply rules.arguments.bind
    intro arguments
    exact (lists_demand _ _).bind fun closing => rules.calls _
  · apply lists_ifAccepts
    · exact (lists_demandName _).bind fun name => rules.calls _
    · exact .pure callee

theorem lists_arguments (rules : RulesList tokens fuel) :
    (arguments (fuel + 1)).Lists tokens 0 0 := by
  rw [arguments]
  apply (lists_sees _).bind
  intro none
  split
  · exact .pure _
  · exact (rules.argumentValues 0).weaken (Nat.zero_le _) (Nat.le_refl _)

theorem lists_argumentValues (rules : RulesList tokens fuel) (length : Nat) :
    (argumentValues (fuel + 1) length).Lists tokens 1 0 := by
  rw [argumentValues]
  apply (lists_noteOverflow length fun impossible => by cases impossible).bind_of_le _ (by decide)
  intro _
  apply rules.expression.bind
  intro value
  apply lists_ifAccepts
  · exact (rules.argumentValues (length + 1)).bind fun others => .pure _
  · exact .pure _

theorem lists_primary (rules : RulesList tokens fuel) : (primary (fuel + 1)).Lists tokens 1 0 := by
  rw [primary]
  intro place state isAt
  apply listsFrom_peek _ isAt
  intro isLeft
  have skips : ∀ {kind : Kind} {next : Unit → Rule Expr}, state.next.kind = kind →
      kind.isEnding = false → (next ()).Lists tokens 0 0 →
      (skip >>= next).ListsFrom tokens place state 1 0 := by
    rintro kind next rfl isToken continues
    exact (listsFrom_skip (isLeft isToken) isAt).bind (fun _ => continues) (Nat.zero_le _)
  split
  · next isOf => exact skips isOf rfl (.pure _)
  · next isOf => exact skips isOf rfl (.pure _)
  · next isOf => exact skips isOf rfl (.pure _)
  · next isOf => exact skips isOf rfl (.pure _)
  · next isOf => exact skips isOf rfl (.pure _)
  · next isOf => exact skips isOf rfl (lists_freshId.bind fun _ => .pure _)
  · next isOf =>
    apply skips isOf rfl
    apply (lists_demandSymbol _ _).bind
    intro _
    apply (lists_demandName _).bind
    intro method
    exact lists_freshId.bind fun _ => .pure _
  · next isOf => exact skips isOf rfl (lists_freshId.bind fun _ => .pure _)
  · next isOf =>
    apply skips isOf rfl
    apply rules.expression.bind
    intro inner
    exact (lists_demandSymbol _ _).bind fun _ => .pure _
  · next isOf =>
    apply skips isOf rfl
    apply (lists_demandSymbol _ _).bind
    intro _
    exact (rules.functionRest .function).bind fun _ => .pure _
  · exact Rule.Lists.fail (fun impossible => by cases impossible) place state isAt

/-! ## Functions, blocks and classes -/

theorem lists_functionRest (rules : RulesList tokens fuel) (role : FunctionRole) :
    (functionRest (fuel + 1) role).Lists tokens 0 0 := by
  rw [functionRest]
  apply (lists_parameters fuel).bind
  intro parameters
  apply (lists_demandSymbol _ _).bind
  intro _
  apply (lists_demandSymbol _ _).bind
  intro _
  exact (rules.blockRest false).bind fun _ => .pure _

theorem lists_namedFunction (rules : RulesList tokens fuel) (role : FunctionRole) :
    (namedFunction (fuel + 1) role).Lists tokens 0 0 := by
  rw [namedFunction]
  apply (lists_demandName _).bind
  intro name
  apply (lists_demandSymbol _ _).bind
  intro _
  exact (rules.functionRest role).bind fun _ => .pure _

/-- What is wrong with a declaration at the end of the input, the closing brace is missing behind. -/
theorem lists_blockRest (rules : RulesList tokens fuel) (breakable : Bool) :
    (blockRest (fuel + 1) breakable).Lists tokens 1 0 := by
  rw [blockRest]
  apply (lists_sees _).bind
  intro closing
  apply lists_atEnd.bind
  intro ending
  split
  · exact (lists_demandSymbol _ _).bind fun _ => .pure _
  · apply (lists_recovering (rules.declaration breakable) (Nat.zero_le _)).bind_of_le _ (by decide)
    intro first
    exact (rules.blockRest breakable).bind fun _ => .pure _

theorem lists_declaration (rules : RulesList tokens fuel) (breakable : Bool) :
    (declaration (fuel + 1) breakable).Lists tokens 0 0 := by
  rw [declaration]
  apply lists_ifAccepts
  · exact rules.classRest
  apply lists_seesFunctionDeclaration.bind
  intro isFunction
  split
  · apply lists_skip.bind
    intro _
    exact (rules.namedFunction .function).bind fun _ => .pure _
  apply lists_ifAccepts
  · exact rules.variableRest
  · exact rules.statement breakable

theorem lists_superclassClause : superclassClause.Lists tokens 0 0 := by
  rw [superclassClause]
  apply lists_ifAccepts
  · apply (lists_demandName _).bind
    intro name
    exact lists_freshId.bind fun _ => .pure _
  · exact .pure _

theorem lists_classRest (rules : RulesList tokens fuel) :
    (classRest (fuel + 1)).Lists tokens 0 0 := by
  rw [classRest_eq]
  apply (lists_demandName _).bind
  intro name
  apply lists_superclassClause.bind
  intro superclass
  apply (lists_demandSymbol _ _).bind
  intro _
  exact rules.methodsRest.bind fun _ => .pure _

theorem lists_methodsRest (rules : RulesList tokens fuel) :
    (methodsRest (fuel + 1)).Lists tokens 0 0 := by
  rw [methodsRest]
  apply (lists_sees _).bind
  intro closing
  apply lists_atEnd.bind
  intro ending
  split
  · exact (lists_demandSymbol _ _).bind fun _ => .pure _
  apply lists_ifAccepts
  · apply (rules.namedFunction .method).bind
    intro first
    exact rules.methodsRest.bind fun _ => .pure _
  · apply (rules.namedFunction .method).bind
    intro first
    exact rules.methodsRest.bind fun _ => .pure _

/-! ## Statements -/

theorem lists_initialClause (rules : RulesList tokens fuel) :
    (initialClause fuel).Lists tokens 0 0 := by
  rw [initialClause]
  apply lists_ifAccepts
  · exact rules.expression.bind fun _ => .pure _
  · exact .pure _

theorem lists_variableRest (rules : RulesList tokens fuel) :
    (variableRest (fuel + 1)).Lists tokens 0 0 := by
  rw [variableRest_eq]
  apply (lists_demandName _).bind
  intro name
  apply (lists_initialClause rules).bind
  intro initial
  exact (lists_demandSymbol _ _).bind fun _ => .pure _

theorem lists_optionalExpression (rules : RulesList tokens fuel) (follower : Symbol) :
    (optionalExpression (fuel + 1) follower).Lists tokens 0 0 := by
  rw [optionalExpression]
  apply (lists_sees _).bind
  intro none
  split
  · exact .pure _
  · exact rules.expression.bind fun _ => .pure _

theorem lists_expressionStatement (rules : RulesList tokens fuel) :
    (expressionStatement (fuel + 1)).Lists tokens 0 0 := by
  rw [expressionStatement]
  apply rules.expression.bind
  intro value
  apply lists_atEnd.bind
  intro ending
  split
  · exact .pure _
  · exact (lists_demandSymbol _ _).bind fun _ => .pure _

theorem lists_forInitial (rules : RulesList tokens fuel) :
    (forInitial (fuel + 1)).Lists tokens 0 0 := by
  rw [forInitial]
  apply lists_ifAccepts
  · exact .pure _
  apply lists_ifAccepts
  · exact rules.variableRest.bind fun _ => .pure _
  · exact rules.expressionStatement.bind fun _ => .pure _

theorem lists_forRest (rules : RulesList tokens fuel) : (forRest (fuel + 1)).Lists tokens 0 0 := by
  rw [forRest]
  apply (lists_demandSymbol _ _).bind
  intro _
  apply rules.forInitial.bind
  intro initial
  apply (rules.optionalExpression .semicolon).bind
  intro condition
  apply (lists_demandSymbol _ _).bind
  intro _
  apply (rules.optionalExpression .rightParen).bind
  intro increment
  apply (lists_demandSymbol _ _).bind
  intro _
  exact (rules.statement true).bind fun _ => .pure _

/-- A misplaced `break` is noted at the token behind it, where the semicolon may be missing. -/
theorem lists_misplacedBreak {result : Stmt} :
    (peek >>= fun token => note token .breakOutsideLoop >>= fun _ =>
      demandSymbol .semicolon .breakEnd >>= fun _ => pure result : Rule Stmt).Lists tokens 1 0 := by
  rw [← bind_assoc]
  have isOther : SyntaxFault.breakOutsideLoop ≠ .invalidTarget := by decide
  apply (lists_note isOther).bind_of_le _ (Nat.le_refl 1)
  intro _
  exact (lists_demandSymbol _ _).bind fun _ => .pure _

theorem lists_statement (rules : RulesList tokens fuel) (breakable : Bool) :
    (statement (fuel + 1) breakable).Lists tokens 0 0 := by
  rw [statement]
  apply lists_peek
  intro token
  have condition : ∀ {start finish : Demand} {next : Expr → Rule Stmt},
      (∀ value, (next value).Lists tokens 0 0) →
      (demandSymbol .leftParen start >>= fun _ => Grammar.expression fuel >>= fun value =>
        demandSymbol .rightParen finish >>= fun _ => next value).Lists tokens 0 0 := by
    intro start finish next continues
    apply (lists_demandSymbol _ _).bind
    intro _
    apply rules.expression.bind
    intro value
    exact (lists_demandSymbol _ _).bind fun _ => continues value
  split
  · exact lists_skip.bind fun _ => rules.forRest
  · apply lists_skip.bind
    intro _
    apply condition
    intro test
    apply (rules.statement breakable).bind
    intro whenTrue
    apply lists_ifAccepts
    · exact (rules.statement breakable).bind fun _ => .pure _
    · exact .pure _
  · apply lists_skip.bind
    intro _
    apply condition
    intro test
    exact (rules.statement true).bind fun _ => .pure _
  · apply lists_skip.bind
    intro _
    apply (rules.optionalExpression .semicolon).bind
    intro value
    exact (lists_demandSymbol _ _).bind fun _ => .pure _
  · apply lists_skip.bind
    intro _
    cases breakable with
    | true => exact (lists_demandSymbol _ _).bind fun _ => .pure _
    | false => exact lists_misplacedBreak.weaken (Nat.zero_le _) (Nat.le_refl _)
  · apply lists_skip.bind
    intro _
    exact (rules.blockRest breakable).bind fun _ => .pure _
  · apply lists_skip.bind
    intro _
    apply rules.expression.bind
    intro value
    exact (lists_demandSymbol _ _).bind fun _ => .pure _
  · exact rules.expressionStatement

/-! ## Programs -/

/-- All rules list what they find. -/
theorem rulesList (tokens : List Token) : ∀ fuel, RulesList tokens fuel
  | 0 => by
    constructor <;> intros <;> exact .exhausted
  | fuel + 1 =>
    have rules := rulesList tokens fuel
    { expression := lists_expression rules
      operation := lists_operation rules
      operationRest := lists_operationRest rules
      operand := lists_operand rules
      unary := lists_unary rules
      calls := lists_calls rules
      arguments := lists_arguments rules
      argumentValues := lists_argumentValues rules
      primary := lists_primary rules
      functionRest := lists_functionRest rules
      namedFunction := lists_namedFunction rules
      blockRest := lists_blockRest rules
      declaration := lists_declaration rules
      classRest := lists_classRest rules
      methodsRest := lists_methodsRest rules
      variableRest := lists_variableRest rules
      statement := lists_statement rules
      forRest := lists_forRest rules
      forInitial := lists_forInitial rules
      optionalExpression := lists_optionalExpression rules
      expressionStatement := lists_expressionStatement rules }

theorem lists_declarations (tokens : List Token) (fuel : Nat) :
    (declarations fuel).Lists tokens 0 1 := by
  induction fuel with
  | zero => exact .exhausted
  | succ fuel induction =>
    rw [declarations]
    have first := (rulesList tokens fuel).declaration false
    apply (lists_recovering first (Nat.zero_le _)).bind_of_le _ (by decide)
    intro statement
    apply lists_atEnd.bind
    intro ending
    split
    · exact (Rule.Lists.pure _).weaken (Nat.le_refl _) (Nat.zero_le _)
    · refine induction.bind_of_le (fun _ => ?_) (by decide)
      exact (Rule.Lists.pure _).weaken (Nat.le_refl _) (Nat.zero_le _)

theorem start_append {body : List Token} {ending : Token}
    (noEnd : ∀ token ∈ body, token.kind.isEnding = false) (isEnding : ending.kind.isEnding)
    (firstId : Nat) : State.start firstId (body ++ [ending]) = ⟨body, ending, firstId, #[]⟩ := by
  have goesOn : ∀ token ∈ body, (!token.kind.isEnding) = true :=
    fun token member => congrArg not (noEnd token member)
  have noneIn : body.find? (·.kind.isEnding) = none :=
    List.find?_eq_none.mpr fun token member => Bool.eq_false_iff.mp (noEnd token member)
  have stops : [ending].takeWhile (!·.kind.isEnding) = [] :=
    List.takeWhile_cons_of_neg (by rw [isEnding]; decide)
  rw [State.start, List.takeWhile_append_of_pos goesOn, stops, List.append_nil,
    List.find?_append, noneIn, Option.none_or, List.find?_singleton, if_pos isEnding]
  rfl

/-- Findings at tokens whose lines never decrease are on lines in the same order. -/
theorem line_le_of_position_le {first second : Finding}
    (sorted : tokens.Pairwise fun earlier later => earlier.line ≤ later.line)
    (isAt : tokens[first.position]? = some first.token)
    (isAt' : tokens[second.position]? = some second.token)
    (le : first.position ≤ second.position) : first.error.line ≤ second.error.line := by
  rcases List.getElem?_eq_some_iff.mp isAt with ⟨inside, isFirst⟩
  rcases List.getElem?_eq_some_iff.mp isAt' with ⟨inside', isSecond⟩
  show first.token.line ≤ second.token.line
  rw [← isFirst, ← isSecond]
  rcases Nat.eq_or_lt_of_le le with same | less
  · simp only [same]
    exact Nat.le_refl _
  · exact List.pairwise_iff_getElem.mp sorted _ _ inside inside' less

/--
Syntax errors are listed in the order of the tokens that they are located at, but an assignment to
what is no target behind the errors in its value.  So if the lines of the tokens never decrease,
then only such an assignment is on a smaller line than an error in front of it.
-/
theorem errors_listed {body : List Token} {ending : Token}
    (noEnd : ∀ token ∈ body, token.kind.isEnding = false) (isEnding : ending.kind.isEnding)
    (sorted : (body ++ [ending]).Pairwise fun earlier later => earlier.line ≤ later.line)
    (firstId : Nat) :
    (∃ found, Listed (body ++ [ending]) 0 body.length found ∧
      (parse firstId (body ++ [ending])).errors = found.map Finding.error) ∧
    (parse firstId (body ++ [ending])).errors.Pairwise fun earlier later =>
      earlier.line ≤ later.line ∨ later.fault = .invalidTarget := by
  rcases exists_parse_eq firstId (body ++ [ending]) with ⟨after, read, errors, -⟩
  rw [start_append noEnd isEnding] at read
  have isAt : State.IsAt (body ++ [ending]) 0 ⟨body, ending, firstId, #[]⟩ := ⟨rfl, isEnding⟩
  have lists := lists_declarations (body ++ [ending]) (depthPerToken * (body.length + 1)) 0 _ isAt
  rw [Rule.ListsFrom, Rule.Ends, read] at lists
  rcases lists with ⟨finish, found, passage, -, -⟩
  have reported : (parse firstId (body ++ [ending])).errors = found.map Finding.error :=
    errors.trans passage.errors
  have inside : finish ≤ body.length := by
    have lengths := congrArg List.length passage.arrives.left
    rw [List.length_drop, List.length_append, List.length_append, List.length_singleton,
      List.length_singleton] at lengths
    omega
  have listed := passage.listed.append (.nil inside)
  rw [List.append_nil] at listed
  refine ⟨⟨found, listed, reported⟩, ?_⟩
  rw [reported, List.pairwise_map]
  apply listed.pairwise.imp_of_mem
  intro first second isFirst isSecond order
  apply order.imp _ id
  exact line_le_of_position_le sorted (listed.getElem? first isFirst)
    (listed.getElem? second isSecond)

/-- The tokens of an assignment within an assignment, both of them to what is no target. -/
def nestedAssignments : List Token :=
  [⟨.keyword .nilWord, "nil", 1⟩, ⟨.symbol .equal, "=", 1⟩, ⟨.keyword .nilWord, "nil", 2⟩,
    ⟨.symbol .equal, "=", 2⟩, ⟨.keyword .nilWord, "nil", 3⟩, ⟨.symbol .semicolon, ";", 3⟩]

theorem errors_listed_nestedAssignments :
    (∃ found, Listed (nestedAssignments ++ [.ending 3]) 0 nestedAssignments.length found ∧
      (parse 0 (nestedAssignments ++ [.ending 3])).errors = found.map Finding.error) ∧
    (parse 0 (nestedAssignments ++ [.ending 3])).errors.Pairwise fun earlier later =>
      earlier.line ≤ later.line ∨ later.fault = .invalidTarget :=
  errors_listed (by decide) rfl (by decide) 0

/-- The outer assignment starts on the line before the inner one and is listed behind it. -/
theorem not_sorted_nestedAssignments :
    Item.tokens (Item.scan "nil =\nnil =\nnil;") = nestedAssignments ++ [.ending 3] ∧
      (∀ token ∈ nestedAssignments, token.kind.isEnding = false) ∧
      (nestedAssignments ++ [Token.ending 3]).Pairwise (fun earlier later =>
        earlier.line ≤ later.line) ∧
      ¬ (parse 0 (nestedAssignments ++ [.ending 3])).errors.Pairwise fun earlier later =>
        earlier.line ≤ later.line := by
  have errors : (parse 0 (nestedAssignments ++ [.ending 3])).errors =
      [⟨2, .lexeme "=", .invalidTarget⟩, ⟨1, .lexeme "=", .invalidTarget⟩] := by
    cbv
  refine ⟨by cbv, by decide, by decide, ?_⟩
  rw [errors]
  decide

end Lox.Grammar
