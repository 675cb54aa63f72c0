import Lox.Proofs.Grammar.Soundness

/-!
# Progress

Every rule reads tokens or hands what is left to rules of a smaller rank, so the bound on the
depth of the calls that comes from the number of tokens is never reached.  The main statement
is `exists_parse_eq`: every program is read to its end.
-/

namespace Lox.Grammar

variable {α β : Type} {state : State} {count : Nat}

/-! ## Rules that read enough -/

/-- A rule that does not fail reads at least `count` tokens, and it never reaches the bound. -/
def Rule.Advances (rule : Rule α) (count : Nat) (state : State) : Prop :=
  state.ending.kind.isEnding → rule.Ends state
    (fun _ after => after.ending = state.ending ∧ after.rest.length + count ≤ state.rest.length)
    fun stop after => stop ≠ .exhausted ∧ after.ending = state.ending ∧
      after.rest.length ≤ state.rest.length

namespace Rule.Advances

variable {rule : Rule α} {next : α → Rule β} {first : Nat}

/-- One rule after another: what the first one reads, the second one need not. -/
theorem bind (advances : rule.Advances first state)
    (continues : ∀ result after, after.rest.length + first ≤ state.rest.length →
      (next result).Advances (count - first) after) : (rule >>= next).Advances count state := by
  intro isEnding
  apply (advances isEnding).seq
  · rintro result middle ⟨same, fewer⟩
    rw [← same] at isEnding
    apply (continues result middle fewer isEnding).imp
    · rintro last after ⟨sameThen, fewerThen⟩
      exact ⟨sameThen.trans same, by omega⟩
    · rintro stop after ⟨inBounds, sameThen, fewerThen⟩
      exact ⟨inBounds, sameThen.trans same, by omega⟩
  · exact fun _ _ failed => failed

theorem pure (result : α) : (Pure.pure result : Rule α).Advances 0 state :=
  fun _ => ⟨rfl, Nat.le_refl _⟩

theorem fail (fault : SyntaxFault) : (Grammar.fail fault : Rule α).Advances count state :=
  fun _ => ends_fail fault ⟨fun impossible => (by cases impossible), rfl, Nat.le_refl _⟩

theorem weaken (advances : rule.Advances first state) (fewer : count ≤ first) :
    rule.Advances count state := by
  intro isEnding
  apply (advances isEnding).imp
  · rintro result after ⟨same, less⟩
    exact ⟨same, by omega⟩
  · exact fun _ _ failed => failed

end Rule.Advances

/-! ## Single tokens -/

theorem advances_sees (kind : Kind) : (sees kind).Advances 0 state :=
  fun _ => ends_sees kind ⟨rfl, Nat.le_refl _⟩

theorem advances_atEnd : atEnd.Advances 0 state :=
  fun _ => ends_atEnd ⟨rfl, Nat.le_refl _⟩

theorem advances_note (token : Token) (fault : SyntaxFault) :
    (note token fault).Advances 0 state :=
  fun _ => ends_note token fault ⟨rfl, Nat.le_refl _⟩

theorem advances_freshId : freshId.Advances 0 state :=
  fun _ => ends_freshId ⟨rfl, Nat.le_refl _⟩

/-- Looking at a token that is not the end of the input, one sees that a token is left. -/
theorem advances_peek {next : Token → Rule β}
    (continues : ∀ token, (token.kind.isEnding = false → state.rest ≠ []) →
      (next token).Advances count state) : (peek >>= next).Advances count state := by
  intro isEnding
  apply Rule.Ends.bind
  apply ends_peek
  apply continues state.next _ isEnding
  intro isToken none
  rw [State.next, none] at isToken
  exact absurd isEnding (Bool.not_eq_true _ ▸ isToken)

theorem advances_skip (isLeft : state.rest ≠ []) : skip.Advances 1 state := by
  intro _
  apply ends_skip
  have := List.length_pos_iff.mpr isLeft
  refine ⟨rfl, ?_⟩
  show state.rest.tail.length + 1 ≤ _
  rw [List.length_tail]
  omega

/-- A token that is read if it is of a kind. -/
theorem advances_accept (kind : Kind) {next : Option Token → Rule β}
    (found : ∀ token after, after.rest.length + 1 ≤ state.rest.length →
      (next (some token)).Advances (count - 1) after)
    (missing : (next none).Advances count state) :
    (accept kind >>= next).Advances count state := by
  intro isEnding
  apply Rule.Ends.bind
  apply ends_accept
  · intro token rest here _
    have fewer : rest.length + 1 = state.rest.length := by rw [here, List.length_cons]
    apply (found token { state with rest := rest } (Nat.le_of_eq fewer) isEnding).imp
    · rintro result after ⟨same, less⟩
      have : after.rest.length + (count - 1) ≤ rest.length := less
      exact ⟨same, by omega⟩
    · rintro stop after ⟨inBounds, same, less⟩
      have : after.rest.length ≤ rest.length := less
      exact ⟨inBounds, same, by omega⟩
  · exact fun _ => missing isEnding

theorem advances_ifAccepts (kind : Kind) {whenRead whenMissing : Rule β}
    (read : ∀ after, after.rest.length + 1 ≤ state.rest.length →
      whenRead.Advances (count - 1) after)
    (missing : whenMissing.Advances count state) :
    (accepts kind >>= fun found => if found = true then whenRead else whenMissing).Advances count
      state := by
  rw [accepts, bind_assoc]
  apply advances_accept
  · exact fun _ after fewer => read after fewer
  · exact missing

theorem advances_demand (kind : Kind) (what : Demand) : (demand kind what).Advances 1 state := by
  apply advances_accept
  · exact fun token after _ => .pure token
  · exact .fail _

theorem advances_demandSymbol (symbol : Symbol) (what : Demand) :
    (demandSymbol symbol what).Advances 1 state :=
  (advances_demand _ what).bind fun _ _ _ => .pure ()

theorem advances_demandName (what : Demand) : (demandName what).Advances 1 state :=
  (advances_demand _ what).bind fun _ _ _ => .pure _

theorem length_skipAfter_le (skipped : Token) (tokens : List Token) :
    (skipAfter skipped tokens).length ≤ tokens.length := by
  induction tokens generalizing skipped with
  | nil => exact Nat.le_refl _
  | cons token rest induction =>
    rw [skipAfter]
    split
    · exact Nat.le_refl _
    · exact Nat.le_succ_of_le (induction token)

/-- At least one token is skipped if one is left. -/
theorem length_skipStatement_le (tokens : List Token) :
    (skipStatement tokens).length ≤ tokens.length - 1 := by
  cases tokens with
  | nil => exact Nat.le_refl _
  | cons token rest => exact length_skipAfter_le token rest

/-- A statement that cannot be read is skipped. -/
theorem advances_recovering {rule : Rule α} (advances : rule.Advances 1 state)
    (isLeft : state.rest ≠ []) {next : Option α → Rule β}
    (continues : ∀ result after, after.rest.length + 1 ≤ state.rest.length →
      (next result).Advances (count - 1) after) : (recovering rule >>= next).Advances count state := by
  apply Rule.Advances.bind _ continues
  intro isEnding
  apply ends_recovering
  apply (advances isEnding).imp
  · exact fun _ _ read => read
  · rintro stop middle ⟨inBounds, same, fewer⟩
    cases stop with
    | exhausted => exact absurd rfl inBounds
    | mistake error =>
      have skipped := length_skipStatement_le middle.rest
      have := List.length_pos_iff.mpr isLeft
      refine ⟨same, ?_⟩
      show (skipStatement middle.rest).length + 1 ≤ _
      omega

/-! ## Rules -/

/-- How many levels are tighter. -/
def Level.rank : Level → Nat
  | or => 5
  | and => 4
  | equality => 3
  | comparison => 2
  | term => 1
  | factor => 0

theorem Level.rank_tighter {level tighter : Level} (found : level.tighter? = some tighter) :
    level.rank = tighter.rank + 1 := by
  cases level <;> cases found <;> rfl

/--
Before it has read any token, a rule of this rank gets along with a bound on the depth of its
calls that leaves `depthPerToken` for each token.
-/
def Rule.Progresses (rule : Rule α) (fuel rank count : Nat) : Prop :=
  ∀ state : State, 32 * state.rest.length + rank ≤ fuel → rule.Advances count state

/-- No rule reaches the bound on the depth of its calls. -/
structure RulesProgress (fuel : Nat) : Prop where
  expression : (expression fuel).Progresses fuel 15 1
  operation (level : Level) : (operation fuel level).Progresses fuel (2 * level.rank + 4) 1
  operationRest (level : Level) (left : Expr) : (operationRest fuel level left).Progresses fuel 1 0
  operand (level : Level) : (operand fuel level).Progresses fuel (2 * level.rank + 3) 1
  unary : (unary fuel).Progresses fuel 2 1
  calls (callee : Expr) : (calls fuel callee).Progresses fuel 1 0
  arguments : (arguments fuel).Progresses fuel 17 0
  argumentValues (count : Nat) : (argumentValues fuel count).Progresses fuel 16 1
  primary : (primary fuel).Progresses fuel 1 1
  functionRest (role : FunctionRole) : (functionRest fuel role).Progresses fuel 2 1
  namedFunction (role : FunctionRole) : (namedFunction fuel role).Progresses fuel 1 1
  blockRest (breakable : Bool) : (blockRest fuel breakable).Progresses fuel 19 1
  declaration (breakable : Bool) : (declaration fuel breakable).Progresses fuel 18 1
  classRest : (classRest fuel).Progresses fuel 1 1
  methodsRest : (methodsRest fuel).Progresses fuel 2 1
  variableRest : (variableRest fuel).Progresses fuel 1 1
  statement (breakable : Bool) : (statement fuel breakable).Progresses fuel 17 1
  forRest : (forRest fuel).Progresses fuel 1 1
  forInitial : (forInitial fuel).Progresses fuel 17 1
  optionalExpression (follower : Symbol) :
    (optionalExpression fuel follower).Progresses fuel 16 0
  expressionStatement : (expressionStatement fuel).Progresses fuel 16 1

section

variable {fuel : Nat}

theorem Rule.Progresses.exhausted {rank : Nat} (positive : 0 < rank) :
    (throw .exhausted : Rule α).Progresses 0 rank count := by
  intro state enough
  omega

/-- An operator is read, or nothing. -/
theorem advances_nextConnective? (level : Level) {next : Option (Connective × Nat) → Rule β}
    (found : ∀ operator after, after.rest.length + 1 ≤ state.rest.length →
      (next (some operator)).Advances (count - 1) after)
    (missing : (next none).Advances count state) :
    (nextConnective? level >>= next).Advances count state := by
  rw [nextConnective?, bind_assoc]
  apply advances_peek
  intro token isLeft
  split
  · next connective isOperator =>
    have isToken := (joins_of_ofKind? isOperator).isEnding_eq
    split
    · rw [bind_assoc]
      apply (advances_skip (isLeft isToken)).bind
      exact fun _ after fewer => found _ after fewer
    · exact missing
  · exact missing

theorem advances_nextUnaryOp? {next : Option (UnaryOp × Nat) → Rule β}
    (found : ∀ operator after, after.rest.length + 1 ≤ state.rest.length →
      (next (some operator)).Advances (count - 1) after)
    (missing : (next none).Advances count state) :
    (nextUnaryOp? >>= next).Advances count state := by
  rw [nextUnaryOp?, bind_assoc]
  apply advances_peek
  intro token isLeft
  split
  · next op isOperator =>
    have isToken := (precedes_of_unaryOp? isOperator).isEnding_eq
    rw [bind_assoc]
    apply (advances_skip (isLeft isToken)).bind
    exact fun _ after fewer => found _ after fewer
  · exact missing

theorem advances_noteOverflow (length : Nat) (fault : SyntaxFault) :
    (noteOverflow length fault).Advances 0 state := by
  rw [noteOverflow]
  split
  · exact advances_peek fun token _ => advances_note token fault
  · exact .pure ()

theorem advances_parameterNames (fuel length : Nat) (state : State)
    (enough : state.rest.length + 1 ≤ fuel) : (parameterNames fuel length).Advances 1 state := by
  induction fuel generalizing length state with
  | zero => omega
  | succ fuel induction =>
    rw [parameterNames]
    apply (advances_noteOverflow length _).bind
    intro _ first _
    apply (advances_demandName _).bind
    intro name second fewer
    apply advances_ifAccepts
    · intro third less
      apply (induction (length + 1) third (by omega)).bind
      exact fun others last _ => .pure _
    · exact .pure _

theorem advances_parameters (fuel : Nat) (enough : state.rest.length + 1 ≤ fuel) :
    (parameters fuel).Advances 0 state := by
  rw [parameters]
  apply (advances_sees _).bind
  intro none after fewer
  split
  · exact .pure _
  · exact (advances_parameterNames fuel 0 after (by omega)).weaken (Nat.zero_le _)

theorem advances_seesFunctionDeclaration {whenSeen whenMissing : Rule β}
    (seen : state.rest ≠ [] → whenSeen.Advances count state)
    (missing : whenMissing.Advances count state) :
    (seesFunctionDeclaration >>= fun found =>
      if found = true then whenSeen else whenMissing).Advances count state := by
  intro isEnding
  apply Rule.Ends.bind
  rcases state with ⟨_ | ⟨token, _ | ⟨second, rest⟩⟩, ending, nextId, errors⟩
  · exact missing isEnding
  · show Rule.Ends (if token.kind.same (.keyword .funWord) = true then whenSeen else whenMissing) _ _ _
    split
    · exact seen (List.cons_ne_nil _ _) isEnding
    · exact missing isEnding
  · show Rule.Ends (if (token.kind.same (.keyword .funWord) &&
      !second.kind.same (.symbol .leftParen)) = true then whenSeen else whenMissing) _ _ _
    split
    · exact seen (List.cons_ne_nil _ _) isEnding
    · exact missing isEnding

theorem advances_assignment (target : Expr) (sign : Token) (value : Expr) :
    (assignment target sign value).Advances 0 state := by
  cases target with
  | read | get => exact .pure _
  | _ => exact (advances_note sign _).bind fun _ _ _ => .pure _

theorem progresses_expression (rules : RulesProgress fuel) :
    (expression (fuel + 1)).Progresses (fuel + 1) 15 1 := by
  intro state enough
  rw [expression]
  apply (rules.operation .or state (by simp only [Level.rank]; omega)).bind
  intro target middle fewer
  apply advances_accept
  · intro sign after less
    apply (rules.expression after (by omega)).bind
    exact fun value last _ => advances_assignment target sign value
  · exact .pure target

theorem progresses_operation (rules : RulesProgress fuel) (level : Level) :
    (operation (fuel + 1) level).Progresses (fuel + 1) (2 * level.rank + 4) 1 := by
  intro state enough
  rw [operation]
  apply (rules.operand level state (by omega)).bind
  exact fun left after fewer => rules.operationRest level left after (by omega)

theorem progresses_operationRest (rules : RulesProgress fuel) (level : Level) (left : Expr) :
    (operationRest (fuel + 1) level left).Progresses (fuel + 1) 1 0 := by
  intro state enough
  rw [operationRest]
  apply advances_nextConnective?
  · rintro ⟨connective, line⟩ middle fewer
    have small : level.rank ≤ 5 := by cases level <;> decide
    apply (rules.operand level middle (by omega)).bind
    exact fun right after less => rules.operationRest level _ after (by omega)
  · exact .pure left

theorem progresses_operand (rules : RulesProgress fuel) (level : Level) :
    (operand (fuel + 1) level).Progresses (fuel + 1) (2 * level.rank + 3) 1 := by
  intro state enough
  rw [operand]
  split
  · next tighter found =>
    have tighterRank := Level.rank_tighter found
    exact rules.operation tighter state (by omega)
  · exact rules.unary state (by omega)

theorem progresses_unary (rules : RulesProgress fuel) :
    (unary (fuel + 1)).Progresses (fuel + 1) 2 1 := by
  intro state enough
  rw [unary]
  apply advances_nextUnaryOp?
  · rintro ⟨op, line⟩ after fewer
    apply (rules.unary after (by omega)).bind
    exact fun operand last _ => .pure _
  · apply (rules.primary state (by omega)).bind
    exact fun callee after fewer => rules.calls callee after (by omega)

theorem progresses_calls (rules : RulesProgress fuel) (callee : Expr) :
    (calls (fuel + 1) callee).Progresses (fuel + 1) 1 0 := by
  intro state enough
  rw [calls]
  apply advances_ifAccepts
  · intro first fewer
    apply (rules.arguments first (by omega)).bind
    intro arguments second _
    apply (advances_demand _ _).bind
    exact fun closing third _ => rules.calls _ third (by omega)
  · apply advances_ifAccepts
    · intro first fewer
      apply (advances_demandName _).bind
      exact fun name second _ => rules.calls _ second (by omega)
    · exact .pure callee

theorem progresses_arguments (rules : RulesProgress fuel) :
    (arguments (fuel + 1)).Progresses (fuel + 1) 17 0 := by
  intro state enough
  rw [arguments]
  apply (advances_sees _).bind
  intro none after fewer
  split
  · exact .pure _
  · exact (rules.argumentValues 0 after (by omega)).weaken (Nat.zero_le _)

theorem progresses_argumentValues (rules : RulesProgress fuel) (length : Nat) :
    (argumentValues (fuel + 1) length).Progresses (fuel + 1) 16 1 := by
  intro state enough
  rw [argumentValues]
  apply (advances_noteOverflow length _).bind
  intro _ first fewer
  apply (rules.expression first (by omega)).bind
  intro value second less
  apply advances_ifAccepts
  · intro third least
    apply (rules.argumentValues (length + 1) third (by omega)).bind
    exact fun others last _ => .pure _
  · exact .pure _

theorem progresses_primary (rules : RulesProgress fuel) :
    (primary (fuel + 1)).Progresses (fuel + 1) 1 1 := by
  intro state enough
  rw [primary]
  apply advances_peek
  intro token isLeft
  have skips : ∀ {kind : Kind} {next : Unit → Rule Expr}, token.kind = kind →
      kind.isEnding = false → (∀ after, after.rest.length + 1 ≤ state.rest.length →
        (next ()).Advances 0 after) → (skip >>= next).Advances 1 state := by
    rintro kind next rfl isToken continues
    exact (advances_skip (isLeft isToken)).bind fun _ after fewer => continues after fewer
  split
  · next isOf => exact skips isOf rfl fun _ _ => .pure _
  · next isOf => exact skips isOf rfl fun _ _ => .pure _
  · next isOf => exact skips isOf rfl fun _ _ => .pure _
  · next isOf => exact skips isOf rfl fun _ _ => .pure _
  · next isOf => exact skips isOf rfl fun _ _ => .pure _
  · next isOf =>
    exact skips isOf rfl fun _ _ => advances_freshId.bind fun _ _ _ => .pure _
  · next isOf =>
    apply skips isOf rfl
    intro first fewer
    apply (advances_demandSymbol _ _).bind
    intro _ second _
    apply (advances_demandName _).bind
    intro method third _
    exact advances_freshId.bind fun _ _ _ => .pure _
  · next isOf =>
    exact skips isOf rfl fun _ _ => advances_freshId.bind fun _ _ _ => .pure _
  · next isOf =>
    apply skips isOf rfl
    intro first fewer
    apply (rules.expression first (by omega)).bind
    intro inner second _
    apply (advances_demandSymbol _ _).bind
    exact fun _ _ _ => .pure _
  · next isOf =>
    apply skips isOf rfl
    intro first fewer
    apply (advances_demandSymbol _ _).bind
    intro _ second _
    apply (rules.functionRest .function second (by omega)).bind
    exact fun _ _ _ => .pure _
  · exact .fail _

theorem progresses_functionRest (rules : RulesProgress fuel) (role : FunctionRole) :
    (functionRest (fuel + 1) role).Progresses (fuel + 1) 2 1 := by
  intro state enough
  rw [functionRest]
  apply (advances_parameters fuel (by omega)).bind
  intro parameters first fewer
  apply (advances_demandSymbol _ _).bind
  intro _ second less
  apply (advances_demandSymbol _ _).bind
  intro _ third _
  apply (rules.blockRest false third (by omega)).bind
  exact fun _ _ _ => .pure _

theorem progresses_namedFunction (rules : RulesProgress fuel) (role : FunctionRole) :
    (namedFunction (fuel + 1) role).Progresses (fuel + 1) 1 1 := by
  intro state enough
  rw [namedFunction]
  apply (advances_demandName _).bind
  intro name first fewer
  apply (advances_demandSymbol _ _).bind
  intro _ second _
  apply (rules.functionRest role second (by omega)).bind
  exact fun _ _ _ => .pure _

/-- The end of a list of declarations or methods, or another element of it. -/
theorem advances_atClosing {what : Demand} {result : α} {whenGoesOn : Rule α}
    (goesOn : state.rest ≠ [] → whenGoesOn.Advances 1 state) :
    (sees (.symbol .rightBrace) >>= fun closing => atEnd >>= fun ending =>
      if (closing || ending) = true then
        demandSymbol .rightBrace what >>= fun _ => pure result
      else
        whenGoesOn).Advances 1 state := by
  intro isEnding
  apply Rule.Ends.bind
  apply ends_sees
  apply Rule.Ends.bind
  apply ends_atEnd
  split
  · exact (advances_demandSymbol _ _).bind (fun _ _ _ => .pure _) isEnding
  · next isLeft =>
    apply goesOn _ isEnding
    rintro none
    rw [none] at isLeft
    exact isLeft rfl

theorem progresses_blockRest (rules : RulesProgress fuel) (breakable : Bool) :
    (blockRest (fuel + 1) breakable).Progresses (fuel + 1) 19 1 := by
  intro state enough
  rw [blockRest]
  apply advances_atClosing
  intro isLeft
  have := List.length_pos_iff.mpr isLeft
  apply advances_recovering (rules.declaration breakable state (by omega)) isLeft
  intro first after fewer
  apply (rules.blockRest breakable after (by omega)).bind
  exact fun _ _ _ => .pure _

theorem progresses_declaration (rules : RulesProgress fuel) (breakable : Bool) :
    (declaration (fuel + 1) breakable).Progresses (fuel + 1) 18 1 := by
  intro state enough
  rw [declaration]
  apply advances_ifAccepts
  · intro after fewer
    exact (rules.classRest after (by omega)).weaken (Nat.zero_le _)
  apply advances_seesFunctionDeclaration
  · intro isLeft
    apply (advances_skip isLeft).bind
    intro _ first fewer
    apply (rules.namedFunction .function first (by omega)).bind
    exact fun _ _ _ => .pure _
  apply advances_ifAccepts
  · intro after fewer
    exact (rules.variableRest after (by omega)).weaken (Nat.zero_le _)
  · exact rules.statement breakable state (by omega)

theorem advances_superclassClause : superclassClause.Advances 0 state := by
  rw [superclassClause]
  apply advances_ifAccepts
  · intro first _
    apply (advances_demandName _).bind
    intro name second _
    exact advances_freshId.bind fun _ _ _ => .pure _
  · exact .pure _

theorem progresses_classRest (rules : RulesProgress fuel) :
    (classRest (fuel + 1)).Progresses (fuel + 1) 1 1 := by
  intro state enough
  rw [classRest_eq]
  apply (advances_demandName _).bind
  intro name first fewer
  apply advances_superclassClause.bind
  intro superclass second _
  apply (advances_demandSymbol _ _).bind
  intro _ third _
  apply (rules.methodsRest third (by omega)).bind
  exact fun _ _ _ => .pure _

theorem progresses_methodsRest (rules : RulesProgress fuel) :
    (methodsRest (fuel + 1)).Progresses (fuel + 1) 2 1 := by
  intro state enough
  rw [methodsRest]
  apply advances_atClosing
  intro _
  apply advances_ifAccepts
  · intro first fewer
    apply (rules.namedFunction .method first (by omega)).bind
    intro function second _
    apply (rules.methodsRest second (by omega)).bind
    exact fun _ _ _ => .pure _
  · apply (rules.namedFunction .method state (by omega)).bind
    intro function first fewer
    apply (rules.methodsRest first (by omega)).bind
    exact fun _ _ _ => .pure _

theorem advances_initialClause (rules : RulesProgress fuel)
    (enough : 32 * state.rest.length + 15 ≤ fuel) : (initialClause fuel).Advances 0 state := by
  rw [initialClause]
  apply advances_ifAccepts
  · intro first fewer
    apply (rules.expression first (by omega)).bind
    exact fun _ _ _ => .pure _
  · exact .pure _

theorem progresses_variableRest (rules : RulesProgress fuel) :
    (variableRest (fuel + 1)).Progresses (fuel + 1) 1 1 := by
  intro state enough
  rw [variableRest_eq]
  apply (advances_demandName _).bind
  intro name first fewer
  apply (advances_initialClause rules (by omega)).bind
  intro initial second _
  apply (advances_demandSymbol _ _).bind
  exact fun _ _ _ => .pure _

theorem progresses_optionalExpression (rules : RulesProgress fuel) (follower : Symbol) :
    (optionalExpression (fuel + 1) follower).Progresses (fuel + 1) 16 0 := by
  intro state enough
  rw [optionalExpression]
  apply (advances_sees _).bind
  intro none after fewer
  split
  · exact .pure _
  · apply (rules.expression after (by omega)).bind
    exact fun _ _ _ => .pure _

theorem progresses_expressionStatement (rules : RulesProgress fuel) :
    (expressionStatement (fuel + 1)).Progresses (fuel + 1) 16 1 := by
  intro state enough
  rw [expressionStatement]
  apply (rules.expression state (by omega)).bind
  intro value first _
  apply advances_atEnd.bind
  intro ending second _
  split
  · exact .pure _
  · apply (advances_demandSymbol _ _).bind
    exact fun _ _ _ => .pure _

theorem progresses_forInitial (rules : RulesProgress fuel) :
    (forInitial (fuel + 1)).Progresses (fuel + 1) 17 1 := by
  intro state enough
  rw [forInitial]
  apply advances_ifAccepts
  · exact fun _ _ => .pure _
  apply advances_ifAccepts
  · intro after fewer
    apply (rules.variableRest after (by omega)).bind
    exact fun _ _ _ => .pure _
  · apply (rules.expressionStatement state (by omega)).bind
    exact fun _ _ _ => .pure _

theorem progresses_forRest (rules : RulesProgress fuel) :
    (forRest (fuel + 1)).Progresses (fuel + 1) 1 1 := by
  intro state enough
  rw [forRest]
  apply (advances_demandSymbol _ _).bind
  intro _ first fewer
  apply (rules.forInitial first (by omega)).bind
  intro initial second _
  apply (rules.optionalExpression .semicolon second (by omega)).bind
  intro condition third _
  apply (advances_demandSymbol _ _).bind
  intro _ fourth _
  apply (rules.optionalExpression .rightParen fourth (by omega)).bind
  intro increment fifth _
  apply (advances_demandSymbol _ _).bind
  intro _ sixth _
  apply (rules.statement true sixth (by omega)).bind
  exact fun _ _ _ => .pure _

theorem progresses_statement (rules : RulesProgress fuel) (breakable : Bool) :
    (statement (fuel + 1) breakable).Progresses (fuel + 1) 17 1 := by
  intro state enough
  rw [statement]
  apply advances_peek
  intro token isLeft
  have skips : ∀ {kind : Kind} {next : Unit → Rule Stmt}, token.kind = kind →
      kind.isEnding = false → (∀ after, after.rest.length + 1 ≤ state.rest.length →
        (next ()).Advances 0 after) → (skip >>= next).Advances 1 state := by
    rintro kind next rfl isToken continues
    exact (advances_skip (isLeft isToken)).bind fun _ after fewer => continues after fewer
  have condition : ∀ {start finish : Demand} {next : Expr → Rule Stmt} (first : State),
      first.rest.length + 1 ≤ state.rest.length →
      (∀ value after, after.rest.length + 1 ≤ state.rest.length → (next value).Advances 0 after) →
      (demandSymbol .leftParen start >>= fun _ => expression fuel >>= fun value =>
        demandSymbol .rightParen finish >>= fun _ => next value).Advances 0 first := by
    intro start finish next first fewer continues
    apply (advances_demandSymbol _ _).bind
    intro _ second _
    apply (rules.expression second (by omega)).bind
    intro value third _
    apply (advances_demandSymbol _ _).bind
    exact fun _ fourth _ => continues value fourth (by omega)
  split
  · next isOf =>
    exact skips isOf rfl fun first fewer =>
      (rules.forRest first (by omega)).weaken (Nat.zero_le _)
  · next isOf =>
    apply skips isOf rfl
    intro first fewer
    apply condition first fewer
    intro test second less
    apply (rules.statement breakable second (by omega)).bind
    intro whenTrue third _
    apply advances_ifAccepts
    · intro fourth _
      apply (rules.statement breakable fourth (by omega)).bind
      exact fun _ _ _ => .pure _
    · exact .pure _
  · next isOf =>
    apply skips isOf rfl
    intro first fewer
    apply condition first fewer
    intro test second less
    apply (rules.statement true second (by omega)).bind
    exact fun _ _ _ => .pure _
  · next isOf =>
    apply skips isOf rfl
    intro first fewer
    apply (rules.optionalExpression .semicolon first (by omega)).bind
    intro value second _
    apply (advances_demandSymbol _ _).bind
    exact fun _ _ _ => .pure _
  · next isOf =>
    apply skips isOf rfl
    intro first fewer
    have ends : ∀ second : State, (demandSymbol .semicolon .breakEnd >>= fun _ =>
        pure (.breakLoop token.line) : Rule Stmt).Advances 0 second :=
      fun second => (advances_demandSymbol _ _).bind fun _ _ _ => .pure _
    cases breakable with
    | true => exact ends first
    | false =>
      apply advances_peek
      intro place _
      exact (advances_note place _).bind fun _ second _ => ends second
  · next isOf =>
    apply skips isOf rfl
    intro first fewer
    apply (rules.blockRest breakable first (by omega)).bind
    exact fun _ _ _ => .pure _
  · next isOf =>
    apply skips isOf rfl
    intro first fewer
    apply (rules.expression first (by omega)).bind
    intro value second _
    apply (advances_demandSymbol _ _).bind
    exact fun _ _ _ => .pure _
  · exact rules.expressionStatement state (by omega)

/-- No rule ever reaches a bound that leaves enough for each token. -/
theorem rulesProgress : ∀ fuel, RulesProgress fuel
  | 0 => by
    constructor <;> intros <;> exact .exhausted (by omega)
  | fuel + 1 =>
    have rules := rulesProgress fuel
    { expression := progresses_expression rules
      operation := progresses_operation rules
      operationRest := progresses_operationRest rules
      operand := progresses_operand rules
      unary := progresses_unary rules
      calls := progresses_calls rules
      arguments := progresses_arguments rules
      argumentValues := progresses_argumentValues rules
      primary := progresses_primary rules
      functionRest := progresses_functionRest rules
      namedFunction := progresses_namedFunction rules
      blockRest := progresses_blockRest rules
      declaration := progresses_declaration rules
      classRest := progresses_classRest rules
      methodsRest := progresses_methodsRest rules
      variableRest := progresses_variableRest rules
      statement := progresses_statement rules
      forRest := progresses_forRest rules
      forInitial := progresses_forInitial rules
      optionalExpression := progresses_optionalExpression rules
      expressionStatement := progresses_expressionStatement rules }

/-- A program is read to its end, whatever is wrong with it. -/
theorem ends_declarations (state : State) (enough : 32 * state.rest.length + 19 ≤ fuel)
    (isEnding : state.ending.kind.isEnding) :
    (declarations fuel).Ends state (fun _ _ => True) fun _ _ => False := by
  induction fuel generalizing state with
  | zero => omega
  | succ fuel induction =>
    have continues : ∀ (first : Option Stmt) (after : State),
        after.rest = [] ∨ after.rest.length + 1 ≤ state.rest.length →
        after.ending = state.ending → Rule.Ends (atEnd >>= fun ending =>
          if ending = true then pure first.toList
          else declarations fuel >>= fun others => pure (first.toList ++ others)) after
          (fun _ _ => True) fun _ _ => False := by
      intro first after fewer same
      apply Rule.Ends.bind
      apply ends_atEnd
      split
      · exact trivial
      · next isLeft =>
        rcases fewer with none | fewer
        · rw [none] at isLeft
          exact absurd rfl isLeft
        · apply (induction after (by omega) (same ▸ isEnding)).seq
          · exact fun _ _ _ => trivial
          · exact fun _ _ impossible => impossible
    rw [declarations]
    apply Rule.Ends.bind
    apply ends_recovering
    apply ((rulesProgress fuel).declaration false state (by omega) isEnding).imp
    · exact fun first after advanced => continues first after (.inr advanced.2) advanced.1
    · rintro stop after ⟨inBounds, same, fewer⟩
      cases stop with
      | exhausted => exact inBounds rfl
      | mistake error =>
        have skipped := length_skipStatement_le after.rest
        apply continues none { after.note error with rest := skipStatement after.rest } _ same
        cases here : skipStatement after.rest with
        | nil => exact .inl rfl
        | cons token rest =>
          rw [here, List.length_cons] at skipped
          right
          show rest.length + 1 + 1 ≤ _
          omega

theorem isEnding_start (firstId : Nat) (tokens : List Token) :
    (State.start firstId tokens).ending.kind.isEnding := by
  rw [State.start]
  cases found : tokens.find? (·.kind.isEnding) with
  | none => rfl
  | some ending =>
    have isEnding := List.find?_some found
    exact isEnding

end

/-- Whatever is wrong with a program, it is read to its end: `parse` yields what its rules do. -/
theorem exists_parse_eq (firstId : Nat) (tokens : List Token) :
    ∃ after, declarations (depthPerToken * ((State.start firstId tokens).rest.length + 1))
        (State.start firstId tokens) = .ok (parse firstId tokens).statements after ∧
      (parse firstId tokens).errors = after.errors.toList ∧
      (parse firstId tokens).nextId = after.nextId := by
  have enough : 32 * (State.start firstId tokens).rest.length + 19 ≤
      depthPerToken * ((State.start firstId tokens).rest.length + 1) := by
    rw [depthPerToken]
    omega
  have ends := ends_declarations _ enough (isEnding_start firstId tokens)
  rw [parse]
  revert ends
  rw [Rule.Ends]
  cases declarations _ (State.start firstId tokens) with
  | ok statements after => exact fun _ => ⟨after, rfl, rfl, rfl⟩
  | error stop after => exact fun impossible => impossible.elim

end Lox.Grammar
