import Lox.Proofs.Grammar.Logic
import Lox.Proofs.Tree.Identity
import Mathlib.Data.List.Nodup
import Mathlib.Data.List.Perm.Basic

/-!
# Trees that rules build

A rule gives each use of a variable an id of its own, also when it notes mistakes or
skips statements, and the trees it builds are proper.  `Rule.Builds` is stated so
that the ids of the parts that have been read already are carried along: they may
become parts of the tree that a rule builds.  The main statement is
`parse_builds`.
-/

namespace Lox.Grammar

variable {α β : Type} (names : String → Prop)

/-- Ids are distinct and lie between two bounds. -/
structure Within (first next : Nat) (ids : List Nat) : Prop where
  nodup : ids.Nodup
  bounds : ∀ id ∈ ids, first ≤ id ∧ id < next

namespace Within

variable {first next : Nat} {ids ids' : List Nat}

theorem perm (within : Within first next ids) (same : ids.Perm ids') : Within first next ids' :=
  ⟨same.nodup_iff.mp within.nodup, fun id member => within.bounds id (same.mem_iff.mpr member)⟩

theorem sublist (within : Within first next ids) (part : ids'.Sublist ids) :
    Within first next ids' :=
  ⟨within.nodup.sublist part, fun id member => within.bounds id (part.subset member)⟩

/-- The next id is a new one. -/
theorem push (within : Within first next ids) (start : first ≤ next) :
    Within first (next + 1) (ids ++ [next]) := by
  constructor
  · rw [List.nodup_append]
    refine ⟨within.nodup, List.nodup_singleton _, ?_⟩
    intro id member other single same
    have bound := (within.bounds id member).2
    rw [List.mem_singleton] at single
    omega
  · intro id member
    rcases List.mem_append.mp member with old | new
    · exact ⟨(within.bounds id old).1, Nat.lt_succ_of_lt (within.bounds id old).2⟩
    · rw [List.mem_singleton] at new
      omega

end Within

/-- The names in tokens are among some. -/
def Named (tokens : List Token) : Prop :=
  ∀ token ∈ tokens, token.kind.same .identifier → names token.lexeme

/-- These ids are used, the next id is not, and the names that are left are among some. -/
structure Ready (first : Nat) (used : List Nat) (state : State) : Prop where
  start : first ≤ state.nextId
  within : Within first state.nextId used
  named : Named names state.rest
  ending : state.ending.kind.same .identifier = false

namespace Ready

variable {names} {first : Nat} {used used' : List Nat} {state : State}

theorem sublist (ready : Ready names first used state) (part : used'.Sublist used) :
    Ready names first used' state :=
  { ready with within := ready.within.sublist part }

theorem perm (ready : Ready names first used state) (same : used.Perm used') :
    Ready names first used' state :=
  { ready with within := ready.within.perm same }

/-- Only tokens are read. -/
theorem rest (ready : Ready names first used state) {rest : List Token}
    (suffix : rest ⊆ state.rest) : Ready names first used { state with rest := rest } :=
  { ready with named := fun token member => ready.named token (suffix member) }

theorem note (ready : Ready names first used state) (error : SyntaxError) :
    Ready names first used (state.note error) :=
  ⟨ready.start, ready.within, ready.named, ready.ending⟩

end Ready

/--
A rule makes of parts that have these ids a result with ids of its own, which has a
property.  If it fails, the parts are dropped.
-/
def Rule.Builds (given : List Nat) (rule : Rule α) (ids : α → List Nat) (holds : α → Prop) :
    Prop :=
  ∀ first used state, Ready names first (used ++ given) state →
    rule.Ends state (fun result after => Ready names first (used ++ ids result) after ∧ holds result)
      fun _ after => Ready names first used after

namespace Rule.Builds

variable {names} {given : List Nat} {rule : Rule α} {ids ids' : α → List Nat}
  {holds holds' : α → Prop}

theorem bind {next : α → Rule β} {ids' : β → List Nat} {holds' : β → Prop}
    (builds : rule.Builds names given ids holds)
    (rest : ∀ result, holds result → (next result).Builds names (ids result) ids' holds') :
    (rule >>= next).Builds names given ids' holds' := by
  intro first used state ready
  refine .bind ((builds first used state ready).imp ?_ fun _ _ failed => failed)
  rintro result after ⟨ready, proper⟩
  exact rest result proper first used after ready

/-- Parts that a rule does not need are carried along. -/
theorem frame (builds : rule.Builds names [] ids holds) (given : List Nat) :
    rule.Builds names given (fun result => given ++ ids result) holds := by
  intro first used state ready
  refine (builds first (used ++ given) state (by simpa using ready)).imp ?_ ?_
  · rintro result after ⟨ready, proper⟩
    exact ⟨by simpa using ready, proper⟩
  · exact fun _ _ ready => ready.sublist (List.sublist_append_left used given)

/-- The ids of a result may be listed in another order, and some may be left out. -/
theorem imp (builds : rule.Builds names given ids holds)
    (same : ∀ result, holds result → (ids' result).Subperm (ids result))
    (weaker : ∀ result, holds result → holds' result) : rule.Builds names given ids' holds' := by
  intro first used state ready
  refine (builds first used state ready).imp ?_ fun _ _ failed => failed
  rintro result after ⟨ready, proper⟩
  obtain ⟨part, perm, sublist⟩ := same result proper
  refine ⟨?_, weaker result proper⟩
  exact (ready.sublist (sublist.append_left used)).perm (perm.append_left used)

theorem pure {result : α} (same : (ids result).Subperm given) (proper : holds result) :
    (Pure.pure result : Rule α).Builds names given ids holds := by
  intro first used state ready
  obtain ⟨part, perm, sublist⟩ := same
  exact ⟨(ready.sublist (sublist.append_left used)).perm (perm.append_left used), proper⟩

theorem fail (fault : SyntaxFault) : (Grammar.fail fault : Rule α).Builds names given ids holds :=
  fun _ _ _ ready => ends_fail fault (ready.sublist (List.sublist_append_left _ _))

theorem exhausted : (throw .exhausted : Rule α).Builds names given ids holds :=
  fun _ _ _ ready => .throw (ready.sublist (List.sublist_append_left _ _))

end Rule.Builds

/-! ## Single tokens -/

section

variable {names} {given : List Nat}

theorem builds_peek : peek.Builds names given (fun _ => given)
    fun token => token.kind.same .identifier → names token.lexeme := by
  intro first used state ready
  refine ends_peek ⟨ready, ?_⟩
  intro isName
  obtain ⟨_ | ⟨token, rest⟩, ending, nextId, errors⟩ := state
  · have impossible := ready.ending.symm.trans isName
    cases impossible
  · exact ready.named token List.mem_cons_self isName

theorem builds_atEnd : atEnd.Builds names given (fun _ => given) fun _ => True :=
  fun _ _ _ ready => ends_atEnd ⟨ready, trivial⟩

theorem builds_sees (kind : Kind) : (sees kind).Builds names given (fun _ => given) fun _ => True :=
  fun _ _ _ ready => ends_sees kind ⟨ready, trivial⟩

theorem builds_skip : skip.Builds names given (fun _ => given) fun _ => True :=
  fun _ _ _ ready => ends_skip ⟨ready.rest (List.tail_sublist _).subset, trivial⟩

theorem builds_note (token : Token) (fault : SyntaxFault) :
    (note token fault).Builds names given (fun _ => given) fun _ => True :=
  fun _ _ _ ready => ends_note token fault ⟨ready.note _, trivial⟩

theorem builds_freshId :
    freshId.Builds names given (fun id => given ++ [id]) fun _ => True := by
  intro first used state ready
  refine ends_freshId ⟨⟨?_, ?_, ready.named, ready.ending⟩, trivial⟩
  · exact Nat.le_succ_of_le ready.start
  · have within := ready.within.push ready.start
    simpa using within

theorem builds_accept (kind : Kind) :
    (accept kind).Builds names given (fun _ => given) fun _ => True := by
  intro first used state ready
  refine ends_accept kind ?_ fun _ => ⟨ready, trivial⟩
  intro token rest here _
  exact ⟨ready.rest (by simp [here]), trivial⟩

theorem builds_accepts (kind : Kind) :
    (accepts kind).Builds names given (fun _ => given) fun _ => True :=
  (builds_accept kind).bind fun _ _ => .pure (List.Subperm.refl _) trivial

theorem builds_demand (kind : Kind) (what : Demand) :
    (demand kind what).Builds names given (fun _ => given) fun _ => True := by
  refine (builds_accept kind).bind fun token? _ => ?_
  cases token? with
  | some token => exact .pure (List.Subperm.refl _) trivial
  | none => exact .fail _

theorem builds_demandSymbol (symbol : Symbol) (what : Demand) :
    (demandSymbol symbol what).Builds names given (fun _ => given) fun _ => True :=
  (builds_demand _ what).bind fun _ _ => .pure (List.Subperm.refl _) trivial

theorem builds_demandName (what : Demand) :
    (demandName what).Builds names given (fun _ => given) fun name => names name.text := by
  intro first used state ready
  refine ends_demandName what ?_ fun _ => ready.sublist (List.sublist_append_left _ _)
  intro token rest here isName
  refine ⟨ready.rest (by simp [here]), ?_⟩
  exact ready.named token (by simp [here]) isName

theorem skipAfter_subset (skipped : Token) (tokens : List Token) :
    skipAfter skipped tokens ⊆ tokens := by
  induction tokens generalizing skipped with
  | nil => exact List.Subset.refl _
  | cons token rest induction =>
    rw [skipAfter]
    split
    · exact List.Subset.refl _
    · exact List.subset_cons_of_subset token (induction token)

theorem skipStatement_subset (tokens : List Token) : skipStatement tokens ⊆ tokens := by
  cases tokens with
  | nil => exact List.Subset.refl _
  | cons token rest => exact List.subset_cons_of_subset token (skipAfter_subset token rest)

/-- A statement that is skipped leaves ids unused, but none is given twice. -/
theorem builds_recovering {rule : Rule α} {ids : α → List Nat} {holds : α → Prop}
    (builds : rule.Builds names [] ids holds) :
    (recovering rule).Builds names given
      (fun result? => given ++ result?.toList.flatMap ids)
      (fun result? => ∀ result ∈ result?, holds result) := by
  refine Rule.Builds.frame ?_ given
  intro first used state ready
  refine ends_recovering ((builds first used state ready).imp ?_ ?_)
  · rintro result after ⟨ready, proper⟩
    refine ⟨by simpa using ready, ?_⟩
    rintro other ⟨⟩
    exact proper
  · intro stop after ready
    cases stop with
    | exhausted => exact ready
    | mistake error =>
      refine ⟨?_, by simp⟩
      have skipped := (ready.note error).rest (skipStatement_subset after.rest)
      simpa [State.note] using skipped

end

/-! ## Rules -/

/-- All rules build proper trees within this bound on the depth of their calls. -/
structure RulesBuild (fuel : Nat) : Prop where
  expression : (expression fuel).Builds names [] Expr.ids (Expr.IsProper names)
  operation (level : Level) :
    (operation fuel level).Builds names [] Expr.ids (Expr.IsProper names)
  operationRest (level : Level) (left : Expr) (proper : left.IsProper names) :
    (operationRest fuel level left).Builds names left.ids Expr.ids (Expr.IsProper names)
  operand (level : Level) : (operand fuel level).Builds names [] Expr.ids (Expr.IsProper names)
  unary : (unary fuel).Builds names [] Expr.ids (Expr.IsProper names)
  calls (callee : Expr) (proper : callee.IsProper names) :
    (calls fuel callee).Builds names callee.ids Expr.ids (Expr.IsProper names)
  arguments : (arguments fuel).Builds names [] Expr.idsAll (Expr.AreProper names)
  argumentValues (count : Nat) :
    (argumentValues fuel count).Builds names [] Expr.idsAll (Expr.AreProper names)
  primary : (primary fuel).Builds names [] Expr.ids (Expr.IsProper names)
  functionRest (role : FunctionRole) :
    (functionRest fuel role).Builds names [] Function.ids (Function.IsProper names)
  namedFunction (role : FunctionRole) :
    (namedFunction fuel role).Builds names [] (fun function => function.definition.ids)
      fun function => names function.name.text ∧ function.definition.IsProper names
  blockRest (breakable : Bool) :
    (blockRest fuel breakable).Builds names [] Stmt.idsAll (Stmt.AreProper names)
  declaration (breakable : Bool) :
    (declaration fuel breakable).Builds names [] Stmt.ids (Stmt.IsProper names)
  classRest : (classRest fuel).Builds names [] Stmt.ids (Stmt.IsProper names)
  methodsRest :
    (methodsRest fuel).Builds names []
      (fun members => NamedFunction.idsAll members.2 ++ NamedFunction.idsAll members.1)
      fun members =>
        NamedFunction.AreProper names members.1 ∧ NamedFunction.AreProper names members.2
  variableRest : (variableRest fuel).Builds names [] Stmt.ids (Stmt.IsProper names)
  statement (breakable : Bool) :
    (statement fuel breakable).Builds names [] Stmt.ids
      fun statement => statement.IsProper names ∧ statement.locals = []
  forRest :
    (forRest fuel).Builds names [] Stmt.ids
      fun statement => statement.IsProper names ∧ statement.locals = []
  forInitial :
    (forInitial fuel).Builds names [] (fun initial => initial.toList.flatMap Stmt.ids)
      fun initial => ∀ statement ∈ initial, statement.IsProper names
  optionalExpression (follower : Symbol) :
    (optionalExpression fuel follower).Builds names [] (fun value => value.toList.flatMap Expr.ids)
      fun value => ∀ expression ∈ value, expression.IsProper names
  expressionStatement :
    (expressionStatement fuel).Builds names [] Stmt.ids
      fun statement => statement.IsProper names ∧ statement.locals = []

section

variable {names} {fuel : Nat}

theorem builds_nextConnective? (level : Level) {given : List Nat} :
    (nextConnective? level).Builds names given (fun _ => given) fun _ => True := by
  rw [nextConnective?]
  refine builds_peek.bind fun token _ => ?_
  split
  · split
    · exact builds_skip.bind fun _ _ => .pure (List.Subperm.refl _) trivial
    · exact .pure (List.Subperm.refl _) trivial
  · exact .pure (List.Subperm.refl _) trivial

theorem builds_nextUnaryOp? {given : List Nat} :
    nextUnaryOp?.Builds names given (fun _ => given) fun _ => True := by
  rw [nextUnaryOp?]
  refine builds_peek.bind fun token _ => ?_
  split
  · exact builds_skip.bind fun _ _ => .pure (List.Subperm.refl _) trivial
  · exact .pure (List.Subperm.refl _) trivial

theorem builds_noteOverflow (count : Nat) (fault : SyntaxFault) {given : List Nat} :
    (noteOverflow count fault).Builds names given (fun _ => given) fun _ => True := by
  rw [noteOverflow]
  split
  · exact builds_peek.bind fun token _ => builds_note token fault
  · exact .pure (List.Subperm.refl _) trivial

theorem builds_parameterNames (fuel count : Nat) {given : List Nat} :
    (parameterNames fuel count).Builds names given (fun _ => given)
      fun parameters => ∀ parameter ∈ parameters, names parameter.text := by
  induction fuel generalizing count with
  | zero => exact .exhausted
  | succ fuel induction =>
    rw [parameterNames]
    refine (builds_noteOverflow count _).bind fun _ _ => ?_
    refine (builds_demandName _).bind fun name isName => ?_
    refine (builds_accepts _).bind fun comma _ => ?_
    split
    · refine (induction (count + 1)).bind fun others areNames => ?_
      exact .pure (List.Subperm.refl _) (List.forall_mem_cons.mpr ⟨isName, areNames⟩)
    · exact .pure (List.Subperm.refl _) (by simpa using isName)

theorem builds_parameters (fuel : Nat) {given : List Nat} :
    (parameters fuel).Builds names given (fun _ => given)
      fun parameters => ∀ parameter ∈ parameters, names parameter.text := by
  rw [parameters]
  refine (builds_sees _).bind fun none _ => ?_
  split
  · exact .pure (List.Subperm.refl _) (by simp)
  · exact builds_parameterNames fuel 0

theorem builds_seesFunctionDeclaration {given : List Nat} :
    seesFunctionDeclaration.Builds names given (fun _ => given) fun _ => True := by
  intro first used state ready
  obtain ⟨_ | ⟨token, _ | ⟨next, rest⟩⟩, ending, nextId, errors⟩ := state <;>
    exact ⟨ready, trivial⟩

/-- A target that is none drops the value. -/
theorem builds_assignment {target value : Expr} (sign : Token)
    (targetProper : target.IsProper names) (valueProper : value.IsProper names) :
    (assignment target sign value).Builds names (target.ids ++ value.ids) Expr.ids
      (Expr.IsProper names) := by
  cases target with
  | read reference =>
    refine .pure ?_ ⟨targetProper, valueProper⟩
    exact (List.perm_append_comm ).subperm
  | get object name => exact .pure (List.Subperm.refl _) ⟨targetProper, valueProper⟩
  | _ =>
    refine (builds_note sign _).bind fun _ _ => .pure ?_ targetProper
    exact (List.sublist_append_left _ _).subperm

theorem builds_expression (rules : RulesBuild names fuel) :
    (expression (fuel + 1)).Builds names [] Expr.ids (Expr.IsProper names) := by
  rw [expression]
  refine (rules.operation .or).bind fun target targetProper => ?_
  refine (builds_accept _).bind fun sign? _ => ?_
  split
  · next sign =>
    exact (rules.expression.frame target.ids).bind fun value valueProper =>
      builds_assignment sign targetProper valueProper
  · exact .pure (List.Subperm.refl _) targetProper

/-- Operators join the parts of an expression in their order. -/
theorem ids_join (connective : Connective) (line : Nat) (left right : Expr) :
    (connective.join line left right).ids = left.ids ++ right.ids := by
  cases connective <;> rfl

theorem isProper_join (connective : Connective) (line : Nat) {left right : Expr}
    (leftProper : left.IsProper names) (rightProper : right.IsProper names) :
    (connective.join line left right).IsProper names := by
  cases connective <;> exact ⟨leftProper, rightProper⟩

theorem builds_operation (rules : RulesBuild names fuel) (level : Level) :
    (operation (fuel + 1) level).Builds names [] Expr.ids (Expr.IsProper names) := by
  rw [operation]
  exact (rules.operand level).bind fun left proper => rules.operationRest level left proper

theorem builds_operationRest (rules : RulesBuild names fuel) (level : Level) (left : Expr)
    (proper : left.IsProper names) :
    (operationRest (fuel + 1) level left).Builds names left.ids Expr.ids (Expr.IsProper names) := by
  rw [operationRest]
  refine (builds_nextConnective? level).bind fun found _ => ?_
  split
  · next connective line =>
    refine ((rules.operand level).frame left.ids).bind fun right rightProper => ?_
    have joined := rules.operationRest level (connective.join line left right)
      (isProper_join connective line proper rightProper)
    rwa [ids_join] at joined
  · exact .pure (List.Subperm.refl _) proper

theorem builds_operand (rules : RulesBuild names fuel) (level : Level) :
    (operand (fuel + 1) level).Builds names [] Expr.ids (Expr.IsProper names) := by
  rw [operand]
  split
  · next tighter _ => exact rules.operation tighter
  · exact rules.unary

theorem builds_unary (rules : RulesBuild names fuel) :
    (unary (fuel + 1)).Builds names [] Expr.ids (Expr.IsProper names) := by
  rw [unary]
  refine builds_nextUnaryOp?.bind fun found _ => ?_
  split
  · exact rules.unary.bind fun operand proper => .pure (List.Subperm.refl _) proper
  · exact rules.primary.bind fun callee proper => rules.calls callee proper

theorem builds_calls (rules : RulesBuild names fuel) (callee : Expr)
    (proper : callee.IsProper names) :
    (calls (fuel + 1) callee).Builds names callee.ids Expr.ids (Expr.IsProper names) := by
  rw [calls]
  refine (builds_accepts _).bind fun isCall _ => ?_
  split
  · refine (rules.arguments.frame callee.ids).bind fun arguments areProper => ?_
    refine (builds_demand _ _).bind fun closing _ => ?_
    exact rules.calls (.call callee closing.line arguments) ⟨proper, areProper⟩
  · refine (builds_accepts _).bind fun isAccess _ => ?_
    split
    · refine (builds_demandName _).bind fun name _ => ?_
      exact rules.calls (.get callee name) proper
    · exact .pure (List.Subperm.refl _) proper

theorem builds_arguments (rules : RulesBuild names fuel) :
    (arguments (fuel + 1)).Builds names [] Expr.idsAll (Expr.AreProper names) := by
  rw [arguments]
  refine (builds_sees _).bind fun none _ => ?_
  split
  · exact .pure (List.Subperm.refl _) trivial
  · exact rules.argumentValues 0

theorem builds_argumentValues (rules : RulesBuild names fuel) (count : Nat) :
    (argumentValues (fuel + 1) count).Builds names [] Expr.idsAll (Expr.AreProper names) := by
  rw [argumentValues]
  refine (builds_noteOverflow count _).bind fun _ _ => ?_
  refine rules.expression.bind fun value proper => ?_
  refine (builds_accepts _).bind fun comma _ => ?_
  split
  · refine ((rules.argumentValues (count + 1)).frame value.ids).bind fun others areProper => ?_
    exact .pure (List.Subperm.refl _) ⟨proper, areProper⟩
  · exact .pure (by simpa using List.Subperm.refl value.ids) ⟨proper, trivial⟩

theorem builds_primary (rules : RulesBuild names fuel) :
    (primary (fuel + 1)).Builds names [] Expr.ids (Expr.IsProper names) := by
  rw [primary]
  refine builds_peek.bind fun token isName => ?_
  split
  · exact builds_skip.bind fun _ _ => .pure (List.Subperm.refl _) trivial
  · exact builds_skip.bind fun _ _ => .pure (List.Subperm.refl _) trivial
  · exact builds_skip.bind fun _ _ => .pure (List.Subperm.refl _) trivial
  · exact builds_skip.bind fun _ _ => .pure (List.Subperm.refl _) trivial
  · exact builds_skip.bind fun _ _ => .pure (List.Subperm.refl _) trivial
  · refine builds_skip.bind fun _ _ => builds_freshId.bind fun id _ => ?_
    exact .pure (List.Subperm.refl _) trivial
  · refine builds_skip.bind fun _ _ => (builds_demandSymbol _ _).bind fun _ _ => ?_
    refine (builds_demandName _).bind fun method _ => builds_freshId.bind fun id _ => ?_
    exact .pure (List.Subperm.refl _) trivial
  · next isIdentifier =>
    refine builds_skip.bind fun _ _ => builds_freshId.bind fun id _ => ?_
    exact .pure (List.Subperm.refl _) (isName (by rw [isIdentifier]; rfl))
  · refine builds_skip.bind fun _ _ => rules.expression.bind fun inner proper => ?_
    exact (builds_demandSymbol _ _).bind fun _ _ => .pure (List.Subperm.refl _) proper
  · refine builds_skip.bind fun _ _ => (builds_demandSymbol _ _).bind fun _ _ => ?_
    refine (rules.functionRest .function).bind fun definition proper => ?_
    exact .pure (List.Subperm.refl _) proper
  · exact .fail _

theorem builds_functionRest (rules : RulesBuild names fuel) (role : FunctionRole) :
    (functionRest (fuel + 1) role).Builds names [] Function.ids (Function.IsProper names) := by
  rw [functionRest]
  refine (builds_parameters fuel).bind fun parameters areNames => ?_
  refine (builds_demandSymbol _ _).bind fun _ _ => (builds_demandSymbol _ _).bind fun _ _ => ?_
  refine (rules.blockRest false).bind fun body areProper => ?_
  exact .pure (List.Subperm.refl _) ⟨areNames, areProper⟩

theorem builds_namedFunction (rules : RulesBuild names fuel) (role : FunctionRole) :
    (namedFunction (fuel + 1) role).Builds names [] (fun function => function.definition.ids)
      fun function => names function.name.text ∧ function.definition.IsProper names := by
  rw [namedFunction]
  refine (builds_demandName _).bind fun name isName => ?_
  refine (builds_demandSymbol _ _).bind fun _ _ => ?_
  refine (rules.functionRest role).bind fun definition proper => ?_
  exact .pure (List.Subperm.refl _) ⟨isName, proper⟩

theorem idsAll_toList (first : Option Stmt) :
    Stmt.idsAll first.toList = first.toList.flatMap Stmt.ids := by
  cases first <;> simp

theorem areProper_toList {first : Option Stmt} (proper : ∀ statement ∈ first, statement.IsProper names) :
    Stmt.AreProper names first.toList := by
  cases first with
  | none => trivial
  | some statement => exact ⟨proper statement rfl, trivial⟩

theorem builds_blockRest (rules : RulesBuild names fuel) (breakable : Bool) :
    (blockRest (fuel + 1) breakable).Builds names [] Stmt.idsAll (Stmt.AreProper names) := by
  rw [blockRest]
  refine (builds_sees _).bind fun closing _ => builds_atEnd.bind fun ending _ => ?_
  split
  · exact (builds_demandSymbol _ _).bind fun _ _ => .pure (List.Subperm.refl _) trivial
  · refine (builds_recovering (rules.declaration breakable)).bind fun first proper => ?_
    refine ((rules.blockRest breakable).frame _).bind fun others areProper => ?_
    refine .pure ?_ ((Stmt.areProper_append _ _ _).mpr ⟨areProper_toList proper, areProper⟩)
    rw [Stmt.idsAll_append, idsAll_toList]
    exact List.Subperm.refl _

theorem builds_declaration (rules : RulesBuild names fuel) (breakable : Bool) :
    (declaration (fuel + 1) breakable).Builds names [] Stmt.ids (Stmt.IsProper names) := by
  rw [declaration]
  refine (builds_accepts _).bind fun isClass _ => ?_
  split
  · exact rules.classRest
  refine builds_seesFunctionDeclaration.bind fun isFunction _ => ?_
  split
  · refine builds_skip.bind fun _ _ => (rules.namedFunction .function).bind fun function proper => ?_
    cases function with
    | mk name definition => exact .pure (List.Subperm.refl _) proper
  refine (builds_accepts _).bind fun isVariable _ => ?_
  split
  · exact rules.variableRest
  · exact (rules.statement breakable).imp (fun _ _ => List.Subperm.refl _) fun _ proper => proper.1

theorem builds_classRest (rules : RulesBuild names fuel) :
    (classRest (fuel + 1)).Builds names [] Stmt.ids (Stmt.IsProper names) := by
  rw [classRest]
  refine (builds_demandName _).bind fun name isName => ?_
  refine (builds_accepts _).bind fun inherits _ => ?_
  extract_lets rest
  have continued : ∀ superclass : Option Reference, (∀ target ∈ superclass, names target.name.text) →
      (rest superclass).Builds names (superclass.toList.map Reference.id) Stmt.ids
        (Stmt.IsProper names) := by
    intro superclass isSuperName
    refine (builds_demandSymbol _ _).bind fun _ _ => ?_
    refine (rules.methodsRest.frame _).bind fun members areProper => ?_
    refine .pure ?_ ⟨isName, isSuperName, areProper⟩
    simpa using List.Subperm.refl _
  split
  · refine (builds_demandName _).bind fun superName isSuperName => ?_
    refine builds_freshId.bind fun id _ => ?_
    exact continued (some ⟨id, superName⟩) (by simpa using isSuperName)
  · exact continued none (by simp)

theorem builds_methodsRest (rules : RulesBuild names fuel) :
    (methodsRest (fuel + 1)).Builds names []
      (fun members => NamedFunction.idsAll members.2 ++ NamedFunction.idsAll members.1)
      fun members =>
        NamedFunction.AreProper names members.1 ∧ NamedFunction.AreProper names members.2 := by
  rw [methodsRest]
  refine (builds_sees _).bind fun closing _ => builds_atEnd.bind fun ending _ => ?_
  split
  · exact (builds_demandSymbol _ _).bind fun _ _ => .pure (List.Subperm.refl _) ⟨trivial, trivial⟩
  refine (builds_accepts _).bind fun isClassMethod _ => ?_
  split
  · refine (rules.namedFunction .method).bind fun function proper => ?_
    refine (rules.methodsRest.frame _).bind fun members areProper => ?_
    cases function with
    | mk name definition =>
      refine .pure ?_ ⟨areProper.1, proper.2, areProper.2⟩
      simpa [NamedFunction.definition] using List.Subperm.refl _
  · refine (rules.namedFunction .method).bind fun function proper => ?_
    refine (rules.methodsRest.frame _).bind fun members areProper => ?_
    cases function with
    | mk name definition =>
      refine .pure ?_ ⟨⟨proper.2, areProper.1⟩, areProper.2⟩
      simp only [NamedFunction.idsAll, NamedFunction.definition, ← List.append_assoc]
      exact (List.perm_append_comm.append_right _).subperm

theorem builds_variableRest (rules : RulesBuild names fuel) :
    (variableRest (fuel + 1)).Builds names [] Stmt.ids (Stmt.IsProper names) := by
  rw [variableRest]
  refine (builds_demandName _).bind fun name isName => ?_
  refine (builds_accepts _).bind fun isInitialised _ => ?_
  extract_lets rest
  split
  · refine rules.expression.bind fun initial proper => ?_
    refine (builds_demandSymbol _ _).bind fun _ _ => ?_
    exact .pure (List.Subperm.refl _) ⟨isName, proper⟩
  · refine (builds_demandSymbol _ _).bind fun _ _ => ?_
    exact .pure (List.Subperm.refl _) isName

theorem builds_statement (rules : RulesBuild names fuel) (breakable : Bool) :
    (statement (fuel + 1) breakable).Builds names [] Stmt.ids
      fun statement => statement.IsProper names ∧ statement.locals = [] := by
  rw [statement]
  refine builds_peek.bind fun token _ => ?_
  split
  · exact builds_skip.bind fun _ _ => rules.forRest
  · refine builds_skip.bind fun _ _ => (builds_demandSymbol _ _).bind fun _ _ => ?_
    refine rules.expression.bind fun condition proper => ?_
    refine (builds_demandSymbol _ _).bind fun _ _ => ?_
    refine ((rules.statement breakable).frame _).bind fun whenTrue trueProper => ?_
    refine (builds_accepts _).bind fun hasElse _ => ?_
    split
    · refine ((rules.statement breakable).frame _).bind fun whenFalse falseProper => ?_
      refine .pure (List.Subperm.refl _) ⟨⟨proper, trueProper, falseProper⟩, ?_⟩
      simp [Stmt.locals, trueProper.2, falseProper.2]
    · exact .pure (List.Subperm.refl _) ⟨⟨proper, trueProper⟩, trueProper.2⟩
  · refine builds_skip.bind fun _ _ => (builds_demandSymbol _ _).bind fun _ _ => ?_
    refine rules.expression.bind fun condition proper => ?_
    refine (builds_demandSymbol _ _).bind fun _ _ => ?_
    refine ((rules.statement true).frame _).bind fun body bodyProper => ?_
    exact .pure (List.Subperm.refl _) ⟨⟨proper, bodyProper⟩, bodyProper.2⟩
  · refine builds_skip.bind fun _ _ => (rules.optionalExpression _).bind fun value proper => ?_
    refine (builds_demandSymbol _ _).bind fun _ _ => ?_
    cases value with
    | none => exact .pure (List.Subperm.refl _) ⟨trivial, rfl⟩
    | some value => exact .pure (by simp [List.Subperm.refl]) ⟨proper value rfl, rfl⟩
  · refine builds_skip.bind fun _ _ => ?_
    split
    · refine (builds_demandSymbol _ _).bind fun _ _ => ?_
      exact .pure (List.Subperm.refl _) ⟨trivial, rfl⟩
    · refine builds_peek.bind fun place _ => (builds_note place _).bind fun _ _ => ?_
      refine (builds_demandSymbol _ _).bind fun _ _ => ?_
      exact .pure (List.Subperm.refl _) ⟨trivial, rfl⟩
  · refine builds_skip.bind fun _ _ => (rules.blockRest breakable).bind fun body proper => ?_
    exact .pure (List.Subperm.refl _) ⟨proper, rfl⟩
  · refine builds_skip.bind fun _ _ => rules.expression.bind fun value proper => ?_
    refine (builds_demandSymbol _ _).bind fun _ _ => ?_
    exact .pure (List.Subperm.refl _) ⟨proper, rfl⟩
  · exact rules.expressionStatement

/-- The increment is read before the body of the loop that it ends. -/
theorem ids_forLoop (initial : Option Stmt) (condition increment : Option Expr) (body : Stmt) :
    (initial.toList.flatMap Stmt.ids ++ condition.toList.flatMap Expr.ids ++
      increment.toList.flatMap Expr.ids ++ body.ids).Perm
        (forLoop initial condition increment body).ids := by
  cases initial <;> cases condition <;> cases increment <;>
    simp [forLoop, List.perm_append_comm, List.perm_append_left_iff]

theorem isProper_forLoop {initial : Option Stmt} {condition increment : Option Expr} {body : Stmt}
    (initialProper : ∀ statement ∈ initial, statement.IsProper names)
    (conditionProper : ∀ expression ∈ condition, expression.IsProper names)
    (incrementProper : ∀ expression ∈ increment, expression.IsProper names)
    (bodyProper : body.IsProper names ∧ body.locals = []) :
    (forLoop initial condition increment body).IsProper names := by
  have ofCondition : (condition.getD (.literal (.bool true))).IsProper names := by
    cases condition with
    | none => trivial
    | some condition => exact conditionProper condition rfl
  refine (Stmt.areProper_append _ _ _).mpr ⟨areProper_toList initialProper, ?_⟩
  cases increment with
  | none => exact ⟨⟨ofCondition, bodyProper⟩, trivial⟩
  | some increment =>
    exact ⟨⟨ofCondition, ⟨bodyProper.1, incrementProper increment rfl, trivial⟩, rfl⟩, trivial⟩

theorem builds_forRest (rules : RulesBuild names fuel) :
    (forRest (fuel + 1)).Builds names [] Stmt.ids
      fun statement => statement.IsProper names ∧ statement.locals = [] := by
  rw [forRest]
  refine (builds_demandSymbol _ _).bind fun _ _ => ?_
  refine rules.forInitial.bind fun initial initialProper => ?_
  refine ((rules.optionalExpression _).frame _).bind fun condition conditionProper => ?_
  refine (builds_demandSymbol _ _).bind fun _ _ => ?_
  refine ((rules.optionalExpression _).frame _).bind fun increment incrementProper => ?_
  refine (builds_demandSymbol _ _).bind fun _ _ => ?_
  refine ((rules.statement true).frame _).bind fun body bodyProper => ?_
  refine .pure (ids_forLoop initial condition increment body).symm.subperm ⟨?_, rfl⟩
  exact isProper_forLoop initialProper conditionProper incrementProper bodyProper

theorem builds_forInitial (rules : RulesBuild names fuel) :
    (forInitial (fuel + 1)).Builds names [] (fun initial => initial.toList.flatMap Stmt.ids)
      fun initial => ∀ statement ∈ initial, statement.IsProper names := by
  rw [forInitial]
  refine (builds_accepts _).bind fun isMissing _ => ?_
  split
  · exact .pure (List.Subperm.refl _) (by simp)
  refine (builds_accepts _).bind fun isVariable _ => ?_
  split
  · refine rules.variableRest.bind fun statement proper => ?_
    exact .pure (by simp [List.Subperm.refl]) (by simpa using proper)
  · refine rules.expressionStatement.bind fun statement proper => ?_
    exact .pure (by simp [List.Subperm.refl]) (by simpa using proper.1)

theorem builds_optionalExpression (rules : RulesBuild names fuel) (follower : Symbol) :
    (optionalExpression (fuel + 1) follower).Builds names []
      (fun value => value.toList.flatMap Expr.ids)
      fun value => ∀ expression ∈ value, expression.IsProper names := by
  rw [optionalExpression]
  refine (builds_sees _).bind fun isMissing _ => ?_
  split
  · exact .pure (List.Subperm.refl _) (by simp)
  · refine rules.expression.bind fun value proper => ?_
    exact .pure (by simp [List.Subperm.refl]) (by simpa using proper)

theorem builds_expressionStatement (rules : RulesBuild names fuel) :
    (expressionStatement (fuel + 1)).Builds names [] Stmt.ids
      fun statement => statement.IsProper names ∧ statement.locals = [] := by
  rw [expressionStatement]
  refine rules.expression.bind fun value proper => builds_atEnd.bind fun ending _ => ?_
  split
  · exact .pure (List.Subperm.refl _) ⟨proper, rfl⟩
  · refine (builds_demandSymbol _ _).bind fun _ _ => ?_
    exact .pure (List.Subperm.refl _) ⟨proper, rfl⟩

variable (names)

/-- All rules build proper trees. -/
theorem rulesBuild : ∀ fuel, RulesBuild names fuel
  | 0 => by
    constructor <;> intros <;> exact .exhausted
  | fuel + 1 =>
    have rules := rulesBuild fuel
    { expression := builds_expression rules
      operation := builds_operation rules
      operationRest := builds_operationRest rules
      operand := builds_operand rules
      unary := builds_unary rules
      calls := builds_calls rules
      arguments := builds_arguments rules
      argumentValues := builds_argumentValues rules
      primary := builds_primary rules
      functionRest := builds_functionRest rules
      namedFunction := builds_namedFunction rules
      blockRest := builds_blockRest rules
      declaration := builds_declaration rules
      classRest := builds_classRest rules
      methodsRest := builds_methodsRest rules
      variableRest := builds_variableRest rules
      statement := builds_statement rules
      forRest := builds_forRest rules
      forInitial := builds_forInitial rules
      optionalExpression := builds_optionalExpression rules
      expressionStatement := builds_expressionStatement rules }

theorem builds_declarations (fuel : Nat) :
    (declarations fuel).Builds names [] Stmt.idsAll (Stmt.AreProper names) := by
  induction fuel with
  | zero => exact .exhausted
  | succ fuel induction =>
    rw [declarations]
    refine (builds_recovering ((rulesBuild names fuel).declaration false)).bind fun first proper => ?_
    refine builds_atEnd.bind fun ending _ => ?_
    split
    · exact .pure (by simp [idsAll_toList, List.Subperm.refl]) (areProper_toList proper)
    · refine (induction.frame _).bind fun others areProper => ?_
      refine .pure ?_ ((Stmt.areProper_append _ _ _).mpr ⟨areProper_toList proper, areProper⟩)
      rw [Stmt.idsAll_append, idsAll_toList]
      exact List.Subperm.refl _

theorem Kind.same_identifier_of_isEnding {kind : Kind} (isEnding : kind.isEnding) :
    kind.same .identifier = false := by
  cases kind <;> first | rfl | cases isEnding

theorem ready_start (firstId : Nat) {tokens : List Token} (named : Named names tokens) :
    Ready names firstId [] (State.start firstId tokens) := by
  refine ⟨Nat.le_refl _, ⟨List.nodup_nil, by simp⟩, ?_, ?_⟩
  · exact fun token member => named token ((List.takeWhile_sublist _).subset member)
  · rw [State.start]
    cases found : tokens.find? (·.kind.isEnding) with
    | none => rfl
    | some ending =>
      have isEnding := List.find?_some found
      exact Kind.same_identifier_of_isEnding isEnding

/--
Whatever is wrong with a program: its statements are proper, its ids are distinct
and new, and the ids behind it are greater.
-/
theorem parse_builds (firstId : Nat) (tokens : List Token) (named : Named names tokens) :
    Stmt.AreProper names (parse firstId tokens).statements ∧
      firstId ≤ (parse firstId tokens).nextId ∧
      Within firstId (parse firstId tokens).nextId (Stmt.idsAll (parse firstId tokens).statements) := by
  have builds := builds_declarations names
    (depthPerToken * ((State.start firstId tokens).rest.length + 1)) firstId [] _
    (ready_start names firstId named)
  rw [Rule.Ends] at builds
  rw [parse]
  cases read : declarations (depthPerToken * ((State.start firstId tokens).rest.length + 1))
      (State.start firstId tokens) with
  | ok statements after =>
    rw [read] at builds
    obtain ⟨ready, proper⟩ := builds
    exact ⟨proper, ready.start, ready.within⟩
  | error stop after =>
    rw [read] at builds
    exact ⟨trivial, builds.start, builds.within⟩

end

end Lox.Grammar
