import Lox.Proofs.Scope.Entries

/-!
# The order of tables does not matter

The walk with tables finds what the walk finds, in whatever order the entries of tables are
enumerated: the same errors and the same places, both in the same order.  The unused variables of a
scope are reported in the order of their declarations.  The main statement is `resolve_enumerated`.
-/

namespace Lox

/-- Whether an error is about a variable that is never used. -/
def BindingError.isNeverUsed (error : BindingError) : Bool :=
  match error.fault with
  | .neverUsed _ => true
  | _ => false

/-! ## Finding names in tables -/

namespace TableScope

variable {tables : List TableScope} {scopes : List Scope}

/-- A name is found in the same place. -/
theorem locate?_eq (all : List.Forall₂ Matches tables scopes) (name : String) :
    locate? name tables = Lox.locate? name (scopes.map Scope.names) := by
  induction all with
  | nil => rfl
  | @cons table scope _ _ same _ induction =>
    rw [locate?, List.map_cons, Lox.locate?, same.entries, induction, Scope.lookup?]
    cases found : latest? name scope.names with
    | none => rfl
    | some slot =>
      obtain ⟨declaration, here, -⟩ := Scope.getElem?_of_latest? found
      simp [here, Declaration.entry]

/-- Marking the variable that is found as read. -/
theorem matches_modify (all : List.Forall₂ Matches tables scopes) {name : String}
    {address : Address} (found : Lox.locate? name (scopes.map Scope.names) = some address) :
    List.Forall₂ Matches (tables.modify address.depth (.markRead name))
      (scopes.modify address.depth (·.markRead address.slot)) := by
  induction all generalizing address with
  | nil => cases found
  | @cons table scope _ _ same others induction =>
    rw [List.map_cons, Lox.locate?] at found
    split at found
    · next slot here =>
      cases found
      exact .cons (same.markRead here) others
    · obtain ⟨outer, foundOuter, rfl⟩ := Option.map_eq_some_iff.mp found
      exact .cons same (induction foundOuter)

end TableScope

/-! ## Steps of the walks -/

/-- Closing a scope reports its unused variables one after the other. -/
theorem Walk.closeScope_cons (scope : Scope) (outer : List Scope) (errors : Array BindingError)
    (bindings : Array Binding) :
    Walk.closeScope ⟨scope :: outer, errors, bindings⟩ =
      ⟨outer, errors ++ (scope.unread.map fun declaration =>
        (⟨declaration.line, .neverUsed declaration.name⟩ : BindingError)).toArray, bindings⟩ := by
  have reports : ∀ (declarations : List Declaration) (errors : Array BindingError),
      declarations.foldl (fun walk declaration =>
        walk.report declaration.line (.neverUsed declaration.name)) (⟨outer, errors, bindings⟩ : Walk) =
        ⟨outer, errors ++ (declarations.map fun declaration =>
          (⟨declaration.line, .neverUsed declaration.name⟩ : BindingError)).toArray, bindings⟩ := by
    intro declarations
    induction declarations with
    | nil => simp
    | cons first others induction =>
      intro errors
      rw [List.foldl_cons, Walk.report, induction]
      simp
  exact reports scope.unread errors

namespace TableWalk

/--
The walk with tables has found what the walk has found.  What was reported of unused variables was
reported when scopes were closed, in the order of their declarations.
-/
structure Agrees (tables : TableWalk) (walk : Walk) : Prop where
  scopes : List.Forall₂ TableScope.Matches tables.scopes walk.scopes
  errors : tables.errors = walk.errors.toList
  bindings : tables.bindings = walk.bindings.toList
  closings : ∀ closing ∈ tables.closings, closing.InOrder
  unused : tables.errors.filter BindingError.isNeverUsed = tables.closings.flatMap Closing.errors

theorem agrees_start : start.Agrees .start :=
  ⟨.nil, rfl, rfl, fun _ impossible => (by cases impossible), rfl⟩

namespace Agrees

variable {tables : TableWalk} {walk : Walk} (agrees : tables.Agrees walk)
include agrees

/-- Only the open scopes change. -/
theorem withScopes {open_ : List TableScope} {scopes : List Scope}
    (all : List.Forall₂ TableScope.Matches open_ scopes) :
    Agrees { tables with scopes := open_ } { walk with scopes := scopes } :=
  ⟨all, agrees.errors, agrees.bindings, agrees.closings, agrees.unused⟩

/-- A fault is reported that is not about an unused variable. -/
theorem report (line : Nat) {fault : BindingFault}
    (isOther : BindingError.isNeverUsed ⟨line, fault⟩ = false) :
    (tables.report line fault).Agrees (walk.report line fault) := by
  constructor
  · exact agrees.scopes
  · simp [TableWalk.report, Walk.report, agrees.errors]
  · exact agrees.bindings
  · exact agrees.closings
  · simp [TableWalk.report, List.filter_append, isOther, agrees.unused]

/-- A fault is reported under the same condition. -/
theorem reportIf {condition condition' : Prop} [Decidable condition] [Decidable condition']
    (same : condition ↔ condition') (line : Nat) {fault : BindingFault}
    (isOther : BindingError.isNeverUsed ⟨line, fault⟩ = false) :
    (if condition then tables.report line fault else tables).Agrees
      (if condition' then walk.report line fault else walk) := by
  by_cases holds : condition
  · rw [if_pos holds, if_pos (same.mp holds)]
    exact agrees.report line isOther
  · rw [if_neg holds, if_neg (holds ∘ same.mpr)]
    exact agrees

theorem openScope : tables.openScope.Agrees walk.openScope :=
  agrees.withScopes (.cons .empty agrees.scopes)

theorem define (name : Name) : (tables.define name).Agrees (walk.define name) := by
  rcases tables with ⟨_ | ⟨table, inner⟩, errors, bindings, closings⟩
  · rcases walk with ⟨_ | ⟨scope, outer⟩, errors', bindings'⟩
    · exact agrees
    · cases agrees.scopes
  · rcases walk with ⟨_ | ⟨scope, outer⟩, errors', bindings'⟩
    · cases agrees.scopes
    · cases agrees.scopes with
      | cons same others => exact agrees.withScopes (.cons (same.define name.text) others)

/--
A name is declared, and its variable is changed as long as nothing else has happened: it is a
declaration that is complete or read from the beginning.
-/
theorem declare (name : Name) {finish : TableScope → TableScope} {defined read : Bool}
    (finishes : ∀ table scope, TableScope.Matches table scope →
      (finish (table.insert name false false)).Matches
        (scope ++ [⟨name.text, name.line, defined, read⟩])) :
    ((tables.declare name).change finish).Agrees (walk.declare name defined read) := by
  rcases tables with ⟨_ | ⟨table, inner⟩, errors, bindings, closings⟩
  · rcases walk with ⟨_ | ⟨scope, outer⟩, errors', bindings'⟩
    · exact agrees
    · cases agrees.scopes
  · rcases walk with ⟨_ | ⟨scope, outer⟩, errors', bindings'⟩
    · cases agrees.scopes
    · cases agrees.scopes with
      | cons same others =>
        have declared := agrees.withScopes (.cons (finishes table scope same) others)
        have known := same.contains name.text
        cases isDuplicate : scope.any (·.name == name.text) with
        | true =>
          rw [isDuplicate] at known
          simp only [Walk.declare, TableWalk.declare, known, isDuplicate, if_true]
          exact declared.report name.line rfl
        | false =>
          rw [isDuplicate] at known
          simp only [Walk.declare, TableWalk.declare, known, isDuplicate, Bool.false_eq_true,
            if_false]
          exact declared

end Agrees

/-! ## What changes a variable at its declaration -/

theorem change_id (walk : TableWalk) : walk.change id = walk := by
  rcases walk with ⟨_ | ⟨scope, outer⟩, errors, bindings, closings⟩ <;> rfl

theorem change_change (first second : TableScope → TableScope) (walk : TableWalk) :
    (walk.change first).change second = walk.change (second ∘ first) := by
  rcases walk with ⟨_ | ⟨scope, outer⟩, errors, bindings, closings⟩ <;> rfl

/-- A change of the variable that is declared last. -/
theorem modify_length_append (scope : Scope) (declaration : Declaration)
    (change : Declaration → Declaration) :
    (scope ++ [declaration]).modify scope.length change = scope ++ [change declaration] := by
  induction scope with
  | nil => rfl
  | cons first later induction => exact congrArg (first :: ·) induction

/-- The name that is declared last means the variable that is declared last. -/
theorem latest?_names_append (scope : Scope) (declaration : Declaration) :
    latest? declaration.name (Scope.names (scope ++ [declaration])) = some scope.length := by
  rw [Scope.names, List.map_append, List.map_cons, List.map_nil, latest?_append, if_pos rfl,
    List.length_map]

/-- A declaration that is completed at once. -/
theorem matches_define_insert (name : Name) {table : TableScope} {scope : Scope}
    (same : table.Matches scope) :
    ((table.insert name false false).define name.text).Matches
      (scope ++ [⟨name.text, name.line, true, false⟩]) := by
  have completed := (same.insert name false false).define name.text
  have latest := latest?_names_append scope ⟨name.text, name.line, false, false⟩
  rw [Scope.define, latest] at completed
  simpa [modify_length_append] using completed

/-- The variable that is declared last is read. -/
theorem matches_markRead_append (name : Name) {table : TableScope} {scope : Scope}
    (same : table.Matches (scope ++ [⟨name.text, name.line, true, false⟩])) :
    (table.markRead name.text).Matches (scope ++ [⟨name.text, name.line, true, true⟩]) := by
  have latest := latest?_names_append scope ⟨name.text, name.line, true, false⟩
  have marked := same.markRead latest
  simpa [Scope.markRead, modify_length_append] using marked

namespace Agrees

variable {tables : TableWalk} {walk : Walk} (agrees : tables.Agrees walk)
include agrees

theorem declarePending (name : Name) :
    (tables.declare name).Agrees (walk.declare name false false) := by
  rw [← change_id (tables.declare name)]
  exact agrees.declare name fun _ _ same => same.insert name false false

theorem declareDefined (name : Name) :
    ((tables.declare name).define name).Agrees (walk.declare name true false) :=
  agrees.declare name fun _ _ same => matches_define_insert name same

theorem declareParameter (name : Name) :
    (((tables.declare name).define name).markRead name).Agrees (walk.declare name true true) := by
  rw [TableWalk.markRead, TableWalk.define, change_change]
  exact agrees.declare name fun _ _ same =>
    matches_markRead_append name (matches_define_insert name same)

theorem openImplicit (name : String) (line : Nat) :
    (tables.openImplicit name line).Agrees (walk.openImplicit name line) :=
  agrees.withScopes (.cons (.insert .empty ⟨name, line⟩ true true) agrees.scopes)

theorem openParameters (parameters : List Name) :
    (tables.openParameters parameters).Agrees (walk.openParameters parameters) := by
  have declares : ∀ {tables : TableWalk} {walk : Walk}, tables.Agrees walk →
      (parameters.foldl (fun walk parameter =>
        ((walk.declare parameter).define parameter).markRead parameter) tables).Agrees
        (parameters.foldl (fun walk parameter => walk.declare parameter true true) walk) := by
    induction parameters with
    | nil => exact id
    | cons first others induction =>
      intro tables walk agrees
      exact induction (agrees.declareParameter first)
  exact declares agrees.openScope

theorem refer (id : Nat) (name : String) :
    (tables.refer id name).Agrees (walk.refer id name) := by
  rw [TableWalk.refer, Walk.refer, TableScope.locate?_eq agrees.scopes]
  cases found : locate? name (walk.scopes.map Scope.names) with
  | none => exact agrees
  | some address =>
    have marked := agrees.withScopes (TableScope.matches_modify agrees.scopes found)
    constructor
    · exact marked.scopes
    · exact marked.errors
    · simp [agrees.bindings]
    · exact marked.closings
    · exact marked.unused

theorem read (target : Reference) : (tables.read target).Agrees (walk.read target) := by
  rcases tables with ⟨_ | ⟨table, inner⟩, errors, bindings, closings⟩
  · rcases walk with ⟨_ | ⟨scope, outer⟩, errors', bindings'⟩
    · exact agrees.refer target.id target.name.text
    · cases agrees.scopes
  · rcases walk with ⟨_ | ⟨scope, outer⟩, errors', bindings'⟩
    · cases agrees.scopes
    · cases agrees.scopes with
      | cons same _ =>
        have pending := Iff.of_eq (congrArg (· = true) (same.isPending target.name.text))
        exact (agrees.reportIf pending target.name.line rfl).refer target.id target.name.text

theorem readImplicit {fault? : Option BindingFault}
    (isOther : ∀ fault ∈ fault?, ∀ line, BindingError.isNeverUsed ⟨line, fault⟩ = false)
    (id line : Nat) (name : String) :
    (tables.readImplicit fault? id line name).Agrees (walk.readImplicit fault? id line name) := by
  cases fault? with
  | some fault => exact agrees.report line (isOther fault rfl line)
  | none => exact agrees.refer id name

theorem superclass (name : Name) (target : Reference) :
    (tables.superclass name target).Agrees (walk.superclass name target) :=
  (agrees.reportIf .rfl target.name.line rfl).read target

theorem returns (context : Context) (line : Nat) :
    (tables.returns context line).Agrees (walk.returns context line) :=
  agrees.reportIf .rfl line rfl

/-- Closing a scope reports the same in whatever order its table is enumerated. -/
theorem closeScope (order : Enumeration) : (tables.closeScope order).Agrees walk.closeScope := by
  rcases tables with ⟨_ | ⟨table, inner⟩, errors, bindings, closings⟩
  · rcases walk with ⟨_ | ⟨scope, outer⟩, errors', bindings'⟩
    · exact agrees
    · cases agrees.scopes
  · rcases walk with ⟨_ | ⟨scope, outer⟩, errors', bindings'⟩
    · cases agrees.scopes
    · cases agrees.scopes with
      | cons same others =>
        rw [Walk.closeScope_cons, TableWalk.closeScope]
        dsimp only
        have reported := same.errors_unread order closings.length
        have before : errors = errors'.toList := agrees.errors
        constructor
        · exact others
        · simp [before, reported]
        · exact agrees.bindings
        · intro closing member
          rcases List.mem_append.mp member with before | isNew
          · exact agrees.closings closing before
          · rw [List.mem_singleton.mp isNew]
            exact same.inOrder order closings.length
        · have all : ((TableScope.unread (order.arrange closings.length
              table.entries.toList)).map Entry.neverUsed).filter BindingError.isNeverUsed =
              (TableScope.unread (order.arrange closings.length
                table.entries.toList)).map Entry.neverUsed := by
            apply List.filter_eq_self.mpr
            intro error member
            obtain ⟨entry, -, rfl⟩ := List.mem_map.mp member
            rfl
          rw [List.filter_append, all, List.flatMap_append, agrees.unused]
          simp

end Agrees

/-! ## Visits -/

/-- What is wrong with `this` has nothing to do with unused variables. -/
theorem isNeverUsed_thisFault? (context : Context) :
    ∀ fault ∈ context.thisFault?, ∀ line, BindingError.isNeverUsed ⟨line, fault⟩ = false := by
  intro fault member line
  rw [Context.thisFault?] at member
  split at member <;> cases member <;> rfl

theorem isNeverUsed_superFault? (context : Context) :
    ∀ fault ∈ context.superFault?, ∀ line, BindingError.isNeverUsed ⟨line, fault⟩ = false := by
  intro fault member line
  rw [Context.superFault?] at member
  split at member <;> cases member <;> rfl

variable (order : Enumeration)

mutual

theorem agrees_expression (context : Context) {tables : TableWalk} {walk : Walk}
    (agrees : tables.Agrees walk) : ∀ value : Expr,
      (tables.expression order context value).Agrees (walk.expression context value)
  | .literal _ => by
    simp only [expression, Walk.expression]
    exact agrees
  | .group inner => by
    simp only [expression, Walk.expression]
    exact agrees_expression context agrees inner
  | .unary _ _ operand => by
    simp only [expression, Walk.expression]
    exact agrees_expression context agrees operand
  | .binary _ _ left right => by
    simp only [expression, Walk.expression]
    exact agrees_expression context (agrees_expression context agrees left) right
  | .logical _ _ left right => by
    simp only [expression, Walk.expression]
    exact agrees_expression context (agrees_expression context agrees left) right
  | .read target => by
    simp only [expression, Walk.expression]
    exact agrees.read target
  | .assign target value => by
    simp only [expression, Walk.expression]
    exact (agrees_expression context agrees value).refer target.id target.name.text
  | .call callee _ arguments => by
    simp only [expression, Walk.expression]
    exact agrees_expressions context (agrees_expression context agrees callee) arguments
  | .function definition => by
    simp only [expression, Walk.expression]
    exact agrees_function _ agrees definition
  | .get object _ => by
    simp only [expression, Walk.expression]
    exact agrees_expression context agrees object
  | .set object _ value => by
    simp only [expression, Walk.expression]
    exact agrees_expression context (agrees_expression context agrees object) value
  | .this id line => by
    simp only [expression, Walk.expression]
    exact agrees.readImplicit (isNeverUsed_thisFault? context) id line "this"
  | .super id line _ => by
    simp only [expression, Walk.expression]
    exact agrees.readImplicit (isNeverUsed_superFault? context) id line "super"

theorem agrees_expressions (context : Context) {tables : TableWalk} {walk : Walk}
    (agrees : tables.Agrees walk) : ∀ values : List Expr,
      (tables.expressions order context values).Agrees (walk.expressions context values)
  | [] => by
    simp only [expressions, Walk.expressions]
    exact agrees
  | value :: values => by
    simp only [expressions, Walk.expressions]
    exact agrees_expressions context (agrees_expression context agrees value) values

theorem agrees_function (context : Context) {tables : TableWalk} {walk : Walk}
    (agrees : tables.Agrees walk) : ∀ definition : Function,
      (tables.function order context definition).Agrees (walk.function context definition)
  | .mk parameters body => by
    simp only [function, Walk.function]
    have opened := (agrees.openParameters parameters).openScope
    exact ((agrees_statements context opened body).closeScope order).closeScope order

theorem agrees_methods (context : Context) {tables : TableWalk} {walk : Walk}
    (agrees : tables.Agrees walk) : ∀ methods : List NamedFunction,
      (tables.methods order context methods).Agrees (walk.methods context methods)
  | [] => by
    simp only [methods, Walk.methods]
    exact agrees
  | .mk name definition :: others => by
    simp only [methods, Walk.methods]
    exact agrees_methods context (agrees_function _ agrees definition) others

theorem agrees_statement (context : Context) {tables : TableWalk} {walk : Walk}
    (agrees : tables.Agrees walk) : ∀ statement : Stmt,
      (tables.statement order context statement).Agrees (walk.statement context statement)
  | .expression value => by
    simp only [statement, Walk.statement]
    exact agrees_expression context agrees value
  | .print value => by
    simp only [statement, Walk.statement]
    exact agrees_expression context agrees value
  | .varDecl name none => by
    simp only [statement, Walk.statement]
    exact (agrees.declarePending name).define name
  | .varDecl name (some initial) => by
    simp only [statement, Walk.statement]
    exact (agrees_expression context (agrees.declarePending name) initial).define name
  | .block body => by
    simp only [statement, Walk.statement]
    exact (agrees_statements context agrees.openScope body).closeScope order
  | .ifElse condition whenTrue none => by
    simp only [statement, Walk.statement]
    exact agrees_statement context (agrees_expression context agrees condition) whenTrue
  | .ifElse condition whenTrue (some whenFalse) => by
    simp only [statement, Walk.statement]
    have first := agrees_expression context agrees condition
    exact agrees_statement context (agrees_statement context first whenTrue) whenFalse
  | .whileLoop condition body => by
    simp only [statement, Walk.statement]
    exact agrees_statement context (agrees_expression context agrees condition) body
  | .breakLoop _ => by
    simp only [statement, Walk.statement]
    exact agrees
  | .funDecl (.mk name definition) => by
    simp only [statement, Walk.statement]
    exact agrees_function _ (agrees.declareDefined name) definition
  | .returnValue line none => by
    simp only [statement, Walk.statement]
    exact agrees.returns context line
  | .returnValue line (some value) => by
    simp only [statement, Walk.statement]
    exact agrees_expression context ((agrees.returns context line).reportIf .rfl line rfl) value
  | .classDecl name none instanceMethods classMethods => by
    simp only [statement, Walk.statement]
    have inClass := agrees_methods ⟨context.function, .plain, true⟩ (agrees.declareDefined name)
      classMethods
    exact (agrees_methods _ (inClass.openImplicit "this" name.line) instanceMethods).closeScope order
  | .classDecl name (some target) instanceMethods classMethods => by
    simp only [statement, Walk.statement]
    have extending := (agrees.declareDefined name).superclass name target
    have inClass := agrees_methods ⟨context.function, .subclass, true⟩
      (extending.openImplicit "super" name.line) classMethods
    have inInstance := inClass.openImplicit "this" name.line
    exact ((agrees_methods _ inInstance instanceMethods).closeScope order).closeScope order

theorem agrees_statements (context : Context) {tables : TableWalk} {walk : Walk}
    (agrees : tables.Agrees walk) : ∀ statements : List Stmt,
      (tables.statements order context statements).Agrees (walk.statements context statements)
  | [] => by
    simp only [statements, Walk.statements]
    exact agrees
  | first :: others => by
    simp only [statements, Walk.statements]
    exact agrees_statements context (agrees_statement context agrees first) others

end

end TableWalk

/--
In whatever order the entries of tables are enumerated, a program has the same errors in the same
order, and the same places are recorded in the same order: those that the walk finds.  The unused
variables of each scope are reported when it is closed, in the order of their declarations, and at
no other time.
-/
theorem resolve_enumerated (first second : Enumeration) (program : List Stmt) :
    (first.resolve program).errors = (second.resolve program).errors ∧
      (first.resolve program).bindings = (second.resolve program).bindings ∧
      (first.resolve program).errors = (resolve program).errors ∧
      (first.resolve program).bindings = (resolve program).bindings ∧
      (first.resolve program).errors.filter BindingError.isNeverUsed =
        (first.resolve program).closings.flatMap Closing.errors ∧
      ∀ closing ∈ (first.resolve program).closings, closing.InOrder := by
  have agrees := TableWalk.agrees_statements first .program TableWalk.agrees_start program
  have agrees' := TableWalk.agrees_statements second .program TableWalk.agrees_start program
  refine ⟨?_, ?_, agrees.errors, agrees.bindings, agrees.unused, agrees.closings⟩
  · exact agrees.errors.trans agrees'.errors.symm
  · exact agrees.bindings.trans agrees'.bindings.symm

end Lox
