import Lox.Proofs.Scope.Enumeration
import Mathlib.Data.List.Forall2

/-!
# Balanced visits

A visit closes each scope that it opens, and of the scopes that are open around it it changes
little: it declares names in the innermost one, and it may read variables of all of them.  What it
finds is put behind what was found before and does not depend on that.  Both together are
`Walk.Balanced`; visits one after the other are balanced if they are, and so is a visit in a scope
of its own.

So the walk is back at its start between two statements of a program, apart from what it has found
(`Walk.statements_append_start`).
-/

namespace Lox

/-- Relations between elements are composed to one between lists. -/
theorem forall₂_comp {α β γ : Type} {first : α → β → Prop} {second : β → γ → Prop}
    {related : α → γ → Prop}
    (joins : ∀ left middle right, first left middle → second middle right → related left right)
    {lefts : List α} {middles : List β} {rights : List γ} (here : List.Forall₂ first lefts middles)
    (there : List.Forall₂ second middles rights) : List.Forall₂ related lefts rights := by
  induction here generalizing rights with
  | nil =>
    cases there
    exact .nil
  | cons here _ induction =>
    cases there with
    | cons there others => exact .cons (joins _ _ _ here there) (induction others)

/-- Changing related elements in one place of two lists. -/
theorem forall₂_modify_modify {α β : Type} {related : α → β → Prop} {lefts : List α}
    {rights : List β} (all : List.Forall₂ related lefts rights) (index : Nat) {change : α → α}
    {change' : β → β}
    (keeps : ∀ left right, related left right → related (change left) (change' right)) :
    List.Forall₂ related (lefts.modify index change) (rights.modify index change') := by
  induction all generalizing index with
  | nil =>
    rw [List.modify_nil, List.modify_nil]
    exact .nil
  | cons first others induction =>
    cases index with
    | zero =>
      rw [List.modify_zero_cons, List.modify_zero_cons]
      exact .cons (keeps _ _ first) others
    | succ index =>
      rw [List.modify_succ_cons, List.modify_succ_cons]
      exact .cons first (induction index)

/-! ## What is kept of scopes -/

/-- A declaration is what it was before, but its variable may have been read. -/
structure Declaration.Keeps (before after : Declaration) : Prop where
  name : after.name = before.name
  line : after.line = before.line
  defined : after.defined = before.defined
  read : before.read → after.read

namespace Declaration.Keeps

variable {before middle after : Declaration}

theorem refl (declaration : Declaration) : declaration.Keeps declaration :=
  ⟨rfl, rfl, rfl, id⟩

theorem trans (first : before.Keeps middle) (second : middle.Keeps after) : before.Keeps after where
  name := second.name.trans first.name
  line := second.line.trans first.line
  defined := second.defined.trans first.defined
  read isRead := second.read (first.read isRead)

end Declaration.Keeps

/-- The declarations of a scope are what they were before, but variables may have been read. -/
def Scope.Keeps (before after : Scope) : Prop :=
  List.Forall₂ Declaration.Keeps before after

namespace Scope.Keeps

variable {before middle after : Scope}

theorem refl (scope : Scope) : scope.Keeps scope :=
  List.forall₂_same.mpr fun declaration _ => .refl declaration

theorem trans (first : before.Keeps middle) (second : middle.Keeps after) : before.Keeps after := by
  refine forall₂_comp ?_ first second
  intro _ _ _ here there
  exact here.trans there

theorem names_eq (keeps : before.Keeps after) : after.names = before.names := by
  induction keeps with
  | nil => rfl
  | cons first _ induction => exact congrArg₂ List.cons first.name induction

theorem append (keeps : before.Keeps after) (declarations : List Declaration) :
    Keeps (before ++ declarations) (after ++ declarations) :=
  List.rel_append keeps (refl declarations)

theorem markRead (keeps : before.Keeps after) (slot : Nat) :
    before.Keeps (after.markRead slot) := by
  apply List.Forall₂.flip
  apply forall₂_modify keeps.flip
  intro later earlier same
  exact ⟨same.name, same.line, same.defined, fun _ => rfl⟩

theorem define (keeps : before.Keeps after) (name : String) :
    (before.define name).Keeps (after.define name) := by
  rw [Scope.define, Scope.define, keeps.names_eq]
  split
  · apply forall₂_modify_modify keeps
    intro earlier later same
    exact ⟨same.name, same.line, rfl, same.read⟩
  · exact keeps

end Scope.Keeps

theorem Scope.forall₂_keeps_refl (scopes : List Scope) :
    List.Forall₂ Scope.Keeps scopes scopes :=
  List.forall₂_same.mpr fun scope _ => .refl scope

/-- Declaring the same in the innermost of scopes that are kept. -/
theorem Scope.keeps_modifyHead {before after : List Scope}
    (all : List.Forall₂ Scope.Keeps before after) (declarations : List Declaration) :
    List.Forall₂ Scope.Keeps (before.modifyHead (· ++ declarations))
      (after.modifyHead (· ++ declarations)) := by
  cases all with
  | nil => exact .nil
  | cons innermost outer => exact .cons (innermost.append declarations) outer

theorem Scope.modifyHead_append_nil (scopes : List Scope) :
    scopes.modifyHead (· ++ []) = scopes := by
  cases scopes with
  | nil => rfl
  | cons innermost outer => rw [List.modifyHead_cons, List.append_nil]

/-- Completing the declaration that was made last. -/
theorem Scope.define_append (scope : Scope) (name : Name) (read : Bool) :
    Scope.define name.text (scope ++ [⟨name.text, name.line, false, read⟩]) =
      scope ++ [⟨name.text, name.line, true, read⟩] := by
  have latest := TableWalk.latest?_names_append scope ⟨name.text, name.line, false, read⟩
  rw [define, latest]
  exact TableWalk.modify_length_append scope _ _

namespace Walk

/-! ## What is found later -/

/-- The same walk, but what was found earlier stands before what it has found. -/
def behind (walk earlier : Walk) : Walk where
  scopes := walk.scopes
  errors := earlier.errors ++ walk.errors
  bindings := earlier.bindings ++ walk.bindings

theorem report_behind (line : Nat) (fault : BindingFault) (walk earlier : Walk) :
    (walk.behind earlier).report line fault = (walk.report line fault).behind earlier := by
  rw [report, behind, Array.push_append]
  rfl

theorem closeScope_behind (walk earlier : Walk) :
    (walk.behind earlier).closeScope = walk.closeScope.behind earlier := by
  rcases walk with ⟨_ | ⟨scope, outer⟩, errors, bindings⟩
  · rfl
  · rw [behind, closeScope_cons, closeScope_cons, Array.append_assoc]
    rfl

theorem declare_behind (name : Name) (defined read : Bool) (walk earlier : Walk) :
    (walk.behind earlier).declare name defined read =
      (walk.declare name defined read).behind earlier := by
  rcases walk with ⟨_ | ⟨scope, outer⟩, errors, bindings⟩
  · rfl
  · simp only [declare, behind]
    split
    · exact report_behind _ _ ⟨_, errors, bindings⟩ earlier
    · rfl

theorem define_behind (name : Name) (walk earlier : Walk) :
    (walk.behind earlier).define name = (walk.define name).behind earlier := by
  rcases walk with ⟨_ | ⟨scope, outer⟩, errors, bindings⟩ <;> rfl

theorem refer_behind (id : Nat) (name : String) (walk earlier : Walk) :
    (walk.behind earlier).refer id name = (walk.refer id name).behind earlier := by
  simp only [refer, behind]
  split
  · rfl
  · simp only [Array.push_append]

/-! ## Balanced visits -/

/--
A visit makes these declarations in the innermost scope, if one is open, and keeps all other
declarations in the open scopes, as many as there are.  What was found before stays before what it
finds, which does not depend on it.
-/
structure Balanced (declarations : List Declaration) (visit : Walk → Walk) : Prop where
  scopes : ∀ walk, List.Forall₂ Scope.Keeps (walk.scopes.modifyHead (· ++ declarations))
    (visit walk).scopes
  behind : ∀ walk earlier, visit (walk.behind earlier) = (visit walk).behind earlier

namespace Balanced

variable {declarations declarations' : List Declaration} {visit visit' : Walk → Walk}

/-- Nothing is declared. -/
theorem of_keeps (keeps : ∀ walk, List.Forall₂ Scope.Keeps walk.scopes (visit walk).scopes)
    (behind : ∀ walk earlier, visit (walk.behind earlier) = (visit walk).behind earlier) :
    Balanced [] visit where
  scopes walk := by
    rw [Scope.modifyHead_append_nil]
    exact keeps walk
  behind := behind

/-- As many scopes are open as before. -/
theorem length_eq (balanced : Balanced declarations visit) (walk : Walk) :
    (visit walk).scopes.length = walk.scopes.length := by
  rw [← (balanced.scopes walk).length_eq, List.length_modifyHead]

/-- The scope that is opened before a visit is open after it. -/
theorem ne_nil (balanced : Balanced declarations visit) (walk : Walk) :
    (visit walk.openScope).scopes ≠ [] := by
  apply List.ne_nil_of_length_pos
  rw [balanced.length_eq]
  exact Nat.succ_pos _

/-- Nothing happens to the scopes. -/
theorem of_scopes_eq (same : ∀ walk, (visit walk).scopes = walk.scopes)
    (behind : ∀ walk earlier, visit (walk.behind earlier) = (visit walk).behind earlier) :
    Balanced [] visit := by
  refine of_keeps (fun walk => ?_) behind
  rw [same]
  exact Scope.forall₂_keeps_refl walk.scopes

theorem refl : Balanced [] fun walk => walk :=
  of_scopes_eq (fun _ => rfl) fun _ _ => rfl

/-- One visit after the other. -/
theorem trans (first : Balanced declarations visit) (second : Balanced declarations' visit') :
    Balanced (declarations ++ declarations') fun walk => visit' (visit walk) where
  scopes walk := by
    have added := Scope.keeps_modifyHead (first.scopes walk) declarations'
    rw [List.modifyHead_modifyHead] at added
    simp only [Function.comp_def, List.append_assoc] at added
    refine forall₂_comp ?_ added (second.scopes (visit walk))
    intro _ _ _ here there
    exact here.trans there
  behind walk earlier := by
    rw [first.behind, second.behind]

/-- A visit in a scope of its own; what it declares there is gone afterwards. -/
theorem enclosed (inner : Balanced declarations visit) :
    Balanced [] fun walk => (visit walk.openScope).closeScope := by
  refine of_keeps (fun walk => ?_) (fun walk earlier => ?_)
  · have all := inner.scopes walk.openScope
    revert all
    generalize visit walk.openScope = visited
    intro all
    rcases visited with ⟨_ | ⟨scope, outer⟩, errors, bindings⟩
    · cases all
    · cases all with
      | cons _ kept =>
        rw [closeScope_cons]
        exact kept
  · have opened : (walk.behind earlier).openScope = walk.openScope.behind earlier := rfl
    rw [opened, inner.behind, closeScope_behind]

end Balanced

/-! ## Steps -/

theorem balanced_report (line : Nat) (fault : BindingFault) :
    Balanced [] fun walk => walk.report line fault :=
  .of_scopes_eq (fun _ => rfl) (report_behind line fault)

/-- A fault is reported under a condition on the open scopes. -/
theorem balanced_reportIf (condition : List Scope → Prop) [DecidablePred condition] (line : Nat)
    (fault : BindingFault) :
    Balanced [] fun walk => if condition walk.scopes then walk.report line fault else walk := by
  refine .of_scopes_eq (fun walk => ?_) (fun walk earlier => ?_)
  · split <;> rfl
  · have same : (walk.behind earlier).scopes = walk.scopes := rfl
    rw [same]
    split
    · exact report_behind line fault walk earlier
    · rfl

theorem balanced_declare (name : Name) (defined read : Bool) :
    Balanced [⟨name.text, name.line, defined, read⟩]
      fun walk => walk.declare name defined read where
  scopes walk := by
    rcases walk with ⟨_ | ⟨scope, outer⟩, errors, bindings⟩
    · exact .nil
    · simp only [declare]
      split <;> exact Scope.forall₂_keeps_refl _
  behind := declare_behind name defined read

/-- Several names are declared one after the other. -/
theorem balanced_declareAll (names : List Name) :
    Balanced (names.map fun name => ⟨name.text, name.line, true, true⟩)
      fun walk => names.foldl (fun walk name => walk.declare name true true) walk := by
  induction names with
  | nil => exact .refl
  | cons first others induction => exact (balanced_declare first true true).trans induction

/-- A variable is declared before its initial value is visited, and complete afterwards. -/
theorem Balanced.initialises {visit : Walk → Walk} (value : Balanced [] visit) (name : Name) :
    Balanced [⟨name.text, name.line, true, false⟩]
      fun walk => (visit (walk.declare name false false)).define name where
  scopes walk := by
    have all := ((balanced_declare name false false).trans value).scopes walk
    revert all
    generalize visit (walk.declare name false false) = visited
    intro all
    rcases walk with ⟨_ | ⟨scope, outer⟩, errors, bindings⟩
    · rcases visited with ⟨_ | ⟨scope', outer'⟩, errors', bindings'⟩
      · exact .nil
      · cases all
    · rcases visited with ⟨_ | ⟨scope', outer'⟩, errors', bindings'⟩
      · cases all
      · cases all with
        | cons innermost kept =>
          -- The value has declared nothing here, so the last declaration is still that of the name.
          have defined := innermost.define name.text
          rw [List.append_nil, Scope.define_append] at defined
          exact .cons defined kept
  behind walk earlier := by
    rw [declare_behind, value.behind, define_behind]

/-- A use of a variable only marks it as read. -/
theorem balanced_refer (id : Nat) (name : String) :
    Balanced [] fun walk => walk.refer id name := by
  refine .of_keeps (fun walk => ?_) (refer_behind id name)
  have same := Scope.forall₂_keeps_refl walk.scopes
  rw [refer]
  split
  · exact same
  · next address _ =>
    apply List.Forall₂.flip
    apply forall₂_modify same.flip
    intro later earlier keeps
    exact Scope.Keeps.markRead keeps address.slot

theorem balanced_read (target : Reference) : Balanced [] fun walk => walk.read target := by
  have reports := balanced_reportIf
    (fun scopes => scopes.head?.any (·.isPending target.name.text)) target.name.line
    (.readInOwnInitializer target.name.text)
  have reads : (fun walk : Walk => walk.read target) = fun walk =>
      (if walk.scopes.head?.any (·.isPending target.name.text) then
        walk.report target.name.line (.readInOwnInitializer target.name.text)
      else walk).refer target.id target.name.text := by
    funext walk
    rcases walk with ⟨_ | ⟨scope, outer⟩, errors, bindings⟩ <;> rfl
  rw [reads]
  exact reports.trans (balanced_refer target.id target.name.text)

theorem balanced_readImplicit (fault? : Option BindingFault) (id line : Nat) (name : String) :
    Balanced [] fun walk => walk.readImplicit fault? id line name := by
  cases fault? with
  | none => exact balanced_refer id name
  | some fault => exact balanced_report line fault

theorem balanced_superclass (name : Name) (target : Reference) :
    Balanced [] fun walk => walk.superclass name target :=
  (balanced_reportIf (fun _ => target.name.text = name.text) _ _).trans (balanced_read target)

theorem balanced_returns (context : Context) (line : Nat) :
    Balanced [] fun walk => walk.returns context line :=
  balanced_reportIf (fun _ => context.function = .outside) line _

end Walk

/-! ## What statements declare -/

/-- What a local with a name declares; it is complete, and nothing has read it yet. -/
def Local.declaration? : Local → Option Declaration
  | named name => some ⟨name.text, name.line, true, false⟩
  | this => none
  | super => none

namespace Stmt

/-- What a statement declares in the scope around it, outside of the scopes that it opens. -/
def declarations (statement : Stmt) : List Declaration :=
  statement.locals.filterMap Local.declaration?

/-- What statements declare in the scope around them. -/
def declarationsAll (statements : List Stmt) : List Declaration :=
  statements.flatMap declarations

theorem declarations_ifElse (condition : Expr) (whenTrue whenFalse : Stmt) :
    (ifElse condition whenTrue (some whenFalse)).declarations =
      whenTrue.declarations ++ whenFalse.declarations := by
  rw [declarations, locals, List.filterMap_append]
  rfl

end Stmt

/-! ## Visits -/

namespace Walk

mutual

theorem balanced_expression (context : Context) : ∀ value : Expr,
    Balanced [] fun walk => walk.expression context value
  | .literal _ => by
    simp only [expression]
    exact .refl
  | .group inner => by
    simp only [expression]
    exact balanced_expression context inner
  | .unary _ _ operand => by
    simp only [expression]
    exact balanced_expression context operand
  | .binary _ _ left right => by
    simp only [expression]
    exact (balanced_expression context left).trans (balanced_expression context right)
  | .logical _ _ left right => by
    simp only [expression]
    exact (balanced_expression context left).trans (balanced_expression context right)
  | .read target => by
    simp only [expression]
    exact balanced_read target
  | .assign target value => by
    simp only [expression]
    exact (balanced_expression context value).trans (balanced_refer target.id target.name.text)
  | .call callee _ arguments => by
    simp only [expression]
    exact (balanced_expression context callee).trans (balanced_expressions context arguments)
  | .function definition => by
    simp only [expression]
    exact balanced_function _ definition
  | .get object _ => by
    simp only [expression]
    exact balanced_expression context object
  | .set object _ value => by
    simp only [expression]
    exact (balanced_expression context object).trans (balanced_expression context value)
  | .this id line => by
    simp only [expression]
    exact balanced_readImplicit _ id line "this"
  | .super id line _ => by
    simp only [expression]
    exact balanced_readImplicit _ id line "super"

theorem balanced_expressions (context : Context) : ∀ values : List Expr,
    Balanced [] fun walk => walk.expressions context values
  | [] => by
    simp only [expressions]
    exact .refl
  | value :: values => by
    simp only [expressions]
    exact (balanced_expression context value).trans (balanced_expressions context values)

theorem balanced_function (context : Context) : ∀ definition : Function,
    Balanced [] fun walk => walk.function context definition
  | .mk parameters body => by
    simp only [function]
    exact ((balanced_declareAll parameters).trans
      (balanced_statements context body).enclosed).enclosed

theorem balanced_methods (context : Context) : ∀ methods : List NamedFunction,
    Balanced [] fun walk => walk.methods context methods
  | [] => by
    simp only [methods]
    exact .refl
  | .mk name definition :: others => by
    simp only [methods]
    exact (balanced_function _ definition).trans (balanced_methods context others)

theorem balanced_statement (context : Context) : ∀ statement : Stmt,
    Balanced statement.declarations fun walk => walk.statement context statement
  | .expression value => by
    simp only [statement]
    exact balanced_expression context value
  | .print value => by
    simp only [statement]
    exact balanced_expression context value
  | .varDecl name none => by
    simp only [statement]
    exact Balanced.refl.initialises name
  | .varDecl name (some initial) => by
    simp only [statement]
    exact (balanced_expression context initial).initialises name
  | .block body => by
    simp only [statement]
    exact (balanced_statements context body).enclosed
  | .ifElse condition whenTrue none => by
    simp only [statement]
    exact (balanced_expression context condition).trans (balanced_statement context whenTrue)
  | .ifElse condition whenTrue (some whenFalse) => by
    simp only [statement]
    rw [Stmt.declarations_ifElse]
    exact ((balanced_expression context condition).trans
      (balanced_statement context whenTrue)).trans (balanced_statement context whenFalse)
  | .whileLoop condition body => by
    simp only [statement]
    exact (balanced_expression context condition).trans (balanced_statement context body)
  | .breakLoop _ => by
    simp only [statement]
    exact .refl
  | .funDecl (.mk name definition) => by
    simp only [statement]
    exact (balanced_declare name true false).trans (balanced_function _ definition)
  | .returnValue line none => by
    simp only [statement]
    exact balanced_returns context line
  | .returnValue line (some value) => by
    simp only [statement]
    exact ((balanced_returns context line).trans (balanced_reportIf
      (fun _ => context.function = .initializer) line .initializerReturnsValue)).trans
        (balanced_expression context value)
  | .classDecl name none methods classMethods => by
    simp only [statement]
    have members := (balanced_methods ⟨context.function, .plain, true⟩ classMethods).trans
      ((balanced_declare ⟨"this", name.line⟩ true true).trans
        (balanced_methods ⟨context.function, .plain, false⟩ methods)).enclosed
    exact (balanced_declare name true false).trans members
  | .classDecl name (some target) methods classMethods => by
    simp only [statement]
    have members := (balanced_methods ⟨context.function, .subclass, true⟩ classMethods).trans
      ((balanced_declare ⟨"this", name.line⟩ true true).trans
        (balanced_methods ⟨context.function, .subclass, false⟩ methods)).enclosed
    have extending := ((balanced_declare ⟨"super", name.line⟩ true true).trans members).enclosed
    exact ((balanced_declare name true false).trans (balanced_superclass name target)).trans
      extending

theorem balanced_statements (context : Context) : ∀ statements : List Stmt,
    Balanced (Stmt.declarationsAll statements) fun walk => walk.statements context statements
  | [] => by
    simp only [statements]
    exact .refl
  | first :: others => by
    simp only [statements]
    exact (balanced_statement context first).trans (balanced_statements context others)

end

/-! ## What visits add -/

/--
Between two states of the walk these declarations were made in the innermost scope, if one is open.
As many scopes are open as before, with all the declarations that they had, of which only variables
may have been read.  To what was found, something was added.
-/
structure Adds (declarations : List Declaration) (before after : Walk) : Prop where
  length : after.scopes.length = before.scopes.length
  scopes : List.Forall₂ Scope.Keeps (before.scopes.modifyHead (· ++ declarations)) after.scopes
  errors : before.errors.toList <+: after.errors.toList
  bindings : before.bindings.toList <+: after.bindings.toList

/-- A balanced visit adds what it would find if nothing had been found before. -/
theorem Balanced.adds {declarations : List Declaration} {visit : Walk → Walk}
    (balanced : Balanced declarations visit) (walk : Walk) :
    walk.Adds declarations (visit walk) := by
  have itself : Walk.behind ⟨walk.scopes, #[], #[]⟩ walk = walk := by
    rw [Walk.behind, Array.append_empty, Array.append_empty]
  have found := balanced.behind ⟨walk.scopes, #[], #[]⟩ walk
  rw [itself] at found
  constructor
  · exact balanced.length_eq walk
  · exact balanced.scopes walk
  · rw [found, Walk.behind, Array.toList_append]
    exact List.prefix_append _ _
  · rw [found, Walk.behind, Array.toList_append]
    exact List.prefix_append _ _

/-! ## Programs one after the other -/

theorem statements_append (context : Context) (walk : Walk) (first second : List Stmt) :
    walk.statements context (first ++ second) =
      (walk.statements context first).statements context second := by
  induction first generalizing walk with
  | nil =>
    rw [List.nil_append, statements]
  | cons statement others induction =>
    rw [List.cons_append, statements, statements, induction]

/-- Between two statements of a program no scope is open. -/
theorem scopes_statements_start (program : List Stmt) :
    (start.statements .program program).scopes = [] :=
  List.forall₂_nil_left_iff.mp ((balanced_statements .program program).scopes start)

/-- So the walk starts again there, behind what it has found. -/
theorem statements_append_start (first second : List Stmt) :
    start.statements .program (first ++ second) =
      (start.statements .program second).behind (start.statements .program first) := by
  have again : start.statements .program first =
      start.behind (start.statements .program first) := by
    have closed := scopes_statements_start first
    revert closed
    generalize start.statements .program first = walk
    rcases walk with ⟨scopes, errors, bindings⟩
    rintro rfl
    rw [behind, start, Array.append_empty, Array.append_empty]
  rw [statements_append, again, (balanced_statements .program second).behind, ← again]

end Walk

theorem errors_resolve_append (first second : List Stmt) :
    (resolve (first ++ second)).errors = (resolve first).errors ++ (resolve second).errors := by
  rw [resolve, Walk.statements_append_start]
  exact Array.toList_append

theorem bindings_resolve_append (first second : List Stmt) :
    (resolve (first ++ second)).bindings =
      (resolve first).bindings ++ (resolve second).bindings := by
  rw [resolve, Walk.statements_append_start]
  exact Array.toList_append

end Lox
