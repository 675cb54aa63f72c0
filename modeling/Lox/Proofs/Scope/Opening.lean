import Lox.Proofs.Scope.Address
import Lox.Scope.Walk
import Mathlib.Data.List.Forall2

/-!
# The open scopes of the walk

The scopes that the walk has open are those of locals (`Walk.Opens`).  Each step
keeps them or changes them as its declaration says, and steps other than the use of
a name make no records (`Walk.Quiet`).
-/

namespace Lox

/-! ## Declarations of locals -/

/-- A declaration in a scope of the walk is that of a local. -/
def Declaration.IsFor (declaration : Declaration) : Local → Prop
  | .named name => name = ⟨declaration.name, declaration.line⟩
  | .this => declaration.name = Local.this.text
  | .super => declaration.name = Local.super.text

theorem Declaration.IsFor.name_eq {declaration : Declaration} {declared : Local}
    (isFor : declaration.IsFor declared) : declaration.name = declared.text := by
  cases declared with
  | named name =>
    cases isFor
    rfl
  | this => exact isFor
  | super => exact isFor

/-- A scope of the walk has the declarations of locals. -/
def Scope.IsFor (scope : Scope) (locals : List Local) : Prop :=
  List.Forall₂ Declaration.IsFor scope locals

/-- Changing one element of a list keeps what relates it to another list. -/
theorem forall₂_modify {α β : Type} {related : α → β → Prop} {left : List α} {right : List β}
    (all : List.Forall₂ related left right) (index : Nat) {change : α → α}
    (keeps : ∀ first second, related first second → related (change first) second) :
    List.Forall₂ related (left.modify index change) right := by
  induction all generalizing index with
  | nil =>
    rw [List.modify_nil]
    exact .nil
  | cons first others induction =>
    cases index with
    | zero =>
      rw [List.modify_zero_cons]
      exact .cons (keeps _ _ first) others
    | succ index =>
      rw [List.modify_succ_cons]
      exact .cons first (induction index)

namespace Scope.IsFor

variable {scope : Scope} {locals : List Local}

theorem names_eq (isFor : scope.IsFor locals) : scope.names = locals.map Local.text := by
  induction isFor with
  | nil => rfl
  | cons first _ induction => exact congrArg₂ List.cons first.name_eq induction

theorem declare (isFor : scope.IsFor locals) {declaration : Declaration} {declared : Local}
    (here : declaration.IsFor declared) :
    Scope.IsFor (scope ++ [declaration]) (locals ++ [declared]) :=
  List.rel_append isFor (.cons here .nil)

theorem define (isFor : scope.IsFor locals) (name : String) : (scope.define name).IsFor locals := by
  rw [Scope.define]
  split
  · apply forall₂_modify isFor
    intro declaration declared here
    cases declared <;> exact here
  · exact isFor

theorem markRead (isFor : scope.IsFor locals) (slot : Nat) :
    (scope.markRead slot).IsFor locals := by
  apply forall₂_modify isFor
  intro declaration declared here
  cases declared <;> exact here

end Scope.IsFor

namespace Walk

/-- The names declared in the open scopes. -/
def names (walk : Walk) : List (List String) :=
  walk.scopes.map Scope.names

/-- The open scopes are those of some locals. -/
def Opens (walk : Walk) (scopes : Scopes) : Prop :=
  List.Forall₂ Scope.IsFor walk.scopes scopes

/-- Between two states no record is made; what was wrong before still is. -/
structure Quiet (before after : Walk) : Prop where
  bindings : after.bindings = before.bindings
  errors : after.errors = #[] → before.errors = #[]

namespace Quiet

variable {before middle after : Walk}

theorem refl (walk : Walk) : Quiet walk walk :=
  ⟨rfl, id⟩

theorem trans (first : Quiet before middle) (second : Quiet middle after) : Quiet before after :=
  ⟨second.bindings.trans first.bindings, fun none => first.errors (second.errors none)⟩

end Quiet

/-! ## What each step does -/

variable {walk : Walk} {scopes : Scopes}

theorem Opens.names_eq (opens : walk.Opens scopes) : walk.names = scopes.names := by
  have all : ∀ {open_ : List Scope} {scopes : Scopes}, List.Forall₂ Scope.IsFor open_ scopes →
      open_.map Scope.names = scopes.names := by
    intro open_ scopes related
    induction related with
    | nil => rfl
    | cons first _ induction => exact congrArg₂ List.cons first.names_eq induction
  exact all opens

theorem quiet_report (line : Nat) (fault : BindingFault) (walk : Walk) :
    Quiet walk (walk.report line fault) := by
  constructor
  · rfl
  · intro none
    exact absurd none (Array.push_ne_empty)

theorem Opens.report (opens : walk.Opens scopes) (line : Nat) (fault : BindingFault) :
    (walk.report line fault).Opens scopes :=
  opens

theorem quiet_openScope (walk : Walk) : Quiet walk walk.openScope :=
  ⟨rfl, id⟩

theorem Opens.openScope (opens : walk.Opens scopes) : walk.openScope.Opens ([] :: scopes) :=
  .cons .nil opens

/-- Reporting declarations changes neither scopes nor records. -/
theorem foldl_report (declarations : List Declaration) (walk : Walk) :
    (declarations.foldl (fun walk declaration =>
        walk.report declaration.line (.neverUsed declaration.name)) walk).scopes = walk.scopes ∧
      Quiet walk (declarations.foldl (fun walk declaration =>
        walk.report declaration.line (.neverUsed declaration.name)) walk) := by
  induction declarations generalizing walk with
  | nil => exact ⟨rfl, .refl walk⟩
  | cons first others induction =>
    rcases induction (walk.report first.line (.neverUsed first.name)) with ⟨same, quiet⟩
    exact ⟨same, (quiet_report _ _ walk).trans quiet⟩

theorem quiet_closeScope (walk : Walk) : Quiet walk walk.closeScope := by
  rcases walk with ⟨_ | ⟨scope, outer⟩, errors, bindings⟩
  · exact .refl _
  · have reports := (foldl_report scope.unread ⟨outer, errors, bindings⟩).2
    exact ⟨reports.bindings, reports.errors⟩

theorem Opens.closeScope {locals : List Local} (opens : walk.Opens (locals :: scopes)) :
    walk.closeScope.Opens scopes := by
  rcases walk with ⟨_ | ⟨scope, outer⟩, errors, bindings⟩
  · cases opens
  · cases opens with
    | cons _ others =>
      have same := (foldl_report scope.unread ⟨outer, errors, bindings⟩).1
      show List.Forall₂ Scope.IsFor (Walk.scopes _) scopes
      rw [Walk.closeScope, same]
      exact others

theorem quiet_declare (name : Name) (defined read : Bool) (walk : Walk) :
    Quiet walk (walk.declare name defined read) := by
  rw [declare]
  split
  · exact .refl walk
  · extract_lets declared
    have added : Quiet walk declared := ⟨rfl, id⟩
    split
    · exact added.trans (quiet_report _ _ _)
    · exact added

/-- A declaration is added to the innermost scope. -/
theorem Opens.declare (opens : walk.Opens scopes) {name : Name} (declared : Local)
    (defined read : Bool)
    (isFor : Declaration.IsFor ⟨name.text, name.line, defined, read⟩ declared) :
    (walk.declare name defined read).Opens (scopes.declare [declared]) := by
  rcases walk with ⟨_ | ⟨scope, outer⟩, errors, bindings⟩
  · cases opens
    exact .nil
  · cases opens with
    | cons innermost others =>
      simp only [Walk.declare]
      split
      · exact .cons (innermost.declare isFor) others
      · exact .cons (innermost.declare isFor) others

theorem quiet_define (name : Name) (walk : Walk) : Quiet walk (walk.define name) := by
  rw [define]
  split
  · exact .refl walk
  · exact ⟨rfl, id⟩

theorem Opens.define (opens : walk.Opens scopes) (name : Name) :
    (walk.define name).Opens scopes := by
  rcases walk with ⟨_ | ⟨scope, outer⟩, errors, bindings⟩
  · exact opens
  · cases opens with
    | cons innermost others => exact .cons (innermost.define name.text) others

/-- Marking a variable as read keeps the scopes. -/
theorem Opens.refer (opens : walk.Opens scopes) (id : Nat) (name : String) :
    (walk.refer id name).Opens scopes := by
  rw [Walk.refer]
  split
  · exact opens
  · next address _ =>
    apply forall₂_modify opens
    intro scope locals isFor
    exact isFor.markRead address.slot

theorem bindings_refer (id : Nat) (name : String) (walk : Walk) :
    (walk.refer id name).bindings.toList =
      walk.bindings.toList ++ ((locate? name walk.names).map fun address => ⟨id, address⟩).toList := by
  unfold refer names
  split
  · next missing => simp [missing]
  · next address found => simp [found]

theorem errors_refer (id : Nat) (name : String) (walk : Walk) :
    (walk.refer id name).errors = walk.errors := by
  rw [refer]
  split <;> rfl

theorem quiet_returns (context : Context) (line : Nat) (walk : Walk) :
    Quiet walk (walk.returns context line) := by
  rw [returns]
  split
  · exact quiet_report _ _ walk
  · exact .refl walk

theorem Opens.returns (opens : walk.Opens scopes) (context : Context) (line : Nat) :
    (walk.returns context line).Opens scopes := by
  rw [Walk.returns]
  split
  · exact opens.report _ _
  · exact opens

theorem quiet_openImplicit (name : String) (line : Nat) (walk : Walk) :
    Quiet walk (walk.openImplicit name line) :=
  (quiet_openScope walk).trans (quiet_declare _ _ _ _)

theorem Opens.openImplicit (opens : walk.Opens scopes) {name : String} (declared : Local)
    (line : Nat) (isFor : Declaration.IsFor ⟨name, line, true, true⟩ declared) :
    (walk.openImplicit name line).Opens ([declared] :: scopes) :=
  opens.openScope.declare declared true true isFor

theorem quiet_openParameters (parameters : List Name) (walk : Walk) :
    Quiet walk (walk.openParameters parameters) := by
  have declares : ∀ (others : List Name) (walk : Walk),
      Quiet walk (others.foldl (fun walk parameter => walk.declare parameter true true) walk) := by
    intro others
    induction others with
    | nil => exact .refl
    | cons first others induction =>
      exact fun walk => (quiet_declare first true true walk).trans (induction _)
  exact (quiet_openScope walk).trans (declares parameters _)

theorem Opens.openParameters (opens : walk.Opens scopes) (parameters : List Name) :
    (walk.openParameters parameters).Opens (parameters.map Local.named :: scopes) := by
  have declares : ∀ (others : List Name) (walk : Walk) (locals : List Local),
      walk.Opens (locals :: scopes) →
      (others.foldl (fun walk parameter => walk.declare parameter true true) walk).Opens
        ((locals ++ others.map Local.named) :: scopes) := by
    intro others
    induction others with
    | nil =>
      intro walk locals opened
      rw [List.map_nil, List.append_nil]
      exact opened
    | cons first others induction =>
      intro walk locals opened
      have declared := opened.declare (.named first) true true rfl
      have further := induction _ _ declared
      rw [List.append_assoc] at further
      exact further
  exact declares parameters walk.openScope [] opens.openScope

end Walk

end Lox
