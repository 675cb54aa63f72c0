import Lox.Tree.Basic

/-!
# Scopes

A scope is the list of the variables declared in it, in the order of their
declarations.  The position of a declaration is the slot of its variable, also
when the name is declared again: then the later declaration hides the earlier one.
`locate?` finds the variable that a name refers to in nested scopes, of which only
the declared names matter.
-/

namespace Lox

/-- A variable declared in a scope. -/
structure Declaration where
  name : String
  line : Nat
  /-- Whether the declaration is complete, so that its variable may be read. -/
  defined : Bool
  /-- Whether the name is used as a variable. -/
  read : Bool
deriving DecidableEq, Repr

/-- The declarations of a scope, in their order. -/
abbrev Scope := List Declaration

/-- The place of a variable: how many scopes further out, and its slot there. -/
structure Address where
  depth : Nat
  slot : Nat
deriving DecidableEq, Repr

/-! ## Finding a name -/

/-- The slot of the latest declaration of a name among the names declared in a scope. -/
def latest? (name : String) : List String → Option Nat
  | [] => none
  | declared :: later =>
    match latest? name later with
    | some slot => some (slot + 1)
    | none => if declared = name then some 0 else none

/-- The declaration that is made last hides the others of its name. -/
theorem latest?_append (name : String) (names : List String) (declared : String) :
    latest? name (names ++ [declared]) =
      if declared = name then some names.length else latest? name names := by
  induction names with
  | nil => rfl
  | cons first later induction =>
    simp only [List.cons_append, latest?, induction, List.length_cons]
    by_cases same : declared = name
    · simp only [if_pos same]
    · simp only [if_neg same]

/-- The latest declaration of a name is one of the declarations. -/
theorem lt_length_of_latest? {name : String} {names : List String} {slot : Nat}
    (found : latest? name names = some slot) : slot < names.length := by
  induction names generalizing slot with
  | nil => cases found
  | cons first later induction =>
    unfold latest? at found
    split at found
    · next inner =>
      cases found
      exact Nat.succ_lt_succ (induction inner)
    · split at found
      · cases found
        exact Nat.succ_pos _
      · cases found

/--
The address of the variable that a name refers to, given the names declared in
nested scopes, innermost first.
-/
def locate? (name : String) : List (List String) → Option Address
  | [] => none
  | names :: outer =>
    match latest? name names with
    | some slot => some ⟨0, slot⟩
    | none => (locate? name outer).map fun address => { address with depth := address.depth + 1 }

/-! ## Changing a scope -/

namespace Scope

/-- The names declared in a scope. -/
def names (scope : Scope) : List String :=
  scope.map Declaration.name

/-- Whether the name is declared, but its latest declaration is not complete. -/
def isPending (name : String) (scope : Scope) : Bool :=
  match latest? name scope.names with
  | some slot => scope[slot]?.any (!·.defined)
  | none => false

/-- Completes the latest declaration of a name. -/
def define (name : String) (scope : Scope) : Scope :=
  match latest? name scope.names with
  | some slot => scope.modify slot fun declaration => { declaration with defined := true }
  | none => scope

/-- Marks the variable in a slot as read. -/
def markRead (slot : Nat) (scope : Scope) : Scope :=
  scope.modify slot fun declaration => { declaration with read := true }

/-- The declarations that nothing reads and no later declaration hides, in their order. -/
def unread : Scope → List Declaration
  | [] => []
  | declaration :: later =>
    if declaration.read || later.any (·.name == declaration.name) then
      unread later
    else
      declaration :: unread later

end Scope

end Lox
