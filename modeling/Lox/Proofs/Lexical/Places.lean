import Lox.Proofs.Lexical.Machine
import Lox.Proofs.Tree.Occurrence
import Mathlib.Data.List.Induction

/-!
# Cells for the locals of scopes

Scopes whose locals have cells make an environment.  `Places.lookup_environment` says
that a name means the same there as in the scopes: the cell at the address of the local
that the scopes give it.
-/

namespace Lox

/-- A local and the number of its cell. -/
abbrev Placed := Local × Nat

/-- Nested scopes whose locals have cells, innermost first. -/
abbrev Places := List (List Placed)

namespace Places

/-- The scopes without cells. -/
def scopes (places : Places) : Scopes :=
  places.map (·.map Prod.fst)

/-- Declares locals in the innermost scope. -/
def declare (placed : List Placed) : Places → Places
  | [] => []
  | innermost :: outer => (innermost ++ placed) :: outer

/-- What one scope contributes to an environment: the latest declaration comes first. -/
def binders (row : List Placed) : Lexical.Environment :=
  (row.map fun entry => (entry.1.text, entry.2)).reverse

/-- The environment in nested scopes. -/
def environment (places : Places) : Lexical.Environment :=
  places.flatMap binders

theorem scopes_declare (placed : List Placed) (places : Places) :
    (places.declare placed).scopes = places.scopes.declare (placed.map Prod.fst) := by
  cases places with
  | nil => rfl
  | cons innermost outer => simp [declare, scopes, Scopes.declare]

@[simp]
theorem declare_nil (places : Places) : places.declare [] = places := by
  cases places with
  | nil => rfl
  | cons innermost outer => simp [declare]

theorem isEmpty_declare (placed : List Placed) (places : Places) :
    (places.declare placed).isEmpty = places.isEmpty := by
  cases places <;> rfl

/-- To declare one local is to put its name in front of the environment. -/
theorem environment_declare_singleton (declared : Local) (cell : Nat)
    (innermost : List Placed) (outer : Places) :
    environment (declare [(declared, cell)] (innermost :: outer)) =
      (declared.text, cell) :: environment (innermost :: outer) := by
  simp [environment, declare, binders]

theorem environment_cons (row : List Placed) (places : Places) :
    environment (row :: places) = binders row ++ environment places :=
  List.flatMap_cons

/-- In one scope a name means the latest local of this name. -/
theorem lookup_binders (name : String) (row : List Placed) :
    (latest? name (row.map fun entry => entry.1.text) = none ∧
      (binders row).lookup name = none) ∨
    ∃ slot entry, latest? name (row.map fun entry => entry.1.text) = some slot ∧
      row[slot]? = some entry ∧ entry.1.text = name ∧
      (binders row).lookup name = some entry.2 := by
  induction row using List.reverseRecOn with
  | nil => exact .inl ⟨rfl, rfl⟩
  | append_singleton row last induction =>
    have step : binders (row ++ [last]) = (last.1.text, last.2) :: binders row := by
      simp [binders]
    rw [List.map_append, List.map_cons, List.map_nil, latest?_append, step]
    by_cases same : last.1.text = name
    · right
      refine ⟨row.length, last, ?_, ?_, same, ?_⟩
      · rw [if_pos same, List.length_map]
      · rw [List.getElem?_append_right (Nat.le_refl _), Nat.sub_self]
        rfl
      · rw [same, List.lookup_cons_self]
    · have different : (name == last.1.text) = false := beq_false_of_ne (Ne.symm same)
      rw [if_neg same, List.lookup_cons, different]
      rcases induction with ⟨missing, absent⟩ | ⟨slot, entry, found, here, isName, means⟩
      · exact .inl ⟨missing, absent⟩
      · right
        refine ⟨slot, entry, found, ?_, isName, means⟩
        rw [List.getElem?_append_left (List.getElem?_eq_some_iff.mp here).1]
        exact here

/-- In nested scopes a name means what it means in the innermost one that declares it. -/
theorem lookup_environment (name : String) (places : Places) :
    (locate? name places.scopes.names = none ∧ places.environment.lookup name = none) ∨
    ∃ address row entry, locate? name places.scopes.names = some address ∧
      places[address.depth]? = some row ∧ row[address.slot]? = some entry ∧
      entry.1.text = name ∧ places.environment.lookup name = some entry.2 := by
  induction places with
  | nil => exact .inl ⟨rfl, rfl⟩
  | cons row outer induction =>
    have names : Scopes.names (scopes (row :: outer)) =
        (row.map fun entry => entry.1.text) :: Scopes.names (scopes outer) := by
      simp [Scopes.names, scopes]
    rw [names, environment_cons, locate?, List.lookup_append]
    rcases lookup_binders name row with ⟨missing, absent⟩ | ⟨slot, entry, found, here, isName, means⟩
    · rw [missing, absent]
      rcases induction with ⟨missing, absent⟩ |
        ⟨address, scope, entry, found, here, inside, isName, means⟩
      · left
        rw [missing, absent]
        exact ⟨rfl, rfl⟩
      · right
        refine ⟨⟨address.depth + 1, address.slot⟩, scope, entry, ?_, here, inside, isName, ?_⟩
        · rw [found]
          rfl
        · rw [means]
          rfl
    · right
      refine ⟨⟨0, slot⟩, row, entry, ?_, rfl, here, isName, ?_⟩
      · rw [found]
      · rw [means]
        rfl

end Places

end Lox
