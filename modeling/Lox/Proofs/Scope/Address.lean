import Lox.Proofs.Tree.Occurrence
import Mathlib.Tactic.Common

/-!
# Addresses

What the search for a name in nested scopes finds.  The main statement is
`Occurrence.address?_eq_some_iff`: the address found for a legal use is the only one
that `Occurrence.RefersTo` allows.
-/

namespace Lox

/-! ## One scope -/

theorem latest?_eq_none_iff (name : String) (names : List String) :
    latest? name names = none ↔ name ∉ names := by
  induction names with
  | nil => simp [latest?]
  | cons first later induction =>
    cases found : latest? name later with
    | none =>
      have absent : name ∉ later := induction.mp found
      by_cases same : first = name
      · simp [latest?, found, same]
      · simp [latest?, found, same, absent, Ne.symm same]
    | some slot =>
      have present : name ∈ later := by
        by_contra absent
        simp [induction.mpr absent] at found
      simp [latest?, found, present]

theorem latest?_eq_some_iff (name : String) (names : List String) (slot : Nat) :
    latest? name names = some slot ↔
      names[slot]? = some name ∧ ∀ later, slot < later → names[later]? ≠ some name := by
  induction names generalizing slot with
  | nil => simp [latest?]
  | cons first later induction =>
    cases found : latest? name later with
    | none =>
      have absent : ∀ index, later[index]? ≠ some name := fun index present =>
        (latest?_eq_none_iff name later).mp found (List.mem_of_getElem? present)
      simp only [latest?, found]
      constructor
      · intro here
        split at here
        · next same =>
          cases here
          refine ⟨by simp [same], ?_⟩
          rintro (_ | index) below
          · omega
          · simpa using absent index
        · cases here
      · rintro ⟨here, -⟩
        cases slot with
        | zero => simpa using here
        | succ index => exact absurd (by simpa using here) (absent index)
    | some inner =>
      obtain ⟨innerHere, innerLast⟩ := (induction inner).mp found
      simp only [latest?, found, Option.some.injEq]
      constructor
      · rintro rfl
        refine ⟨by simpa using innerHere, ?_⟩
        rintro (_ | index) below
        · omega
        · simpa using innerLast index (by omega)
      · rintro ⟨here, last⟩
        cases slot with
        | zero => exact absurd (by simpa using innerHere) (last (inner + 1) (Nat.succ_pos _))
        | succ index =>
          have below : ∀ other, index < other → later[other]? ≠ some name := fun other larger => by
            simpa using last (other + 1) (by omega)
          have equal : some inner = some index :=
            found.symm.trans ((induction index).mpr ⟨by simpa using here, below⟩)
          simpa using equal

/-! ## Nested scopes -/

theorem locate?_eq_none_iff (name : String) (scopes : List (List String)) :
    locate? name scopes = none ↔ ∀ names ∈ scopes, name ∉ names := by
  induction scopes with
  | nil => simp [locate?]
  | cons innermost outer induction =>
    cases found : latest? name innermost with
    | none =>
      have absent := (latest?_eq_none_iff name innermost).mp found
      simp [locate?, found, induction, absent]
    | some slot =>
      have present : name ∈ innermost := by
        by_contra absent
        simp [(latest?_eq_none_iff name innermost).mpr absent] at found
      simp [locate?, found, present]

theorem locate?_eq_some_iff (name : String) (scopes : List (List String)) (address : Address) :
    locate? name scopes = some address ↔
      (∃ names, scopes[address.depth]? = some names ∧ latest? name names = some address.slot) ∧
      ∀ depth < address.depth, ∀ names, scopes[depth]? = some names → name ∉ names := by
  induction scopes generalizing address with
  | nil => simp [locate?]
  | cons innermost outer induction =>
    obtain ⟨depth, slot⟩ := address
    cases found : latest? name innermost with
    | none =>
      have absent := (latest?_eq_none_iff name innermost).mp found
      cases depth with
      | zero => simp [locate?, found]
      | succ depth =>
        have step := induction ⟨depth, slot⟩
        simp only [locate?, found, Option.map_eq_some_iff]
        constructor
        · rintro ⟨⟨_, _⟩, inner, same⟩
          cases same
          obtain ⟨here, further⟩ := step.mp inner
          refine ⟨by simpa using here, ?_⟩
          rintro (_ | index) below names at'
          · cases at'
            exact absent
          · exact further index (by simpa using below) names (by simpa using at')
        · rintro ⟨here, further⟩
          refine ⟨⟨depth, slot⟩, step.mpr ⟨by simpa using here, ?_⟩, rfl⟩
          intro index below names at'
          exact further (index + 1) (by simpa using below) names (by simpa using at')
    | some inner =>
      have present : name ∈ innermost := by
        by_contra absent
        simp [(latest?_eq_none_iff name innermost).mpr absent] at found
      cases depth with
      | zero => simp [locate?, found]
      | succ depth =>
        simp only [locate?, found, Option.some.injEq, Address.mk.injEq]
        constructor
        · rintro ⟨impossible, -⟩
          cases impossible
        · rintro ⟨-, further⟩
          exact absurd present (further 0 (Nat.succ_pos _) innermost rfl)

/-! ## Occurrences -/

/-- Behind scopes without a name, it means what is declared first in the scope there. -/
theorem locate?_behind (name : String) (inner outer : List (List String))
    (absent : ∀ names ∈ inner, name ∉ names) :
    locate? name (inner ++ [name] :: outer) = some ⟨inner.length, 0⟩ := by
  induction inner with
  | nil => simp [locate?, latest?]
  | cons innermost others induction =>
    rw [List.forall_mem_cons] at absent
    have missing := (latest?_eq_none_iff name innermost).mpr absent.1
    rw [List.cons_append, locate?, missing, induction absent.2]
    rfl

namespace Occurrence

/-- A legal use has the address of the local that it means. -/
theorem address?_eq_some_iff (occurrence : Occurrence) (legal : occurrence.isLegal)
    (address : Address) : occurrence.address? = some address ↔ occurrence.RefersTo address := by
  rw [address?, if_pos legal, locate?_eq_some_iff]
  constructor
  · rintro ⟨⟨names, here, latest⟩, further⟩
    rw [Scopes.names, List.getElem?_map, Option.map_eq_some_iff] at here
    obtain ⟨locals, here, rfl⟩ := here
    rw [latest?_eq_some_iff] at latest
    refine ⟨⟨locals, here, by simpa using latest⟩, ?_⟩
    intro depth below locals' at' declared member same
    refine further depth below (locals'.map Local.text) ?_ ?_
    · simp [Scopes.names, at']
    · exact List.mem_map.mpr ⟨declared, member, same⟩
  · rintro ⟨⟨locals, here, latest⟩, further⟩
    refine ⟨⟨locals.map Local.text, by simp [Scopes.names, here], ?_⟩, ?_⟩
    · rw [latest?_eq_some_iff]
      simpa using latest
    · intro depth below names at' member
      rw [Scopes.names, List.getElem?_map, Option.map_eq_some_iff] at at'
      obtain ⟨locals', at', rfl⟩ := at'
      obtain ⟨declared, declaredIn, same⟩ := List.mem_map.mp member
      exact further depth below locals' at' declared declaredIn same

/-- A legal use has an address exactly if a scope around it declares its name. -/
theorem exists_address?_iff (occurrence : Occurrence) (legal : occurrence.isLegal) :
    (∃ address, occurrence.address? = some address) ↔
      occurrence.scopes.Declares occurrence.name := by
  rw [← Option.ne_none_iff_exists', address?, if_pos legal, Ne, locate?_eq_none_iff,
    Scopes.Declares]
  simp [Scopes.names]

/-- An address leads to a local of the name that is used. -/
theorem exists_local_of_address? {occurrence : Occurrence} {address : Address}
    (found : occurrence.address? = some address) :
    ∃ scope declared, occurrence.scopes[address.depth]? = some scope ∧
      scope[address.slot]? = some declared ∧ declared.text = occurrence.name := by
  have legal : occurrence.isLegal := by
    by_contra illegal
    simp [address?, illegal] at found
  rcases (occurrence.address?_eq_some_iff legal address).mp found with ⟨⟨scope, here, slot, -⟩, -⟩
  rcases Option.map_eq_some_iff.mp slot with ⟨declared, member, text⟩
  exact ⟨scope, declared, here, member, text⟩

theorem address?_eq_none_of_not_isLegal (occurrence : Occurrence)
    (illegal : occurrence.isLegal = false) : occurrence.address? = none := by
  simp [address?, illegal]

end Occurrence

end Lox
