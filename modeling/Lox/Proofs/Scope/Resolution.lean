import Lox.Proofs.Grammar.Building
import Lox.Proofs.Scope.Visit

/-!
# Lexical addresses

The records that resolving makes of a program that was read, whatever is wrong with
it: one for each use that means a local, with the address of that local, and no
others.  No id is recorded twice, since no two uses have the same id.
-/

namespace Lox

/-- Resolving comes across the uses of a program in their order. -/
theorem bindings_resolve (program : List Stmt) :
    (resolve program).bindings = (Program.occurrences program).filterMap Occurrence.binding? := by
  have visit := visits_program program
  exact visit.bindings

/-- The uses of a program have ids of their own. -/
theorem nodup_id_occurrences (firstId : Nat) (tokens : List Token) :
    ((Program.occurrences (Grammar.parse firstId tokens).statements).map Occurrence.id).Nodup := by
  have builds := Grammar.parse_builds (fun _ => True) firstId tokens fun _ _ _ => trivial
  rw [Program.occurrences, Stmt.map_id_occurrencesAll]
  exact builds.2.2.nodup

section

variable {occurrences : List Occurrence}

/-- The records of uses have some of their ids. -/
theorem sublist_id_bindings (occurrences : List Occurrence) :
    ((occurrences.filterMap Occurrence.binding?).map Binding.id).Sublist
      (occurrences.map Occurrence.id) := by
  induction occurrences with
  | nil => exact List.Sublist.refl _
  | cons first others induction =>
    cases found : first.address? with
    | none =>
      have skipped : first.binding? = none := by rw [Occurrence.binding?, found]; rfl
      rw [List.filterMap_cons_none skipped]
      exact induction.cons first.id
    | some address =>
      have recorded : first.binding? = some ⟨first.id, address⟩ := by
        rw [Occurrence.binding?, found]; rfl
      rw [List.filterMap_cons_some recorded]
      exact induction.cons_cons first.id

/-- Of uses with distinct ids, one is recorded with its address only. -/
theorem mem_bindings_iff (distinct : (occurrences.map Occurrence.id).Nodup)
    {occurrence : Occurrence} (member : occurrence ∈ occurrences) (address : Address) :
    ⟨occurrence.id, address⟩ ∈ occurrences.filterMap Occurrence.binding? ↔
      occurrence.address? = some address := by
  rw [List.mem_filterMap]
  constructor
  · rintro ⟨other, otherMember, recorded⟩
    rw [Occurrence.binding?, Option.map_eq_some_iff] at recorded
    obtain ⟨found, here, same⟩ := recorded
    have sameId : other.id = occurrence.id := congrArg Binding.id same
    have sameAddress : found = address := congrArg Binding.address same
    have sameUse : other = occurrence := List.inj_on_of_nodup_map distinct otherMember member sameId
    rw [← sameUse, here, sameAddress]
  · intro here
    exact ⟨occurrence, member, by rw [Occurrence.binding?, here]; rfl⟩

end

/--
Whatever is wrong with a program that was read: resolving it records a legal use
exactly if a local scope around the use declares its name before it, and then with
the address of the latest declaration in the innermost such scope.  Nothing else is
recorded, and no id twice.
-/
theorem resolve_records_addresses (firstId : Nat) (tokens : List Token) :
    let program := (Grammar.parse firstId tokens).statements
    let bindings := (resolve program).bindings
    (∀ occurrence ∈ Program.occurrences program, occurrence.isLegal →
      ((∃ address, ⟨occurrence.id, address⟩ ∈ bindings) ↔
        occurrence.scopes.Declares occurrence.name) ∧
      ∀ address, ⟨occurrence.id, address⟩ ∈ bindings ↔ occurrence.RefersTo address) ∧
    (∀ occurrence ∈ Program.occurrences program, occurrence.isLegal = false →
      ∀ address, ⟨occurrence.id, address⟩ ∉ bindings) ∧
    (∀ binding ∈ bindings, ∃ occurrence ∈ Program.occurrences program,
      occurrence.id = binding.id) ∧
    (bindings.map Binding.id).Nodup := by
  intro program bindings
  have distinct : ((Program.occurrences program).map Occurrence.id).Nodup :=
    nodup_id_occurrences firstId tokens
  have recorded : bindings = (Program.occurrences program).filterMap Occurrence.binding? :=
    bindings_resolve program
  rw [recorded]
  refine ⟨?_, ?_, ?_, ?_⟩
  · intro occurrence member legal
    constructor
    · rw [← occurrence.exists_address?_iff legal]
      exact exists_congr (mem_bindings_iff distinct member)
    · intro address
      rw [mem_bindings_iff distinct member]
      exact occurrence.address?_eq_some_iff legal address
  · intro occurrence member illegal address
    rw [mem_bindings_iff distinct member, occurrence.address?_eq_none_of_not_isLegal illegal]
    exact fun impossible => Option.some_ne_none address impossible.symm
  · intro binding member
    obtain ⟨occurrence, isUse, same⟩ := List.mem_filterMap.mp member
    rw [Occurrence.binding?, Option.map_eq_some_iff] at same
    obtain ⟨address, -, rfl⟩ := same
    exact ⟨occurrence, isUse, rfl⟩
  · exact distinct.sublist (sublist_id_bindings _)

end Lox
