import Lox.Proofs.Machine.Fit
import Lox.Proofs.Scope.Resolution
import Lox.Session

/-!
# Records of places

What a session records when it reads a program.  The ids of the program are new, so what
was recorded for older programs stays (`addresses_read_of_lt`).
-/

namespace Lox

namespace Session

/-- Reads tokens, and records the places of local variables if these are resolved. -/
def read (resolving : Bool) (tokens : List Token) (session : Session) : Session :=
  let parsed := Grammar.parse session.nextId tokens
  { session with nextId := parsed.nextId }.record
    (if resolving then (resolve parsed.statements).bindings else [])

/-- The setting of a session in which programs were read. -/
def setting (names : String → Prop) (programs : List (List Stmt)) (session : Session) :
    Setting :=
  ⟨names, programs.flatMap Program.occurrences, session.addresses⟩

variable (session : Session)

/-- An id that is not among those recorded now keeps its place. -/
theorem addresses_record (bindings : List Binding) (id : Nat) :
    (∃ address, ⟨id, address⟩ ∈ bindings ∧
      (session.record bindings).addresses[id]? = some address) ∨
    ((∀ binding ∈ bindings, binding.id ≠ id) ∧
      (session.record bindings).addresses[id]? = session.addresses[id]?) := by
  induction bindings generalizing session with
  | nil => exact .inr ⟨fun _ impossible => (by cases impossible), rfl⟩
  | cons first others induction =>
    have step : session.record (first :: others) =
        { session with addresses := session.addresses.insert first.id first.address }.record
          others := rfl
    rw [step]
    rcases induction { session with addresses := session.addresses.insert first.id first.address }
      with ⟨address, member, found⟩ | ⟨absent, same⟩
    · exact .inl ⟨address, List.mem_cons_of_mem _ member, found⟩
    · rw [same]
      simp only [Std.TreeMap.getElem?_insert]
      split
      · next isFirst =>
        have same : first.id = id := Std.LawfulEqCmp.eq_of_compare isFirst
        subst same
        exact .inl ⟨first.address, List.mem_cons_self, rfl⟩
      · next different =>
        right
        refine ⟨List.forall_mem_cons.mpr ⟨?_, absent⟩, rfl⟩
        rintro rfl
        exact different Std.ReflCmp.compare_self

variable (tokens : List Token)

/-- The ids of a program that is read are new. -/
theorem id_of_read {occurrence : Occurrence}
    (member : occurrence ∈ Program.occurrences (Grammar.parse session.nextId tokens).statements) :
    session.nextId ≤ occurrence.id ∧
      occurrence.id < (Grammar.parse session.nextId tokens).nextId := by
  have builds := Grammar.parse_builds (fun _ => True) session.nextId tokens fun _ _ _ => trivial
  apply builds.2.2.bounds
  rw [← Stmt.map_id_occurrencesAll .outside []]
  exact List.mem_map_of_mem member

theorem nextId_le_read (resolving : Bool) :
    session.nextId ≤ (session.read resolving tokens).nextId := by
  have builds := Grammar.parse_builds (fun _ => True) session.nextId tokens fun _ _ _ => trivial
  exact builds.2.1

/-- What is recorded when a program is read are the addresses of its uses. -/
theorem exists_use_of_mem_bindings {resolving : Bool} {binding : Binding}
    (member : binding ∈ if resolving then
      (resolve (Grammar.parse session.nextId tokens).statements).bindings else []) :
    ∃ occurrence ∈ Program.occurrences (Grammar.parse session.nextId tokens).statements,
      occurrence.id = binding.id ∧ occurrence.address? = some binding.address := by
  cases resolving with
  | false => cases member
  | true =>
    rw [if_pos rfl, bindings_resolve, List.mem_filterMap] at member
    rcases member with ⟨occurrence, isUse, same⟩
    rw [Occurrence.binding?, Option.map_eq_some_iff] at same
    rcases same with ⟨address, isAddress, rfl⟩
    exact ⟨occurrence, isUse, rfl, isAddress⟩

/-- What is recorded for an id when a program is read is recorded for a use in it, or was before. -/
theorem addresses_read (resolving : Bool) {id : Nat} {address : Address}
    (found : (session.read resolving tokens).addresses[id]? = some address) :
    (∃ occurrence ∈ Program.occurrences (Grammar.parse session.nextId tokens).statements,
      occurrence.id = id ∧ occurrence.address? = some address) ∨
    session.addresses[id]? = some address := by
  rcases session.addresses_record
    (if resolving then (resolve (Grammar.parse session.nextId tokens).statements).bindings else [])
    id with ⟨recorded, member, here⟩ | ⟨-, same⟩
  · have isRecorded : recorded = address := Option.some.inj (here.symm.trans found)
    subst isRecorded
    exact .inl (session.exists_use_of_mem_bindings tokens member)
  · exact .inr (same.symm.trans found)

/-- What was recorded for older programs stays when a program is read. -/
theorem addresses_read_of_lt (resolving : Bool) {id : Nat} (isOld : id < session.nextId) :
    (session.read resolving tokens).addresses[id]? = session.addresses[id]? := by
  rcases session.addresses_record
    (if resolving then (resolve (Grammar.parse session.nextId tokens).statements).bindings else [])
    id with ⟨address, member, -⟩ | ⟨-, same⟩
  · rcases session.exists_use_of_mem_bindings tokens member with ⟨occurrence, isUse, rfl, -⟩
    exact absurd isOld (Nat.not_lt_of_le (session.id_of_read tokens isUse).1)
  · exact same

/-- Places stay recorded for ids that are given away only. -/
theorem recorded_read (recorded : ∀ id address, session.addresses[id]? = some address →
    id < session.nextId) (resolving : Bool) (id : Nat) (address : Address)
    (found : (session.read resolving tokens).addresses[id]? = some address) :
    id < (session.read resolving tokens).nextId := by
  rcases session.addresses_read tokens resolving found with ⟨occurrence, isUse, rfl, -⟩ | old
  · exact (session.id_of_read tokens isUse).2
  · exact Nat.lt_of_lt_of_le (recorded id address old) (session.nextId_le_read tokens resolving)

/-- If a program is resolved, then what is recorded for a use is its address. -/
theorem addresses_read_of_mem {occurrence : Occurrence}
    (isUse : occurrence ∈ Program.occurrences (Grammar.parse session.nextId tokens).statements)
    (isNew : session.addresses[occurrence.id]? = none) :
    (session.read true tokens).addresses[occurrence.id]? = occurrence.address? := by
  have distinct := nodup_id_occurrences session.nextId tokens
  have recorded := mem_bindings_iff distinct isUse
  rw [← bindings_resolve] at recorded
  rcases session.addresses_record
    (resolve (Grammar.parse session.nextId tokens).statements).bindings occurrence.id
    with ⟨address, member, found⟩ | ⟨absent, same⟩
  · exact found.trans ((recorded address).mp member).symm
  · have noAddress : occurrence.address? = none := by
      apply Option.eq_none_iff_forall_ne_some.mpr
      intro address isAddress
      exact absent _ ((recorded address).mpr isAddress) rfl
    rw [noAddress]
    exact same.trans isNew

end Session

end Lox
