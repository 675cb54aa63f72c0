import Lox.Proofs.Session.Bound

/-!
# Ids in a session

Every source text takes its ids from where the one before it stopped, also if it is rejected or
fails.  So no id is given away twice, and what was recorded under an id is never replaced.  The
main statement is `ids_distinct`.
-/

namespace Lox

/-- A source text and the session in which it runs. -/
structure Turn where
  session : Session
  text : String

/-- What the source text says. -/
def Turn.reading (turn : Turn) : Reading :=
  Reading.ofSource turn.session.nextId turn.text

/-- The ids in the tree of the source text. -/
def Turn.ids (turn : Turn) : List Nat :=
  Stmt.idsAll turn.reading.statements

namespace Session

/-- The source texts of inputs, each in its session; the last one may run without a result. -/
def turns : List Input → Session → List Turn
  | [], _ => []
  | .time clock :: others, session => (session.setClock clock).turns others
  | .source fuel text :: others, session =>
    ⟨session, text⟩ ::
      match session.run fuel text with
      | some (_, after) => after.turns others
      | none => []

/-- Places are recorded for ids that were given away only. -/
def RecordsItsOwn (session : Session) : Prop :=
  ∀ id address, session.addresses[id]? = some address → id < session.nextId

theorem recordsItsOwn_start (clock : Float) : (start clock).RecordsItsOwn := by
  intro id address found
  simp [start] at found

namespace RecordsItsOwn

variable {session after : Session}

/-- However a run ends, the next one goes on with the ids behind those of its tree. -/
theorem run (own : session.RecordsItsOwn) {fuel : Nat} {text : String} {report : Report}
    (ran : session.run fuel text = some (report, after)) :
    after.RecordsItsOwn ∧ after.nextId = (Turn.reading ⟨session, text⟩).nextId := by
  rcases addresses_runReading ran with ⟨⟨resolving, addresses⟩, nextId⟩
  refine ⟨?_, nextId⟩
  intro id address found
  rw [addresses] at found
  rw [nextId]
  exact session.recorded_read (Item.tokens (Item.scan text)) own resolving id address found

/-- The trees of all source texts have different ids, none of which was given away before. -/
theorem ids_turns (own : session.RecordsItsOwn) (inputs : List Input) :
    (∀ id ∈ (session.turns inputs).flatMap Turn.ids, session.nextId ≤ id) ∧
      ((session.turns inputs).flatMap Turn.ids).Nodup := by
  induction inputs generalizing session with
  | nil => exact ⟨List.forall_mem_nil _, List.nodup_nil⟩
  | cons input others induction =>
    cases input with
    | time clock =>
      have later : (session.setClock clock).RecordsItsOwn := own
      exact induction later
    | source fuel text =>
      have first : Grammar.Within session.nextId (Turn.reading ⟨session, text⟩).nextId
          (Turn.ids ⟨session, text⟩) :=
        (Grammar.parse_builds (fun _ => True) session.nextId _ fun _ _ _ => trivial).2.2
      have le := Reading.le_nextId_ofItems session.nextId (Item.scan text)
      rw [turns, List.flatMap_cons]
      split
      · next report after ran =>
        rcases own.run ran with ⟨ownAfter, nextId⟩
        rcases induction ownAfter with ⟨bound, distinct⟩
        constructor
        · intro id member
          rcases List.mem_append.mp member with member | later
          · exact (first.bounds id member).1
          · exact Nat.le_trans le (nextId ▸ bound id later)
        · refine List.nodup_append.mpr ⟨first.nodup, distinct, ?_⟩
          intro id member later memberLater same
          have before := (first.bounds id member).2
          have behind := bound later memberLater
          omega
      · rw [List.flatMap_nil, List.append_nil]
        exact ⟨fun id member => (first.bounds id member).1, first.nodup⟩

/-- All source texts run in sessions that record their own ids. -/
theorem turn (own : session.RecordsItsOwn) {inputs : List Input} {turn : Turn}
    (member : turn ∈ session.turns inputs) : turn.session.RecordsItsOwn := by
  induction inputs generalizing session with
  | nil => cases member
  | cons input others induction =>
    cases input with
    | time clock =>
      have later : (session.setClock clock).RecordsItsOwn := own
      exact induction later member
    | source fuel text =>
      rw [turns] at member
      rcases List.mem_cons.mp member with rfl | later
      · exact own
      · split at later
        · next report after ran => exact induction (own.run ran).1 later
        · cases later

/-- When a place of a source text is recorded, there is none under its id. -/
theorem addresses_record_eq_none (own : session.RecordsItsOwn) {text : String}
    {earlier later : List Binding} {binding : Binding}
    (resolved : (resolve (Turn.reading ⟨session, text⟩).statements).bindings =
      earlier ++ binding :: later) :
    (session.record earlier).addresses[binding.id]? = none := by
  have distinct : (earlier.map Binding.id ++ binding.id :: later.map Binding.id).Nodup := by
    have ids := nodup_id_occurrences session.nextId (Item.tokens (Item.scan text))
    have nodup := ids.sublist (sublist_id_bindings _)
    rw [← bindings_resolve] at nodup
    rwa [← List.map_cons, ← List.map_append, ← resolved]
  have isNew : session.nextId ≤ binding.id := by
    have member : binding ∈ (resolve (Turn.reading ⟨session, text⟩).statements).bindings := by
      rw [resolved]
      exact List.mem_append_right _ List.mem_cons_self
    rw [bindings_resolve, List.mem_filterMap] at member
    rcases member with ⟨occurrence, isUse, recorded⟩
    rcases Option.map_eq_some_iff.mp recorded with ⟨address, -, rfl⟩
    exact (session.id_of_read _ isUse).1
  rcases session.addresses_record earlier binding.id with ⟨address, member, -⟩ | ⟨-, same⟩
  · have isEarlier : binding.id ∈ earlier.map Binding.id := List.mem_map.mpr ⟨_, member, rfl⟩
    exact absurd rfl ((List.nodup_append.mp distinct).2.2 _ isEarlier _ List.mem_cons_self)
  · rw [same]
    exact addresses_eq_none own isNew

end RecordsItsOwn

end Session

/--
Ids are given away once.  Whatever the tokens are, and whatever is wrong with them, the ids in the
statements that are read are different, from the first one on and below the next one, and the
statements are those read with ids from zero on, moved.  So in a session the trees of all source
texts have different ids, and a place is recorded only under an id that has none yet.
-/
theorem ids_distinct :
    (∀ (firstId : Nat) (tokens : List Token),
      (Stmt.idsAll (Grammar.parse firstId tokens).statements).Nodup ∧
      (∀ id ∈ Stmt.idsAll (Grammar.parse firstId tokens).statements,
        firstId ≤ id ∧ id < (Grammar.parse firstId tokens).nextId) ∧
      (Grammar.parse firstId tokens).statements =
        Stmt.renameAll ⟨(· + firstId), fun line => line⟩ (Grammar.parse 0 tokens).statements) ∧
    ∀ (clock : Float) (inputs : List Input),
      (((Session.start clock).turns inputs).flatMap Turn.ids).Nodup ∧
      ∀ turn ∈ (Session.start clock).turns inputs, ∀ earlier binding later,
        (resolve turn.reading.statements).bindings = earlier ++ binding :: later →
          (turn.session.record earlier).addresses[binding.id]? = none := by
  constructor
  · intro firstId tokens
    have within :=
      (Grammar.parse_builds (fun _ => True) firstId tokens fun _ _ _ => trivial).2.2
    exact ⟨within.nodup, within.bounds, Grammar.statements_parse_eq_renameAll firstId tokens⟩
  · intro clock inputs
    have own := Session.recordsItsOwn_start clock
    refine ⟨(own.ids_turns inputs).2, ?_⟩
    intro turn member earlier binding later resolved
    exact (own.turn member).addresses_record_eq_none resolved

end Lox
