import Lox.Proofs.Renaming.Reading
import Lox.Proofs.Session.Record
import Lox.Proofs.Session.Scoping

/-!
# Ids and lines in a session

The ids in the functions of a session and those under which places are recorded are smaller than
the next id, and the lines in its functions are bounded.  Every source text that is run
preserves this (`Session.IsBelow.runItems`), whatever is wrong with it.
-/

namespace Lox

namespace Session

/-- All ids in a session are smaller than its next one, and all lines are smaller than a number. -/
structure IsBelow (lines : Nat) (session : Session) : Prop where
  machine : session.machine.Varies (.below session.nextId lines) session.machine
  recorded : ∀ id address, session.addresses[id]? = some address → id < session.nextId

theorem isBelow_start (clock : Float) (lines : Nat) : (start clock).IsBelow lines := by
  refine ⟨Machine.varies_start clock rfl, ?_⟩
  intro id address found
  simp [start] at found

/-! ## What a run does to ids -/

section

variable {session after : Session} {fuel : Nat} {report : Report}

theorem addresses_execute {program : List Stmt}
    (ran : session.execute fuel program = some (report, after)) :
    after.addresses = session.addresses ∧ after.nextId = session.nextId := by
  rw [Session.execute] at ran
  split at ran
  · cases ran
    exact ⟨rfl, rfl⟩
  · cases ran
    exact ⟨rfl, rfl⟩
  · cases ran

/-- What a run records is recorded by reading the program, resolved or not. -/
theorem addresses_runReading {items : List Item}
    (ran : session.runReading fuel (.ofItems session.nextId items) = some (report, after)) :
    (∃ resolving, after.addresses = (session.read resolving (Item.tokens items)).addresses) ∧
      after.nextId = (Reading.ofItems session.nextId items).nextId := by
  simp only [Session.runReading] at ran
  split at ran
  · cases ran
    exact ⟨⟨false, rfl⟩, rfl⟩
  split at ran
  · cases ran
    exact ⟨⟨true, rfl⟩, rfl⟩
  · rcases addresses_execute ran with ⟨addresses, nextId⟩
    exact ⟨⟨true, addresses⟩, nextId⟩

end

/-- For a greater id than all that were given away no place is recorded. -/
theorem addresses_eq_none {session : Session} (recorded : ∀ id address,
    session.addresses[id]? = some address → id < session.nextId) {id : Nat}
    (isNew : session.nextId ≤ id) : session.addresses[id]? = none := by
  apply Option.eq_none_iff_forall_ne_some.mpr
  intro address found
  exact Nat.not_lt_of_le isNew (recorded id address found)

/-- A program that is read skips ids, and leaves the places that are recorded. -/
theorem renamed_read {session : Session} (recorded : ∀ id address,
    session.addresses[id]? = some address → id < session.nextId) (resolving : Bool)
    (tokens : List Token) :
    AddressTable.Renamed
      (.skip session.nextId ((session.read resolving tokens).nextId - session.nextId))
      session.addresses (session.read resolving tokens).addresses := by
  intro id
  have le := session.nextId_le_read tokens resolving
  show (session.read resolving tokens).addresses[if id < session.nextId then id
    else id + ((session.read resolving tokens).nextId - session.nextId)]? = session.addresses[id]?
  split
  · next isOld => exact session.addresses_read_of_lt tokens resolving isOld
  · next isNew =>
    have stillRecorded := session.recorded_read tokens recorded resolving
    rw [addresses_eq_none recorded (Nat.le_of_not_lt isNew), addresses_eq_none stillRecorded]
    omega

/-! ## Bounds stay bounds -/

namespace IsBelow

variable {lines : Nat} {session after : Session}

theorem mono {lines' : Nat} (below : session.IsBelow lines) (linesLe : lines ≤ lines') :
    session.IsBelow lines' :=
  ⟨below.machine.imp (Variation.below_mono (Nat.le_refl _) linesLe) rfl, below.recorded⟩

theorem setClock (below : session.IsBelow lines) (clock : Float) :
    (session.setClock clock).IsBelow lines :=
  ⟨{ below.machine with clock := rfl }, below.recorded⟩

/-- A session with small ids and lines varies with itself by renamings that keep these. -/
theorem varies (below : session.IsBelow lines) {change : Renaming}
    (keeps : change.Keeps session.nextId lines) :
    session.machine.Varies change.variation session.machine :=
  below.machine.imp (Variation.below_le keeps) rfl

/-- A program on small lines that is run in a session leaves the lines small. -/
theorem runReading (below : session.IsBelow lines) {items : List Item}
    (closed : (Item.tokens items).any (·.kind.isEnding))
    (small : ∀ token ∈ Item.tokens items, token.line < lines) {fuel : Nat} {report : Report}
    (ran : session.runReading fuel (.ofItems session.nextId items) = some (report, after)) :
    after.IsBelow lines := by
  have builds := Reading.le_nextId_ofItems session.nextId items
  rcases addresses_runReading ran with ⟨⟨resolving, addresses⟩, nextId⟩
  let variation := Variation.below (Reading.ofItems session.nextId items).nextId lines
  have itself : session.Varies variation session :=
    ⟨below.machine.imp (Variation.below_mono builds (Nat.le_refl _)) rfl, fun _ => rfl⟩
  have fixed : ∀ change, Renaming.Keeps (Reading.ofItems session.nextId items).nextId lines change →
      Stmt.renameAll change (Reading.ofItems session.nextId items).statements =
        (Reading.ofItems session.nextId items).statements :=
    fun change keeps => Grammar.renameAll_parse closed small keeps
  have reads : (Reading.ofItems session.nextId items).Varies variation.change
      (Reading.ofItems session.nextId items) :=
    ⟨(List.map_id' _).symm, (List.map_id' _).symm, (fixed .refl (Renaming.keeps_refl _ _)).symm⟩
  have runs := itself.runReading rfl (fun _ _ same => same) reads
    (fun _ _ => Stmt.makeAll_of_fixed _ fixed) fuel
  rw [ran] at runs
  cases runs with
  | some runs =>
    constructor
    · rw [nextId]
      exact runs.session.machine
    · intro id address found
      rw [addresses] at found
      rw [nextId]
      exact session.recorded_read (Item.tokens items) below.recorded resolving id address found

/-- Some bound holds for the lines after a source text is run. -/
theorem run (below : session.IsBelow lines) {fuel : Nat} {source : String} {report : Report}
    (ran : session.run fuel source = some (report, after)) :
    ∃ lines, after.IsBelow lines := by
  rcases Item.exists_line_lt (Item.tokens (Item.scan source)) with ⟨bound, small⟩
  refine ⟨max lines bound, ?_⟩
  apply (below.mono (Nat.le_max_left lines bound)).runReading (Item.any_isEnding_tokens 1 _) _ ran
  exact fun token member => Nat.lt_of_lt_of_le (small token member) (Nat.le_max_right _ _)

theorem answer (below : session.IsBelow lines) {inputs : List Input} {reports : List Report}
    (answered : session.answer inputs = some (reports, after)) :
    ∃ lines, after.IsBelow lines := by
  induction inputs generalizing session lines reports with
  | nil =>
    cases answered
    exact ⟨lines, below⟩
  | cons first others induction =>
    cases first with
    | time clock => exact induction (below.setClock clock) answered
    | source fuel text =>
      rw [Session.answer, Option.bind_eq_bind, Option.bind_eq_some_iff] at answered
      rcases answered with ⟨⟨report, middle⟩, ran, rest⟩
      rw [Option.bind_eq_bind, Option.bind_eq_some_iff] at rest
      rcases rest with ⟨⟨later, last⟩, answered, same⟩
      cases same
      rcases below.run ran with ⟨bound, belowThen⟩
      exact induction belowThen answered

end IsBelow

/-- In a session that ran some source texts, the lines are bounded. -/
theorem exists_isBelow {clock : Float} {inputs : List Input} {reports : List Report}
    {session : Session} (reached : (start clock).answer inputs = some (reports, session)) :
    ∃ lines, session.IsBelow lines :=
  (isBelow_start clock 0).answer reached

end Session

end Lox
