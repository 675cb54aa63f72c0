import Lox.Proofs.Session.Bound
import Mathlib

/-!
# Rejected source texts

A source text that is rejected takes ids away and may leave places recorded under them.  Later
source texts do the same as if it never had been there: their expressions get greater ids, and
for these the same places are recorded (`Session.Apart.answer`).
-/

namespace Lox

theorem Report.move_id (report : Report) : report.move (fun line => line) = report := by
  rcases report with ⟨printed, outcome⟩
  cases outcome with
  | success => rfl
  | failed => rfl
  | rejected errors =>
    have same : Diagnostic.move (fun line => line) = id := by
      funext error
      cases error <;> rfl
    rw [Report.move, Outcome.move, same, List.map_id]

theorem Item.map_move_id (items : List Item) :
    items.map (Item.move fun line => line) = items := by
  have same : Item.move (fun line => line) = id := by
    funext item
    cases item <;> rfl
  rw [same, List.map_id]

namespace Session

/-- The second session skipped some ids. -/
structure Apart (first distance : Nat) (left right : Session) : Prop where
  varies : left.Varies (Renaming.skip first distance).variation right
  le : first ≤ left.nextId
  nextId : right.nextId = left.nextId + distance

namespace Apart

variable {first distance : Nat} {left right : Session}

/-- A source text is read with greater ids. -/
theorem reading (apart : left.Apart first distance right) (source : String) :
    (Reading.ofSource left.nextId source).Varies (Renaming.skip first distance)
        (Reading.ofSource right.nextId source) ∧
      (Reading.ofSource right.nextId source).nextId =
        (Reading.ofSource left.nextId source).nextId + distance := by
  have closed : (Item.tokens (Item.scan source)).any (·.kind.isEnding) :=
    Item.any_isEnding_tokens 1 _
  let shift : Shift := ⟨distance, fun line => line⟩
  have reads := Reading.varies_ofItems closed shift left.nextId
  have nextId := Reading.nextId_ofItems_move closed shift left.nextId
  rw [Item.map_move_id, ← apart.nextId] at reads nextId
  refine ⟨?_, nextId⟩
  have lines : shift.renaming.line = (Renaming.skip first distance).line := rfl
  apply reads.congr lines
  intro id member
  have bound := Reading.ids_ofItems left.nextId (Item.scan source) id member
  exact (if_neg (Nat.not_lt_of_le (Nat.le_trans apart.le bound.1))).symm

/-- A source text does the same in both sessions. -/
theorem run (apart : left.Apart first distance right) (fuel : Nat) (source : String) :
    Option.Rel (fun here there => there.1 = here.1 ∧ here.2.Apart first distance there.2)
      (left.run fuel source) (right.run fuel source) := by
  rcases apart.reading source with ⟨reads, nextId⟩
  have runs := apart.varies.runReading rfl (Renaming.skip_injective first distance) reads
    (fun _ _ => Stmt.makeAll_of_forall (fun _ => trivial) _) fuel
  apply optionRel_imp _ runs
  intro here there varies
  refine ⟨?_, varies.session, ?_, ?_⟩
  · rw [varies.report]
    exact here.1.move_id
  · rw [varies.nextId]
    exact Nat.le_trans apart.le (Reading.le_nextId_ofItems left.nextId (Item.scan source))
  · rw [varies.nextId, varies.nextId', nextId]

/-- All later source texts do the same. -/
theorem answer (apart : left.Apart first distance right) (inputs : List Input) :
    Option.Rel (fun here there => there.1 = here.1) (left.answer inputs)
      (right.answer inputs) := by
  induction inputs generalizing left right with
  | nil => exact .some rfl
  | cons input others induction =>
    cases input with
    | time clock => exact induction ⟨apart.varies.setClock clock, apart.le, apart.nextId⟩
    | source fuel text =>
      rw [Session.answer, Session.answer]
      apply optionRel_bind (apart.run fuel text)
      rintro ⟨report, after⟩ ⟨_, after'⟩ ⟨rfl, apartThen⟩
      apply optionRel_bind (induction apartThen)
      rintro ⟨reports, last⟩ ⟨_, last'⟩ rfl
      exact .some rfl

end Apart

/-! ## Rejection -/

section

variable {session after : Session} {fuel : Nat} {report : Report} {errors : List Diagnostic}

/-- Nothing runs if a program is rejected. -/
theorem machine_of_rejected {reading : Reading}
    (ran : session.runReading fuel reading = some (report, after))
    (rejected : report.outcome = .rejected errors) :
    report.printed = [] ∧ after.machine = session.machine := by
  simp only [Session.runReading] at ran
  split at ran
  · cases ran
    exact ⟨rfl, rfl⟩
  split at ran
  · cases ran
    exact ⟨rfl, rfl⟩
  · rw [Session.execute] at ran
    split at ran
    · cases ran
      cases rejected
    · cases ran
      cases rejected
    · cases ran

/-- After a source text is rejected a session is as before, but for the ids that it skips. -/
theorem IsBelow.apart {lines : Nat} {source : String} (below : session.IsBelow lines)
    (ran : session.run fuel source = some (report, after))
    (rejected : report.outcome = .rejected errors) :
    session.Apart session.nextId (after.nextId - session.nextId) after := by
  rcases addresses_runReading ran with ⟨⟨resolving, addresses⟩, nextId⟩
  have le : session.nextId ≤ after.nextId := by
    rw [nextId]
    exact Reading.le_nextId_ofItems session.nextId (Item.scan source)
  refine ⟨⟨?_, ?_⟩, Nat.le_refl _, by omega⟩
  · rw [(machine_of_rejected ran rejected).2]
    exact below.varies (Renaming.keeps_skip _ _ lines)
  · rw [nextId, addresses]
    exact renamed_read below.recorded resolving (Item.tokens (Item.scan source))

end

end Session

/--
A source text that is rejected leaves no trace.  Whatever a session has run before: the text
prints nothing, and all later source texts are reported as if it never had been there.
-/
theorem later_reports_of_rejected (clock : Float) (inputs : List Input) {reports : List Report}
    {session : Session} (reached : (Session.start clock).answer inputs = some (reports, session))
    {fuel : Nat} {source : String} {report : Report} {after : Session}
    {errors : List Diagnostic} (ran : session.run fuel source = some (report, after))
    (rejected : report.outcome = .rejected errors) :
    report.printed = [] ∧
      ∀ later : List Input,
        (after.answer later).map Prod.fst = (session.answer later).map Prod.fst := by
  rcases Session.exists_isBelow reached with ⟨lines, below⟩
  refine ⟨(Session.machine_of_rejected ran rejected).1, ?_⟩
  intro later
  have same := (below.apart ran rejected).answer later
  revert same
  generalize session.answer later = expected
  generalize after.answer later = answered
  rintro (same | _)
  · exact congrArg some same
  · rfl

/-- A block that declares and reads a local variable, and returns from no function. -/
def returningBlock : String := "\x7b var a = nil; print a; return; \x7d"

/-- The block is rejected after a place was recorded under the id of its expression. -/
theorem later_reports_of_returningBlock :
    ∃ report after, (Session.start 0).run 1 returningBlock = some (report, after) ∧
      after.nextId = 1 ∧ after.addresses[0]? = some ⟨0, 0⟩ ∧ report.printed = [] ∧
      ∀ later : List Input,
        (after.answer later).map Prod.fst = ((Session.start 0).answer later).map Prod.fst := by
  have ends : ((Session.start 0).run 1 returningBlock).map
      (fun ran => (ran.1.outcome, ran.2.nextId, ran.2.addresses[0]?)) =
        some (.rejected [.binding ⟨1, .returnOutsideFunction⟩], 1, some ⟨0, 0⟩) := by
    cbv
  rcases Option.map_eq_some_iff.mp ends with ⟨⟨report, after⟩, ran, same⟩
  rcases Prod.mk.inj same with ⟨rejected, same⟩
  rcases Prod.mk.inj same with ⟨nextId, recorded⟩
  exact ⟨report, after, ran, nextId, recorded,
    later_reports_of_rejected 0 [] rfl ran rejected⟩

end Lox
