import Lox.Proofs.Journal.Agreement
import Lox.Proofs.Scope.Rules
import Lox.Proofs.Session.Receiver

/-!
# Sessions with a journal

Sessions once more, but with a journal of all that happens, which goes on from one source text to
the next, also behind texts that fail.  Such sessions answer as other sessions do, and their
journals are right (`answerNoted_endsRight`).
-/

namespace Lox

open Noted (Journal)

namespace Session

/-- Executes the statements of a program; what happens is noted, however it ends. -/
def executeNoted (fuel : Nat) (program : List Stmt) (session : Session) (journal : Journal) :
    Option (Report × Session) × Journal :=
  match Noted.Step.interpret session.addresses fuel none program ⟨session.machine, journal⟩ with
  | .ok result state =>
    (some (session.conclude (.success (result.map Value.result)) state.machine), state.journal)
  | .error (.fault error) state =>
    (some (session.conclude (.failed error) state.machine), state.journal)
  | .error .outOfFuel state => (none, state.journal)

/-- Runs a source text, if nothing is wrong with it. -/
def runNoted (fuel : Nat) (source : String) (session : Session) (journal : Journal) :
    Option (Report × Session) × Journal :=
  let reading := Reading.ofSource session.nextId source
  let session := { session with nextId := reading.nextId }
  if reading.errors ≠ [] then
    (some (⟨[], .rejected reading.errors⟩, session), journal)
  else
    let resolution := resolve reading.statements
    let session := session.record resolution.bindings
    if resolution.errors ≠ [] then
      (some (⟨[], .rejected (resolution.errors.map .binding)⟩, session), journal)
    else
      session.executeNoted fuel reading.statements journal

/-- Runs source texts one after the other. -/
def answerNoted : List Input → Session → Journal → Option (List Report × Session) × Journal
  | [], session, journal => (some ([], session), journal)
  | .time clock :: others, session, journal => (session.setClock clock).answerNoted others journal
  | .source fuel text :: others, session, journal =>
    match session.runNoted fuel text journal with
    | (none, last) => (none, last)
    | (some (report, after), between) =>
      let (answered, last) := after.answerNoted others between
      (answered.map fun (reports, final) => (report :: reports, final), last)

/-! ## What holds between two programs -/

/-- What holds in a session in which programs were executed, with all that happened. -/
structure Remembers (programs : List (List Stmt)) (session : Session) (events : List Event)
    (journal : Journal) : Prop where
  fits : session.Fits IsPlainName programs events
  knows : Noted.Knows (session.setting IsPlainName programs) journal ⟨events, session.machine⟩

variable {programs : List (List Stmt)} {session : Session} {events : List Event}
  {journal : Journal}

namespace Remembers

/-- In a new machine there is one function, and it has no body. -/
theorem start (clock : Float) : (Session.start clock).Remembers [] [] [] := by
  have fits : (Session.start clock).Fits IsPlainName [] [] := Session.fits_start clock
  have noSlots : ∀ frame, (Session.start clock).machine.frames.slots frame = #[] := by
    intro frame
    show (Frames.slots (Frames.addRoot Frames.empty) frame) = #[]
    cases frame <;> rfl
  refine ⟨fits, fits.fits, ?_, ?_, ?_, ?_, Noted.areRight_nil⟩
  · constructor
    · intro frame index slot here
      rw [noSlots] at here
      cases here
    · intro name slot found
      simp only [Session.start, Machine.start, Std.TreeMap.getElem?_insert] at found
      split at found
      · cases found
        refine ⟨⟨.program, .root fits.fits.root_isFrame, .nil _ _ _ _, ?_⟩, ?_⟩
        · intro definition isInitializer impossible
          cases impossible
        · intro definition impossible
          cases impossible
      · simp at found
    · intro id table name value impossible
      simp [Session.start, Machine.start] at impossible
  · intro bound target impossible
    cases impossible
  · intro declarer frame slot impossible
    cases impossible
  · intro first second frame slot impossible
    cases impossible

theorem setClock (remembers : session.Remembers programs events journal) (clock : Float) :
    (session.setClock clock).Remembers programs events journal := by
  have fits := remembers.fits.setClock clock
  refine ⟨fits, remembers.knows.quiet fits.fits (.of_frames (.refl _) rfl) rfl rfl ?_⟩
  exact remembers.knows.functions.congr rfl rfl rfl

/-- A program is read, but not executed. -/
theorem skip (remembers : session.Remembers programs events journal) (resolving : Bool)
    (tokens : List Token) :
    (session.read resolving tokens).Remembers programs events journal :=
  ⟨remembers.fits.skip resolving tokens, remembers.knows.read ⟨rfl, List.Subset.refl _⟩⟩

/-- A program without faults is read. -/
theorem readWell (remembers : session.Remembers programs events journal) {tokens : List Token}
    (named : Grammar.Named IsPlainName tokens) :
    (session.read true tokens).Remembers
      (programs ++ [(Grammar.parse session.nextId tokens).statements]) events journal := by
  refine ⟨remembers.fits.read true tokens named, remembers.knows.read ⟨rfl, ?_⟩⟩
  rw [setting, setting, List.flatMap_append]
  exact List.subset_append_left _ _

end Remembers

/-! ## Answers -/

/--
A run with a journal ends as one without, and its journal is right.  What holds between two
programs holds afterwards.
-/
structure EndsRight {α : Type} (noted : Option (α × Session) × Journal)
    (ends : Option (α × Session)) : Prop where
  same : noted.1 = ends
  right : Noted.AreRight noted.2
  remembers : ∀ result after, ends = some (result, after) →
    ∃ programs events, after.Remembers programs events noted.2

namespace Remembers

/-- Nothing is executed. -/
theorem endsRight {α : Type} (remembers : session.Remembers programs events journal)
    (result : α) : EndsRight (some (result, session), journal) (some (result, session)) := by
  refine ⟨rfl, remembers.knows.right, ?_⟩
  rintro _ _ ⟨⟩
  exact ⟨programs, events, remembers⟩

/-- What a program does that obeys the rules on scopes. -/
theorem notes (remembers : session.Remembers programs events journal) (fuel : Nat)
    {program : List Stmt} (member : program ∈ programs)
    (sites : ∀ site ∈ Program.sites program, site.IsSound) :
    Noted.Notes (session.setting IsPlainName programs)
      (Watched.interpret session.addresses fuel none program)
      (Noted.Step.interpret session.addresses fuel none program) ⟨events, session.machine⟩ journal
      Noted.Anything := by
  have fits := remembers.fits
  have code : Noted.Code (session.setting IsPlainName programs) .program none
      ⟨events, session.machine⟩ journal := by
    refine ⟨fits.stands, remembers.knows, ?_, ?_, .nil _ _ _ _⟩
    · intro name impossible
      cases impossible
    · intro time impossible
      cases impossible
  have known : Stmt.occurrencesAll .outside [] program ⊆
      (session.setting IsPlainName programs).occurrences :=
    fun _ isUse => List.mem_flatMap.mpr ⟨program, member, isUse⟩
  exact Noted.notes_interpret fits.sound (plain_setting _ _) fuel program none code known
    (fits.proper program member) sites

/-- A program that obeys the rules on scopes is executed. -/
theorem execute (remembers : session.Remembers programs events journal) (fuel : Nat)
    {program : List Stmt} (member : program ∈ programs)
    (sites : ∀ site ∈ Program.sites program, site.IsSound) :
    EndsRight (session.executeNoted fuel program journal) (session.execute fuel program) := by
  have told := remembers.notes fuel member sites
  have concludes : ∀ (outcome : Outcome) (machine : Machine) (after : Journal),
      session.execute fuel program = some (session.conclude outcome machine) →
      Noted.Knows (session.setting IsPlainName programs) after
        ⟨events ++ session.events fuel program, machine⟩ →
      EndsRight (some (session.conclude outcome machine), after)
        (some (session.conclude outcome machine)) := by
    intro outcome machine after executed knows
    have fits := remembers.fits.execute member executed
    refine endsRight ⟨fits, ?_⟩ _
    exact knows.quiet fits.fits (.of_frames (.refl _) rfl) rfl rfl
      (knows.functions.congr rfl rfl rfl)
  rw [Noted.Notes, Watched.step_interpret] at told
  rw [Session.executeNoted, Session.execute]
  rw [Session.execute] at concludes
  revert told concludes
  dsimp only
  cases Step.interpret session.addresses fuel none program session.machine with
  | ok result machine =>
    rintro ⟨after, same, continues, -⟩ concludes
    rw [same]
    exact concludes _ machine after rfl continues.knows
  | error stop machine =>
    rintro ⟨after, same, knows, -⟩ concludes
    rw [same]
    cases stop with
    | fault error => exact concludes _ machine after rfl knows
    | outOfFuel =>
      refine ⟨rfl, knows.right, ?_⟩
      intro _ _ impossible
      cases impossible

/-- The journal of a program that fails since a variable has no value ends with the read of it. -/
theorem execute_explains (remembers : session.Remembers programs events journal) {fuel : Nat}
    {program : List Stmt} (member : program ∈ programs)
    (sites : ∀ site ∈ Program.sites program, site.IsSound) {printed : List String}
    {error : RuntimeError} {after : Session}
    (failed : session.execute fuel program = some (⟨printed, .failed error⟩, after)) :
    Noted.Explains (session.executeNoted fuel program journal).2 (.fault error) := by
  have told := remembers.notes fuel member sites
  rw [Noted.Notes, Watched.step_interpret] at told
  rw [Session.execute] at failed
  rw [Session.executeNoted]
  revert failed told
  dsimp only
  cases Step.interpret session.addresses fuel none program session.machine with
  | ok result machine =>
    intro impossible
    cases impossible
  | error stop machine =>
    rintro failed ⟨after, same, -, explains⟩
    rw [same]
    cases stop with
    | fault error =>
      cases failed
      exact explains
    | outOfFuel => cases failed

/-- A source text is run. -/
theorem run (remembers : session.Remembers programs events journal) (fuel : Nat)
    (source : String) :
    EndsRight (session.runNoted fuel source journal) (session.run fuel source) := by
  have named := Item.named_scan source
  simp only [Session.runNoted, Session.run]
  split
  · exact (remembers.skip false (Item.tokens (Item.scan source))).endsRight _
  · split
    · exact (remembers.skip true (Item.tokens (Item.scan source))).endsRight _
    · next well =>
      have readWell := remembers.readWell named
      exact readWell.execute fuel (List.mem_append_right _ List.mem_cons_self)
        ((errors_resolve _).mp (not_not.mp well))

/-- The journal of a text that fails since a variable has no value ends with the read of it. -/
theorem run_explains (remembers : session.Remembers programs events journal) {fuel : Nat}
    {source : String} {printed : List String} {error : RuntimeError} {after : Session}
    (failed : session.run fuel source = some (⟨printed, .failed error⟩, after)) :
    Noted.Explains (session.runNoted fuel source journal).2 (.fault error) := by
  have named := Item.named_scan source
  revert failed
  simp only [Session.runNoted, Session.run]
  split
  · intro impossible
    cases impossible
  · split
    · intro impossible
      cases impossible
    · next well =>
      exact fun failed => (remembers.readWell named).execute_explains
        (List.mem_append_right _ List.mem_cons_self)
        ((errors_resolve _).mp (not_not.mp well)) failed

/-- Source texts are run one after the other. -/
theorem answer (inputs : List Input) (remembers : session.Remembers programs events journal) :
    EndsRight (session.answerNoted inputs journal) (session.answer inputs) := by
  induction inputs generalizing session programs events journal with
  | nil => exact remembers.endsRight []
  | cons first others induction =>
    cases first with
    | time clock => exact induction (remembers.setClock clock)
    | source fuel text =>
      have ran := remembers.run fuel text
      rw [Session.answerNoted, Session.answer]
      revert ran
      generalize session.runNoted fuel text journal = noted
      generalize session.run fuel text = ends
      rintro ⟨same, right, remembersThen⟩
      rcases noted with ⟨outcome, between⟩
      cases same
      cases outcome with
      | none =>
        refine ⟨rfl, right, ?_⟩
        intro _ _ impossible
        cases impossible
      | some result =>
        rcases result with ⟨report, after⟩
        rcases remembersThen report after rfl with ⟨programs, events, remembersThen⟩
        have answered := induction remembersThen
        show EndsRight ((after.answerNoted others between).1.map _,
            (after.answerNoted others between).2)
          (after.answer others >>= fun answered => some (report :: answered.1, answered.2))
        revert answered
        generalize after.answerNoted others between = noted
        generalize after.answer others = ends
        rintro ⟨same, right, remembersLast⟩
        rcases noted with ⟨outcome, last⟩
        cases same
        cases outcome with
        | none =>
          refine ⟨rfl, right, ?_⟩
          intro _ _ impossible
          cases impossible
        | some result =>
          rcases result with ⟨reports, final⟩
          rcases remembersLast reports final rfl with ⟨programs, events, remembersLast⟩
          exact remembersLast.endsRight (report :: reports)

end Remembers

/-- Sessions with a journal answer as others do, and what their journals say is right. -/
theorem answerNoted_endsRight (clock : Float) (inputs : List Input) :
    EndsRight ((Session.start clock).answerNoted inputs []) ((Session.start clock).answer inputs) :=
  (Remembers.start clock).answer inputs

end Session

end Lox
