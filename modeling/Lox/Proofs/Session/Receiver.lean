import Lox.Proofs.Receiver.Agreement
import Lox.Proofs.Session.Chronicle
import Lox.Proofs.Session.Scoping

/-!
# `this` and `super` in sessions

Sessions once more, but with a ledger: `this` is the instance that a method was bound to, and
`super` begins at the superclass of the class that declares the method.  The ledger of a
session is kept from one source text to the next, as functions are.

The main statement is `answerTied_eq_ok`: such sessions answer as other sessions do, and the
frames that hold `this` or `super` keep what was put into them.
-/

namespace Lox

open Tied (Ledger Violation)

namespace Session

/-! ## Sessions with a ledger -/

/-- What a run prints and how it ends, and the session and the ledger after it. -/
def concludeTied (outcome : Outcome) (state : Tied.State) (session : Session) :
    Report × Session × Ledger :=
  let (report, after) := session.conclude outcome state.machine
  (report, after, state.ledger)

/-- Executes the statements of a program. -/
def executeTied (fuel : Nat) (program : List Stmt) (session : Session) (ledger : Ledger) :
    Except Violation (Option (Report × Session × Ledger)) :=
  match Tied.Step.interpret session.addresses fuel none program ⟨session.machine, ledger⟩ with
  | .ok result state =>
    .ok (some (session.concludeTied (.success (result.map Value.result)) state))
  | .error (.ordinary (.fault error)) state =>
    .ok (some (session.concludeTied (.failed error) state))
  | .error (.ordinary .outOfFuel) _ => .ok none
  | .error (.violated violation) _ => .error violation

/-- Runs a source text, if nothing is wrong with it. -/
def runTied (fuel : Nat) (source : String) (session : Session) (ledger : Ledger) :
    Except Violation (Option (Report × Session × Ledger)) :=
  let reading := Reading.ofSource session.nextId source
  let session := { session with nextId := reading.nextId }
  if reading.errors ≠ [] then
    .ok (some (⟨[], .rejected reading.errors⟩, session, ledger))
  else
    let resolution := resolve reading.statements
    let session := session.record resolution.bindings
    if resolution.errors ≠ [] then
      .ok (some (⟨[], .rejected (resolution.errors.map .binding)⟩, session, ledger))
    else
      session.executeTied fuel reading.statements ledger

/-- Runs source texts one after the other. -/
def answerTied : List Input → Session → Ledger →
    Except Violation (Option (List Report × Session × Ledger))
  | [], session, ledger => .ok (some ([], session, ledger))
  | .time clock :: others, session, ledger => (session.setClock clock).answerTied others ledger
  | .source fuel text :: others, session, ledger => do
    match ← session.runTied fuel text ledger with
    | none => return none
    | some (report, after, ledger) =>
      match ← after.answerTied others ledger with
      | none => return none
      | some (reports, last) => return some (report :: reports, last)

/-! ## What holds between two programs -/

/--
What holds in a session in which programs were executed, all of them without faults, with
all that happened and a ledger.
-/
structure Keeps (programs : List (List Stmt)) (session : Session) (events : List Event)
    (ledger : Ledger) : Prop where
  fits : session.Fits IsPlainName programs events
  exact : (session.setting IsPlainName programs).Exact
  knows : Tied.Knows (session.setting IsPlainName programs) ledger ⟨events, session.machine⟩

variable {programs : List (List Stmt)} {session : Session} {events : List Event} {ledger : Ledger}

/-- A program is read, but not executed. -/
theorem Fits.skip {names : String → Prop} (fits : session.Fits names programs events)
    (resolving : Bool) (tokens : List Token) :
    (session.read resolving tokens).Fits names programs events := by
  constructor
  · constructor
    · exact fits.sound.distinct
    · intro occurrence member address found
      have isOld := fits.ids_lt occurrence member
      have same := session.addresses_read_of_lt tokens resolving isOld
      exact fits.sound.recorded occurrence member address (same.symm.trans found)
  · exact fits.proper
  · intro occurrence member
    exact Nat.lt_of_lt_of_le (fits.ids_lt occurrence member)
      (session.nextId_le_read tokens resolving)
  · exact session.recorded_read tokens fits.recorded_lt resolving
  · exact fits.fits.mono ⟨rfl, List.Subset.refl _⟩
  · exact fits.current

namespace Keeps

/-- In a new machine there is one function, and it has no body. -/
theorem start (clock : Float) : (Session.start clock).Keeps [] [] .empty := by
  have fits : (Session.start clock).Fits IsPlainName [] [] :=
    Session.fits_start clock
  have rooted : Machine.root < (Moment.layout ⟨[], (Session.start clock).machine⟩).size :=
    fits.fits.root_isFrame
  refine ⟨fits, (matches_start clock).exact, ?_, fun _ _ => ⟨rfl, rfl⟩, ?_⟩
  · constructor
    · intro frame index slot here
      have noSlots : (Session.start clock).machine.frames.slots frame = #[] := by
        show (Frames.slots (Frames.addRoot Frames.empty) frame) = #[]
        cases frame <;> rfl
      rw [noSlots] at here
      cases here
    · intro name slot found
      simp only [Session.start, Machine.start, Std.TreeMap.getElem?_insert] at found
      split at found
      · cases found
        refine ⟨.outside, [], .root rooted, ?_, ?_⟩
        · intro definition isInitializer impossible
          cases impossible
        · intro impossible
          cases impossible
      · simp at found
    · intro id table name value impossible
      simp [Session.start, Machine.start] at impossible
  · intro frame value impossible
    cases impossible

theorem setClock (keeps : session.Keeps programs events ledger) (clock : Float) :
    (session.setClock clock).Keeps programs events ledger := by
  refine ⟨keeps.fits.setClock clock, keeps.exact, ?_, keeps.knows.fresh, keeps.knows.holders⟩
  exact keeps.knows.functions.congr rfl rfl rfl

/-- A program is read, but not executed. -/
theorem skip (keeps : session.Keeps programs events ledger) (resolving : Bool)
    (tokens : List Token) : (session.read resolving tokens).Keeps programs events ledger := by
  refine ⟨keeps.fits.skip resolving tokens,
    exact_read keeps.exact keeps.fits.ids_lt resolving tokens, ?_⟩
  exact keeps.knows.mono ⟨rfl, List.Subset.refl _⟩

/-- A program without faults is read. -/
theorem readWell (keeps : session.Keeps programs events ledger) {tokens : List Token}
    (named : Grammar.Named IsPlainName tokens)
    (well : (resolve (Grammar.parse session.nextId tokens).statements).errors = []) :
    (session.read true tokens).Keeps
      (programs ++ [(Grammar.parse session.nextId tokens).statements]) events ledger := by
  refine ⟨keeps.fits.read true tokens named,
    exact_readWell keeps.exact keeps.fits.ids_lt keeps.fits.recorded_lt tokens well, ?_⟩
  apply keeps.knows.mono
  refine ⟨rfl, ?_⟩
  rw [setting, setting, List.flatMap_append]
  exact List.subset_append_left _ _

end Keeps

/-! ## Answers -/

/--
A run with a ledger ends as one without, and without a violation.  What holds between two
programs holds afterwards.
-/
inductive EndsAlike {α : Type} :
    Except Violation (Option (α × Session × Ledger)) → Option (α × Session) → Prop where
  | none : EndsAlike (.ok none) none
  | some (result : α) {programs after events ledger}
      (keeps : after.Keeps programs events ledger) :
      EndsAlike (.ok (some (result, after, ledger))) (some (result, after))

namespace Keeps

/-- A program is executed. -/
theorem execute (keeps : session.Keeps programs events ledger) (fuel : Nat) {program : List Stmt}
    (member : program ∈ programs) :
    EndsAlike (session.executeTied fuel program ledger) (session.execute fuel program) := by
  have fits := keeps.fits
  have code : Tied.Code (session.setting IsPlainName programs) .outside [] none
      ⟨events, session.machine⟩ ledger := by
    refine ⟨fits.fits, fits.stands, keeps.knows, ?_⟩
    intro impossible
    cases impossible
  have known : Stmt.occurrencesAll .outside [] program ⊆
      (session.setting IsPlainName programs).occurrences :=
    fun _ isUse => List.mem_flatMap.mpr ⟨program, member, isUse⟩
  have told := Tied.tells_interpret fits.sound keeps.exact fuel program none code known
    (fits.proper program member)
  have concludes : ∀ (outcome : Outcome) (machine : Machine) (after : Ledger),
      session.execute fuel program = some (session.conclude outcome machine) →
      Tied.Knows (session.setting IsPlainName programs) after
        ⟨events ++ session.events fuel program, machine⟩ →
      EndsAlike (.ok (some (session.concludeTied outcome ⟨machine, after⟩)))
        (some (session.conclude outcome machine)) := by
    intro outcome machine after executed knows
    refine EndsAlike.some (session.conclude outcome machine).1
      ⟨fits.execute member executed, keeps.exact, ?_, knows.fresh, knows.holders⟩
    exact knows.functions.congr rfl rfl rfl
  rw [Tied.Tells, Watched.step_interpret] at told
  rw [Session.executeTied, Session.execute]
  rw [Session.execute] at concludes
  revert told concludes
  dsimp only [setting]
  cases Step.interpret session.addresses fuel none program session.machine with
  | ok result machine =>
    rintro ⟨after, same, -, knows, -⟩ concludes
    rw [same]
    exact concludes _ machine after rfl knows
  | error stop machine =>
    rintro ⟨after, same, -, knows⟩ concludes
    rw [same]
    cases stop with
    | fault error => exact concludes _ machine after rfl knows
    | outOfFuel => exact .none

/-- A source text is run. -/
theorem run (keeps : session.Keeps programs events ledger) (fuel : Nat) (source : String) :
    EndsAlike (session.runTied fuel source ledger) (session.run fuel source) := by
  have named := Item.named_scan source
  simp only [Session.runTied, Session.run]
  split
  · exact .some _ (keeps.skip false (Item.tokens (Item.scan source)))
  · split
    · exact .some _ (keeps.skip true (Item.tokens (Item.scan source)))
    · next well =>
      have readWell := keeps.readWell named (not_not.mp well)
      exact readWell.execute fuel (List.mem_append_right _ List.mem_cons_self)

/-- Source texts are run one after the other. -/
theorem answer (inputs : List Input) (keeps : session.Keeps programs events ledger) :
    EndsAlike (session.answerTied inputs ledger) (session.answer inputs) := by
  induction inputs generalizing session programs events ledger with
  | nil => exact .some [] keeps
  | cons first others induction =>
    cases first with
    | time clock => exact induction (keeps.setClock clock)
    | source fuel text =>
      have ran := keeps.run fuel text
      rw [Session.answerTied, Session.answer]
      revert ran
      generalize session.runTied fuel text ledger = tied
      generalize session.run fuel text = other
      intro ran
      cases ran with
      | none => exact .none
      | @some report programs after events ledger keepsThen =>
        have answered := induction keepsThen
        show EndsAlike (do
          match ← after.answerTied others ledger with
          | none => return none
          | some (reports, last) => return some (report :: reports, last))
          (after.answer others >>= fun answered => some (report :: answered.1, answered.2))
        revert answered
        generalize after.answerTied others ledger = tied
        generalize after.answer others = other
        intro answered
        cases answered with
        | none => exact .none
        | some reports keepsLast => exact .some (report :: reports) keepsLast

end Keeps

end Session

/--
Whatever source texts a session runs: if `this` is taken to be the instance that the running
method, or the one around the running function, was bound to when it was fetched, and `super`
to begin at the superclass of the class value that was made with that method, then nothing
changes.  It is always noted what the two mean, so they never fail as undefined variables do.
The superclass of a class value is the one that its declaration found.  No frame that holds
`this` or `super` is written or gets a slot, and in the end each of them still has one slot,
with what was put into it.
-/
theorem answerTied_eq_ok (clock : Float) (inputs : List Input) :
    (∃ outcome, (Session.start clock).answerTied inputs .empty = .ok outcome ∧
      outcome.map (fun answered => (answered.1, answered.2.1)) =
        (Session.start clock).answer inputs ∧
      ∀ reports session ledger, outcome = some (reports, session, ledger) →
        ∀ frame value, ledger.holders frame = some value →
          session.machine.frames.slots frame = #[.initialised value]) ∧
    ∀ (own : ClassBody) (superclass : Option Class),
      (Class.extending own superclass).superclass? = superclass := by
  refine ⟨?_, Class.superclass?_extending⟩
  have ends := (Session.Keeps.start clock).answer inputs
  revert ends
  generalize (Session.start clock).answerTied inputs .empty = tied
  generalize (Session.start clock).answer inputs = other
  intro ends
  cases ends with
  | none => exact ⟨none, rfl, rfl, fun _ _ _ impossible => by cases impossible⟩
  | some result keeps =>
    refine ⟨_, rfl, rfl, ?_⟩
    rintro _ _ _ ⟨⟩ frame value holds
    exact (keeps.knows.holders frame value holds).1

end Lox
