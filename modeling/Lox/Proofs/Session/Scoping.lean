import Lox.Proofs.Lexical.Agreement
import Lox.Proofs.Session.Record
import Lox.Proofs.Source.Name

/-!
# Sessions without frames

A session runs source texts on the machine with cells.  What is wrong with a source text
is found in the same way, but nothing else that was found out about it is used.

The main statement is `same_reports`: whatever source texts are run one after the other,
both kinds of sessions print and yield the same, and have the same globals in the end.
-/

namespace Lox

namespace Lexical

/-- A machine without frames; ids are counted as in sessions with frames. -/
structure Session where
  machine : Machine
  nextId : Nat

namespace Session

/-- A session in which nothing has run; `clock` is the time. -/
def start (clock : Float) : Session where
  machine := Machine.start clock
  nextId := 0

/-- Sets the time. -/
def setClock (clock : Float) (session : Session) : Session :=
  { session with machine := { session.machine with clock := clock } }

/-- What the machine has printed and how the run ends, and the session after it. -/
def conclude (outcome : Outcome) (machine : Machine) (session : Session) : Report × Session :=
  (⟨machine.printed.toList, outcome⟩, { session with machine := { machine with printed := #[] } })

/-- Executes the statements of a program; nothing is around them. -/
def execute (fuel : Nat) (program : List Stmt) (session : Session) : Option (Report × Session) :=
  match Step.interpret fuel [] none program session.machine with
  | .ok result machine => some (session.conclude (.success (result.map Value.result)) machine)
  | .error (.fault error) machine => some (session.conclude (.failed error) machine)
  | .error .outOfFuel _ => none

/-- Runs a source text, if nothing is wrong with it. -/
def run (fuel : Nat) (source : String) (session : Session) : Option (Report × Session) :=
  let reading := Reading.ofSource session.nextId source
  let session := { session with nextId := reading.nextId }
  let faults := (resolve reading.statements).errors
  if reading.errors ≠ [] then
    some (⟨[], .rejected reading.errors⟩, session)
  else if faults ≠ [] then
    some (⟨[], .rejected (faults.map .binding)⟩, session)
  else
    session.execute fuel reading.statements

end Session

end Lexical

/-! ## Inputs of sessions -/

/-- What is given to a session. -/
inductive Input where
  /-- The time is set. -/
  | time (clock : Float)
  /-- A source text is run. -/
  | source (fuel : Nat) (text : String)

/-- The reports on the source texts of inputs, and the session after them. -/
def Session.answer : List Input → Session → Option (List Report × Session)
  | [], session => some ([], session)
  | .time clock :: others, session => (session.setClock clock).answer others
  | .source fuel text :: others, session => do
    let (report, session) ← session.run fuel text
    let (reports, session) ← session.answer others
    return (report :: reports, session)

/-- The same without frames. -/
def Lexical.Session.answer : List Input → Lexical.Session → Option (List Report × Lexical.Session)
  | [], session => some ([], session)
  | .time clock :: others, session => (session.setClock clock).answer others
  | .source fuel text :: others, session => do
    let (report, session) ← session.run fuel text
    let (reports, session) ← session.answer others
    return (report :: reports, session)

/-! ## Sessions that match -/

/-- Two sessions in which the same programs were executed, all of them without faults. -/
structure Session.Matches (programs : List (List Stmt)) (session : Session)
    (reference : Lexical.Session) : Prop where
  nextId : session.nextId = reference.nextId
  exact : (session.setting IsPlainName programs).Exact
  ids_lt : ∀ occurrence ∈ programs.flatMap Program.occurrences, occurrence.id < session.nextId
  recorded_lt : ∀ id address, session.addresses[id]? = some address → id < session.nextId
  fits : ∃ layout, Pairing.Fits (session.setting IsPlainName programs)
    ⟨layout, session.machine, reference.machine⟩
  current : session.machine.current = Machine.root

namespace Session

variable {programs : List (List Stmt)} {session : Session} {reference : Lexical.Session}

theorem plain_setting (programs : List (List Stmt)) (session : Session) :
    (session.setting IsPlainName programs).Plain := by
  intro name isPlain
  constructor
  · rintro rfl
    cases isPlain
  · rintro rfl
    cases isPlain

/-- When another program is read, the places recorded for executed ones stay. -/
theorem exact_read (exact : (session.setting IsPlainName programs).Exact)
    (ids_lt : ∀ occurrence ∈ programs.flatMap Program.occurrences, occurrence.id < session.nextId)
    (resolving : Bool) (tokens : List Token) :
    ((session.read resolving tokens).setting IsPlainName programs).Exact := by
  constructor
  · exact plain_setting _ _
  · exact exact.legal
  · intro occurrence member
    show (session.read resolving tokens).addresses[occurrence.id]? = _
    rw [session.addresses_read_of_lt tokens resolving (ids_lt _ member)]
    exact exact.recorded occurrence member

/-- When a program without faults is read, the places of its uses are recorded. -/
theorem exact_readWell (exact : (session.setting IsPlainName programs).Exact)
    (ids_lt : ∀ occurrence ∈ programs.flatMap Program.occurrences, occurrence.id < session.nextId)
    (recorded_lt : ∀ id address, session.addresses[id]? = some address → id < session.nextId)
    (tokens : List Token)
    (well : (resolve (Grammar.parse session.nextId tokens).statements).errors = []) :
    ((session.read true tokens).setting IsPlainName
      (programs ++ [(Grammar.parse session.nextId tokens).statements])).Exact := by
  have before := exact_read exact ids_lt true tokens
  have visits := visits_program (Grammar.parse session.nextId tokens).statements
  have legal := (visits.errors (Array.toList_eq_nil_iff.mp well)).2
  have split : (programs ++ [(Grammar.parse session.nextId tokens).statements]).flatMap
      Program.occurrences = programs.flatMap Program.occurrences ++
        Program.occurrences (Grammar.parse session.nextId tokens).statements := by
    simp
  constructor
  · exact plain_setting _ _
  · rw [setting, split]
    exact List.forall_mem_append.mpr ⟨before.legal, legal⟩
  · rw [setting, split]
    refine List.forall_mem_append.mpr ⟨before.recorded, ?_⟩
    intro occurrence isNew
    apply session.addresses_read_of_mem tokens isNew
    apply Option.eq_none_iff_forall_ne_some.mpr
    intro address found
    have old := recorded_lt _ _ found
    exact Nat.not_le_of_lt old (session.id_of_read tokens isNew).1

/-- Nothing is local in a new machine. -/
theorem matches_start (clock : Float) : (start clock).Matches [] (.start clock) := by
  constructor
  · rfl
  · constructor
    · exact plain_setting _ _
    · intro occurrence impossible
      cases impossible
    · intro occurrence impossible
      cases impossible
  · intro occurrence impossible
    cases impossible
  · intro id address impossible
    simp [start] at impossible
  · refine ⟨⟨1, fun _ => none, fun _ => []⟩, ?_, ?_⟩
    · constructor
      · rfl
      · funext frame
        cases frame <;> rfl
      · exact Nat.zero_lt_one
      · rfl
      · intro frame
        cases frame <;> exact .nil
      · intro frame frame' index index' declared declared' cell impossible
        cases impossible
    · constructor
      · apply (Table.related_empty _).insert
        apply Slot.Related.initialised
        apply Value.Related.function
        refine ⟨rfl, rfl, rfl, .outside, [], .root Nat.zero_lt_one, rfl, ?_⟩
        intro definition isInitializer impossible
        cases impossible
      · rfl
      · exact fun _ => .none
      · rfl
      · rfl
      · rfl
  · rfl

theorem Matches.setClock (matched : session.Matches programs reference) (clock : Float) :
    (session.setClock clock).Matches programs (reference.setClock clock) := by
  rcases matched.fits with ⟨layout, frames, globals, size, fields, nextId, printed, -⟩
  exact ⟨matched.nextId, matched.exact, matched.ids_lt, matched.recorded_lt,
    ⟨layout, frames, globals, size, fields, nextId, printed, rfl⟩, matched.current⟩

/-- A program is read, but not executed. -/
theorem Matches.read (matched : session.Matches programs reference) (resolving : Bool)
    (tokens : List Token) :
    (session.read resolving tokens).Matches programs
      { reference with nextId := (Grammar.parse session.nextId tokens).nextId } := by
  have later := session.nextId_le_read tokens resolving
  constructor
  · rfl
  · exact exact_read matched.exact matched.ids_lt resolving tokens
  · intro occurrence member
    exact Nat.lt_of_lt_of_le (matched.ids_lt occurrence member) later
  · intro id address found
    rcases session.addresses_read tokens resolving found with ⟨occurrence, isNew, rfl, -⟩ | before
    · exact (session.id_of_read tokens isNew).2
    · exact Nat.lt_of_lt_of_le (matched.recorded_lt id address before) later
  · rcases matched.fits with ⟨layout, fits⟩
    have same : (session.setting IsPlainName programs).Le
        ((session.read resolving tokens).setting IsPlainName programs) := ⟨rfl, List.Subset.refl _⟩
    exact ⟨layout, fits.frames.mono same, fits.agrees.mono same (.refl _)⟩
  · exact matched.current

/-- A program without faults is read. -/
theorem Matches.readWell (matched : session.Matches programs reference) (tokens : List Token)
    (well : (resolve (Grammar.parse session.nextId tokens).statements).errors = []) :
    (session.read true tokens).Matches
      (programs ++ [(Grammar.parse session.nextId tokens).statements])
      { reference with nextId := (Grammar.parse session.nextId tokens).nextId } := by
  have before := matched.read true tokens
  have split : (programs ++ [(Grammar.parse session.nextId tokens).statements]).flatMap
      Program.occurrences = programs.flatMap Program.occurrences ++
        Program.occurrences (Grammar.parse session.nextId tokens).statements := by
    simp
  have more : ((session.read true tokens).setting IsPlainName programs).Le
      ((session.read true tokens).setting IsPlainName
        (programs ++ [(Grammar.parse session.nextId tokens).statements])) := by
    refine ⟨rfl, ?_⟩
    rw [setting, setting, split]
    exact List.subset_append_left _ _
  constructor
  · rfl
  · exact exact_readWell matched.exact matched.ids_lt matched.recorded_lt tokens well
  · rw [split]
    refine List.forall_mem_append.mpr ⟨before.ids_lt, ?_⟩
    exact fun occurrence isNew => (session.id_of_read tokens isNew).2
  · exact before.recorded_lt
  · rcases before.fits with ⟨layout, fits⟩
    exact ⟨layout, fits.frames.mono more, fits.agrees.mono more (.refl _)⟩
  · exact before.current

/-- Two results of a run: the same report, and sessions that match; or both have none. -/
abbrev SameRun : Option (Report × Session) → Option (Report × Lexical.Session) → Prop :=
  Option.Rel fun left right => left.1 = right.1 ∧ ∃ programs, left.2.Matches programs right.2

/-- A program is executed on both machines. -/
theorem Matches.execute (matched : session.Matches programs reference) (fuel : Nat)
    {program : List Stmt} (member : program ∈ programs)
    (proper : Stmt.AreProper IsPlainName program) :
    SameRun (session.execute fuel program) (reference.execute fuel program) := by
  rcases matched.fits with ⟨layout, fits⟩
  have stands : Pairing.Stands (session.setting IsPlainName programs) .outside []
      ⟨layout, session.machine, reference.machine⟩ := by
    constructor
    · intro impossible
      cases impossible
    · exact Local.areNamed_nil
    · show Layout.Chain _ [] session.machine.current
      rw [matched.current]
      exact .root fits.frames.root_isFrame
    · show layout.row session.machine.current = []
      rw [matched.current]
      exact fits.frames.root_row
  have known : Stmt.occurrencesAll .outside [] program ⊆
      (session.setting IsPlainName programs).occurrences :=
    fun _ isUse => List.mem_flatMap.mpr ⟨program, member, isUse⟩
  have same := Simulates.interpret matched.exact fuel program fits stands known proper .none
  have concludes : ∀ {machine : Machine} {machine' : Lexical.Machine} {layout' : Layout Placed}
      (outcome : Outcome), Leads (session.setting IsPlainName programs)
        ⟨layout, session.machine, reference.machine⟩ ⟨layout', machine, machine'⟩ →
      (session.conclude outcome machine).1 = (reference.conclude outcome machine').1 ∧
        ∃ programs, (session.conclude outcome machine).2.Matches programs
          (reference.conclude outcome machine').2 := by
    intro machine machine' layout' outcome leads
    rcases leads with ⟨⟨frames, globals, size, fields, nextId, printed, clock⟩, -, current⟩
    constructor
    · rw [conclude, Lexical.Session.conclude, printed]
    · exact ⟨programs, matched.nextId, matched.exact, matched.ids_lt, matched.recorded_lt,
        ⟨layout', frames, globals, size, fields, nextId, rfl, clock⟩,
        current.trans matched.current⟩
  rw [Session.execute, Lexical.Session.execute]
  rw [Simulates] at same
  revert same
  dsimp only [setting]
  generalize Step.interpret _ _ _ _ _ = ends
  generalize Lexical.Step.interpret _ _ _ _ _ = ends'
  intro same
  cases same with
  | @ok result result' machine machine' layout' leads holds =>
    have sameResult : result.map Value.result = result'.map Value.result := by
      cases holds with
      | none => rfl
      | some holds => exact congrArg some holds.result_eq
    dsimp only
    rw [sameResult]
    exact .some (concludes _ leads)
  | error stop layout' leads =>
    cases stop with
    | fault error => exact .some (concludes _ leads)
    | outOfFuel => exact .none

/-- A source text is run on both machines. -/
theorem Matches.run (matched : session.Matches programs reference) (fuel : Nat)
    (source : String) : SameRun (session.run fuel source) (reference.run fuel source) := by
  have named := Item.named_scan source
  have builds := Grammar.parse_builds IsPlainName session.nextId (Item.tokens (Item.scan source))
    named
  simp only [Session.run, Lexical.Session.run, ← matched.nextId]
  split
  · exact .some ⟨rfl, programs, matched.read false (Item.tokens (Item.scan source))⟩
  · split
    · exact .some ⟨rfl, programs, matched.read true (Item.tokens (Item.scan source))⟩
    · next well =>
      have readWell := matched.readWell (Item.tokens (Item.scan source)) (not_not.mp well)
      exact readWell.execute fuel (List.mem_append_right _ List.mem_cons_self) builds.1

/-- Sessions that match answer in the same way. -/
theorem Matches.answer (inputs : List Input) (matched : session.Matches programs reference) :
    Option.Rel (fun left right => left.1 = right.1 ∧ ∃ programs, left.2.Matches programs right.2)
      (session.answer inputs) (reference.answer inputs) := by
  induction inputs generalizing session reference programs with
  | nil => exact .some ⟨rfl, programs, matched⟩
  | cons first others induction =>
    cases first with
    | time clock => exact induction (matched.setClock clock)
    | source fuel text =>
      rw [Session.answer, Lexical.Session.answer]
      apply optionRel_bind (matched.run fuel text)
      rintro ⟨report, after⟩ ⟨_, after'⟩ ⟨rfl, programs', matchedThen⟩
      apply optionRel_bind (induction matchedThen)
      rintro ⟨reports, last⟩ ⟨_, last'⟩ ⟨rfl, programs'', matchedLast⟩
      exact .some ⟨rfl, programs'', matchedLast⟩

end Session

/--
Whatever source texts a session runs one after the other: looking local variables up at
the places that were found before the run does the same as looking names up in
environments.  The same is printed, the results and the runtime errors are the same, and
in the end globals and fields are the same, but for what functions keep.
-/
theorem same_reports (clock : Float) (inputs : List Input) :
    Option.Rel
      (fun left right => left.1 = right.1 ∧
        left.2.machine.Related (fun _ _ _ => True) (fun _ _ _ => True) right.2.machine)
      ((Session.start clock).answer inputs) ((Lexical.Session.start clock).answer inputs) := by
  have same := (Session.matches_start clock).answer inputs
  apply optionRel_imp _ same
  rintro left right ⟨sameReports, programs, matched⟩
  rcases matched.fits with ⟨layout, fits⟩
  refine ⟨sameReports, ?_⟩
  exact fits.agrees.imp (fun _ _ _ _ => trivial) (fun _ _ _ _ => trivial)

end Lox
