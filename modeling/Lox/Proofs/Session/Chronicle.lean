import Lox.Proofs.Machine.Agreement
import Lox.Proofs.Session.Record
import Lox.Proofs.Source.Name

/-!
# Chronicles of sessions

A chronicle is a session in which programs were read and executed in any order, with
all that happened in it.  A program may be executed whatever is wrong with it, several
times, and long after it was read; its local variables may be resolved or not.

The main statement is `frames_agree`: whenever a program uses a variable, the frames
from the current one up to the root are those of the scopes around the use.
-/

namespace Lox

namespace Session

/-- All that happens when a program is executed. -/
def events (fuel : Nat) (program : List Stmt) (session : Session) : List Event :=
  (Watched.interpret session.addresses fuel none program).events session.machine

end Session

/--
A session, the programs that were read in it from tokens whose names are among some,
and all that happened.
-/
inductive Chronicle (names : String → Prop) : List (List Stmt) → Session → List Event → Prop where
  | start (clock : Float) : Chronicle names [] (.start clock) []
  | setClock (clock : Float) {programs session events}
      (before : Chronicle names programs session events) :
      Chronicle names programs (session.setClock clock) events
  | read (resolving : Bool) (tokens : List Token) {programs session events}
      (before : Chronicle names programs session events) (named : Grammar.Named names tokens) :
      Chronicle names (programs ++ [(Grammar.parse session.nextId tokens).statements])
        (session.read resolving tokens) events
  | execute (fuel : Nat) (program : List Stmt) {programs session events report after}
      (before : Chronicle names programs session events) (member : program ∈ programs)
      (executed : session.execute fuel program = some (report, after)) :
      Chronicle names programs after (events ++ session.events fuel program)

/-! ## What holds in every session -/

/-- What holds between two programs of a session. -/
structure Session.Fits (names : String → Prop) (programs : List (List Stmt)) (session : Session)
    (events : List Event) : Prop where
  sound : (session.setting names programs).Sound
  proper : ∀ program ∈ programs, Stmt.AreProper names program
  ids_lt : ∀ occurrence ∈ programs.flatMap Program.occurrences, occurrence.id < session.nextId
  recorded_lt : ∀ id address, session.addresses[id]? = some address → id < session.nextId
  fits : Moment.Fits (session.setting names programs) ⟨events, session.machine⟩
  current : session.machine.current = Machine.root

section

variable {names : String → Prop} {programs : List (List Stmt)} {session : Session}
  {events : List Event}

theorem Session.fits_start (clock : Float) : (start clock).Fits names [] [] := by
  constructor
  · constructor
    · exact List.nodup_nil
    · intro occurrence impossible
      cases impossible
  · intro program impossible
    cases impossible
  · intro occurrence impossible
    cases impossible
  · intro id address impossible
    simp [start] at impossible
  · have rooted : Machine.root < (Moment.layout ⟨[], (start clock).machine⟩).size := Nat.zero_lt_one
    constructor
    · exact rooted
    · rfl
    · intro frame
      have empty : ((start clock).machine.frames.slots frame) = #[] := by
        show (Frames.slots (Frames.addRoot Frames.empty) frame) = #[]
        cases frame <;> rfl
      rw [empty]
      exact .nil
    · intro frame slot declared impossible
      cases impossible
    · intro name value found
      simp only [start, Machine.start, Std.TreeMap.getElem?_insert] at found
      split at found
      · cases found
        refine ⟨.outside, [], .root rooted, ?_⟩
        intro definition isInitializer impossible
        cases impossible
      · simp at found
    · intro id table name value impossible
      simp [start, Machine.start] at impossible
  · rfl

theorem Session.Fits.read (fits : session.Fits names programs events) (resolving : Bool)
    (tokens : List Token) (named : Grammar.Named names tokens) :
    (session.read resolving tokens).Fits names
      (programs ++ [(Grammar.parse session.nextId tokens).statements]) events := by
  have builds := Grammar.parse_builds names session.nextId tokens named
  have split : (programs ++ [(Grammar.parse session.nextId tokens).statements]).flatMap
      Program.occurrences = programs.flatMap Program.occurrences ++
        Program.occurrences (Grammar.parse session.nextId tokens).statements := by
    simp
  have distinct : (((programs ++ [(Grammar.parse session.nextId tokens).statements]).flatMap
      Program.occurrences).map Occurrence.id).Nodup := by
    rw [split, List.map_append, List.nodup_append]
    refine ⟨fits.sound.distinct, nodup_id_occurrences _ _, ?_⟩
    rintro _ old _ new rfl
    rcases List.mem_map.mp old with ⟨first, isOld, rfl⟩
    rcases List.mem_map.mp new with ⟨second, isNew, same⟩
    have := fits.ids_lt first isOld
    have := (session.id_of_read tokens isNew).1
    omega
  constructor
  · constructor
    · exact distinct
    · intro occurrence member address found
      rcases session.addresses_read tokens resolving found with ⟨other, isNew, same, here⟩ | before
      · have isUse : other ∈ (programs ++ [(Grammar.parse session.nextId tokens).statements]).flatMap
            Program.occurrences := by
          rw [split]
          exact List.mem_append_right _ isNew
        rw [← List.inj_on_of_nodup_map distinct isUse member same]
        exact here
      · have old := fits.recorded_lt _ _ before
        rw [Session.setting, split, List.mem_append] at member
        rcases member with isOld | isNew
        · exact fits.sound.recorded occurrence isOld address before
        · have := (session.id_of_read tokens isNew).1
          omega
  · intro program member
    rcases List.mem_append.mp member with isOld | isNew
    · exact fits.proper program isOld
    · rw [List.mem_singleton.mp isNew]
      exact builds.1
  · intro occurrence member
    rw [split, List.mem_append] at member
    show occurrence.id < (Grammar.parse session.nextId tokens).nextId
    rcases member with isOld | isNew
    · have := fits.ids_lt occurrence isOld
      have := builds.2.1
      omega
    · exact (session.id_of_read tokens isNew).2
  · intro id address found
    show id < (Grammar.parse session.nextId tokens).nextId
    rcases session.addresses_read tokens resolving found with ⟨occurrence, isNew, rfl, -⟩ | before
    · exact (session.id_of_read tokens isNew).2
    · have := fits.recorded_lt id address before
      have := builds.2.1
      omega
  · apply fits.fits.mono
    constructor
    · rfl
    · show programs.flatMap Program.occurrences ⊆ _
      rw [Session.setting, split]
      exact List.subset_append_left _ _
  · exact fits.current

/-- Time does not matter. -/
theorem Session.Fits.setClock (fits : session.Fits names programs events) (clock : Float) :
    (session.setClock clock).Fits names programs events := by
  constructor
  · exact fits.sound
  · exact fits.proper
  · exact fits.ids_lt
  · exact fits.recorded_lt
  · exact fits.fits.congr rfl rfl rfl
  · exact fits.current

/-- A program stands in no scope, and its frame is the root. -/
theorem Session.Fits.stands (fits : session.Fits names programs events) :
    Moment.Stands (session.setting names programs) .outside [] ⟨events, session.machine⟩ := by
  constructor
  · intro impossible
    cases impossible
  · exact Local.areNamed_nil
  · show Layout.Chain _ [] session.machine.current
    rw [fits.current]
    exact .root fits.fits.root_isFrame
  · show Layout.row _ session.machine.current = []
    rw [fits.current]
    exact fits.fits.root_row

/-- Whatever happens when a program is executed is sound, and the machine fits afterwards. -/
theorem Session.Fits.runs (fits : session.Fits names programs events) (fuel : Nat)
    {program : List Stmt} (member : program ∈ programs) :
    (Watched.interpret session.addresses fuel none program).Runs
      (session.setting names programs) ⟨events, session.machine⟩ fun _ _ => True := by
  apply Watched.runs_interpret fits.sound fuel program none fits.fits fits.stands
  · intro occurrence isUse
    exact List.mem_flatMap.mpr ⟨program, member, isUse⟩
  · exact fits.proper program member

theorem Session.Fits.execute (fits : session.Fits names programs events) {fuel : Nat}
    {program : List Stmt} (member : program ∈ programs) {report : Report} {after : Session}
    (executed : session.execute fuel program = some (report, after)) :
    after.Fits names programs (events ++ session.events fuel program) := by
  have ends := (fits.runs fuel member).2
  rw [Watched.step_interpret] at ends
  rw [Session.execute] at executed
  have concludes : ∀ machine, Follows (session.setting names programs) ⟨events, session.machine⟩
      ⟨events ++ session.events fuel program, machine⟩ →
      Session.Fits names programs
        { session with machine := { machine with printed := #[] } }
        (events ++ session.events fuel program) := by
    intro machine follows
    constructor
    · exact fits.sound
    · exact fits.proper
    · exact fits.ids_lt
    · exact fits.recorded_lt
    · constructor
      · exact follows.fits.root_isFrame
      · exact follows.fits.root_row
      · exact follows.fits.slots
      · exact follows.fits.created
      · exact follows.fits.globals
      · exact follows.fits.fields
    · exact follows.current.trans fits.current
  show Session.Fits names programs after _
  revert ends executed
  cases Step.interpret session.addresses fuel none program session.machine with
  | ok result machine =>
    intro executed ends
    cases executed
    exact concludes machine ends.1
  | error stop machine =>
    intro executed ends
    cases stop with
    | fault error =>
      cases executed
      exact concludes machine ends
    | outOfFuel => cases executed

/-- At the end of a chronicle the machine fits. -/
theorem Chronicle.fits (chronicle : Chronicle names programs session events) :
    session.Fits names programs events := by
  induction chronicle with
  | start clock => exact Session.fits_start clock
  | setClock clock before fits => exact fits.setClock clock
  | read resolving tokens before named fits => exact fits.read resolving tokens named
  | execute fuel program before member executed fits => exact fits.execute member executed

/-! ## Frames and scopes -/

/--
The frames from the current one up to the root are the scopes that were open when the
walk passed a use: as many, none of them the root, with a slot for each declaration of
the scope that was created when it was executed.  The root has no slots.
-/
structure Passage.Agrees (passage : Passage) (history : List Event) (machine : Machine) :
    Prop where
  root_empty : machine.frames.length Machine.root = 0
  ends : machine.frames.ancestor? machine.current passage.scopes.length = some Machine.root
  frames : ∀ depth scope, passage.scopes[depth]? = some scope →
    ∃ frame, machine.frames.ancestor? machine.current depth = some frame ∧
      frame ≠ Machine.root ∧ scope.length ≤ machine.frames.length frame ∧
      ∀ slot declaration, scope[slot]? = some declaration →
        ∃ declared, declaration.IsFor declared ∧ .creates declared frame slot ∈ history

/-- The scopes that were open when the walk passed a use are those around it. -/
theorem Passage.IsOf.agrees {passage : Passage} {occurrence : Occurrence}
    (isOf : passage.IsOf occurrence) {history : List Event} {machine : Machine}
    (agrees : occurrence.Agrees history machine) : passage.Agrees history machine := by
  constructor
  · exact agrees.root_empty
  · rw [isOf.scopes.length_eq]
    exact agrees.ends
  · intro depth scope here
    rcases List.getElem?_eq_some_iff.mp here with ⟨inBounds, rfl⟩
    have inScopes : depth < occurrence.scopes.length := by
      rw [← isOf.scopes.length_eq]
      exact inBounds
    have isFor : Scope.IsFor passage.scopes[depth] occurrence.scopes[depth] :=
      isOf.scopes.get inBounds inScopes
    rcases agrees.frames depth _ (List.getElem?_eq_getElem inScopes) with
      ⟨frame, found, inner, enough, created⟩
    refine ⟨frame, found, inner, ?_, ?_⟩
    · rw [List.Forall₂.length_eq isFor]
      exact enough
    · intro slot declaration member
      rcases List.getElem?_eq_some_iff.mp member with ⟨inScope, rfl⟩
      have inLocals : slot < occurrence.scopes[depth].length := by
        rw [← List.Forall₂.length_eq isFor]
        exact inScope
      exact ⟨_, List.Forall₂.get isFor inScope inLocals,
        created slot _ (List.getElem?_eq_getElem inLocals)⟩

/-- The walks through programs pass the uses in them. -/
theorem forall₂_passages (programs : List (List Stmt)) :
    List.Forall₂ Passage.IsOf (programs.flatMap Program.passages)
      (programs.flatMap Program.occurrences) := by
  induction programs with
  | nil => exact .nil
  | cons first others induction =>
    rw [List.flatMap_cons, List.flatMap_cons]
    exact List.rel_append (visits_program first).passes induction

/--
Whatever is wrong with the programs that were read, and whatever is executed how long:
the walks through the programs pass the expressions that use a variable, and whenever one
is evaluated, the frames from the current one up to the root are the scopes that were open
when the walk passed it.  So a variable with a recorded place is there, and the current
frame is the root exactly outside of blocks, functions and methods.

A name that is spelt like `this` or `super` cannot stand in a source text; among tokens
it might hide what a use of `super` means.
-/
theorem frames_agree (chronicle : Chronicle names programs session events) (fuel : Nat)
    {program : List Stmt} (member : program ∈ programs) {before after : List Event} {event : Event}
    (happens : session.events fuel program = before ++ event :: after) :
    (∀ id machine, event.evaluated? = some (id, machine) →
      (∃ passage ∈ programs.flatMap Program.passages, passage.id = id) ∧
        ∀ passage ∈ programs.flatMap Program.passages, passage.id = id →
          passage.Agrees (events ++ before) machine) ∧
    (∀ use machine, event = .uses use machine →
      (use.IsSuper → ∀ name, names name → name ≠ Local.this.text ∧ name ≠ Local.super.text) →
      ∀ address, session.addresses[use.id]? = some address →
        ¬ use.IsUndefined session.addresses machine) ∧
    ∀ inside machine, event = .runs inside machine →
      (machine.current == Machine.root) = !inside := by
  have sound := (chronicle.fits.runs fuel member).1
  have all : Event.AllSound (session.setting names programs) events
      (before ++ event :: after) := by
    rw [← happens]
    exact sound
  have here := all.sound
  have passes := forall₂_passages programs
  refine ⟨?_, here.defined, here.inside⟩
  intro id machine evaluated
  rcases here.agrees id machine evaluated with ⟨⟨occurrence, isUse, same⟩, agrees⟩
  constructor
  · rcases List.mem_iff_getElem.mp isUse with ⟨index, inBounds, rfl⟩
    have inPassages : index < (programs.flatMap Program.passages).length := by
      rw [passes.length_eq]
      exact inBounds
    have isOf := passes.get inPassages inBounds
    exact ⟨_, List.getElem_mem inPassages, isOf.id_eq.trans same⟩
  · intro passage passed sameId
    rcases List.mem_iff_getElem.mp passed with ⟨index, inBounds, rfl⟩
    have inUses : index < (programs.flatMap Program.occurrences).length := by
      rw [← passes.length_eq]
      exact inBounds
    have isOf := passes.get inBounds inUses
    exact isOf.agrees (agrees _ (List.getElem_mem inUses) (isOf.id_eq.symm.trans sameId))

end

/-- The tokens of a block that declares a variable and then uses it. -/
def blockTokens : List Token :=
  [⟨.symbol .leftBrace, "\x7b", 1⟩, ⟨.keyword .varWord, "var", 1⟩, ⟨.identifier, "a", 1⟩,
    ⟨.symbol .semicolon, ";", 1⟩, ⟨.identifier, "a", 1⟩, ⟨.symbol .semicolon, ";", 1⟩,
    ⟨.symbol .rightBrace, "\x7d", 1⟩, .ending 1]

/-- The variable of a block is used in the frame of the block, and it is there. -/
theorem frames_agree_in_block :
    let session := (Session.start 0).read true blockTokens
    let program := (Grammar.parse 0 blockTokens).statements
    ∃ before machine,
      session.events 9 program = before ++ [.uses (.read 0 ⟨"a", 1⟩) machine] ∧
        (∃ passage ∈ Program.passages program, passage.id = 0 ∧ passage.Agrees before machine) ∧
        ¬ (Use.read 0 ⟨"a", 1⟩).IsUndefined session.addresses machine := by
  intro session program
  have named : Grammar.Named (· = "a") blockTokens := by
    intro token member isName
    simp only [blockTokens, Token.ending, List.mem_cons, List.not_mem_nil, or_false] at member
    rcases member with rfl | rfl | rfl | rfl | rfl | rfl | rfl | rfl
    all_goals first | rfl | cases isName
  have chronicle : Chronicle (· = "a") [program] session [] :=
    .read true blockTokens (.start 0) named
  have happens : ∃ machine, session.events 9 program =
      (session.events 9 program).take 5 ++ [.uses (.read 0 ⟨"a", 1⟩) machine] := ⟨_, rfl⟩
  rcases happens with ⟨machine, happens⟩
  rcases frames_agree chronicle 9 List.mem_cons_self happens with ⟨agree, defined, -⟩
  refine ⟨_, machine, happens, ?_, ?_⟩
  · rcases agree 0 machine rfl with ⟨⟨passage, passed, same⟩, agrees⟩
    have passedHere : passage ∈ Program.passages program := by
      rw [List.flatMap_cons, List.flatMap_nil, List.append_nil] at passed
      exact passed
    exact ⟨passage, passedHere, same, agrees passage passed same⟩
  · apply defined _ machine rfl
    · rintro ⟨id, line, method, impossible⟩
      cases impossible
    · exact (rfl : session.addresses[0]? = some ⟨0, 0⟩)

/-! ## Runs of source texts -/

section

variable {names : String → Prop} {programs : List (List Stmt)} {session after : Session}
  {events : List Event} {fuel : Nat} {source : String} {report : Report}

/-- A program that was read just now is executed. -/
theorem Chronicle.executeRead (resolving : Bool) (tokens : List Token)
    (before : Chronicle names programs session events) (named : Grammar.Named names tokens)
    (executed : (session.read resolving tokens).execute fuel
      (Grammar.parse session.nextId tokens).statements = some (report, after)) :
    ∃ programs' events', Chronicle names programs' after events' :=
  ⟨_, _, (before.read resolving tokens named).execute fuel _
    (List.mem_append_right _ List.mem_cons_self) executed⟩

/-- A source text is run. -/
theorem Chronicle.run (before : Chronicle IsPlainName programs session events)
    (ran : session.run fuel source = some (report, after)) :
    ∃ programs' events', Chronicle IsPlainName programs' after events' := by
  have named := Item.named_scan source
  simp only [Session.run] at ran
  split at ran
  · cases ran
    exact ⟨_, _, before.read false (Item.tokens (Item.scan source)) named⟩
  · split at ran
    · cases ran
      exact ⟨_, _, before.read true (Item.tokens (Item.scan source)) named⟩
    · exact before.executeRead true (Item.tokens (Item.scan source)) named ran

/-- A source text is run, whatever is wrong with it. -/
theorem Chronicle.runAnyway {diagnostics : List Diagnostic} (resolving : Bool)
    (before : Chronicle IsPlainName programs session events)
    (ran : session.runAnyway fuel resolving [] source = some (diagnostics, report, after)) :
    ∃ programs' events', Chronicle IsPlainName programs' after events' := by
  have named := Item.named_scan source
  simp only [Session.runAnyway] at ran
  split at ran
  · next result executed =>
    cases ran
    cases resolving with
    | false => exact before.executeRead false (Item.tokens (Item.scan source)) named executed
    | true => exact before.executeRead true (Item.tokens (Item.scan source)) named executed
  · cases ran

end

end Lox
