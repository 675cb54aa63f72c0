import Lox.Proofs.Moves.Execution
import Lox.Proofs.Session.Scoping

/-!
# The frames of a session

Sessions once more, but with all their moves, which go on from one source text to the next, also
behind texts that fail.  Such sessions answer as other sessions do, and throughout them frames only
grow: the main statement is `answerTraced_framesGrow`.
-/

namespace Lox

namespace Session

/-- Executes the statements of a program; its moves are traced, however it ends. -/
def executeTraced (fuel : Nat) (program : List Stmt) (session : Session) :
    Option (Report × Session) × List Move :=
  let traced := Traced.interpret session.addresses fuel none program
  let moves := traced.moves session.machine
  let conclude (outcome : Outcome) (machine : Machine) :=
    let (report, after) := session.conclude outcome machine
    (some (report, after), moves ++ [⟨machine, after.machine, []⟩])
  match traced.step session.machine with
  | .ok result machine => conclude (.success (result.map Value.result)) machine
  | .error (.fault error) machine => conclude (.failed error) machine
  | .error .outOfFuel _ => (none, moves)

/-- Runs a source text, if nothing is wrong with it. -/
def runTraced (fuel : Nat) (source : String) (session : Session) :
    Option (Report × Session) × List Move :=
  let reading := Reading.ofSource session.nextId source
  let session := { session with nextId := reading.nextId }
  if reading.errors ≠ [] then
    (some (⟨[], .rejected reading.errors⟩, session), [])
  else
    let resolution := resolve reading.statements
    let session := session.record resolution.bindings
    if resolution.errors ≠ [] then
      (some (⟨[], .rejected (resolution.errors.map .binding)⟩, session), [])
    else
      session.executeTraced fuel reading.statements

/-- Runs source texts one after the other. -/
def answerTraced : List Input → Session → Option (List Report × Session) × List Move
  | [], session => (some ([], session), [])
  | .time clock :: others, session =>
    let after := session.setClock clock
    let (answered, moves) := after.answerTraced others
    (answered, ⟨session.machine, after.machine, []⟩ :: moves)
  | .source fuel text :: others, session =>
    match session.runTraced fuel text with
    | (none, moves) => (none, moves)
    | (some (report, after), moves) =>
      let (answered, later) := after.answerTraced others
      (answered.map fun (reports, final) => (report :: reports, final), moves ++ later)

end Session

/-! ## What holds throughout a session -/

/-- The roles of the frames that there are after the first moves of a session. -/
def Move.roles (moves : List Move) : List Role :=
  .root :: moves.flatMap made

/-- In moves in a row frames only grow. -/
structure Move.FramesGrow (moves : List Move) : Prop where
  /-- Each move begins where the one before it ends. -/
  linked : ∀ (index : Nat) (move next : Move), moves[index]? = some move →
    moves[index + 1]? = some next → next.before = move.after
  /-- The roles are those of all frames. -/
  roles : ∀ (index : Nat) (move : Move), moves[index]? = some move →
    (Move.roles (moves.take index)).length = move.before.frames.size
  /-- A single move adds slots to the current frame at most, and only to a block or a body. -/
  single : ∀ (index : Nat) (move : Move), moves[index]? = some move →
    move.Grows (Move.roles (moves.take index))
  /-- The root never gets a slot. -/
  root : ∀ move ∈ moves, move.before.frames.length Machine.root = 0 ∧
    move.after.frames.length Machine.root = 0
  /-- From one move to any later one nothing is lost. -/
  lasting : ∀ (first later : Nat) (move last : Move), first ≤ later → moves[first]? = some move →
    moves[later]? = some last → move.before.frames.Grows last.after.frames
  /-- Frames of parameters, `this` and `super` keep the slots with which they were made. -/
  fixed : ∀ (first later : Nat) (move last : Move), first ≤ later → moves[first]? = some move →
    moves[later]? = some last → ∀ (frame : FrameId) (role : Role),
      (Move.roles (moves.take first))[frame]? = some role → ¬role.Declares →
        last.after.frames.length frame = move.before.frames.length frame

/-- From the start of a session on frames only grow. -/
theorem Move.Run.framesGrow {first last : Machine} {moves : List Move}
    (run : Move.Run [.root] first moves last) : Move.FramesGrow moves := by
  have between : ∀ (first later : Nat) (move last : Move), first ≤ later →
      moves[first]? = some move → moves[later]? = some last →
        ∃ moved, Move.Run (Move.roles (moves.take first)) move.before moved last.after := by
    intro first later move last order here there
    have further : (moves.drop first)[later - first]? = some last := by
      rw [List.getElem?_drop, Nat.add_sub_cancel' order]
      exact there
    exact ⟨_, (run.drop here).2.take further⟩
  constructor
  · exact fun index move next here after => run.linked here after
  · intro index move here
    exact (run.drop here).2.has.length_eq
  · exact fun index move here => (run.drop here).1
  · intro move member
    obtain ⟨index, here⟩ := List.mem_iff_getElem?.mp member
    exact ⟨(run.drop here).2.has.empty, (run.take here).has_last.empty⟩
  · intro first later move last order here there
    obtain ⟨moved, leads⟩ := between first later move last order here there
    exact leads.grows.1
  · intro first later move last order here there
    obtain ⟨moved, leads⟩ := between first later move last order here there
    exact leads.grows.2

namespace Session

/-! ## Answers -/

/--
A run with its moves ends as one without.  The moves lead from the machine before it, whose frames
have these roles, to the machine after it.
-/
structure EndsMoved {α : Type} (roles : List Role) (machine : Machine)
    (traced : Option (α × Session) × List Move) (ends : Option (α × Session)) : Prop where
  same : traced.1 = ends
  moves : ∃ last, Move.Run roles machine traced.2 last ∧
    ∀ result after, ends = some (result, after) → after.machine = last

variable {roles : List Role} {session : Session}

theorem endsMoved_execute (has : session.machine.Has roles) (fuel : Nat) (program : List Stmt) :
    EndsMoved roles session.machine (session.executeTraced fuel program)
      (session.execute fuel program) := by
  have run := Traced.Grows.interpret session.addresses fuel none program roles session.machine has
  -- What a session makes of an outcome has nothing to do with frames.
  have concludes : ∀ (outcome : Outcome) (machine : Machine),
      machine.Stays (session.conclude outcome machine).2.machine :=
    fun _ _ => .still rfl rfl
  rw [Traced.step_interpret] at run
  rw [Session.executeTraced, Session.execute]
  dsimp only
  rw [Traced.step_interpret]
  cases ends : Step.interpret session.addresses fuel none program session.machine with
  | ok result machine =>
    rw [Step.after_of_ok ends] at run
    refine ⟨rfl, _, run.append ((concludes _ machine).run run.has_last), ?_⟩
    rintro _ _ ⟨⟩
    rfl
  | error stop machine =>
    rw [Step.after_of_error ends] at run
    cases stop with
    | fault error =>
      refine ⟨rfl, _, run.append ((concludes _ machine).run run.has_last), ?_⟩
      rintro _ _ ⟨⟩
      rfl
    | outOfFuel =>
      refine ⟨rfl, _, run, ?_⟩
      intro _ _ impossible
      cases impossible

theorem endsMoved_run (has : session.machine.Has roles) (fuel : Nat) (source : String) :
    EndsMoved roles session.machine (session.runTraced fuel source) (session.run fuel source) := by
  have nothing : ∀ (report : Report) (after : Session), after.machine = session.machine →
      EndsMoved roles session.machine (some (report, after), []) (some (report, after)) := by
    intro report after same
    refine ⟨rfl, _, .nil has, ?_⟩
    rintro _ _ ⟨⟩
    exact same
  simp only [Session.runTraced, Session.run]
  split
  · exact nothing _ _ rfl
  · split
    · exact nothing _ _ rfl
    · let reading := Reading.ofSource session.nextId source
      let read := Session.record (resolve reading.statements).bindings
        { session with nextId := reading.nextId }
      have same : read.machine.Has roles := has
      exact endsMoved_execute same fuel reading.statements

theorem endsMoved_answer (inputs : List Input) (has : session.machine.Has roles) :
    EndsMoved roles session.machine (session.answerTraced inputs) (session.answer inputs) := by
  induction inputs generalizing session roles with
  | nil =>
    refine ⟨rfl, _, .nil has, ?_⟩
    rintro _ _ ⟨⟩
    rfl
  | cons first others induction =>
    cases first with
    | time clock =>
      have stays : session.machine.Stays (session.setClock clock).machine := .still rfl rfl
      have sets := stays.run has
      obtain ⟨same, last, run, ends⟩ := induction sets.has_last
      exact ⟨same, last, sets.append run, ends⟩
    | source fuel text =>
      obtain ⟨same, middle, run, ends⟩ := endsMoved_run has fuel text
      rw [Session.answerTraced, Session.answer]
      revert same run ends
      generalize session.runTraced fuel text = traced
      generalize session.run fuel text = ends
      intro same run ends
      rcases traced with ⟨outcome, moves⟩
      cases same
      cases outcome with
      | none =>
        refine ⟨rfl, middle, run, ?_⟩
        intro _ _ impossible
        cases impossible
      | some result =>
        rcases result with ⟨report, after⟩
        have arrives := ends report after rfl
        subst arrives
        obtain ⟨same, last, further, ends⟩ := induction run.has_last
        show EndsMoved roles session.machine
          ((after.answerTraced others).1.map _, moves ++ (after.answerTraced others).2)
          (after.answer others >>= fun answered => some (report :: answered.1, answered.2))
        rw [same]
        revert ends
        cases after.answer others with
        | none =>
          refine fun _ => ⟨rfl, last, run.append further, ?_⟩
          intro _ _ impossible
          cases impossible
        | some result =>
          refine fun ends => ⟨rfl, last, run.append further, ?_⟩
          rintro _ _ ⟨⟩
          exact ends result.1 result.2 rfl

/--
In every session frames only grow, move by move, whatever its source texts do: also in texts that
fail at any depth, or that do not end within their bound.  The moves lead from the machine of the
start to that of the session after the source texts.
-/
theorem answerTraced_framesGrow (clock : Float) (inputs : List Input) :
    ((Session.start clock).answerTraced inputs).1 = (Session.start clock).answer inputs ∧
      (∀ reports final, (Session.start clock).answer inputs = some (reports, final) →
        Move.Run [.root] (Machine.start clock) ((Session.start clock).answerTraced inputs).2
          final.machine) ∧
      Move.FramesGrow ((Session.start clock).answerTraced inputs).2 := by
  have has : (Session.start clock).machine.Has [.root] := by
    refine ⟨rfl, rfl, ?_, ⟨.root, rfl, .inl rfl⟩, rfl⟩
    intro frame isRoot
    exact Nat.lt_one_iff.mp (List.getElem?_eq_some_iff.mp isRoot).1
  obtain ⟨same, last, run, ends⟩ := endsMoved_answer inputs has
  refine ⟨same, ?_, run.framesGrow⟩
  intro reports final answered
  rw [ends reports final answered]
  exact run

end Session

end Lox
