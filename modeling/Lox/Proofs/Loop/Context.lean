import Lox.Proofs.Grammar.Completeness
import Lox.Proofs.Grammar.Soundness
import Lox.Proofs.Loop.Closures
import Lox.Proofs.Session.Scoping
import Mathlib

/-!
# Loops in programs

The tree that the grammar makes of a `for` loop without errors is that of its clauses.  Wherever
it stands in a program, it is executed as the clauses say: `parsed_runs`.
-/

namespace Lox

open Lox.Derivation (Position Skips Statement ForInitial OptionalExpression)

/-! ## Reading a loop -/

/-- The tokens between two positions are a loop with these clauses. -/
inductive ForLoop.Derives : Position → ForLoop → Position → Prop where
  | clauses {loop : ForLoop} (word : Skips (.keyword .forWord) before first)
      (opening : Skips (.symbol .leftParen) first second)
      (initial : ForInitial second loop.initial third)
      (condition : OptionalExpression third loop.condition fourth)
      (separator : Skips (.symbol .semicolon) fourth fifth)
      (increment : OptionalExpression fifth loop.increment sixth)
      (closing : Skips (.symbol .rightParen) sixth seventh)
      (body : Statement true seventh loop.body after) : Derives before loop after

/-- No statement declares anything in the scope around it. -/
theorem Derivation.Statement.locals {breakable : Bool} {before : Position} {tree : Stmt}
    {after : Position} : Statement breakable before tree after → tree.locals = []
  | .expression (.closed _ _) | .expression (.last _ _) | .print _ _ _ | .block _
  | .forLoop _ _ _ _ _ _ _ _ | .breakLoop _ _ | .returnValue _ _ _ => rfl
  | .ifOnly _ _ _ _ whenTrue _ => whenTrue.locals
  | .ifElse _ _ _ _ whenTrue _ whenFalse => by
    rw [Stmt.locals, whenTrue.locals, whenFalse.locals, List.append_nil]
  | .whileLoop _ _ _ _ body => body.locals

theorem Derivation.ForInitial.isInitial {before : Position} {initial : Option Stmt}
    {after : Position} (derived : ForInitial before initial after) :
    ∀ statement ∈ initial, statement.IsInitial := by
  rintro statement ⟨⟩
  cases derived with
  | varDecl inner =>
    cases inner with
    | bare => exact .varDecl _ _
    | initialised => exact .varDecl _ _
  | expression inner =>
    cases inner with
    | closed => exact .expression _
    | last => exact .expression _

/-- A statement that starts with `for` is a loop with three clauses. -/
theorem ForLoop.exists_derives {breakable : Bool} {before : Position} {tree : Stmt}
    {after : Position} (derived : Statement breakable before tree after)
    (isFor : before.Sees (.keyword .forWord)) :
    ∃ loop : ForLoop, loop.Derives before after ∧ tree = loop.tree := by
  cases derived with
  | forLoop word opening initial condition separator increment closing body =>
    exact ⟨⟨_, _, _, _⟩,
      .clauses word opening initial condition separator increment closing body, rfl⟩
  | expression inner =>
    exact absurd isFor (inner.begins.not_sees (Derivation.not_starts_word (by decide)))
  | block inner => cases inner.sees.eq isFor
  | print word | ifOnly word | ifElse word | whileLoop word => cases word.sees.eq isFor
  | breakLoop word | returnValue word => cases word.skips.sees.eq isFor

theorem ForLoop.Derives.isInitial {loop : ForLoop} {before after : Position}
    (derived : loop.Derives before after) : ∀ initial ∈ loop.initial, initial.IsInitial := by
  cases derived with
  | clauses _ _ initial => exact initial.isInitial

theorem ForLoop.Derives.locals {loop : ForLoop} {before after : Position}
    (derived : loop.Derives before after) : loop.body.locals = [] := by
  cases derived with
  | clauses _ _ _ _ _ _ _ body => exact body.locals

/-! ## Executing a loop -/

theorem EndAlike.isSettled_iff {α β : Type} {setting : Setting} {start : Pairing}
    {post : α → β → Pairing → Prop} {ending : EStateM.Result Stop Machine α}
    {ending' : EStateM.Result Stop Lexical.Machine β}
    (alike : EndAlike setting start post ending ending') :
    IsSettled ending ↔ IsSettled ending' := by
  cases alike with
  | ok => exact Iff.rfl
  | error stop => cases stop <;> exact Iff.rfl

/-- Steps that do the same within every bound finish in the same ways. -/
theorem Simulates.finishes {α β : Type} {setting : Setting} {start : Pairing}
    {step : Nat → Step α} {reference : Nat → Lexical.Step β} {post : α → β → Pairing → Prop}
    (same : ∀ fuel, Simulates setting (step fuel) (reference fuel) start post) :
    (∀ ending, Finishes step start.machine ending → ∃ ending',
      Finishes reference start.reference ending' ∧ EndAlike setting start post ending ending') ∧
    ∀ ending', Finishes reference start.reference ending' → ∃ ending,
      Finishes step start.machine ending ∧ EndAlike setting start post ending ending' := by
  constructor
  · rintro ending ⟨settled, fuel, rfl⟩
    exact ⟨_, ⟨(same fuel).isSettled_iff.mp settled, fuel, rfl⟩, same fuel⟩
  · rintro ending' ⟨settled, fuel, rfl⟩
    exact ⟨_, ⟨(same fuel).isSettled_iff.mpr settled, fuel, rfl⟩, same fuel⟩

namespace ForLoop

open Lexical (Environment)

/-- Two ends of a statement. -/
def FlowsAlike (setting : Setting) (flow : Flow) (flow' : Flow Environment) (finish : Pairing) :
    Prop :=
  flow.Matches setting finish.layout flow'

/--
Wherever a statement stands in code without faults, the machine with frames ends with it in the
ways in which a loop runs.
-/
def IsMeaningOf (loop : ForLoop) (statement : Stmt) : Prop :=
  ∀ {setting : Setting} {around : Surroundings} {places : Places} {start : Pairing},
    setting.Exact → start.Fits setting → start.Stands setting around places →
    statement.occurrences around places.scopes ⊆ setting.occurrences →
    statement.IsProper setting.names →
    (∀ ending, Finishes (fun fuel => Step.execute setting.addresses fuel statement) start.machine
        ending → ∃ ending', loop.Runs places.environment start.reference ending' ∧
          EndAlike setting start (FlowsAlike setting) ending ending') ∧
      ∀ ending', loop.Runs places.environment start.reference ending' → ∃ ending,
        Finishes (fun fuel => Step.execute setting.addresses fuel statement) start.machine ending ∧
          EndAlike setting start (FlowsAlike setting) ending ending'

theorem Derives.isMeaningOf {loop : ForLoop} {before after : Position}
    (derived : loop.Derives before after) : loop.IsMeaningOf loop.tree := by
  intro setting around places start exact fits stands known proper
  have same : ∀ fuel, Simulates setting (Step.execute setting.addresses fuel loop.tree)
      (Lexical.Step.flow (!places.isEmpty) places.environment loop.tree fuel) start
      (FlowsAlike setting) := by
    intro fuel
    apply ((Simulates.sameMeaning exact fuel).execute loop.tree fits stands known proper).bind_right
    rintro flow ⟨flow', environment⟩ middle leads ⟨matched, -⟩
    exact .pure leads.fits matched
  have finishes := Simulates.finishes same
  simp only [finishes_tree_iff derived.isInitial derived.locals] at finishes
  exact finishes

/--
Functions that are made in the body of a loop keep one scope, which the initial statement makes;
what a turn declares in front of it no other turn has.
-/
def SharesScope (loop : ForLoop) : Prop :=
  ∀ {environment scope : Environment} {machine first : Lexical.Machine},
    Finishes (loop.begin environment) machine (.ok scope first) →
    (∀ name value, loop.initial = some (.varDecl name value) →
      scope = (name.text, machine.cells.size) :: environment) ∧
    (∀ {turn closure}, loop.Makes scope first turn closure →
      ∃ own : Environment, closure.environment = own ++ scope ∧
        ∀ declared ∈ own, first.cells.size ≤ declared.2) ∧
    ∀ {turn later closure closure'} {own own' : Environment},
      loop.Makes scope first turn closure → loop.Makes scope first later closure' →
      turn < later → closure.environment = own ++ scope → closure'.environment = own' ++ scope →
      ∀ declared ∈ own, ∀ declared' ∈ own', declared.2 ≠ declared'.2

theorem sharesScope (loop : ForLoop) : loop.SharesScope := by
  intro environment scope machine first begins
  refine ⟨fun name value isFirst => begin_varDecl isFirst begins, fun makes => makes.own, ?_⟩
  intro turn later closure closure' own own' makes makes' isLater same same' declared isIn declared'
    isIn'
  exact Nat.ne_of_lt (makes.separate makes' isLater same same' declared isIn declared' isIn')

/--
The parser reads a `for` loop without errors as clauses and a body, and builds a tree.  In every
environment this tree ends in exactly the ways in which the loop runs by its clauses, and so it
does in frames, wherever it stands.  A loop has no result of its own; functions made in different
turns share the variable of the loop, but not what the body declares.
-/
theorem parsed_runs {fuel : Nat} {breakable : Bool} {state after : Grammar.State} {tree : Stmt}
    (parsed : Grammar.statement fuel breakable state = .ok tree after)
    (isEnding : state.ending.kind.isEnding)
    (isFor : state.position.Sees (.keyword .forWord)) (noErrors : after.errors = #[]) :
    ∃ loop : ForLoop, loop.Derives state.position after.position ∧ tree = loop.tree ∧
      (∀ inside environment machine ending,
        Finishes (Lexical.Step.flow inside environment tree) machine ending ↔
          loop.Runs environment machine ending) ∧
      loop.IsMeaningOf tree ∧
      (∀ environment machine flow last, loop.Runs environment machine (.ok flow last) →
        flow = .normal none ∨ ∃ value, flow = .returned value) ∧
      loop.SharesScope := by
  have sound := (Grammar.rulesSound fuel).statement breakable state isEnding
  rw [Grammar.Rule.Ends, parsed] at sound
  obtain ⟨loop, derived, rfl⟩ := exists_derives (sound.2 noErrors).2 isFor
  refine ⟨loop, derived, rfl, ?_, derived.isMeaningOf, ?_, loop.sharesScope⟩
  · exact fun _ _ _ _ => finishes_tree_iff derived.isInitial derived.locals
  · exact fun _ _ _ _ runs => runs.flow

/-! ## A loop -/

/-- A loop whose body declares a variable and makes a function. -/
def turning : List Token :=
  Item.tokens (Item.scan "for (var i = true; i; i = false) { var j; fun () { return j; }; }")

/-- The function in its body. -/
def turningFunction : Function :=
  .mk [] [.returnValue 1 (some (.read ⟨2, ⟨"j", 1⟩⟩))]

/-- The clauses and the body of this loop. -/
def turningLoop : ForLoop where
  initial := some (.varDecl ⟨"i", 1⟩ (some (.literal (.bool true))))
  condition := some (.read ⟨0, ⟨"i", 1⟩⟩)
  increment := some (.assign ⟨1, ⟨"i", 1⟩⟩ (.literal (.bool false)))
  body := .block [.varDecl ⟨"j", 1⟩ none, .expression (.function turningFunction)]

/-- The machine when the body of this loop begins. -/
def turningStart : Lexical.Machine :=
  { Lexical.Machine.start 0 with cells := #[.initialised (.bool true)] }

/-- The machine after this loop. -/
def turningEnd : Lexical.Machine :=
  { Lexical.Machine.start 0 with
    nextId := 2
    cells := #[.initialised (.bool false), .uninitialised] }

theorem makes_turningFunction :
    turningLoop.Makes [("i", 0)] turningStart 0
      ⟨1, "anonymous", .body turningFunction false, [("j", 1), ("i", 0)]⟩ := by
  let middle : Lexical.Machine :=
    { turningStart with cells := turningStart.cells.push .uninitialised }
  have declares : Finishes (fun fuel => Lexical.Step.execute true fuel [("i", 0)]
      (.varDecl ⟨"j", 1⟩ none)) turningStart (.ok (.normal none, [("j", 1), ("i", 0)]) middle) :=
    ⟨trivial, 1, rfl⟩
  have reaches : Lexical.Moment.Reaches ⟨.statement turningLoop.body, [("i", 0)], turningStart⟩
      ⟨.expression (.function turningFunction), [("j", 1), ("i", 0)], middle⟩ :=
    .head .block (.head (.otherStatements declares) (.head .statement (.single (.expression rfl))))
  exact ⟨turningStart, _, .first ⟨trivial, 2, rfl⟩, reaches, .expression ⟨trivial, 1, rfl⟩⟩

theorem turning_statements :
    (Grammar.parse (Session.start 0).nextId turning).statements = [turningLoop.tree] := by
  cbv

/-- In the first program of a session nothing is around this loop. -/
theorem finishes_turning {loop : ForLoop} (inFrames : loop.IsMeaningOf turningLoop.tree)
    (ran : loop.Runs [] (.start 0) (.ok (.normal none) turningEnd)) :
    ∃ machine, Finishes (fun fuel => Step.execute ((Session.start 0).read true turning).addresses
      fuel turningLoop.tree) (Machine.start 0) (.ok (.normal none) machine) := by
  have well : (resolve [turningLoop.tree]).errors = [] := by
    cbv
  have matched := (Session.matches_start 0).readWell turning (turning_statements ▸ well)
  have builds := Grammar.parse_builds IsPlainName (Session.start 0).nextId turning
    (Item.named_scan _)
  rw [turning_statements] at matched builds
  obtain ⟨layout, fits⟩ := matched.fits
  have stands : Pairing.Stands (((Session.start 0).read true turning).setting IsPlainName
      ([] ++ [[turningLoop.tree]])) .outside [] ⟨layout, .start 0, .start 0⟩ := by
    constructor
    · intro impossible
      cases impossible
    · exact Local.areNamed_nil
    · exact .root fits.frames.root_isFrame
    · exact fits.frames.root_row
  have known : turningLoop.tree.occurrences .outside [] ⊆
      (((Session.start 0).read true turning).setting IsPlainName
        ([] ++ [[turningLoop.tree]])).occurrences :=
    fun _ isUse => by simpa [Session.setting, Program.occurrences, Stmt.occurrencesAll] using isUse
  obtain ⟨ending, finishes, alike⟩ := (inFrames matched.exact fits stands known builds.1.1).2 _ ran
  cases alike with
  | ok layout' leads holds =>
    cases holds with
    | normal related =>
      cases related
      exact ⟨_, finishes⟩

/--
This loop is read and makes one turn, in frames and without them; the function that its body makes
keeps the scope of the loop behind a variable of its own.
-/
theorem parsed_runs_turning :
    (∃ loop : ForLoop, loop.tree = turningLoop.tree ∧
      loop.Runs [] (.start 0) (.ok (.normal none) turningEnd) ∧
      ∃ machine, Finishes (fun fuel => Step.execute ((Session.start 0).read true turning).addresses
        fuel loop.tree) (Machine.start 0) (.ok (.normal none) machine)) ∧
    ∃ closure own, turningLoop.Makes [("i", 0)] turningStart 0 closure ∧
      closure.environment = own ++ [("i", 0)] := by
  have reads : (match Grammar.statement 60 false (.start 0 turning) with
      | .ok tree after => some (tree, after.errors)
      | .error _ _ => none) = some (turningLoop.tree, #[]) := by
    cbv
  have starts : (Grammar.State.start 0 turning).rest.head?.map Token.kind =
      some (.keyword .forWord) := by
    cbv
  obtain ⟨token, first, isWord⟩ := Option.map_eq_some_iff.mp starts
  obtain ⟨others, here⟩ := List.head?_eq_some_iff.mp first
  have isFor : (Grammar.State.start 0 turning).position.Sees (.keyword .forWord) :=
    ⟨⟨others, 0⟩, token, here, isWord, rfl⟩
  constructor
  · cases parsed : Grammar.statement 60 false (.start 0 turning) with
    | error stop after =>
      rw [parsed] at reads
      cases reads
    | ok tree after =>
      rw [parsed] at reads
      obtain ⟨rfl, noErrors⟩ := Prod.mk.inj (Option.some.inj reads)
      obtain ⟨loop, -, same, runs, inFrames, -⟩ := parsed_runs parsed (by cbv) isFor noErrors
      have ran : loop.Runs [] (.start 0) (.ok (.normal none) turningEnd) :=
        (runs false _ _ _).mp ⟨trivial, 30, rfl⟩
      exact ⟨loop, same.symm, ran, same ▸ finishes_turning inFrames ran⟩
  · have begins : Finishes (turningLoop.begin []) (.start 0) (.ok [("i", 0)] turningStart) :=
      ⟨trivial, 2, rfl⟩
    obtain ⟨own, same, -⟩ := (turningLoop.sharesScope begins).2.1 makes_turningFunction
    exact ⟨_, own, makes_turningFunction, same⟩

end ForLoop

end Lox
