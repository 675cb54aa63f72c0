import Lox.Proofs.Control.Agreement
import Lox.Proofs.Grammar.Exactness
import Lox.Proofs.Session.Scoping

/-!
# Signals in sessions

Sessions once more, but with strict evaluation.  A program runs only if nothing is wrong with it:
then no `break` in it is outside of loops, by the grammar, and no `return` outside of functions,
by the rules on scopes.  So strict sessions answer as other sessions do
(`answerStrictly_eq_ok`).
-/

namespace Lox

/-- A binary operator is written with its symbol. -/
theorem Grammar.Connective.kind_eq_of_ofKind? (kind : Kind) (op : BinaryOp)
    (found : ofKind? kind = some (.binary op)) : kind = .symbol op.symbol := by
  unfold ofKind? at found
  split at found <;> cases found <;> rfl

namespace Session

/-! ## Strict sessions -/

/-- Executes the statements of a program strictly. -/
def executeStrictly (fuel : Nat) (program : List Stmt) (session : Session) :
    Except Strict.Violation (Option (Report × Session)) :=
  match Strict.Step.interpret session.addresses fuel none program session.machine with
  | .ok result machine =>
    .ok (some (session.conclude (.success (result.map Value.result)) machine))
  | .error (.ordinary (.fault error)) machine =>
    .ok (some (session.conclude (.failed error) machine))
  | .error (.ordinary .outOfFuel) _ => .ok none
  | .error (.violated violation) _ => .error violation

/-- Runs a source text strictly, if nothing is wrong with it. -/
def runStrictly (fuel : Nat) (source : String) (session : Session) :
    Except Strict.Violation (Option (Report × Session)) :=
  let reading := Reading.ofSource session.nextId source
  let session := { session with nextId := reading.nextId }
  if reading.errors ≠ [] then
    .ok (some (⟨[], .rejected reading.errors⟩, session))
  else
    let resolution := resolve reading.statements
    let session := session.record resolution.bindings
    if resolution.errors ≠ [] then
      .ok (some (⟨[], .rejected (resolution.errors.map .binding)⟩, session))
    else
      session.executeStrictly fuel reading.statements

/-- Runs source texts strictly, one after the other. -/
def answerStrictly : List Input → Session →
    Except Strict.Violation (Option (List Report × Session))
  | [], session => .ok (some ([], session))
  | .time clock :: others, session => (session.setClock clock).answerStrictly others
  | .source fuel text :: others, session => do
    match ← session.runStrictly fuel text with
    | none => return none
    | some (report, after) =>
      match ← after.answerStrictly others with
      | none => return none
      | some (reports, last) => return some (report :: reports, last)

/-! ## Programs that run -/

section

variable {firstId : Nat} {tokens : List Token}

/-- A program that is read without faults makes derived functions only. -/
theorem makeAll_parse (none : (Grammar.parse firstId tokens).errors = []) :
    Stmt.MakeAll Function.IsDerived (Grammar.parse firstId tokens).statements := by
  have program := Grammar.program_of_parse firstId tokens none
  generalize (Grammar.parse firstId tokens).nextId = nextId at program
  cases program with
  | program derives nonempty atEnd => exact derives.makes

/-- A program with which nothing is wrong breaks in loops and returns in functions only. -/
theorem areConfined_parse (none : (Grammar.parse firstId tokens).errors = [])
    (sound : (resolve (Grammar.parse firstId tokens).statements).errors = []) :
    Stmt.AreConfined 0 false (Grammar.parse firstId tokens).statements := by
  have program := Grammar.program_of_parse firstId tokens none
  generalize (Grammar.parse firstId tokens).nextId = nextId at program
  cases program with
  | program derives nonempty atEnd =>
    have outside : Place.program.role = .outside := rfl
    apply Stmt.areConfined_of_sites _ outside
    · exact derives.confined fun isTrue => absurd isTrue Bool.false_ne_true
    · exact (errors_resolve _).mp sound

end

/-! ## Strict sessions do the same -/

section

variable {session : Session}

/-- The functions in a session stay derived when a program is executed. -/
theorem executeStrictly_eq_ok (derived : session.machine.IsDerived) (fuel : Nat)
    {program : List Stmt}
    (made : Stmt.MakeAll Function.IsDerived program)
    (confined : Stmt.AreConfined 0 false program) :
    session.executeStrictly fuel program = .ok (session.execute fuel program) ∧
      ∀ report after, session.execute fuel program = some (report, after) →
        after.machine.IsDerived := by
  have noResult : ∀ value ∈ (none : Option Value), value.IsDerived :=
    fun value impossible => by cases impossible
  have ends := Strict.Step.Follows.interpret session.addresses fuel program made confined
    noResult session.machine derived
  rw [Session.executeStrictly, Session.execute]
  revert ends
  generalize Step.interpret session.addresses fuel none program session.machine = first
  generalize Strict.Step.interpret session.addresses fuel none program session.machine = second
  intro ends
  cases ends with
  | @ok result _ machine holds derived =>
    rcases holds with ⟨rfl, -⟩
    refine ⟨rfl, ?_⟩
    rintro _ _ ⟨⟩
    exact { derived with printed := rfl }
  | @error stop machine derived =>
    cases stop with
    | fault error =>
      refine ⟨rfl, ?_⟩
      rintro _ _ ⟨⟩
      exact { derived with printed := rfl }
    | outOfFuel =>
      refine ⟨rfl, ?_⟩
      rintro _ _ ⟨⟩

/-- The functions in a session stay derived when a source text is run. -/
theorem runStrictly_eq_ok (derived : session.machine.IsDerived) (fuel : Nat) (source : String) :
    session.runStrictly fuel source = .ok (session.run fuel source) ∧
      ∀ report after, session.run fuel source = some (report, after) →
        after.machine.IsDerived := by
  simp only [Session.runStrictly, Session.run, ne_eq]
  by_cases read : (Reading.ofSource session.nextId source).errors = []
  · have none : (Grammar.parse session.nextId (Item.tokens (Item.scan source))).errors = [] :=
      List.map_eq_nil_iff.mp (List.append_eq_nil_iff.mp read).2
    rw [if_neg (not_not_intro read), if_neg (not_not_intro read)]
    by_cases sound : (resolve (Reading.ofSource session.nextId source).statements).errors = []
    · rw [if_neg (not_not_intro sound), if_neg (not_not_intro sound)]
      apply executeStrictly_eq_ok _ fuel (makeAll_parse none) (areConfined_parse none sound)
      exact derived
    · rw [if_pos sound, if_pos sound]
      refine ⟨rfl, ?_⟩
      rintro _ _ ⟨⟩
      exact derived
  · rw [if_pos read, if_pos read]
    refine ⟨rfl, ?_⟩
    rintro _ _ ⟨⟩
    exact derived

/-- Strict sessions answer as other sessions do. -/
theorem answerStrictly_eq (derived : session.machine.IsDerived) (inputs : List Input) :
    session.answerStrictly inputs = .ok (session.answer inputs) := by
  induction inputs generalizing session with
  | nil => rfl
  | cons first others induction =>
    cases first with
    | time clock => exact induction { derived with clock := rfl }
    | source fuel text =>
      rcases runStrictly_eq_ok derived fuel text with ⟨same, derivedThen⟩
      rw [Session.answerStrictly, Session.answer, same]
      revert derivedThen
      generalize session.run fuel text = ran
      intro derivedThen
      cases ran with
      | none => rfl
      | some ran =>
        rcases ran with ⟨report, after⟩
        show (do
          match ← after.answerStrictly others with
          | none => return none
          | some (reports, last) => return some (report :: reports, last)) = _
        rw [induction (derivedThen report after rfl)]
        show _ = Except.ok (after.answer others >>= fun answered =>
          some (report :: answered.1, answered.2))
        cases after.answer others <;> rfl

end

end Session

/--
Signals never escape.  In any session no statement of a program ends with a `return` or a `break`,
no body of a function ends with a `break`, each `break` ends the innermost loop around it in the
function that runs, and the symbols of binary operators, which are those of their tokens, are
known: strict evaluation, which would stop otherwise, gives the same answers.
-/
theorem answerStrictly_eq_ok (clock : Float) (inputs : List Input) :
    (Session.start clock).answerStrictly inputs = .ok ((Session.start clock).answer inputs) ∧
      ∀ kind op, Grammar.Connective.ofKind? kind = some (.binary op) →
        kind = .symbol op.symbol := by
  constructor
  · exact Session.answerStrictly_eq (Machine.varies_start clock rfl) inputs
  · exact Grammar.Connective.kind_eq_of_ofKind?

/-- A loop around a function with a loop; each of the three is left by a signal. -/
def leftLoops : String :=
  "while (true) { fun f() { while (true) break; return true; } print f(); break; }"

/-- The function is left after its loop, and the loop around it after that. -/
theorem answerStrictly_leftLoops :
    ∃ session, (Session.start 0).answerStrictly [.source 20 leftLoops] =
      .ok (some ([⟨["true"], .success none⟩], session)) := by
  have ends : ((Session.start 0).answer [.source 20 leftLoops]).map Prod.fst =
      some [⟨["true"], .success none⟩] := by
    cbv
  rcases Option.map_eq_some_iff.mp ends with ⟨⟨reports, session⟩, answered, same⟩
  cases same
  refine ⟨session, ?_⟩
  rw [← answered]
  exact (answerStrictly_eq_ok 0 [.source 20 leftLoops]).1

end Lox
