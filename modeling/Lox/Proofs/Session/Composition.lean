import Lox.Proofs.Grammar.Extension
import Lox.Proofs.Scope.Balance
import Lox.Proofs.Session.Line
import Mathlib

/-!
# Joined source texts

One source text on the lines below another one that ends with a semicolon is run like the two
one after the other.  Nothing is wrong with it if nothing is wrong with the two, what runs of the
second one does so only if the first one succeeds, and only the lines of the second one are
different (`run_joinLines`).
-/

namespace Lox

/-! ## Reading -/

/-- The last token of a source text before its end is a semicolon. -/
def EndsWithSemicolon (source : String) : Prop :=
  ∃ before semicolon ending,
    Item.tokens (Item.scan source) = before ++ [semicolon, ending] ∧
      semicolon.kind = .symbol .semicolon

section

variable {first second : String}

theorem EndsWithSemicolon.closed (ends : EndsWithSemicolon first) :
    ∀ token ∈ (Item.tokens (Item.within 1 (Piece.pieces first.toList))).getLast?,
      token.kind = .symbol .semicolon := by
  rcases ends with ⟨before, semicolon, ending, tokens, isSemicolon⟩
  have split : before ++ [semicolon, ending] = (before ++ [semicolon]) ++ [ending] := by simp
  rw [Item.scan_eq_within, Item.tokens, List.filterMap_append, split] at tokens
  have same : Item.tokens (Item.within 1 (Piece.pieces first.toList)) = before ++ [semicolon] := by
    have parts := congrArg List.dropLast tokens
    rw [List.dropLast_concat] at parts
    rw [← parts]
    exact List.dropLast_concat.symm
  intro token isLast
  rw [same, List.getLast?_concat] at isLast
  cases isLast
  exact isSemicolon

variable {firstId : Nat}

/-- Joined source texts are read one after the other. -/
theorem Reading.ofSource_joinLines (ends : EndsWithSemicolon first)
    (clean : (ofSource firstId first).errors = [])
    (clean' : (onLine (ofSource firstId first).nextId (2 + newlines first.toList) second).errors =
      []) :
    ofSource firstId (joinLines first second) =
      ⟨[], [], (ofSource firstId first).statements ++
          (onLine (ofSource firstId first).nextId (2 + newlines first.toList) second).statements,
        (onLine (ofSource firstId first).nextId (2 + newlines first.toList) second).nextId⟩ := by
  have lexical : Item.errors (Item.scan first) = [] :=
    List.map_eq_nil_iff.mp (List.append_eq_nil_iff.mp clean).1
  have lexical' : Item.errors (Item.ofPieces (2 + newlines first.toList)
      (Piece.pieces second.toList)) = [] :=
    List.map_eq_nil_iff.mp (List.append_eq_nil_iff.mp clean').1
  have syntactic : (Grammar.parse firstId (Item.tokens (Item.scan first))).errors = [] :=
    List.map_eq_nil_iff.mp (List.append_eq_nil_iff.mp clean).2
  have syntactic' : (Grammar.parse (Grammar.parse firstId (Item.tokens (Item.scan first))).nextId
      (Item.tokens (Item.ofPieces (2 + newlines first.toList)
        (Piece.pieces second.toList)))).errors = [] :=
    List.map_eq_nil_iff.mp (List.append_eq_nil_iff.mp clean').2
  have tokens : Item.tokens (Item.scan first) =
      Item.tokens (Item.within 1 (Piece.pieces first.toList)) ++
        [.ending (1 + newlines first.toList)] := by
    rw [Item.scan_eq_within, Item.tokens, List.filterMap_append]
    rfl
  have inner : ∀ token ∈ Item.tokens (Item.within 1 (Piece.pieces first.toList)),
      ¬ token.kind.isEnding :=
    Item.not_isEnding_within fun _ member => Piece.isInner_of_mem_pieces member
  have last : (Token.ending (1 + newlines first.toList)).kind.isEnding := rfl
  rw [tokens] at syntactic syntactic'
  have parsed := Grammar.parse_append last inner ends.closed syntactic syntactic'
  rw [← tokens] at parsed
  have errors : Item.errors (Item.scan (joinLines first second)) = [] := by
    have within := lexical
    rw [Item.scan_eq_within, Item.errors, List.filterMap_append, List.append_eq_nil_iff] at within
    rw [Item.scan_joinLines (.of_errors lexical), Item.errors, List.filterMap_append, within.1]
    exact lexical'
  have joined : Item.tokens (Item.scan (joinLines first second)) =
      Item.tokens (Item.within 1 (Piece.pieces first.toList)) ++
        Item.tokens (Item.ofPieces (2 + newlines first.toList) (Piece.pieces second.toList)) := by
    rw [Item.scan_joinLines (.of_errors lexical), Item.tokens, List.filterMap_append]
    rfl
  rw [ofSource, errors, joined, parsed]
  rfl

end

/-! ## Resolving -/

/-- A program that is read without faults has statements. -/
theorem Reading.statements_ne_nil {firstId line : Nat} {source : String}
    (clean : (onLine firstId line source).errors = []) :
    (onLine firstId line source).statements ≠ [] :=
  (Grammar.program_of_parse firstId _
    (List.map_eq_nil_iff.mp (List.append_eq_nil_iff.mp clean).2)).declarations.2

/-- Nothing is wrong with joined source texts. -/
theorem Reading.isSound_joinLines {firstId : Nat} {first second : String}
    (ends : EndsWithSemicolon first) (sound : (ofSource firstId first).IsSound)
    (sound' : (ofSource 0 second).IsSound) :
    (ofSource firstId (joinLines first second)).IsSound := by
  have later := (isSound_onLine (ofSource firstId first).nextId (2 + newlines first.toList)
    second).mpr sound'
  rw [ofSource_joinLines ends sound.1 later.1]
  refine ⟨rfl, ?_⟩
  rw [errors_resolve_append, sound.2, later.2, List.append_nil]

/-! ## Executing -/

section

variable (addresses : AddressTable) (fuel : Nat)

theorem Step.interpret_append (result : Option Value) (first second : List Stmt) :
    Step.interpret addresses fuel result (first ++ second) =
      (Step.interpret addresses fuel result first >>= fun result =>
        Step.interpret addresses fuel result second) := by
  induction first generalizing result with
  | nil => rfl
  | cons statement others induction =>
    rw [List.cons_append, Step.interpret, Step.interpret, bind_assoc]
    exact bind_congr fun flow => induction flow.programResult

/-- The result of what ran before does not matter to a program that has statements. -/
theorem Step.interpret_eq_none {program : List Stmt} (nonempty : program ≠ [])
    (result : Option Value) :
    Step.interpret addresses fuel result program = Step.interpret addresses fuel none program := by
  cases program with
  | nil => exact absurd rfl nonempty
  | cons first others => rfl

end

namespace Session

/-- A program that follows another one is executed if this succeeds. -/
theorem execute_append (fuel : Nat) (first : List Stmt) {second : List Stmt}
    (nonempty : second ≠ []) (session : Session) :
    session.execute fuel (first ++ second) =
      match Step.interpret session.addresses fuel none first session.machine with
      | .ok _ machine => { session with machine := machine }.execute fuel second
      | .error (.fault error) machine => some (session.conclude (.failed error) machine)
      | .error .outOfFuel _ => none := by
  have sequence : Step.interpret session.addresses fuel none (first ++ second) session.machine =
      match Step.interpret session.addresses fuel none first session.machine with
      | .ok _ machine => Step.interpret session.addresses fuel none second machine
      | .error stop machine => .error stop machine := by
    rw [Step.interpret_append]
    show EStateM.bind _ _ _ = _
    rw [EStateM.bind]
    split
    · next result machine ended => rw [ended, Step.interpret_eq_none _ _ nonempty]
    · next stop machine ended => rw [ended]
  rw [execute, sequence]
  generalize Step.interpret session.addresses fuel none first session.machine = ended
  cases ended with
  | ok result machine => rfl
  | error stop machine => cases stop <;> rfl

theorem runReading_of_isSound {reading : Reading} (sound : reading.IsSound) (fuel : Nat)
    (session : Session) :
    session.runReading fuel reading =
      ({ session with nextId := reading.nextId }.record
        (resolve reading.statements).bindings).execute fuel reading.statements := by
  simp only [runReading, ne_eq]
  rw [if_neg (not_not_intro sound.1), if_neg (not_not_intro sound.2)]

theorem record_append (bindings others : List Binding) (session : Session) :
    session.record (bindings ++ others) = (session.record bindings).record others := by
  rw [record, List.foldl_append]
  rfl

/-- A program does the same if another one is read before it is executed. -/
theorem IsBelow.interpret_read {session : Session} {lines : Nat} (below : session.IsBelow lines)
    {tokens : List Token} (closed : tokens.any (·.kind.isEnding))
    (small : ∀ token ∈ tokens, token.line < lines) (others : List Token) (fuel : Nat) :
    ∃ distance,
      EndsVary (.keeping (session.read true tokens).nextId lines
          (.skip (session.read true tokens).nextId distance))
        (Option.Rel (Value.Varies (.keeping (session.read true tokens).nextId lines
          (.skip (session.read true tokens).nextId distance))))
        (Step.interpret (session.read true tokens).addresses fuel none
          (Grammar.parse session.nextId tokens).statements session.machine)
        (Step.interpret ((session.read true tokens).read true others).addresses fuel none
          (Grammar.parse session.nextId tokens).statements session.machine) := by
  let middle := session.read true tokens
  let distance := (middle.read true others).nextId - middle.nextId
  let variation := Variation.keeping middle.nextId lines (.skip middle.nextId distance)
  have le : session.nextId ≤ middle.nextId := session.nextId_le_read tokens true
  have keeps : (Renaming.skip middle.nextId distance).Keeps middle.nextId lines :=
    Renaming.keeps_skip middle.nextId distance lines
  have recorded := session.recorded_read tokens below.recorded true
  have renamed : AddressTable.Renamed variation.change middle.addresses
      (middle.read true others).addresses := renamed_read recorded true others
  have machine : session.machine.Varies variation session.machine :=
    below.machine.imp (Variation.below_le_keeping le (Nat.le_refl lines)
      (keeps.mono le (Nat.le_refl lines))) rfl
  have fixed : ∀ change, Renaming.Keeps middle.nextId lines change →
      Stmt.renameAll change (Grammar.parse session.nextId tokens).statements =
        (Grammar.parse session.nextId tokens).statements :=
    fun change keeps => Grammar.renameAll_parse closed small keeps
  have made : Stmt.MakeAll variation.allowed (Grammar.parse session.nextId tokens).statements :=
    Stmt.makeAll_of_fixed _ fixed
  have ends := Step.Varies.interpret renamed fuel _ made .none _ _ machine
  have same : Stmt.renameAll variation.change (Grammar.parse session.nextId tokens).statements =
      (Grammar.parse session.nextId tokens).statements := fixed _ keeps
  rw [same] at ends
  exact ⟨distance, ends⟩

/-! ## Runs in order -/

/--
Two runs of a source text on different lines.  Both are what a run below all lines of the session
becomes if its lines are counted anew, so they differ in the lines of the text only.
-/
inductive SameButLines (session : Session) (fuel : Nat) (source : String) (line line' : Nat)
    (left right : Report × Session) : Prop where
  | intro {bound nextId : Nat} {origin : Report × Session} (below : session.IsBelow bound)
      (ran : session.runFrom bound fuel source = some origin)
      (left : RunsVary (Renaming.recount bound line).variation nextId nextId origin left)
      (right : RunsVary (Renaming.recount bound line').variation nextId nextId origin right)

/--
How a run of joined source texts ends.  If the first one fails, then its report is that of all,
and the same globals and the same heap are left.  If it succeeds, then the second one runs, and
what it prints comes behind.  The second one starts on the line below the first one.
-/
inductive RunsInOrder (session : Session) (fuel : Nat) (first second : String) :
    Option (Report × Session) → Prop where
  | outOfFuel (ran : session.run fuel first = none) : RunsInOrder session fuel first second none
  | failed {report : Report} {after last : Session} {error : RuntimeError}
      (ran : session.run fuel first = some (report, after))
      (fails : report.outcome = .failed error)
      (same : after.machine.Varies Renaming.refl.variation last.machine) :
      RunsInOrder session fuel first second (some (report, last))
  | outOfFuelThen {report : Report} {after : Session} {result : Option String}
      (ran : session.run fuel first = some (report, after))
      (succeeds : report.outcome = .success result) (ranThen : after.run fuel second = none) :
      RunsInOrder session fuel first second none
  | succeeded {report reportThen reportBelow : Report} {after last lastBelow : Session}
      {result : Option String} (ran : session.run fuel first = some (report, after))
      (succeeds : report.outcome = .success result)
      (ranThen : after.run fuel second = some (reportThen, last))
      (same : after.SameButLines fuel second 1 (2 + newlines first.toList) (reportThen, last)
        (reportBelow, lastBelow)) :
      RunsInOrder session fuel first second
        (some (reportBelow.behind report.printed, lastBelow))

section

variable {session : Session} {first second : String}

/-- Joined source texts record the places of the first one, and then those of the second one. -/
theorem run_joinLines_eq (ends : EndsWithSemicolon first)
    (sound : (Reading.ofSource session.nextId first).IsSound)
    (sound' : (Reading.ofSource 0 second).IsSound) (fuel : Nat) :
    let middle := session.read true (Item.tokens (Item.scan first))
    let later := Reading.onLine middle.nextId (2 + newlines first.toList) second
    session.run fuel (joinLines first second) =
      ({ middle with nextId := later.nextId }.record (resolve later.statements).bindings).execute
        fuel ((Reading.ofSource session.nextId first).statements ++ later.statements) := by
  intro middle later
  have soundLater : later.IsSound := (Reading.isSound_onLine _ _ second).mpr sound'
  have joined := Reading.ofSource_joinLines ends sound.1 soundLater.1
  have soundJoined := Reading.isSound_joinLines ends sound sound'
  rw [run_eq, runReading_of_isSound soundJoined, joined]
  dsimp only
  rw [bindings_resolve_append, record_append]
  rfl

end

/-- A source text is executed below another one as it is run after it, but on other lines. -/
theorem runFrom_varies_execute {after : Session} {machine : Machine} {bound line : Nat}
    {earlier : Array String} {second : String} (sound : (Reading.ofSource 0 second).IsSound)
    (varies : after.machine.Varies ((Renaming.recount bound line).variation.after earlier) machine)
    (fuel : Nat) :
    let later := Reading.onLine after.nextId line second
    ∃ nextId, Option.Rel
      (RunsVary ((Renaming.recount bound line).variation.after earlier) nextId nextId)
      (after.runFrom bound fuel second)
      (({ after with machine := machine, nextId := later.nextId }.record
        (resolve later.statements).bindings).execute fuel later.statements) := by
  intro later
  let far := Reading.onLine after.nextId bound second
  let variation := (Renaming.recount bound line).variation.after earlier
  have soundFar : far.IsSound := (Reading.isSound_onLine _ _ second).mpr sound
  have moves := Renaming.recount_add bound line
  have reads := Reading.varies_onLine moves after.nextId 0 second
  have nextId : later.nextId = far.nextId := Reading.nextId_onLine moves after.nextId 0 second
  have statements : later.statements = Stmt.renameAll variation.change far.statements :=
    reads.statements
  have bindings : (resolve later.statements).bindings = (resolve far.statements).bindings := by
    rw [statements, resolve_rename]
    exact List.map_id' _
  have sessions : Session.Varies variation
      ({ after with nextId := far.nextId }.record (resolve far.statements).bindings)
      ({ after with machine := machine, nextId := far.nextId }.record
        (resolve far.statements).bindings) := ⟨varies, fun _ => rfl⟩
  refine ⟨far.nextId, ?_⟩
  rw [runFrom, runReading_of_isSound soundFar, bindings, nextId, statements]
  exact sessions.execute fuel (Stmt.makeAll_of_forall (fun _ => trivial) far.statements)

/-- The run below another source text and the run after it are the same, but on other lines. -/
theorem IsBelow.sameButLines {after : Session} {bound : Nat} (below : after.IsBelow bound)
    {machine : Machine} {line : Nat} {earlier : Array String} {second : String}
    (sound : (Reading.ofSource 0 second).IsSound)
    (varies : after.machine.Varies ((Renaming.recount bound line).variation.after earlier) machine)
    (fuel : Nat) :
    let later := Reading.onLine after.nextId line second
    Option.Rel (fun left right => ∃ report, right.1 = report.behind earlier.toList ∧
        after.SameButLines fuel second 1 line left (report, right.2))
      (after.run fuel second)
      (({ after with machine := machine, nextId := later.nextId }.record
        (resolve later.statements).bindings).execute fuel later.statements) := by
  intro later
  rcases runFrom_varies below 1 fuel second with ⟨nextId, runsThen⟩
  rcases runFrom_varies_execute sound varies fuel with ⟨nextIdBelow, runsBelow⟩
  rw [runFrom_one] at runsThen
  revert runsThen runsBelow
  generalize isFar : after.runFrom bound fuel second = far
  generalize after.run fuel second = ranThen
  generalize execute fuel _ _ = ranBelow
  rintro (runThen | _) runsBelow
  · cases runsBelow with
    | some runBelow =>
      have sameNextId : nextIdBelow = nextId := runBelow.nextId.symm.trans runThen.nextId
      subst sameNextId
      refine .some ⟨_, runBelow.report, ?_⟩
      exact .intro below isFar runThen
        ⟨rfl, runBelow.session, runBelow.nextId, runBelow.nextId'⟩
  · cases runsBelow
    exact .none

/-- What follows a first run that succeeds is the second run, but for lines. -/
theorem RunsInOrder.of_success {fuel : Nat} {first second : String} {session after : Session}
    {report : Report} {result : Option String} {ranBelow : Option (Report × Session)}
    (ran : session.run fuel first = some (report, after))
    (succeeds : report.outcome = .success result)
    (runs : Option.Rel (fun left right => ∃ reportBelow,
        right.1 = reportBelow.behind report.printed ∧
          after.SameButLines fuel second 1 (2 + newlines first.toList) left (reportBelow, right.2))
      (after.run fuel second) ranBelow) : session.RunsInOrder fuel first second ranBelow := by
  revert runs
  generalize isThen : after.run fuel second = ranThen
  rintro (@⟨runThen, ⟨_, lastBelow⟩, reportBelow, rfl, same⟩ | _)
  · exact .succeeded ran succeeds isThen same
  · exact .outOfFuelThen ran succeeds isThen

/-- Joined source texts run in their order. -/
theorem IsBelow.runsInOrder {session : Session} {bound : Nat} (below : session.IsBelow bound)
    {first second : String} (ends : EndsWithSemicolon first)
    (sound : (Reading.ofSource session.nextId first).IsSound)
    (sound' : (Reading.ofSource 0 second).IsSound) (fuel : Nat) :
    session.RunsInOrder fuel first second (session.run fuel (joinLines first second)) := by
  have closed : (Item.tokens (Item.scan first)).any (·.kind.isEnding) :=
    Item.any_isEnding_tokens 1 _
  rcases Item.exists_line_lt (Item.tokens (Item.scan first)) with ⟨bound', small⟩
  have below := below.mono (Nat.le_max_left bound bound')
  have small : ∀ token ∈ Item.tokens (Item.scan first), token.line < max bound bound' :=
    fun token member => Nat.lt_of_lt_of_le (small token member) (Nat.le_max_right _ _)
  generalize max bound bound' = bound at below small
  let middle := session.read true (Item.tokens (Item.scan first))
  let program := (Reading.ofSource session.nextId first).statements
  let line := 2 + newlines first.toList
  let later := Reading.onLine middle.nextId line second
  let both := { middle with nextId := later.nextId }.record (resolve later.statements).bindings
  have soundLater : later.IsSound := (Reading.isSound_onLine _ _ second).mpr sound'
  have nonempty : later.statements ≠ [] := Reading.statements_ne_nil soundLater.1
  have ran : session.run fuel first = middle.execute fuel program :=
    runReading_of_isSound sound fuel session
  have ranBelow : session.run fuel (joinLines first second) =
      both.execute fuel (program ++ later.statements) := run_joinLines_eq ends sound sound' fuel
  -- The first program ends in the same way whether or not the second one has been read.
  obtain ⟨distance, executed⟩ : ∃ distance,
      let variation := Variation.keeping middle.nextId bound (.skip middle.nextId distance)
      EndsVary variation (Option.Rel (Value.Varies variation))
        (Step.interpret middle.addresses fuel none program middle.machine)
        (Step.interpret both.addresses fuel none program both.machine) :=
    below.interpret_read closed small _ fuel
  have keeps : (Renaming.skip middle.nextId distance).Keeps middle.nextId bound :=
    Renaming.keeps_skip middle.nextId distance bound
  rw [ranBelow, execute_append fuel program nonempty]
  rw [execute] at ran
  revert executed
  generalize Step.interpret middle.addresses fuel none program middle.machine = ended at ran
  generalize Step.interpret both.addresses fuel none program both.machine = endedBelow
  intro executed
  cases executed with
  | @ok result _ machine machine' same varies =>
    have printed : machine'.printed = machine.printed ++ #[] := by
      rw [varies.printed, Array.append_empty]
      exact Array.empty_append
    have weaker : (Variation.keeping middle.nextId bound (.skip middle.nextId distance)).Le
        ((Renaming.recount bound line).variation.after machine.printed) :=
      Variation.keeping_le keeps (Renaming.keeps_recount middle.nextId bound line)
    have belowAfter := below.runReading closed small ran
    exact .of_success ran rfl
      (belowAfter.sameButLines sound' (varies.withPrinted weaker printed) fuel)
  | @fault line fault machine machine' varies =>
    have printed : machine'.printed = machine.printed := by
      rw [varies.printed]
      exact Array.empty_append
    have sameMachine : Machine.Varies Renaming.refl.variation { machine with printed := #[] }
        { machine' with printed := #[] } :=
      varies.withPrinted (Variation.keeping_le keeps (Renaming.keeps_refl _ bound)) rfl
    dsimp only
    rw [conclude, printed]
    exact .failed ran rfl sameMachine
  | outOfFuel => exact .outOfFuel ran

end Session

/--
Source texts compose.  In a session that ran some source texts, let nothing be wrong with two
further ones, the first of which ends with a semicolon.  Then nothing is wrong with the text in
which the second one is on the lines below the first one, and it runs like the first one and,
if this succeeds, the second one after it.
-/
theorem run_joinLines (clock : Float) (inputs : List Input) {reports : List Report}
    {session : Session} (reached : (Session.start clock).answer inputs = some (reports, session))
    {first second : String} (sound : (Reading.ofSource 0 first).IsSound)
    (soundThen : (Reading.ofSource 0 second).IsSound) (ends : EndsWithSemicolon first) :
    (Reading.ofSource 0 (joinLines first second)).IsSound ∧
      ∀ fuel, session.RunsInOrder fuel first second
        (session.run fuel (joinLines first second)) := by
  rcases Session.exists_isBelow reached with ⟨bound, below⟩
  have soundHere : (Reading.ofSource session.nextId first).IsSound :=
    (Reading.isSound_onLine session.nextId 1 first).mpr sound
  exact ⟨Reading.isSound_joinLines ends sound soundThen,
    below.runsInOrder ends soundHere soundThen⟩

/-- Declares a variable that has no value yet. -/
def declaresOnly : String := "var a;"

/-- Reads the variable. -/
def readsDeclared : String := "print a;"

/-- The declaration succeeds, and what follows it fails on the second line instead of the first. -/
theorem run_joinLines_declaresOnly :
    ((Reading.ofSource 0 (joinLines declaresOnly readsDeclared)).IsSound ∧
      (Session.start 0).RunsInOrder 9 declaresOnly readsDeclared
        ((Session.start 0).run 9 (joinLines declaresOnly readsDeclared))) ∧
    ((Session.start 0).answer [.source 9 declaresOnly, .source 9 readsDeclared]).map Prod.fst =
      some [⟨[], .success none⟩, ⟨[], .failed ⟨1, .uninitialisedVariable "a"⟩⟩] ∧
    ((Session.start 0).run 9 (joinLines declaresOnly readsDeclared)).map Prod.fst =
      some ⟨[], .failed ⟨2, .uninitialisedVariable "a"⟩⟩ := by
  have sound : (Reading.ofSource 0 declaresOnly).IsSound := ⟨by cbv, by cbv⟩
  have soundThen : (Reading.ofSource 0 readsDeclared).IsSound := ⟨by cbv, by cbv⟩
  have ends : EndsWithSemicolon declaresOnly :=
    ⟨[⟨.keyword .varWord, "var", 1⟩, ⟨.identifier, "a", 1⟩], ⟨.symbol .semicolon, ";", 1⟩,
      .ending 1, by cbv, rfl⟩
  have composed := run_joinLines 0 [] rfl sound soundThen ends
  exact ⟨⟨composed.1, composed.2 9⟩, by cbv, by cbv⟩

end Lox
