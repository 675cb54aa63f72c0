import Lox.Proofs.Session.Composition
import Lox.Proofs.Spelling.Evaluation
import Lox.Proofs.Spelling.Reading

/-!
# Source texts with another name for a local variable

The name of a local variable does not matter.  If it is replaced where the variable is declared and
wherever it is used (`renameLocal`), a source text does the same as before, and the new name stands
in a runtime error for the old one only (`run_renameLocal`).
-/

namespace Lox

/-- A source text with a word in the place of the name of a variable. -/
def renameLocal (firstId : Nat) (chosen : Name) (word source : String) : String :=
  replaceNames word (Program.positions (Reading.numbered firstId source) chosen) source

/-! ## Runs -/

/-- Two outcomes: the same, but for the name of a variable in a fault. -/
inductive Outcome.Respelt (renamed : String → String → Prop) : Outcome → Outcome → Prop where
  | success (result : Option String) : Respelt renamed (.success result) (.success result)
  | failed (line : Nat) {fault fault' : RuntimeFault} (same : fault.Respelt renamed fault') :
      Respelt renamed (.failed ⟨line, fault⟩) (.failed ⟨line, fault'⟩)

/-- Two reports: the same is printed, and the outcomes are the same but for the name. -/
structure Report.Respelt (renamed : String → String → Prop) (left right : Report) : Prop where
  printed : left.printed = right.printed
  outcome : left.outcome.Respelt renamed right.outcome

namespace Session

/-- Two source texts do the same in a session, but for the name of a variable. -/
structure RunsRespelt (session : Session) (renamed : String → String → Prop)
    (source source' : String) : Prop where
  /-- Nothing is wrong with the other text. -/
  sound : (Reading.ofSource session.nextId source').IsSound
  /-- The same places of local variables are found. -/
  bindings : (resolve (Reading.ofSource session.nextId source').statements).bindings =
    (resolve (Reading.ofSource session.nextId source).statements).bindings
  reports : ∀ fuel, Option.Rel (fun left right => Report.Respelt renamed left.1 right.1)
    (session.run fuel source) (session.run fuel source')

/-- No function runs between two source texts, and there is a frame for globals. -/
theorem root_of_answer {clock : Float} {inputs : List Input} {reports : List Report}
    {session : Session} (reached : (start clock).answer inputs = some (reports, session)) :
    session.machine.current = Machine.root ∧ 0 < session.machine.frames.size := by
  have same := (matches_start clock).answer inputs
  rw [reached] at same
  revert same
  generalize Lexical.Session.answer inputs (.start clock) = reference
  intro same
  cases same with
  | some matched =>
    rcases matched.2 with ⟨programs, matched⟩
    rcases matched.fits with ⟨layout, fits⟩
    refine ⟨matched.current, ?_⟩
    have size : layout.size = session.machine.frames.size := fits.frames.size
    rw [← size]
    exact fits.frames.root_isFrame

/-- A program that is spelt differently is executed in the same way. -/
theorem execute_spell {renamed : String → String → Prop} {session : Session}
    (atRoot : session.machine.current = Machine.root) (hasRoot : 0 < session.machine.frames.size)
    {spelling spelling' : Spelling} {program : List Stmt}
    (agrees : spelling.Agrees ⟨session.addresses, renamed⟩ spelling' (Program.mentions program))
    (fuel : Nat) :
    Option.Rel (fun left right => Report.Respelt renamed left.1 right.1)
      (session.execute fuel (Stmt.spellAll spelling program))
      (session.execute fuel (Stmt.spellAll spelling' program)) := by
  have itself : Machine.Respelt ⟨session.addresses, renamed⟩ Machine.root session.machine
      session.machine := atRoot ▸ Machine.respelt_refl _ hasRoot
  have ends := Step.Respelt.interpret fuel program agrees .none _ _ itself
  rw [execute, execute]
  revert ends
  dsimp only
  generalize Step.interpret _ _ _ _ _ = ended
  generalize Step.interpret _ _ _ _ _ = ended'
  intro ends
  cases ends with
  | @ok result result' machine machine' same respelt =>
    have results : result.map Value.result = result'.map Value.result := by
      cases same with
      | none => rfl
      | some same => exact congrArg some same.alike.result_eq
    dsimp only
    rw [results]
    exact .some ⟨congrArg Array.toList respelt.printed, .success _⟩
  | fault line same respelt =>
    exact .some ⟨congrArg Array.toList respelt.printed, .failed line same⟩
  | outOfFuel => exact .none

/-- All uses of local variables are found at a recorded place. -/
theorem isSome_addresses_record (session : Session) {program : List Stmt} {use : Occurrence}
    (isUse : use ∈ Program.occurrences program) (isLocal : use.address?.isSome) :
    (session.record (resolve program).bindings).addresses[use.id]?.isSome := by
  rcases session.addresses_record (resolve program).bindings use.id with
    ⟨address, -, found⟩ | ⟨absent, -⟩
  · rw [found]
    rfl
  · rcases Option.isSome_iff_exists.mp isLocal with ⟨address, found⟩
    have recorded : ⟨use.id, address⟩ ∈ (resolve program).bindings := by
      rw [bindings_resolve, List.mem_filterMap]
      exact ⟨use, isUse, by rw [Occurrence.binding?, found]; rfl⟩
    exact absurd rfl (absent _ recorded)

end Session

/--
The names of local variables do not matter.  In a session that ran some source texts, let nothing
be wrong with a further one, and let a word that is no reserved word and no token of the text take
the place of the name of a local variable: where this is declared, and wherever it is used.  Then
nothing is wrong with the text that results, the same places of local variables are found, the same
is printed, and the outcome is the same, but for the name of the variable in a runtime error.
-/
theorem run_renameLocal (clock : Float) (inputs : List Input) {reports : List Report}
    {session : Session} (reached : (Session.start clock).answer inputs = some (reports, session))
    {source : String} (sound : (Reading.ofSource session.nextId source).IsSound) {chosen : Name}
    (isLocal : Program.DeclaresLocal (Reading.numbered session.nextId source) chosen)
    {word : String} (spelt : Kind.IsSpelt .identifier word.toList)
    (fresh : ∀ token ∈ Item.tokens (Item.scan source), token.lexeme ≠ word) :
    session.RunsRespelt (fun text text' => text = chosen.text ∧ text' = word) source
      (renameLocal session.nextId chosen word source) := by
  rcases Session.root_of_answer reached with ⟨atRoot, hasRoot⟩
  rcases Reading.ofSource_replaceNames sound isLocal spelt fresh with ⟨reads, resolved⟩
  have soundThen : (Reading.ofSource session.nextId
      (renameLocal session.nextId chosen word source)).IsSound := by
    rw [renameLocal, reads]
    exact ⟨rfl, congrArg Resolution.errors resolved⟩
  refine ⟨soundThen, ?_, ?_⟩
  · rw [renameLocal, reads, resolved]
  · intro fuel
    let later := { session with nextId := (Reading.ofSource session.nextId source).nextId }.record
      (resolve (Reading.numbered session.nextId source)).bindings
    have recorded : ∀ use ∈ Program.occurrences (Reading.numbered session.nextId source),
        use.address?.isSome → later.addresses[use.id]?.isSome :=
      fun _ => Session.isSome_addresses_record _
    have agrees := (Reading.isNumbered_numbered sound).agrees_replacing word
      (Token.lineAt (Item.tokens (Item.scan source))) isLocal recorded
    have laterAtRoot : later.machine.current = Machine.root := atRoot
    have bindings := congrArg Resolution.bindings (Reading.resolve_numbered sound)
    rw [Session.run_eq, Session.run_eq, Session.runReading_of_isSound sound,
      Session.runReading_of_isSound soundThen, renameLocal, reads, resolved, ← bindings,
      Reading.statements_eq_spellAll sound]
    exact Session.execute_spell laterAtRoot hasRoot agrees fuel

/-- A block in which a global variable is hidden by a local one, but not from its start. -/
def shadowing : String := "var a = nil; \x7b print a; var a; print a; \x7d"

/-- Only the local variable is called `b` then, and the runtime error says so. -/
theorem run_renameLocal_shadowing :
    (Session.start 0).RunsRespelt (fun text text' => text = "a" ∧ text' = "b") shadowing
      (renameLocal 0 ⟨"a", 10⟩ "b" shadowing) ∧
    renameLocal 0 ⟨"a", 10⟩ "b" shadowing = "var a = nil; \x7b print a; var b; print b; \x7d" ∧
    ((Session.start 0).run 9 shadowing).map Prod.fst =
      some ⟨["nil"], .failed ⟨1, .uninitialisedVariable "a"⟩⟩ ∧
    ((Session.start 0).run 9 (renameLocal 0 ⟨"a", 10⟩ "b" shadowing)).map Prod.fst =
      some ⟨["nil"], .failed ⟨1, .uninitialisedVariable "b"⟩⟩ := by
  have sound : (Reading.ofSource 0 shadowing).IsSound := ⟨by cbv, by cbv⟩
  have mentions : Program.mentions (Reading.numbered 0 shadowing) =
      [.declaration ⟨"a", 1⟩ false, .use ⟨0, ⟨"a", 7⟩⟩, .declaration ⟨"a", 10⟩ true,
        .use ⟨1, ⟨"a", 13⟩⟩] := by cbv
  have isLocal : Program.DeclaresLocal (Reading.numbered 0 shadowing) ⟨"a", 10⟩ := by
    left
    rw [mentions]
    decide
  have spelt : Kind.IsSpelt .identifier "b".toList := by
    apply Kind.IsSpelt.identifier rfl (List.forall_mem_nil _)
    intro word
    cases word <;> decide
  have lexemes : (Item.tokens (Item.scan shadowing)).map Token.lexeme =
      ["var", "a", "=", "nil", ";", "\x7b", "print", "a", ";", "var", "a", ";", "print", "a", ";",
        "\x7d", ""] := by cbv
  have fresh : ∀ token ∈ Item.tokens (Item.scan shadowing), token.lexeme ≠ "b" := by
    intro token member same
    have isThere : "b" ∈ (Item.tokens (Item.scan shadowing)).map Token.lexeme :=
      List.mem_map.mpr ⟨token, member, same⟩
    rw [lexemes] at isThere
    revert isThere
    decide
  have renamed : renameLocal 0 ⟨"a", 10⟩ "b" shadowing =
      "var a = nil; \x7b print a; var b; print b; \x7d" := by cbv
  refine ⟨run_renameLocal 0 [] rfl sound isLocal spelt fresh, renamed, by cbv, ?_⟩
  rw [renamed]
  cbv

end Lox
