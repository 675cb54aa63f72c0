import Lox.Proofs.Grammar.Extension
import Lox.Proofs.Renaming.Grammar

/-!
# Programs that are put together

Tokens that are read without a fault and that end with a semicolon can be put in front of others
that are read without a fault.  All of them are read without a fault, too, and the statements are
those of the two parts (`parse_concatenation`).  It does not matter with which ids the parts were
read, and what marks their ends.
-/

namespace Lox.Grammar

variable {tokens : List Token} {ending ending' : Token}

/-- The mark that ends the input is not read, and nothing behind it. -/
theorem State.rest_start_concat (firstId : Nat) (last : ending.kind.isEnding) :
    (State.start firstId (tokens ++ [ending])).rest = tokens.takeWhile (!·.kind.isEnding) := by
  rw [State.start, List.takeWhile_append, List.takeWhile_cons_of_neg (by simp [last])]
  split
  · next whole =>
    rw [List.append_nil]
    exact (List.takeWhile_prefix _).eq_of_length whole |>.symm
  · rfl

/-- What is read without a fault is read in the same way in front of another end of the input. -/
theorem parse_endsWith (last : ending.kind.isEnding) (last' : ending'.kind.isEnding)
    {firstId : Nat} (none : (parse firstId (tokens ++ [ending])).errors = []) :
    parse firstId (tokens ++ [ending']) = parse firstId (tokens ++ [ending]) := by
  have program := program_of_parse firstId _ none
  have sameRest : (State.start firstId (tokens ++ [ending])).rest =
      (State.start firstId (tokens ++ [ending'])).rest := by
    rw [State.rest_start_concat firstId last, State.rest_start_concat firstId last']
  have reads := parse_of_program firstId (tokens ++ [ending']) (sameRest ▸ program)
  rw [reads, ← none]

/--
Programs can be put together.  Let tokens without an end of the input, the last of which is a
semicolon, be read without a fault in front of an end of the input, and let other tokens be read
so, too, whatever the ids are.  If both are put in front of an end of the input, then there is
no fault either.  The statements are those of the first tokens and then those of the others, which
are read with the ids from the first one on that the first tokens leave, and the same next id is
left.
-/
theorem parse_concatenation {first second : List Token}
    (semicolon : first.getLast?.map Token.kind = some (.symbol .semicolon))
    (only : ∀ token ∈ first, ¬ token.kind.isEnding) {ending ending' ending'' : Token}
    (last : ending.kind.isEnding) (last' : ending'.kind.isEnding) (last'' : ending''.kind.isEnding)
    {someId someId' : Nat} (none : (parse someId (first ++ [ending])).errors = [])
    (none' : (parse someId' (second ++ [ending'])).errors = []) (firstId : Nat) :
    let parsed := parse firstId (first ++ [ending])
    let parsed' := parse parsed.nextId (second ++ [ending'])
    parse firstId (first ++ second ++ [ending'']) =
      ⟨parsed.statements ++ parsed'.statements, [], parsed'.nextId⟩ := by
  intro parsed parsed'
  have closed : ∀ token ∈ first.getLast?, token.kind = .symbol .semicolon := by
    intro token isLast
    rw [Option.mem_def.mp isLast] at semicolon
    exact Option.some.inj semicolon
  have clean : parsed.errors = [] := by
    rw [errors_parse, ← errors_parse someId, none]
  have clean' : parsed'.errors = [] := by
    rw [errors_parse, ← errors_parse someId', none']
  have same : parse parsed.nextId (second ++ [ending'']) = parsed' :=
    parse_endsWith last' last'' clean'
  have clean'' : (parse parsed.nextId (second ++ [ending''])).errors = [] := by
    rw [same, clean']
  rw [List.append_assoc, parse_append last only closed clean clean'', same]

/-- The tokens of `if (a) b;`. -/
def lonelyIf : List Token :=
  [⟨.keyword .ifWord, "if", 1⟩, ⟨.symbol .leftParen, "(", 1⟩, ⟨.identifier, "a", 1⟩,
    ⟨.symbol .rightParen, ")", 1⟩, ⟨.identifier, "b", 1⟩, ⟨.symbol .semicolon, ";", 1⟩]

/-- The token of `c`, a statement without a semicolon. -/
def openStatement : List Token :=
  [⟨.identifier, "c", 2⟩]

/-- An `if` without an `else` is followed by a statement that only the end of the input closes. -/
theorem parse_concatenation_lonelyIf :
    ((∀ token ∈ lonelyIf, ¬ token.kind.isEnding) ∧
      (parse 0 (lonelyIf ++ [.ending 1])).errors = [] ∧
      (parse 0 (openStatement ++ [.ending 2])).errors = []) ∧
    parse 7 (lonelyIf ++ openStatement ++ [.ending 3]) =
      ⟨[.ifElse (.read ⟨7, ⟨"a", 1⟩⟩) (.expression (.read ⟨8, ⟨"b", 1⟩⟩)) none,
        .expression (.read ⟨9, ⟨"c", 2⟩⟩)], [], 10⟩ := by
  have only : ∀ token ∈ lonelyIf, ¬ token.kind.isEnding := by decide
  have clean : (parse 0 (lonelyIf ++ [.ending 1])).errors = [] := by cbv
  have clean' : (parse 0 (openStatement ++ [.ending 2])).errors = [] := by cbv
  have parsed : parse 7 (lonelyIf ++ [.ending 1]) =
      ⟨[.ifElse (.read ⟨7, ⟨"a", 1⟩⟩) (.expression (.read ⟨8, ⟨"b", 1⟩⟩)) none], [], 9⟩ := by
    cbv
  have parsed' : parse 9 (openStatement ++ [.ending 2]) =
      ⟨[.expression (.read ⟨9, ⟨"c", 2⟩⟩)], [], 10⟩ := by
    cbv
  have whole : parse 7 (lonelyIf ++ openStatement ++ [.ending 3]) = _ :=
    parse_concatenation rfl only rfl rfl rfl clean clean' 7
  rw [parsed] at whole
  dsimp only at whole
  rw [parsed'] at whole
  exact ⟨⟨only, clean, clean'⟩, whole⟩

end Lox.Grammar
