import Lox.Proofs.Cursor.Agreement
import Lox.Proofs.Grammar.Exactness
import Mathlib

/-!
# Reading and recovery go on

A list of tokens with one end of the input, which is its last token, is read by an index.
`reaches_end` says that this never looks behind the end and never gets stuck, whatever is
wrong with the tokens: each token before the end is read once and in order, and each turn of a
loop over declarations or methods reads a token or reports an error.
-/

namespace Lox.Grammar

/-- Declarations are read until no token is left. -/
theorem ends_declarations_nil (fuel : Nat) (state : State) :
    (declarations fuel).Ends state (fun _ after => after.rest = []) fun _ _ => True := by
  induction fuel generalizing state with
  | zero => trivial
  | succ fuel induction =>
    have continues : ∀ (first : Option Stmt) (after : State),
        Rule.Ends (atEnd >>= fun ending =>
          if ending = true then pure first.toList
          else declarations fuel >>= fun others => pure (first.toList ++ others)) after
          (fun _ last => last.rest = []) fun _ _ => True := by
      intro first after
      apply Rule.Ends.bind
      apply ends_atEnd
      split
      · next none => exact List.isEmpty_iff.mp none
      · exact (induction after).seq (fun _ _ none => none) fun _ _ _ => trivial
    rw [declarations]
    apply Rule.Ends.bind
    apply ends_recovering
    rw [Rule.Ends]
    cases declaration fuel false state with
    | ok first after => exact continues (some first) after
    | error stop after =>
      cases stop with
      | exhausted => trivial
      | mistake error => exact continues none _

namespace Cursor

variable {body : List Token} {ending : Token}

theorem ending_start (firstId : Nat) (last : ending.kind.isEnding)
    (only : ∀ token ∈ body, ¬ token.kind.isEnding) :
    (State.start firstId (body ++ [ending])).ending = ending := by
  have none : body.find? (·.kind.isEnding) = none := List.find?_eq_none.mpr only
  simp [State.start, List.find?_append, none, last]

/-- At the first token everything is left. -/
theorem tracks_start (firstId : Nat) (last : ending.kind.isEnding)
    (only : ∀ token ∈ body, ¬ token.kind.isEnding) :
    Tracks [] (start firstId (body ++ [ending])) (State.start firstId (body ++ [ending])) where
  left := by
    rw [rest_start firstId last only, ending_start firstId last only]
    rfl
  only := by
    rw [rest_start firstId last only]
    exact fun token isIn => Bool.eq_false_iff.mpr (only token isIn)
  isEnding := isEnding_start firstId _
  nextId := rfl
  errors := rfl
  consumed := rfl
  turns := nofun

/--
The reading of tokens by an index yields what `parse` yields.  It stops at the end of the input,
which is not read, and it has read every token before it once; it never looks for a token where
there is none.  Each turn of its loops is sound.
-/
theorem reaches_end (firstId : Nat) (body : List Token) (ending : Token)
    (last : ending.kind.isEnding) (only : ∀ token ∈ body, ¬ token.kind.isEnding) :
    ∃ run, declarations (depthPerToken * (body ++ [ending]).length)
        (start firstId (body ++ [ending])) =
        .ok (parse firstId (body ++ [ending])).statements run ∧
      run.errors.toList = (parse firstId (body ++ [ending])).errors ∧
      run.nextId = (parse firstId (body ++ [ending])).nextId ∧
      run.current = body.length ∧ run.consumed = body ∧
      ∀ turn ∈ run.turns,
        turn.IsSound body.length (parse firstId (body ++ [ending])).errors := by
  obtain ⟨after, reads, errors, nextId⟩ := exists_parse_eq firstId (body ++ [ending])
  have all := rest_start firstId last only
  have length : (body ++ [ending]).length = body.length + 1 := by simp
  rw [all, ← length] at reads
  have none := ends_declarations_nil (depthPerToken * (body ++ [ending]).length)
    (State.start firstId (body ++ [ending]))
  have agree := follows_declarations (depthPerToken * (body ++ [ending]).length) _ _
    (tracks_start firstId last only)
  rw [Rule.Ends, reads] at none
  rw [reads] at agree
  cases runs : declarations (depthPerToken * (body ++ [ending]).length)
    (start firstId (body ++ [ending])) with
  | error stop run =>
    rw [runs] at agree
    cases stop <;> exact agree.elim
  | ok statements run =>
    rw [runs] at agree
    obtain ⟨rfl, tracks, grows⟩ := agree
    have tokens : run.tokens = body ++ [ending] := grows.tokens
    have current : run.current = body.length := by
      have whole := tracks.length_eq
      rw [none, tokens, length] at whole
      exact whole
    refine ⟨run, rfl, ?_, ?_, current, ?_, ?_⟩
    · rw [errors, tracks.errors]
    · rw [nextId, tracks.nextId]
    · rw [tracks.consumed, tokens, current, List.take_left']
      rfl
    · intro turn isIn
      have sound := tracks.turns turn isIn
      rw [tokens, length, List.append_nil, tracks.errors, ← errors] at sound
      exact sound

/-- The tokens of `{ print ; class a { m() { } class var`, which leave two blocks open. -/
def openBlocks : List Token :=
  let name (text : String) : Token := ⟨.identifier, text, 1⟩
  let sign (symbol : Symbol) : Token := ⟨.symbol symbol, symbol.text, 1⟩
  let word (keyword : Keyword) : Token := ⟨.keyword keyword, keyword.text, 1⟩
  [sign .leftBrace, word .printWord, sign .semicolon, word .classWord, name "a", sign .leftBrace,
    name "m", sign .leftParen, sign .rightParen, sign .leftBrace, sign .rightBrace,
    word .classWord, word .varWord]

/-- Errors in a class in a block, and at the end of the input, where both are open. -/
theorem reaches_end_openBlocks :
    (∀ token ∈ openBlocks, ¬ token.kind.isEnding) ∧
    (parse 3 (openBlocks ++ [.ending 1])).errors =
      [⟨1, .lexeme ";", .expectedExpression⟩,
        ⟨1, .lexeme "var", .missing (.functionName .method)⟩,
        ⟨1, .ending, .missing .blockEnd⟩] ∧
    ∃ run, declarations 448 (start 3 (openBlocks ++ [.ending 1])) = .ok [] run ∧
      run.current = 13 ∧ run.consumed = openBlocks ∧
      ∀ turn ∈ run.turns,
        turn.IsSound 13 (parse 3 (openBlocks ++ [.ending 1])).errors := by
  have only : ∀ token ∈ openBlocks, ¬ token.kind.isEnding := by decide
  have none : (parse 3 (openBlocks ++ [.ending 1])).statements = [] := by cbv
  obtain ⟨run, reads, -, -, current, consumed, sound⟩ :=
    reaches_end 3 openBlocks (.ending 1) rfl only
  rw [none] at reads
  exact ⟨only, by cbv, run, reads, current, consumed, sound⟩

/-- The loops whose turns were written down on the way, and where each turn starts and finishes. -/
example : (match declarations 448 (start 3 (openBlocks ++ [.ending 1])) with
    | .ok _ run => run.turns.map fun turn => (turn.loop, turn.start, turn.finish)
    | .error _ _ => []) =
    [(.block, 1, 3), (.classBody, 6, 11), (.classBody, 11, 12), (.block, 3, 13),
      (.program, 0, 13)] := by
  cbv

end Cursor

end Lox.Grammar
