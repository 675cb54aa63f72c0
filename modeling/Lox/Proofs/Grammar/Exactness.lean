import Lox.Proofs.Grammar.Soundness
import Lox.Proofs.Grammar.Completeness
import Mathlib

/-!
# The parser accepts its grammar

The tokens of a program end with the only mark that ends an input.  `parse_iff_program` says
that they are read without any fault exactly if the grammar derives a program from all of them,
and that what is read then is the tree of this derivation.  So a program has at most one tree.
-/

namespace Lox.Grammar

open Lox.Derivation

section

variable {body : List Token} {ending : Token} {trees : List Stmt} {nextId : Nat}

/-- Nothing before the only end of the input is ignored. -/
theorem rest_start (firstId : Nat) (last : ending.kind.isEnding)
    (only : ∀ token ∈ body, ¬ token.kind.isEnding) :
    (State.start firstId (body ++ [ending])).rest = body := by
  have goesOn : ∀ token ∈ body, (!token.kind.isEnding) = true := by
    intro token isIn
    simp [only token isIn]
  simp [State.start, List.takeWhile_append_of_pos goesOn, last]

theorem program_of_parse (firstId : Nat) (tokens : List Token)
    (none : (parse firstId tokens).errors = []) :
    Program ⟨(State.start firstId tokens).rest, firstId⟩ (parse firstId tokens).statements
      (parse firstId tokens).nextId := by
  rcases exists_parse_eq firstId tokens with ⟨after, reads, errors, nextId⟩
  have sound := sound_declarations (depthPerToken * ((State.start firstId tokens).rest.length + 1))
    (State.start firstId tokens) (isEnding_start firstId tokens)
  rw [Rule.Ends, reads] at sound
  rcases sound with ⟨-, holds⟩
  have clean : after.errors = #[] := by
    rw [← Array.toList_eq_nil_iff, ← errors, none]
  rcases holds clean with ⟨-, derives, nonempty, atEnd⟩
  rw [nextId]
  exact .program derives nonempty atEnd

theorem parse_of_program (firstId : Nat) (tokens : List Token)
    (program : Program ⟨(State.start firstId tokens).rest, firstId⟩ trees nextId) :
    parse firstId tokens = ⟨trees, [], nextId⟩ := by
  cases program with
  | program derives nonempty atEnd =>
    rcases exists_parse_eq firstId tokens with ⟨state, reads, errors, nextId⟩
    have finds := derives.findsAll nonempty atEnd
      (depthPerToken * ((State.start firstId tokens).rest.length + 1))
      (State.start firstId tokens) (isEnding_start firstId tokens) rfl
    rw [Rule.Ends, reads] at finds
    rcases finds with ⟨statements, position, clean, -⟩
    rw [← position]
    rw [clean] at errors
    generalize parse firstId tokens = parsed at *
    cases parsed
    cases statements
    cases errors
    cases nextId
    rfl

end

/--
A program is read without any fault if and only if the grammar derives it.  What is read is the
tree of its derivation; all tokens belong to it.
-/
theorem parse_iff_program (firstId : Nat) (body : List Token) (ending : Token)
    (last : ending.kind.isEnding) (only : ∀ token ∈ body, ¬ token.kind.isEnding) :
    ((parse firstId (body ++ [ending])).errors = [] ↔
      ∃ trees nextId, Program ⟨body, firstId⟩ trees nextId) ∧
    ∀ trees nextId, Program ⟨body, firstId⟩ trees nextId ↔
      parse firstId (body ++ [ending]) = ⟨trees, [], nextId⟩ := by
  have all := rest_start firstId last only
  constructor
  · constructor
    · intro none
      have program := program_of_parse firstId _ none
      rw [all] at program
      exact ⟨_, _, program⟩
    · rintro ⟨trees, nextId, program⟩
      rw [← all] at program
      rw [parse_of_program firstId _ program]
  · intro trees nextId
    constructor
    · intro program
      rw [← all] at program
      exact parse_of_program firstId _ program
    · intro reads
      have program := program_of_parse firstId (body ++ [ending]) (by rw [reads])
      rw [all, reads] at program
      exact program

/-- The tokens of `if (a) if (b) c; else d;`. -/
def nestedIf : List Token :=
  let name (text : String) : Token := ⟨.identifier, text, 1⟩
  let sign (symbol : Symbol) : Token := ⟨.symbol symbol, symbol.text, 1⟩
  let word (keyword : Keyword) : Token := ⟨.keyword keyword, keyword.text, 1⟩
  [word .ifWord, sign .leftParen, name "a", sign .rightParen,
    word .ifWord, sign .leftParen, name "b", sign .rightParen,
    name "c", sign .semicolon, word .elseWord, name "d", sign .semicolon]

/-- An `else` belongs to the nearest `if`. -/
theorem program_nestedIf : (∀ token ∈ nestedIf, ¬ token.kind.isEnding) ∧
    Program ⟨nestedIf, 7⟩
      [.ifElse (.read ⟨7, ⟨"a", 1⟩⟩)
        (.ifElse (.read ⟨8, ⟨"b", 1⟩⟩) (.expression (.read ⟨9, ⟨"c", 1⟩⟩))
          (some (.expression (.read ⟨10, ⟨"d", 1⟩⟩)))) none] 11 := by
  have only : ∀ token ∈ nestedIf, ¬ token.kind.isEnding := by decide
  constructor
  · exact only
  · apply ((parse_iff_program 7 nestedIf (.ending 1) rfl only).right _ _).mpr
    cbv

end Lox.Grammar
