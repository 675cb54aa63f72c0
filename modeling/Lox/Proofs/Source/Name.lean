import Lox.Proofs.Grammar.Building
import Lox.Source.Item

/-!
# Names in a source text

No name in a source text is spelt like a reserved word, so `this` and `super` are
never names of variables.
-/

namespace Lox

/-- A name that is no reserved word. -/
def IsPlainName (name : String) : Prop :=
  Keyword.ofText? name = none

namespace Piece

/-- A piece is not a name that is spelt like a reserved word. -/
def IsPlain : Piece → Prop
  | token kind text => kind.same .identifier → IsPlainName (.ofList text)
  | _ => True

theorem isPlain_word (word : List Char) : (Piece.token (wordKind word) word).IsPlain := by
  intro isName
  cases found : Keyword.ofText? (.ofList word) with
  | none => exact found
  | some keyword =>
    rw [wordKind, found] at isName
    cases isName

theorem isPlain_string (rest : List Char) : (string rest).1.IsPlain := by
  rw [string]
  split
  · trivial
  · intro isName
    cases isName

theorem isPlain_blockComment (rest : List Char) : (blockComment rest).1.IsPlain := by
  rw [blockComment]
  split <;> trivial

theorem isPlain_next (first : Char) (rest : List Char) : (next first rest).1.IsPlain := by
  rw [next.eq_def]
  split
  · trivial
  split
  · intro isName
    cases isName
  split
  · exact isPlain_word _
  split
  · exact isPlain_string _
  · trivial
  · exact isPlain_blockComment _
  · split
    · intro isName
      cases isName
    · trivial

theorem isPlain_of_mem_pieces {chars : List Char} {piece : Piece} (member : piece ∈ pieces chars) :
    piece.IsPlain := by
  fun_induction pieces chars with
  | case1 => cases member
  | case2 first rest induction =>
    rcases List.mem_cons.mp member with rfl | later
    · exact isPlain_next first rest
    · exact induction later

end Piece

namespace Item

/-- The names in the tokens of pieces are those of the pieces. -/
theorem named_ofPieces (line : Nat) {pieces : List Piece}
    (plain : ∀ piece ∈ pieces, piece.IsPlain) :
    Grammar.Named IsPlainName (tokens (ofPieces line pieces)) := by
  induction pieces generalizing line with
  | nil =>
    intro token member isName
    rw [List.mem_singleton.mp (show token ∈ [Token.ending line] from member)] at isName
    cases isName
  | cons piece others induction =>
    rw [List.forall_mem_cons] at plain
    intro token member isName
    rw [ofPieces, tokens, List.filterMap_append, List.mem_append] at member
    rcases member with here | later
    · cases piece with
      | token kind text =>
        rw [List.mem_singleton.mp (show token ∈ [⟨kind, .ofList text, _⟩] from here)] at isName ⊢
        exact plain.1 isName
      | blank => cases here
      | fault => cases here
    · exact induction _ plain.2 token later isName

/-- No name in a source text is a reserved word. -/
theorem named_scan (source : String) : Grammar.Named IsPlainName (tokens (scan source)) :=
  named_ofPieces 1 fun _ member => Piece.isPlain_of_mem_pieces member

end Item

end Lox
