import Lox.Proofs.Source.LineNumber
import Lox.Proofs.Source.Uniqueness

/-!
# Nested block comments

Where a block comment starts outside of strings and other comments, the markers behind it are
counted from left to right.  Either the count comes back to zero, and the reading goes on right
there; or the comment stays open to the end of the input, and this is reported on the line of the
innermost marker that is still open (`Item.scan_comment`).
-/

namespace Lox

/-! ## Places outside of strings and comments -/

/-- A place is outside if parts that fit, one behind the other, stand in front of it. -/
def IsOutside (before rest : List Char) : Prop :=
  ∃ parts, Tiles rest parts ∧ parts.flatMap Piece.text = before

/-- The first pieces of a text fit in front of the others. -/
theorem tiles_of_pieces_eq {chars : List Char} {earlier later : List Piece}
    (split : Piece.pieces chars = earlier ++ later) :
    Tiles (later.flatMap Piece.text) earlier := by
  fun_induction Piece.pieces chars generalizing earlier with
  | case1 =>
    rw [(List.append_eq_nil_iff.mp split.symm).1]
    exact .nil
  | case2 first rest induction =>
    cases earlier with
    | nil => exact .nil
    | cons piece others =>
      rcases List.cons.inj split with ⟨rfl, behind⟩
      change _ = others ++ later at behind
      have whole : others.flatMap Piece.text ++ later.flatMap Piece.text =
          (Piece.next first rest).2 := by
        rw [← List.flatMap_append, ← behind, Piece.flatMap_text_pieces]
      exact .cons (whole ▸ Piece.fits_next first rest) (induction behind)

/-- The reading of a text reaches its places outside of strings and comments. -/
theorem isOutside_iff {before rest : List Char} :
    IsOutside before rest ↔ ∃ earlier,
      Piece.pieces (before ++ rest) = earlier ++ Piece.pieces rest ∧
        earlier.flatMap Piece.text = before := by
  constructor
  · rintro ⟨parts, tiles, rfl⟩
    rcases pieces_of_tiles tiles with ⟨earlier, read, texts⟩
    refine ⟨earlier, read, ?_⟩
    rw [List.flatMap_def, texts, ← List.flatMap_def]
  · rintro ⟨earlier, read, texts⟩
    have tiles := tiles_of_pieces_eq read
    rw [Piece.flatMap_text_pieces] at tiles
    exact ⟨earlier, tiles, texts⟩

/-! ## Comments that are left open -/

/--
The comment that is opened between two parts of a text is open at its end, and all comments that
are opened later are closed.
-/
structure IsInnermostOpen (outer inner : List Char) : Prop where
  isMarker : depthChanges (outer ++ '/' :: '*' :: inner) =
    depthChanges outer ++ 1 :: depthChanges inner
  staysOpen : StaysOpen 1 (depthChanges inner)
  othersClosed : (depthChanges inner).sum = 0

namespace IsInnermostOpen

variable {outer inner : List Char}

theorem behind_closing (isOpen : IsInnermostOpen outer inner) :
    IsInnermostOpen ('*' :: '/' :: outer) inner :=
  { isOpen with isMarker := congrArg (List.cons (-1)) isOpen.isMarker }

theorem behind_opening (isOpen : IsInnermostOpen outer inner) :
    IsInnermostOpen ('/' :: '*' :: outer) inner :=
  { isOpen with isMarker := congrArg (List.cons 1) isOpen.isMarker }

theorem behind_char (isOpen : IsInnermostOpen outer inner) {char : Char} {rest : List Char}
    (split : rest = outer ++ '/' :: '*' :: inner)
    (notClosing : ∀ others, char = '*' → rest = '/' :: others → False)
    (notOpening : ∀ others, char = '/' → rest = '*' :: others → False) :
    IsInnermostOpen (char :: outer) inner := by
  refine { isOpen with isMarker := ?_ }
  rw [List.cons_append, ← split, depthChanges_cons notClosing notOpening, depthChanges_cons]
  · rw [List.cons_append, ← isOpen.isMarker, split]
  · rintro others isStar rfl
    exact notClosing _ isStar split
  · rintro others isSlash rfl
    exact notOpening _ isSlash split

end IsInnermostOpen

/--
A comment without an end is reported where the innermost comment that is still open was opened:
by a marker in the text, or by one in front of it.
-/
theorem isInnermostOpen_of_error {innermost before line : Nat} {others : List Nat}
    {chars : List Char} (unclosed : closeComment innermost others before chars = .error line) :
    (∃ outer inner, chars = outer ++ '/' :: '*' :: inner ∧ IsInnermostOpen outer inner ∧
      line = before + newlines outer) ∨
    ∃ depth : Nat, (innermost :: others)[depth]? = some line ∧
      (depthChanges chars).sum = -(depth : Int) ∧ StaysOpen (depth + 1) (depthChanges chars) := by
  fun_induction closeComment innermost others before chars with
  | case1 =>
    cases unclosed
    refine .inr ⟨0, rfl, rfl, ?_⟩
    intro parts isPrefix
    rw [List.prefix_nil.mp isPrefix]
    decide
  | case2 => cases unclosed
  | case3 innermost before rest outer outermost induction =>
    cases inner : closeComment outer outermost before rest with
    | ok => rw [inner] at unclosed; cases unclosed
    | error =>
      rw [inner] at unclosed
      cases unclosed
      rcases induction inner with ⟨first, second, rfl, isOpen, line⟩ | ⟨depth, isLine, sum, stays⟩
      · exact .inl ⟨'*' :: '/' :: first, second, rfl, isOpen.behind_closing, line⟩
      · refine .inr ⟨depth + 1, isLine, ?_, .cons (by omega) ?_⟩
        · rw [depthChanges, List.sum_cons, sum]
          omega
        · rwa [Int.natCast_succ, Int.add_neg_cancel_right]
  | case4 innermost others before rest induction =>
    cases inner : closeComment before (innermost :: others) before rest with
    | ok => rw [inner] at unclosed; cases unclosed
    | error =>
      rw [inner] at unclosed
      cases unclosed
      rcases induction inner with
        ⟨first, second, rfl, isOpen, line⟩ | ⟨_ | depth, isLine, sum, stays⟩
      · exact .inl ⟨'/' :: '*' :: first, second, rfl, isOpen.behind_opening, line⟩
      · cases isLine
        exact .inl ⟨[], rest, rfl, ⟨rfl, stays, sum⟩, rfl⟩
      · refine .inr ⟨depth, isLine, ?_, .cons (by omega) ?_⟩
        · rw [depthChanges, List.sum_cons, sum]
          omega
        · rwa [Int.natCast_succ] at stays
  | case5 innermost others before char rest notClosing notOpening induction =>
    cases inner : closeComment innermost others (before + newlines [char]) rest with
    | ok => rw [inner] at unclosed; cases unclosed
    | error =>
      rw [inner] at unclosed
      cases unclosed
      rcases induction inner with ⟨first, second, split, isOpen, line⟩ | ⟨depth, isLine, sum, stays⟩
      · refine .inl ⟨char :: first, second, congrArg (List.cons char) split,
          isOpen.behind_char split notClosing notOpening, ?_⟩
        rw [line, Nat.add_assoc, ← newlines_append]
        rfl
      · refine .inr ⟨depth, isLine, ?_, ?_⟩
        · rw [depthChanges_cons notClosing notOpening, List.sum_cons, sum, Int.zero_add]
        · rw [depthChanges_cons notClosing notOpening]
          exact .cons (by omega) (by rwa [Int.add_zero])

/-! ## What is read -/

namespace Piece

variable {rest comment after : List Char}

/-- The reading goes on behind the marker that closes a comment. -/
theorem pieces_of_closes (closes : Closes 1 (depthChanges comment)) :
    pieces ('/' :: '*' :: (comment ++ after)) = .blank ('/' :: '*' :: comment) :: pieces after :=
  pieces_blockComment (isBlockComment_iff.mpr closes)

/-- A comment that no marker closes is one fault, which counts the lines in front of the
innermost marker that is still open. -/
theorem pieces_of_not_closes
    (unclosed : ∀ comment after, rest = comment ++ after → ¬ Closes 1 (depthChanges comment)) :
    ∃ outer inner, '/' :: '*' :: rest = outer ++ '/' :: '*' :: inner ∧
      IsInnermostOpen outer inner ∧ pieces ('/' :: '*' :: rest) =
        [.fault .unterminatedComment (newlines outer) ('/' :: '*' :: rest)] := by
  have read : next '/' ('*' :: rest) = blockComment rest := rfl
  rw [pieces, read, blockComment]
  cases result : closeComment 0 [] 0 rest with
  | ok pair =>
    rcases closeComment_eq_ok_iff.mp result with ⟨split, closes⟩
    exact (unclosed _ _ split closes).elim
  | error line =>
    rcases isInnermostOpen_of_error result with
      ⟨outer, inner, rfl, isOpen, rfl⟩ | ⟨depth, isLine, sum, stays⟩
    · refine ⟨'/' :: '*' :: outer, inner, rfl, isOpen.behind_opening, ?_⟩
      rw [Nat.zero_add, pieces]
      rfl
    · -- The only marker in front of the text is the one that opens the comment.
      have first : depth = 0 := Nat.lt_one_iff.mp (List.getElem?_eq_some_iff.mp isLine).1
      subst first
      cases isLine
      refine ⟨[], rest, rfl, ⟨rfl, stays, sum⟩, ?_⟩
      rw [pieces]
      rfl

end Piece

/--
Block comments nest exactly.  Let a comment be opened outside of strings and other comments, and
count the markers behind it from depth 1.  If the depth comes to 0, then the comment yields nothing
and the reading goes on right behind the marker where this happens first.  If it does not, then all
that follows yields one error, on the line of the innermost marker that is still open in the end,
and the end of the input.
-/
theorem Item.scan_comment {source : String} {before rest : List Char}
    (whole : source.toList = before ++ '/' :: '*' :: rest)
    (outside : IsOutside before ('/' :: '*' :: rest)) :
    ∃ earlier, Tiles ('/' :: '*' :: rest) earlier ∧ earlier.flatMap Piece.text = before ∧
      (∀ comment after, rest = comment ++ after → Closes 1 (depthChanges comment) →
        scan source = within 1 earlier ++
          ofPieces (1 + newlines (before ++ '/' :: '*' :: comment)) (Piece.pieces after)) ∧
      ((∀ comment after, rest = comment ++ after → ¬ Closes 1 (depthChanges comment)) →
        ∃ outer inner, '/' :: '*' :: rest = outer ++ '/' :: '*' :: inner ∧
          IsInnermostOpen outer inner ∧
          scan source = within 1 earlier ++
            [.error ⟨1 + newlines (before ++ outer), .unterminatedComment⟩,
              .token (.ending (1 + newlines source.toList))]) := by
  rcases isOutside_iff.mp outside with ⟨earlier, read, texts⟩
  have tiles := tiles_of_pieces_eq read
  rw [Piece.flatMap_text_pieces] at tiles
  have items : scan source = within 1 earlier ++
      ofPieces (1 + newlines before) (Piece.pieces ('/' :: '*' :: rest)) := by
    rw [scan, whole, read, ofPieces_append, texts]
  refine ⟨earlier, tiles, texts, ?_, ?_⟩
  · rintro comment after rfl closes
    rw [items, Piece.pieces_of_closes closes, newlines_append, ← Nat.add_assoc]
    rfl
  · intro unclosed
    rcases Piece.pieces_of_not_closes unclosed with ⟨outer, inner, split, isOpen, one⟩
    refine ⟨outer, inner, split, isOpen, ?_⟩
    rw [items, one, whole, newlines_append, newlines_append, ← Nat.add_assoc, ← Nat.add_assoc]
    rfl

/-- The `*/` after `/**` closes the second comment, and a third one is opened on the next line. -/
theorem Item.scan_comment_overlapping :
    IsOutside ['!'] "/*/**/\n/*".toList ∧ ∃ earlier,
      Tiles "/*/**/\n/*".toList earlier ∧ earlier.flatMap Piece.text = ['!'] ∧
      (∀ comment after, "/**/\n/*".toList = comment ++ after → Closes 1 (depthChanges comment) →
        scan "!/*/**/\n/*" = within 1 earlier ++
          ofPieces (1 + newlines ('!' :: '/' :: '*' :: comment)) (Piece.pieces after)) ∧
      ((∀ comment after, "/**/\n/*".toList = comment ++ after →
          ¬ Closes 1 (depthChanges comment)) →
        ∃ outer inner, "/*/**/\n/*".toList = outer ++ '/' :: '*' :: inner ∧
          IsInnermostOpen outer inner ∧
          scan "!/*/**/\n/*" = within 1 earlier ++
            [.error ⟨1 + newlines ('!' :: outer), .unterminatedComment⟩,
              .token (.ending (1 + newlines "!/*/**/\n/*".toList))]) := by
  have outside : IsOutside ['!'] "/*/**/\n/*".toList :=
    isOutside_iff.mpr ⟨[.token (.symbol .bang) ['!']], by cbv, rfl⟩
  exact ⟨outside, @Item.scan_comment "!/*/**/\n/*" ['!'] _ rfl outside⟩

-- The last opening marker on the first line is closed, the one on the second line is not.
example : Item.scan "!/*/**/\n/*" =
    [.token ⟨.symbol .bang, "!", 1⟩, .error ⟨2, .unterminatedComment⟩, .token (.ending 2)] := by
  cbv

end Lox
