import Lox.Proofs.Source.Tiling

/-!
# Lines of items

Each item of a source text has its place in it (`Spot`).  Its line is known from the line breaks
before this place, within it, or in the whole text (`Spot.IsOnLine`), and the lines of the items
never decrease: `Item.lines_exact`.
-/

namespace Lox

theorem newlines_append (first second : List Char) :
    newlines (first ++ second) = newlines first + newlines second :=
  List.count_append

/-! ## Lines within a piece -/

/-- A comment without an end is open since some line of it. -/
theorem closeComment_error_le {innermost before line : Nat} {others : List Nat}
    {chars : List Char} (unclosed : closeComment innermost others before chars = .error line)
    (small : ∀ opening ∈ innermost :: others, opening ≤ before) :
    line ≤ before + newlines chars := by
  fun_induction closeComment innermost others before chars with
  | case1 innermost others before =>
    cases unclosed
    exact Nat.le_trans (small _ List.mem_cons_self) (Nat.le_add_right _ _)
  | case2 => cases unclosed
  | case3 innermost before rest outer outermost induction =>
    cases inner : closeComment outer outermost before rest with
    | ok => rw [inner] at unclosed; cases unclosed
    | error =>
      rw [inner] at unclosed
      cases unclosed
      exact induction inner (List.forall_mem_cons.mp small).2
  | case4 innermost others before rest induction =>
    cases inner : closeComment before (innermost :: others) before rest with
    | ok => rw [inner] at unclosed; cases unclosed
    | error =>
      rw [inner] at unclosed
      cases unclosed
      exact induction inner (List.forall_mem_cons.mpr ⟨Nat.le_refl _, small⟩)
  | case5 innermost others before char rest _ _ induction =>
    cases inner : closeComment innermost others (before + newlines [char]) rest with
    | ok => rw [inner] at unclosed; cases unclosed
    | error =>
      rw [inner] at unclosed
      cases unclosed
      have later := induction inner fun opening member =>
        Nat.le_trans (small opening member) (Nat.le_add_right _ _)
      rw [← List.singleton_append, newlines_append]
      omega

namespace Piece

/-- How many line breaks of a fault come before the line that it is reported on. -/
def CountsLines : Piece → Prop
  | fault .unexpectedCharacter before _ => before = 0
  | fault .unterminatedString before text => before = newlines text
  | fault .unterminatedComment before text => before ≤ newlines text
  | _ => True

theorem countsLines_string (rest : List Char) : (string rest).1.CountsLines := by
  rw [string]
  split
  · show newlines rest = newlines ('"' :: rest)
    rw [← List.singleton_append, newlines_append]
    exact (Nat.zero_add _).symm
  · trivial

theorem countsLines_blockComment (rest : List Char) : (blockComment rest).1.CountsLines := by
  rw [blockComment]
  split
  · trivial
  · next line unclosed =>
    have le := closeComment_error_le unclosed (by simp)
    rw [Nat.zero_add] at le
    exact le

theorem countsLines_next (first : Char) (rest : List Char) :
    (next first rest).1.CountsLines := by
  rw [next.eq_def]
  split
  · trivial
  split
  · trivial
  split
  · trivial
  split
  · exact countsLines_string _
  · trivial
  · exact countsLines_blockComment _
  · split
    · trivial
    · rfl

theorem countsLines_of_mem_pieces {chars : List Char} {piece : Piece}
    (member : piece ∈ pieces chars) : piece.CountsLines := by
  fun_induction pieces chars with
  | case1 => cases member
  | case2 first rest induction =>
    rcases List.mem_cons.mp member with rfl | later
    · exact countsLines_next first rest
    · exact induction later

end Piece

/-! ## Places of items -/

/-- The line of an item. -/
def Item.line : Item → Nat
  | token found => found.line
  | error found => found.line

/-- An item of a source text, the characters it is yielded for, and all that comes before them. -/
structure Spot where
  before : List Char
  text : List Char
  item : Item

namespace Spot

/-- The items of pieces at their places; the first piece starts on this line behind this text. -/
def ofPieces (line : Nat) (before : List Char) : List Piece → List Spot
  | [] => []
  | piece :: pieces =>
    (piece.item? line).toList.map (Spot.mk before piece.text) ++
      ofPieces (line + newlines piece.text) (before ++ piece.text) pieces

/-- The items of a source text at their places, without the end of the input. -/
def all (source : String) : List Spot :=
  ofPieces 1 [] (Piece.pieces source.toList)

theorem map_item_ofPieces (line : Nat) (before : List Char) (pieces : List Piece) :
    (ofPieces line before pieces).map item = Item.within line pieces := by
  induction pieces generalizing line before with
  | nil => rfl
  | cons piece others induction =>
    rw [ofPieces, Item.within, List.map_append, induction, List.map_map]
    exact congrArg (· ++ _) (List.map_id _)

/-- One place is in front of another one. -/
def Precedes (earlier later : Spot) : Prop :=
  earlier.before ++ earlier.text <+: later.before

/-- Places of pieces are within the text of these pieces. -/
theorem within_ofPieces {line : Nat} {before : List Char} {pieces : List Piece} {spot : Spot}
    (member : spot ∈ ofPieces line before pieces) :
    before <+: spot.before ∧
      spot.before ++ spot.text <+: before ++ pieces.flatMap Piece.text := by
  induction pieces generalizing line before with
  | nil => cases member
  | cons piece others induction =>
    rw [List.flatMap_cons, ← List.append_assoc]
    rcases List.mem_append.mp member with here | later
    · rcases List.mem_map.mp here with ⟨item, -, rfl⟩
      exact ⟨List.prefix_refl _, List.prefix_append _ _⟩
    · rcases induction later with ⟨starts, ends⟩
      exact ⟨(List.prefix_append _ _).trans starts, ends⟩

/-- The items follow one another. -/
theorem pairwise_ofPieces (line : Nat) (before : List Char) (pieces : List Piece) :
    (ofPieces line before pieces).Pairwise Precedes := by
  induction pieces generalizing line before with
  | nil => exact .nil
  | cons piece others induction =>
    rw [ofPieces, List.pairwise_append]
    refine ⟨?_, induction _ _, ?_⟩
    · cases piece.item? line with
      | none => exact .nil
      | some item => exact List.pairwise_singleton _ _
    · intro earlier here later member
      rcases List.mem_map.mp here with ⟨item, -, rfl⟩
      exact (within_ofPieces member).1

/-! ## Lines of places -/

/-- An item at a place of a source text is reported on the right line. -/
inductive IsOnLine (source : List Char) : Spot → Prop where
  /-- A token is on the line that its spelling ends on.  Only a string starts on another one. -/
  | token {before text : List Char} {kind : Kind}
    (starts : (∀ contents, kind ≠ .string contents) → newlines text = 0) :
    IsOnLine source
      ⟨before, text, .token ⟨kind, .ofList text, 1 + newlines (before ++ text)⟩⟩
  | unexpectedCharacter {before : List Char} {char : Char} :
    IsOnLine source
      ⟨before, [char], .error ⟨1 + newlines before, .unexpectedCharacter⟩⟩
  /-- A string that is left open goes on to the last line. -/
  | unterminatedString {before text : List Char} :
    IsOnLine source
      ⟨before, text, .error ⟨1 + newlines source, .unterminatedString⟩⟩
  /-- A comment that is left open is reported on a line of it. -/
  | unterminatedComment {before text : List Char} {line : Nat}
    (starts : 1 + newlines before ≤ line) (ends : line ≤ 1 + newlines source) :
    IsOnLine source ⟨before, text, .error ⟨line, .unterminatedComment⟩⟩

/-- A piece that fits where another text follows yields its item on the right line. -/
theorem isOnLine_of_fits {piece : Piece} {after : List Char} (fits : piece.Fits after)
    (counts : piece.CountsLines) (before : List Char) {item : Item}
    (yields : piece.item? (1 + newlines before) = some item) :
    IsOnLine (before ++ piece.text ++ after) ⟨before, piece.text, item⟩ := by
  cases piece with
  | blank => cases yields
  | token kind text =>
    cases yields
    rw [Nat.add_assoc, ← newlines_append]
    exact .token fits.1.newlines_eq_zero
  | fault cause count text =>
    cases yields
    cases cause with
    | unexpectedCharacter =>
      cases fits
      rw [show count = 0 from counts, Nat.add_zero]
      exact .unexpectedCharacter
    | unterminatedString =>
      cases fits
      rw [show count = newlines _ from counts, Nat.add_assoc, ← newlines_append, List.append_nil]
      exact .unterminatedString
    | unterminatedComment =>
      have inside : count ≤ newlines text := counts
      cases fits
      rw [List.append_nil]
      apply IsOnLine.unterminatedComment (Nat.le_add_right _ _)
      rw [Piece.text, newlines_append, Nat.add_assoc]
      exact Nat.add_le_add_left (Nat.add_le_add_left inside _) 1

/-- All items of a text behind another one are reported on the right lines. -/
theorem isOnLine_ofPieces (before chars : List Char) :
    ∀ spot ∈ ofPieces (1 + newlines before) before (Piece.pieces chars),
      spot.IsOnLine (before ++ chars) := by
  fun_induction Piece.pieces chars generalizing before with
  | case1 => exact List.forall_mem_nil _
  | case2 first rest induction =>
    intro spot member
    rcases List.mem_append.mp member with here | later
    · rcases List.mem_map.mp here with ⟨item, yields, rfl⟩
      have found := isOnLine_of_fits (Piece.fits_next first rest)
        (Piece.countsLines_next first rest) before (Option.mem_toList.mp yields)
      rwa [List.append_assoc, Piece.text_next_append] at found
    · have line : 1 + newlines before + newlines (Piece.next first rest).1.text =
          1 + newlines (before ++ (Piece.next first rest).1.text) := by
        rw [newlines_append, Nat.add_assoc]
      rw [line] at later
      have found := induction _ spot later
      rwa [List.append_assoc, Piece.text_next_append] at found

end Spot

namespace Item

/-- The line of an item is one of the lines of its piece. -/
theorem line_of_item? {line : Nat} {piece : Piece} (counts : piece.CountsLines) {item : Item}
    (yields : piece.item? line = some item) :
    line ≤ item.line ∧ item.line ≤ line + newlines piece.text := by
  cases piece with
  | blank => cases yields
  | token => cases yields; exact ⟨Nat.le_add_right _ _, Nat.le_refl _⟩
  | fault cause count text =>
    cases yields
    refine ⟨Nat.le_add_right _ _, Nat.add_le_add_left ?_ _⟩
    cases cause with
    | unexpectedCharacter => exact Nat.le_trans (Nat.le_of_eq counts) (Nat.zero_le _)
    | unterminatedString => exact Nat.le_of_eq counts
    | unterminatedComment => exact counts

/-- No item of a text is on a line before its first one, and the lines of the items increase. -/
theorem sorted_ofPieces (line : Nat) (chars : List Char) :
    (∀ item ∈ ofPieces line (Piece.pieces chars), line ≤ item.line) ∧
      (ofPieces line (Piece.pieces chars)).Pairwise fun earlier later =>
        earlier.line ≤ later.line := by
  fun_induction Piece.pieces chars generalizing line with
  | case1 =>
    exact ⟨List.forall_mem_singleton.mpr (Nat.le_refl _), List.pairwise_singleton _ _⟩
  | case2 first rest induction =>
    have counts := Piece.countsLines_next first rest
    generalize (Piece.next first rest).1 = piece at counts
    rcases induction (line + newlines piece.text) with ⟨bounded, sorted⟩
    rw [ofPieces, List.forall_mem_append, List.pairwise_append]
    have here : ∀ item ∈ (piece.item? line).toList,
        line ≤ item.line ∧ item.line ≤ line + newlines piece.text :=
      fun item yields => line_of_item? counts (Option.mem_toList.mp yields)
    refine ⟨⟨fun item yields => (here item yields).1, ?_⟩, ?_, sorted, ?_⟩
    · exact fun item later => Nat.le_trans (Nat.le_add_right _ _) (bounded item later)
    · cases piece.item? line with
      | none => exact .nil
      | some item => exact List.pairwise_singleton _ _
    · exact fun earlier yields later member =>
        Nat.le_trans (here earlier yields).2 (bounded later member)

/--
Lines are exact.  The items of a source text are those at some places in it, one behind the other,
each on the right line, and the end of the input on the last line.  The lines never decrease.
-/
theorem lines_exact (source : String) :
    scan source =
        (Spot.all source).map Spot.item ++ [.token (.ending (1 + newlines source.toList))] ∧
      (Spot.all source).Pairwise Spot.Precedes ∧
      (∀ spot ∈ Spot.all source,
        spot.before ++ spot.text <+: source.toList ∧ spot.IsOnLine source.toList) ∧
      (scan source).Pairwise fun earlier later => earlier.line ≤ later.line := by
  refine ⟨?_, Spot.pairwise_ofPieces _ _ _, ?_, (sorted_ofPieces 1 source.toList).2⟩
  · rw [Spot.all, Spot.map_item_ofPieces]
    exact scan_eq_within source
  · intro spot member
    have inside := (Spot.within_ofPieces member).2
    rw [Piece.flatMap_text_pieces] at inside
    exact ⟨inside, Spot.isOnLine_ofPieces [] source.toList spot member⟩

-- The string ends, and the comment that stays open starts, on the second of three lines.
example : scan "\"a\n\" /* \n/* */" =
    [.token ⟨.string "a\n", "\"a\n\"", 2⟩, .error ⟨2, .unterminatedComment⟩,
      .token (.ending 3)] := by
  cbv

end Item

end Lox
