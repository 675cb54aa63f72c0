import Lox.Proofs.Bytes.Pieces
import Lox.Proofs.Source.Nesting

/-!
# The scanner over bytes is safe

The scanner over bytes reads a source text piece by piece (`drain_eq`).  It yields the items of the
source text without getting stuck, it is on boundaries between characters behind each piece, and a
character that belongs to nothing is a lexical error of its own: `scan_safe`.
-/

namespace Lox.Bytes

variable {scanner : Scanner} {before after rest : List Char} {first : Char} {fuel turns : Nat}

/-! ## Piece by piece -/

/-- Behind a piece, which is written down. -/
def Scanner.past (scanner : Scanner) (piece : Piece) : Scanner where
  text := scanner.text
  start := scanner.curr
  curr := scanner.curr + byteSize piece.text
  line := scanner.line + newlines piece.text
  done := scanner.done
  stretches := scanner.stretches ++
    [⟨scanner.curr, scanner.curr + byteSize piece.text, piece.item? scanner.line⟩]

/-- Behind the end of the input. -/
def Scanner.finished (scanner : Scanner) : Scanner :=
  { scanner with done := true }

theorem Scanner.Stands.past {piece : Piece} (stands : scanner.Stands before (piece.text ++ after)) :
    (scanner.past piece).Stands (before ++ piece.text) after where
  text := stands.text.trans (List.append_assoc _ _ _).symm
  curr := by
    show scanner.curr + byteSize piece.text = _
    rw [stands.curr, byteSize_append]

theorem nextItem_nil (stands : scanner.Stands before []) :
    nextItem fuel (turns + 1) scanner =
      .ok (.token (.ending scanner.line)) scanner.finished := by
  rw [nextItem, bind_eq atEnd_eq, stands.left]
  rfl

/-- Where a character is left, the end of the input is not reached. -/
theorem isEmpty_left (stands : scanner.Stands before (first :: rest)) :
    scanner.left.isEmpty = false := by
  rw [List.isEmpty_eq_false_iff, stands.left, encode_cons]
  exact List.append_ne_nil_of_left_ne_nil (utf8EncodeChar_ne_nil first) _

/-- A piece is read, which is the next item if it is not blank. -/
theorem nextItem_cons (stands : scanner.Stands before (first :: rest))
    (enough : scanner.left.length < fuel) :
    nextItem fuel (turns + 1) scanner =
      match (Piece.next first rest).1.item? scanner.line with
      | some item => .ok item (scanner.past (Piece.next first rest).1)
      | none => nextItem fuel turns (scanner.past (Piece.next first rest).1) := by
  let started : Scanner := { scanner with start := scanner.curr }
  have atStart : started.Stands before (first :: rest) := ⟨stands.text, stands.curr⟩
  have read := scanToken_eq atStart rfl enough
  have whole := atStart
  rw [← Piece.text_next_append first rest] at whole
  have slice := whole.beyond.slice stands.curr whole.beyond.curr
  generalize Piece.next first rest = cut at read slice ⊢
  rw [nextItem, bind_eq atEnd_eq, isEmpty_left stands]
  show (scanToken fuel >>= _) started = _
  rw [bind_eq read]
  rcases cut with ⟨piece, after⟩
  cases piece with
  | blank => rfl
  | token kind text =>
    show (Bytes.slice scanner.curr _ >>= _) _ = _
    rw [bind_eq slice]
    rfl
  | fault => rfl

/-- Before the end of the input was yielded, another item is read. -/
theorem drain_succ (goesOn : scanner.done = false) :
    drain fuel (turns + 1) scanner =
      (do return (← nextItem fuel fuel) :: (← drain fuel turns) : Scan (List Item)) scanner := by
  show (if scanner.done then _ else _ : Scan (List Item)) scanner = _
  rw [goesOn]
  rfl

/-- The items of all pieces that are left are read. -/
theorem drain_eq (stands : scanner.Stands before after) (goesOn : scanner.done = false)
    {inner : Nat} (enough : scanner.left.length < fuel) (enough' : scanner.left.length < inner)
    (enough'' : scanner.left.length < turns) :
    (do return (← nextItem fuel inner) :: (← drain fuel turns) : Scan (List Item)) scanner =
      .ok (Item.ofPieces scanner.line (Piece.pieces after))
        ((Piece.pieces after).foldl Scanner.past scanner).finished := by
  -- A blank takes a turn of the inner loop, which starts anew behind each item.
  fun_induction Piece.pieces after generalizing scanner before inner turns with
  | case1 =>
    rcases Nat.exists_eq_add_one.mpr (Nat.zero_lt_of_lt enough') with ⟨inner, rfl⟩
    rcases Nat.exists_eq_add_one.mpr (Nat.zero_lt_of_lt enough'') with ⟨turns, rfl⟩
    rw [bind_eq (nextItem_nil stands)]
    rfl
  | case2 first rest induction =>
    rcases Nat.exists_eq_add_one.mpr (Nat.zero_lt_of_lt enough') with ⟨inner, rfl⟩
    have read := @nextItem_cons _ _ _ _ _ inner stands enough
    have whole := stands
    rw [← Piece.text_next_append first rest] at whole
    have nonempty := Piece.text_next_ne_nil first rest
    generalize Piece.next first rest = cut at induction read whole nonempty ⊢
    rcases cut with ⟨piece, after⟩
    dsimp only at *
    have less : (scanner.past piece).left.length < scanner.left.length := by
      rw [whole.past.left, whole.left, encode_append, List.length_append]
      rcases List.exists_cons_of_ne_nil nonempty with ⟨char, others, same⟩
      have positive := List.length_pos_iff.mpr (utf8EncodeChar_ne_nil char)
      rw [same, encode_cons, List.length_append]
      omega
    rw [List.foldl_cons, Item.ofPieces]
    cases found : piece.item? scanner.line with
    | none =>
      rw [found] at read
      rw [bind_congr read]
      exact induction whole.past goesOn (less.trans enough) (by omega) (less.trans enough'')
    | some item =>
      rw [found] at read
      rcases Nat.exists_eq_add_one.mpr (Nat.zero_lt_of_lt enough'') with ⟨turns, rfl⟩
      have later := @induction (scanner.past piece) _ turns whole.past goesOn fuel
        (less.trans enough) (less.trans enough) (by omega)
      have next := (@drain_succ (scanner.past piece) fuel turns goesOn).trans later
      rw [bind_eq read, bind_eq next]
      rfl

/-! ## Whole source texts -/

theorem text_foldl_past (scanner : Scanner) (pieces : List Piece) :
    (pieces.foldl Scanner.past scanner).text = scanner.text := by
  induction pieces generalizing scanner with
  | nil => rfl
  | cons piece pieces induction => exact induction (scanner.past piece)

theorem line_foldl_past (scanner : Scanner) (pieces : List Piece) :
    (pieces.foldl Scanner.past scanner).line =
      scanner.line + newlines (pieces.flatMap Piece.text) := by
  induction pieces generalizing scanner with
  | nil => rfl
  | cons piece pieces induction =>
    rw [List.foldl_cons, induction, List.flatMap_cons, newlines_append, ← Nat.add_assoc]
    rfl

theorem stands_start (source : String) : (start source).Stands [] source.toList where
  text := rfl
  curr := rfl

/-- The items of a source text are read. -/
theorem scan_eq (source : String) : scan source = .ok (Item.scan source)
    ((Piece.pieces source.toList).foldl Scanner.past (start source)).finished := by
  have enough : (start source).left.length < (bytes source).length + 1 :=
    Nat.lt_succ_of_le (length_left.trans_le (Nat.sub_le _ _))
  exact (drain_succ rfl).trans (drain_eq (stands_start source) rfl enough enough enough)

/-! ## Boundaries -/

/-- An index is the start of a character or the end of the text. -/
def IsBoundary (text : String) (index : Nat) : Prop :=
  String.Pos.Raw.IsValid text ⟨index⟩

/-- A scanner that is between two characters, as it was in front of and behind all it has read. -/
structure Scanner.IsAligned (scanner : Scanner) : Prop where
  start : IsBoundary scanner.text scanner.start
  curr : IsBoundary scanner.text scanner.curr
  stretches : ∀ stretch ∈ scanner.stretches,
    IsBoundary scanner.text stretch.first ∧ IsBoundary scanner.text stretch.last

theorem Scanner.Stands.isBoundary (stands : scanner.Stands before after) :
    IsBoundary scanner.text scanner.curr := by
  rw [stands.curr]
  exact isValid_byteSize stands.text

/-- A piece is read from one boundary to another one. -/
theorem Scanner.IsAligned.past {piece : Piece} (aligned : scanner.IsAligned)
    (stands : scanner.Stands before (piece.text ++ after)) : (scanner.past piece).IsAligned where
  start := aligned.curr
  curr := stands.past.isBoundary
  stretches := List.forall_mem_append.mpr ⟨aligned.stretches,
    List.forall_mem_singleton.mpr ⟨aligned.curr, stands.past.isBoundary⟩⟩

theorem Scanner.IsAligned.foldl_past {pieces : List Piece} (aligned : scanner.IsAligned)
    (stands : scanner.Stands before (pieces.flatMap Piece.text)) :
    (pieces.foldl Scanner.past scanner).IsAligned := by
  induction pieces generalizing scanner before with
  | nil => exact aligned
  | cons piece pieces induction =>
    rw [List.flatMap_cons] at stands
    exact induction (aligned.past stands) stands.past

theorem isAligned_start (source : String) : (start source).IsAligned where
  start := (stands_start source).isBoundary
  curr := (stands_start source).isBoundary
  stretches := fun _ impossible => by cases impossible

/-! ## Stretches -/

namespace Stretch

/-- The stretches of pieces, of which the first starts at this byte on this line. -/
def ofPieces (offset line : Nat) : List Piece → List Stretch
  | [] => []
  | piece :: pieces =>
    ⟨offset, offset + byteSize piece.text, piece.item? line⟩ ::
      ofPieces (offset + byteSize piece.text) (line + newlines piece.text) pieces

theorem stretches_foldl_past (scanner : Scanner) (pieces : List Piece) :
    (pieces.foldl Scanner.past scanner).stretches =
      scanner.stretches ++ ofPieces scanner.curr scanner.line pieces := by
  induction pieces generalizing scanner with
  | nil => exact (List.append_nil _).symm
  | cons piece pieces induction =>
    rw [List.foldl_cons, induction]
    exact List.append_assoc _ _ _

theorem ofPieces_append (offset line : Nat) (first second : List Piece) :
    ofPieces offset line (first ++ second) = ofPieces offset line first ++
      ofPieces (offset + byteSize (first.flatMap Piece.text))
        (line + newlines (first.flatMap Piece.text)) second := by
  induction first generalizing offset line with
  | nil => rfl
  | cons piece pieces induction =>
    rw [List.cons_append, ofPieces, induction, List.flatMap_cons, byteSize_append,
      newlines_append, Nat.add_assoc, Nat.add_assoc]
    rfl

/-- The stretches of pieces lie within these pieces. -/
theorem within_ofPieces (offset line : Nat) (pieces : List Piece) :
    ∀ stretch ∈ ofPieces offset line pieces, offset ≤ stretch.first ∧
      stretch.last ≤ offset + byteSize (pieces.flatMap Piece.text) := by
  induction pieces generalizing offset line with
  | nil => exact fun _ impossible => by cases impossible
  | cons piece pieces induction =>
    rw [List.flatMap_cons, byteSize_append]
    refine List.forall_mem_cons.mpr ⟨⟨Nat.le_refl _, ?_⟩, fun stretch member => ?_⟩
    · dsimp only
      omega
    · have within := induction _ _ stretch member
      omega

theorem filterMap_item_ofPieces (offset line : Nat) (pieces : List Piece) :
    (ofPieces offset line pieces).filterMap item = Item.within line pieces := by
  induction pieces generalizing offset line with
  | nil => rfl
  | cons piece pieces induction =>
    rw [ofPieces, Item.within, List.filterMap_cons]
    cases piece.item? line with
    | none => exact induction _ _
    | some item => exact congrArg (item :: ·) (induction _ _)

/-- A byte is one of those of a stretch. -/
def covers (index : Nat) (stretch : Stretch) : Bool :=
  stretch.first ≤ index && index < stretch.last

/-- The bytes of a piece are those of its stretch only. -/
theorem filter_covers_ofPieces {earlier later : List Piece} {piece : Piece} {index : Nat}
    (line : Nat) (starts : byteSize (earlier.flatMap Piece.text) ≤ index)
    (ends : index < byteSize (earlier.flatMap Piece.text) + byteSize piece.text) :
    (ofPieces 0 line (earlier ++ piece :: later)).filter (covers index) =
      [⟨byteSize (earlier.flatMap Piece.text),
        byteSize (earlier.flatMap Piece.text) + byteSize piece.text,
        piece.item? (line + newlines (earlier.flatMap Piece.text))⟩] := by
  have before : (ofPieces 0 line earlier).filter (covers index) = [] := by
    refine List.filter_eq_nil_iff.mpr fun stretch member => ?_
    have within := (within_ofPieces 0 line earlier stretch member).2
    rw [covers, Bool.and_eq_true, decide_eq_true_eq, decide_eq_true_eq]
    omega
  have behind : ∀ offset line, index < offset →
      (ofPieces offset line later).filter (covers index) = [] := by
    intro offset line beyond
    refine List.filter_eq_nil_iff.mpr fun stretch member => ?_
    have within := (within_ofPieces offset line later stretch member).1
    rw [covers, Bool.and_eq_true, decide_eq_true_eq, decide_eq_true_eq]
    omega
  rw [ofPieces_append, Nat.zero_add, ofPieces, List.filter_append, before, List.nil_append,
    List.filter_cons_of_pos, behind _ _ ends]
  rw [covers, Bool.and_eq_true, decide_eq_true_eq, decide_eq_true_eq]
  exact ⟨starts, ends⟩

end Stretch

/-! ## Characters that belong to nothing -/

/-- A character of a text is in a part of it, among other parts. -/
def IsInside (before : List Char) (char : Char) (after : List Char) (earlier : List Piece)
    (piece : Piece) (later : List Piece) : Prop :=
  ∃ inner others, before = earlier.flatMap Piece.text ++ inner ∧
    piece.text = inner ++ char :: others ∧ after = others ++ later.flatMap Piece.text

/-- A part is a character that no blank, comment, token or string has. -/
def IsUnexpected (piece : Piece) : Prop :=
  ∃ count text, piece = .fault .unexpectedCharacter count text

/--
A character of a text belongs to a blank, a comment, a token or a string, be it closed or not.
-/
def Belongs (before : List Char) (char : Char) (after : List Char) : Prop :=
  ∃ earlier piece later, Tiles [] (earlier ++ piece :: later) ∧
    IsInside before char after earlier piece later ∧ ¬ IsUnexpected piece

variable {char : Char} {pieces earlier later : List Piece} {piece : Piece}

/-- Each character is in one of the parts of its text. -/
theorem exists_isInside (whole : pieces.flatMap Piece.text = before ++ char :: after) :
    ∃ earlier piece later,
      pieces = earlier ++ piece :: later ∧ IsInside before char after earlier piece later := by
  induction pieces generalizing before with
  | nil => cases (List.append_eq_nil_iff.mp whole.symm).2
  | cons head pieces induction =>
    have behind {inner : List Char} (same : before = head.text ++ inner)
        (rest : pieces.flatMap Piece.text = inner ++ char :: after) :
        ∃ earlier piece later, head :: pieces = earlier ++ piece :: later ∧
          IsInside before char after earlier piece later := by
      rcases induction rest with ⟨earlier, piece, later, rfl, inner', others, rfl, text, rfl⟩
      refine ⟨head :: earlier, piece, later, rfl, inner', others, ?_, text, rfl⟩
      rw [same, List.flatMap_cons, List.append_assoc]
    rw [List.flatMap_cons] at whole
    rcases List.append_eq_append_iff.mp whole with ⟨inner, same, rest⟩ | ⟨others, text, rest⟩
    · exact behind same rest
    · cases others with
      | nil =>
        refine @behind [] ?_ rest.symm
        rw [text, List.append_nil, List.append_nil]
      | cons other others =>
        cases rest
        exact ⟨[], head, pieces, rfl, before, others, rfl, text, rfl⟩

/-- Whether a part is an unexpected character is seen from its text. -/
theorem isUnexpected_of_text_eq {other : Piece} {rest : List Char} (fits : piece.Fits rest)
    (unexpected : IsUnexpected piece) (fits' : other.Fits rest) (same : other.text = piece.text) :
    IsUnexpected other := by
  rcases unexpected with ⟨count, text, rfl⟩
  cases fits with
  | @unexpectedCharacter char _ noBlank noQuote noLexeme =>
    have noComment {comment : List Char} (starts : StartsComment comment) : comment ≠ [char] := by
      rintro rfl
      rcases starts with ⟨_, ⟨⟩⟩ | ⟨_, ⟨⟩⟩
    cases other with
    | blank text =>
      obtain rfl : text = [char] := same
      cases fits' with
      | blank blank => exact (noBlank blank).elim
      | blockComment closed => exact (noComment (.inr closed.1) rfl).elim
    | token kind text =>
      obtain rfl : text = [char] := same
      exact (noLexeme _ ⟨kind, fits'.1⟩ (List.prefix_append _ _)).elim
    | fault cause count' text =>
      obtain rfl : text = [char] := same
      cases fits' with
      | unexpectedCharacter => exact ⟨count', [char], rfl⟩
      | unterminatedString => exact (noQuote rfl).elim
      | unterminatedComment unclosed => exact (noComment (.inr unclosed.1) rfl).elim

/-- What a character belongs to is a piece of the text. -/
theorem exists_of_belongs (belongs : Belongs before char after) : ∃ earlier piece later,
    Piece.pieces (before ++ char :: after) = earlier ++ piece :: later ∧
      IsInside before char after earlier piece later ∧ ¬ IsUnexpected piece := by
  rcases belongs with
    ⟨earlier, piece, later, tiles, ⟨inner, others, rfl, text, rfl⟩, something⟩
  rcases pieces_of_tiles tiles with ⟨all, read, texts⟩
  have whole : (earlier ++ piece :: later).flatMap Piece.text ++ [] =
      earlier.flatMap Piece.text ++ inner ++ char :: (others ++ later.flatMap Piece.text) := by
    rw [List.append_nil, List.flatMap_append, List.flatMap_cons, text]
    simp only [List.append_assoc, List.cons_append]
  rw [whole, Piece.pieces, List.append_nil] at read
  rw [List.map_append, List.map_cons] at texts
  rcases List.map_eq_append_iff.mp texts with ⟨earlier', behind, rfl, before, texts⟩
  rcases List.map_eq_cons_iff.mp texts with ⟨piece', later', rfl, same, after⟩
  have flat {first second : List Piece} (texts : first.map Piece.text = second.map Piece.text) :
      first.flatMap Piece.text = second.flatMap Piece.text := by
    rw [List.flatMap_def, texts, ← List.flatMap_def]
  refine ⟨earlier', piece', later', read, ⟨inner, others, ?_, same.trans text, ?_⟩, ?_⟩
  · rw [flat before]
  · rw [flat after]
  · intro unexpected
    have fits := Piece.fits_of_pieces_eq read
    have fits' := fits_of_tiles tiles
    rw [List.append_nil] at fits'
    rw [flat after] at fits
    exact something (isUnexpected_of_text_eq fits unexpected fits' same.symm)

/-- The stretch of a character is that of the piece that it is in. -/
theorem filter_covers_eq (inside : IsInside before char after earlier piece later) (line : Nat) :
    (Stretch.ofPieces 0 line (earlier ++ piece :: later)).filter
        (Stretch.covers (byteSize before)) =
      [⟨byteSize (earlier.flatMap Piece.text),
        byteSize (earlier.flatMap Piece.text) + byteSize piece.text,
        piece.item? (line + newlines (earlier.flatMap Piece.text))⟩] := by
  rcases inside with ⟨inner, others, rfl, text, rfl⟩
  have positive : 0 < byteSize [char] := by
    rw [byteSize, encode_cons, encode_nil, List.append_nil, List.length_pos_iff]
    exact utf8EncodeChar_ne_nil char
  apply Stretch.filter_covers_ofPieces
  · rw [byteSize_append]
    exact Nat.le_add_right _ _
  · rw [text, byteSize_append, byteSize_append, ← List.singleton_append, byteSize_append]
    omega

theorem isUnexpected_of_item? {line line' : Nat}
    (yields : piece.item? line = some (.error ⟨line', .unexpectedCharacter⟩)) :
    IsUnexpected piece := by
  cases piece with
  | blank => cases yields
  | token => cases yields
  | fault => cases yields; exact ⟨_, _, rfl⟩

/--
Each character is in one stretch.  It belongs to nothing if and only if this is an unexpected
character by itself.
-/
theorem exists_filter_covers_eq : ∃ stretch,
    (Stretch.ofPieces 0 1 (Piece.pieces (before ++ char :: after))).filter
        (Stretch.covers (byteSize before)) = [stretch] ∧
      (¬ Belongs before char after ↔ stretch = ⟨byteSize before, byteSize (before ++ [char]),
        some (.error ⟨1 + newlines before, .unexpectedCharacter⟩)⟩) := by
  rcases exists_isInside (Piece.flatMap_text_pieces (before ++ char :: after)) with
    ⟨earlier, piece, later, split, inside⟩
  have alone := filter_covers_eq inside 1
  rw [← split] at alone
  refine ⟨_, alone, fun nothing => ?_, fun same belongs => ?_⟩
  · have unexpected : IsUnexpected piece := by
      by_contra something
      have tiles := tiles_of_pieces_eq (split.trans (List.append_nil _).symm)
      exact nothing ⟨earlier, piece, later, tiles, inside, something⟩
    have fits := Piece.fits_of_pieces_eq split
    have member : piece ∈ Piece.pieces (before ++ char :: after) := by
      rw [split]
      exact List.mem_append_right _ List.mem_cons_self
    have counts := Piece.countsLines_of_mem_pieces member
    rcases unexpected with ⟨count, text, rfl⟩
    rcases inside with ⟨inner, others, rfl, text, -⟩
    cases fits
    cases inner with
    | cons _ inner => exact absurd (List.cons.inj text).2 (by simp)
    | nil =>
      cases text
      rw [show count = 0 from counts, List.append_nil, byteSize_append]
      rfl
  · rcases exists_of_belongs belongs with ⟨earlier', piece', later', split', inside', something⟩
    rw [split', filter_covers_eq inside', same, List.cons.injEq, Stretch.mk.injEq] at alone
    exact something (isUnexpected_of_item? alone.1.2.2)

/-! ## Safety -/

/--
The scanner over bytes is safe.  It yields the items of the source text and never gets stuck, so
each byte that it looks for is there, and each text that it takes is between two boundaries.
Whenever it has read a token, a fault, a blank or a comment, it is between two characters, as it
was in front of it.  Each character is read once, and one that belongs to no blank, comment, token
or string, but no other one, is an unexpected character by itself.
-/
theorem scan_safe (source : String) : ∃ last : Scanner,
    scan source = .ok (Item.scan source) last ∧ last.text = source ∧ last.IsAligned ∧
    last.stretches.filterMap Stretch.item ++ [.token (.ending last.line)] = Item.scan source ∧
    ∀ before char after, source.toList = before ++ char :: after → ∃ stretch,
      last.stretches.filter (Stretch.covers (byteSize before)) = [stretch] ∧
        (¬ Belongs before char after ↔ stretch = ⟨byteSize before, byteSize (before ++ [char]),
          some (.error ⟨1 + newlines before, .unexpectedCharacter⟩)⟩) := by
  have stands := stands_start source
  have pieces := Piece.flatMap_text_pieces source.toList
  rw [← pieces] at stands
  have aligned := (isAligned_start source).foldl_past stands
  have stretches := Stretch.stretches_foldl_past (start source) (Piece.pieces source.toList)
  have line := line_foldl_past (start source) (Piece.pieces source.toList)
  rw [pieces] at line
  refine ⟨_, scan_eq source, text_foldl_past _ _, ⟨aligned.start, aligned.curr, aligned.stretches⟩,
    ?_, ?_⟩
  · rw [Scanner.finished, stretches, line, Item.scan_eq_within]
    exact congrArg (· ++ _) (Stretch.filterMap_item_ofPieces 0 1 _)
  · intro before char after whole
    rw [Scanner.finished, stretches, whole]
    exact exists_filter_covers_eq

-- A character of three bytes, a digit, and a character that is no other byte than zero.
example : (match scan "⅛1\x00" with
    | .ok _ last => last.stretches.map fun stretch => (stretch.first, stretch.last)
    | .error _ _ => []) = [(0, 3), (3, 4), (4, 5)] := by
  decide +kernel

end Lox.Bytes
