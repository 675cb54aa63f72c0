import Lox.Proofs.Renaming.Reading
import Lox.Proofs.Source.Delimited

/-!
# Source texts on lines one below the other

A source text in which no string and no block comment is left open is cut into the same pieces if
a line break and another source text follow.  So its items stay the same, and those of the other
text are the same on later lines (`Item.scan_below`).
-/

namespace Lox

/-- A source text on the lines below another one. -/
def joinLines (first second : String) : String :=
  first ++ "\n" ++ second

variable {more : List Char}

/-! ## Where a line break stops -/

section

variable (goesOn : Char → Bool) (stops : goesOn '\n' = false)
include stops

theorem takeWhile_join (chars : List Char) :
    (chars ++ '\n' :: more).takeWhile goesOn = chars.takeWhile goesOn := by
  induction chars with
  | nil => rw [List.nil_append, List.takeWhile_cons, stops]; rfl
  | cons first rest induction =>
    rw [List.cons_append, List.takeWhile_cons, List.takeWhile_cons, induction]

theorem dropWhile_join (chars : List Char) :
    (chars ++ '\n' :: more).dropWhile goesOn = chars.dropWhile goesOn ++ '\n' :: more := by
  induction chars with
  | nil => rw [List.nil_append, List.dropWhile_cons, stops]; rfl
  | cons first rest induction =>
    rw [List.cons_append, List.dropWhile_cons, List.dropWhile_cons, induction]
    split <;> rfl

end

theorem exists_of_join_eq_cons {first : Char} {chars others : List Char} (different : first ≠ '\n')
    (same : chars ++ '\n' :: more = first :: others) : ∃ further, chars = first :: further := by
  cases chars with
  | nil => exact absurd (List.cons.inj same).1.symm different
  | cons head further => exact ⟨further, by rw [(List.cons.inj same).1]⟩

theorem Numeral.nextFraction_join (chars : List Char) :
    nextFraction (chars ++ '\n' :: more) =
      ((nextFraction chars).1, (nextFraction chars).2 ++ '\n' :: more) := by
  have stops : Char.isDigit '\n' = false := rfl
  rcases chars with _ | ⟨first, _ | ⟨second, rest⟩⟩
  · rfl
  · by_cases isPoint : first = '.'
    · subst isPoint
      rfl
    · simp [nextFraction, isPoint]
  · by_cases isPoint : first = '.'
    · subst isPoint
      simp only [List.cons_append, nextFraction, takeWhile_join _ stops, dropWhile_join _ stops]
      split <;> rfl
    · simp [nextFraction, isPoint]

theorem Numeral.next_join (chars : List Char) :
    next (chars ++ '\n' :: more) = ((next chars).1, (next chars).2 ++ '\n' :: more) := by
  have stops : Char.isDigit '\n' = false := rfl
  simp only [next, takeWhile_join _ stops, dropWhile_join _ stops, nextFraction_join]

theorem Symbol.next?_join (first : Char) (rest : List Char) :
    next? first (rest ++ '\n' :: more) =
      (next? first rest).map fun (symbol, text, after) =>
        (symbol, text, after ++ '\n' :: more) := by
  rcases rest with _ | ⟨second, rest⟩
  · simp [next?]
    rfl
  · by_cases isEqual : second = '='
    · subst isEqual
      unfold next?
      cases withEqual? first with
      | none => simp [Function.comp_def]
      | some symbol => rfl
    · simp [next?, isEqual]
      rfl

theorem closeComment_join {innermost before : Nat} {others : List Nat}
    {chars text after : List Char}
    (closed : closeComment innermost others before chars = .ok (text, after)) :
    closeComment innermost others before (chars ++ '\n' :: more) =
      .ok (text, after ++ '\n' :: more) := by
  rw [closeComment_eq_ok_iff] at closed ⊢
  exact ⟨by rw [closed.1, List.append_assoc], closed.2⟩

/-! ## Pieces -/

namespace Piece

/-- A piece is no fault. -/
def IsClean : Piece → Prop
  | fault _ _ _ => False
  | _ => True

/-- A piece ends within the text: it is no string and no block comment that is left open. -/
def IsClosed : Piece → Prop
  | fault cause _ _ => cause = .unexpectedCharacter
  | _ => True

theorem string_join {rest after : List Char} {piece : Piece}
    (read : string rest = (piece, after)) (closed : piece.IsClosed) :
    string (rest ++ '\n' :: more) = (piece, after ++ '\n' :: more) := by
  by_cases member : '"' ∈ rest
  · rcases List.eq_append_cons_of_mem member with ⟨contents, others, rfl, noQuote⟩
    rw [string_of_closed noQuote] at read
    cases read
    rw [List.append_assoc, List.cons_append, string_of_closed noQuote]
  · rw [string_of_open member] at read
    cases read
    cases closed

theorem lineComment_join (rest : List Char) :
    lineComment (rest ++ '\n' :: more) =
      ((lineComment rest).1, (lineComment rest).2 ++ '\n' :: more) := by
  rw [lineComment, lineComment, takeWhile_join (· != '\n') rfl, dropWhile_join (· != '\n') rfl]

theorem blockComment_join {rest after : List Char} {piece : Piece}
    (read : blockComment rest = (piece, after)) (closed : piece.IsClosed) :
    blockComment (rest ++ '\n' :: more) = (piece, after ++ '\n' :: more) := by
  rw [blockComment] at read ⊢
  split at read
  · next ends =>
    cases read
    rw [closeComment_join ends]
  · cases read
    cases closed

/-- A piece that ends within the text stays the same if a line break follows. -/
theorem next_join {first : Char} {rest after : List Char} {piece : Piece}
    (read : next first rest = (piece, after)) (closed : piece.IsClosed) :
    next first (rest ++ '\n' :: more) = (piece, after ++ '\n' :: more) := by
  rw [next.eq_def] at read ⊢
  split at read
  · next isBlank =>
    cases read
    rw [if_pos isBlank]
  next notBlank =>
  rw [if_neg notBlank]
  split at read
  · next isDigit =>
    rw [if_pos isDigit, ← List.cons_append, Numeral.next_join]
    cases read
    rfl
  next notDigit =>
  rw [if_neg notDigit]
  split at read
  · next isWord =>
    have stops : isWordRest '\n' = false := rfl
    cases read
    rw [if_pos isWord, takeWhile_join _ stops, dropWhile_join _ stops]
  next notWord =>
  rw [if_neg notWord]
  split at read
  · exact string_join read closed
  · cases read
    exact lineComment_join _
  · exact blockComment_join read closed
  · next noQuote noLineComment noBlockComment =>
    split
    · exact (noQuote rfl).elim
    · next same =>
      rcases exists_of_join_eq_cons (by decide) same with ⟨further, starts⟩
      exact (noLineComment further rfl starts).elim
    · next same =>
      rcases exists_of_join_eq_cons (by decide) same with ⟨further, starts⟩
      exact (noBlockComment further rfl starts).elim
    · rw [Symbol.next?_join]
      revert read
      generalize Symbol.next? _ _ = found
      intro read
      cases found <;>
      · cases read
        rfl

/-- A text with nothing left open has the same pieces if a line break and another text follow. -/
theorem pieces_join (chars : List Char) (closed : ∀ piece ∈ pieces chars, piece.IsClosed) :
    pieces (chars ++ '\n' :: more) = pieces chars ++ .blank ['\n'] :: pieces more := by
  fun_induction pieces chars with
  | case1 =>
    rw [List.nil_append, pieces]
    rfl
  | case2 first rest induction =>
    rw [List.forall_mem_cons] at closed
    have here : next first (rest ++ '\n' :: more) =
        ((next first rest).1, (next first rest).2 ++ '\n' :: more) := next_join rfl closed.1
    rw [List.cons_append, pieces, here, induction closed.2]
    rfl

/-! ## The end of the input -/

/-- A piece is not the end of the input. -/
def IsInner : Piece → Prop
  | token kind _ => ¬ kind.isEnding
  | _ => True

theorem isInner_string (rest : List Char) : (string rest).1.IsInner := by
  rw [string]
  split
  · trivial
  · rintro ⟨⟩

theorem isInner_blockComment (rest : List Char) : (blockComment rest).1.IsInner := by
  rw [blockComment]
  split <;> trivial

theorem isInner_next (first : Char) (rest : List Char) : (next first rest).1.IsInner := by
  rw [next.eq_def]
  split
  · trivial
  split
  · exact nofun
  split
  · show ¬ (wordKind _).isEnding
    rw [wordKind]
    split <;> exact nofun
  split
  · exact isInner_string _
  · trivial
  · exact isInner_blockComment _
  · split
    · exact nofun
    · trivial

theorem isInner_of_mem_pieces {chars : List Char} {piece : Piece} (member : piece ∈ pieces chars) :
    piece.IsInner := by
  fun_induction pieces chars with
  | case1 => cases member
  | case2 first rest induction =>
    rcases List.mem_cons.mp member with rfl | later
    · exact isInner_next first rest
    · exact induction later

end Piece

/-! ## Items -/

namespace Item

/-- The items of pieces of which the first starts on this line, without the end of the input. -/
def within (line : Nat) : List Piece → List Item
  | [] => []
  | piece :: pieces => (piece.item? line).toList ++ within (line + newlines piece.text) pieces

theorem ofPieces_append (line : Nat) (first second : List Piece) :
    ofPieces line (first ++ second) =
      within line first ++ ofPieces (line + newlines (first.flatMap Piece.text)) second := by
  induction first generalizing line with
  | nil => rfl
  | cons piece others induction =>
    rw [List.cons_append, ofPieces, within, induction, List.flatMap_cons, newlines, newlines,
      newlines, List.count_append, List.append_assoc, Nat.add_assoc]

/-- The same pieces on other lines. -/
theorem ofPieces_move (change : Nat → Nat) {line line' : Nat}
    (moves : ∀ distance, change (line + distance) = line' + distance) (pieces : List Piece) :
    (ofPieces line pieces).map (Item.move change) = ofPieces line' pieces := by
  induction pieces generalizing line line' with
  | nil => exact congrArg (fun line => [Item.token (.ending line)]) (moves 0)
  | cons piece others induction =>
    have later : ∀ distance, change (line + newlines piece.text + distance) =
        line' + newlines piece.text + distance := by
      intro distance
      rw [Nat.add_assoc, moves, Nat.add_assoc]
    rw [ofPieces, ofPieces, List.map_append, induction later]
    congr 1
    cases piece with
    | blank text => rfl
    | token kind text =>
      exact congrArg (fun line => [Item.token ⟨kind, .ofList text, line⟩]) (moves _)
    | fault cause before text =>
      exact congrArg (fun line => [Item.error ⟨line, cause⟩]) (moves _)

/-- Without lexical errors all pieces are clean. -/
theorem isClean_of_errors {line : Nat} {pieces : List Piece}
    (none : errors (ofPieces line pieces) = []) : ∀ piece ∈ pieces, piece.IsClean := by
  induction pieces generalizing line with
  | nil => exact List.forall_mem_nil _
  | cons piece others induction =>
    rw [ofPieces, errors, List.filterMap_append, List.append_eq_nil_iff] at none
    refine List.forall_mem_cons.mpr ⟨?_, induction none.2⟩
    cases piece with
    | blank => trivial
    | token => trivial
    | fault => cases none.1

theorem not_isEnding_within {line : Nat} {pieces : List Piece}
    (inner : ∀ piece ∈ pieces, piece.IsInner) :
    ∀ token ∈ tokens (within line pieces), ¬ token.kind.isEnding := by
  induction pieces generalizing line with
  | nil => exact List.forall_mem_nil _
  | cons piece others induction =>
    rw [List.forall_mem_cons] at inner
    intro token member
    rw [within, tokens, List.filterMap_append, List.mem_append] at member
    rcases member with here | later
    · cases piece with
      | blank => cases here
      | token kind text =>
        rw [List.mem_singleton.mp here]
        exact inner.1
      | fault => cases here
    · exact induction inner.2 token later

theorem scan_eq_within (source : String) :
    scan source = within 1 (Piece.pieces source.toList) ++
      [.token (.ending (1 + newlines source.toList))] := by
  have whole := ofPieces_append 1 (Piece.pieces source.toList) []
  rw [List.append_nil, Piece.flatMap_text_pieces] at whole
  exact whole

/-- No string and no block comment of a source text is left open. -/
def LeavesNothingOpen (items : List Item) : Prop :=
  ∀ error ∈ errors items, error.fault ≠ .unterminatedString ∧ error.fault ≠ .unterminatedComment

theorem LeavesNothingOpen.of_errors {items : List Item} (none : errors items = []) :
    LeavesNothingOpen items := by
  rw [LeavesNothingOpen, none]
  exact List.forall_mem_nil _

/-- If nothing is left open, then all pieces end within the text. -/
theorem isClosed_of_errors {line : Nat} {pieces : List Piece}
    (closed : LeavesNothingOpen (ofPieces line pieces)) : ∀ piece ∈ pieces, piece.IsClosed := by
  induction pieces generalizing line with
  | nil => exact List.forall_mem_nil _
  | cons piece others induction =>
    rw [LeavesNothingOpen, ofPieces, errors, List.filterMap_append, List.forall_mem_append] at closed
    refine List.forall_mem_cons.mpr ⟨?_, induction closed.2⟩
    cases piece with
    | blank => trivial
    | token => trivial
    | fault cause before text =>
      have here := closed.1 ⟨line + before, cause⟩ List.mem_cons_self
      cases cause with
      | unexpectedCharacter => rfl
      | unterminatedString => exact absurd rfl here.1
      | unterminatedComment => exact absurd rfl here.2

/-- A source text below another one is read as if it started on a later line. -/
theorem scan_joinLines {first : String} (closed : LeavesNothingOpen (scan first))
    (second : String) :
    scan (joinLines first second) = within 1 (Piece.pieces first.toList) ++
      ofPieces (2 + newlines first.toList) (Piece.pieces second.toList) := by
  have chars : (joinLines first second).toList = first.toList ++ '\n' :: second.toList := by
    simp [joinLines]
  have line : 1 + newlines first.toList + newlines ['\n'] = 2 + newlines first.toList := by
    show 1 + newlines first.toList + 1 = _
    omega
  rw [scan, chars, Piece.pieces_join _ (isClosed_of_errors closed), ofPieces_append,
    Piece.flatMap_text_pieces, ← line]
  rfl

/--
Two source texts one below the other yield the items of the first one without the end of the
input, and then those of the second one, on lines that are greater by the number of lines of the
first one.  Only strings and block comments can go on across the line break.
-/
theorem scan_below {first : String} (closed : LeavesNothingOpen (scan first)) (second : String) :
    scan (joinLines first second) =
      (scan first).dropLast ++
        (scan second).map (Item.move (· + (1 + newlines first.toList))) := by
  have start : (scan first).dropLast = within 1 (Piece.pieces first.toList) := by
    rw [scan_eq_within, List.dropLast_concat]
  have moves : ∀ distance, 1 + distance + (1 + newlines first.toList) =
      2 + newlines first.toList + distance := by
    intro distance
    omega
  rw [scan_joinLines closed, start, scan, ofPieces_move _ moves]

/-- A stray character, and a line comment in which a string and a block comment seem to start. -/
def endsInComment : String := "a #\n=// \"/*"

/-- A string literal on two lines between two signs. -/
def startsWithEqual : String := "= \"b\n\" ."

/-- The comment ends with its line, and what comes below it is read as if it stood alone. -/
theorem scan_below_endsInComment :
    LeavesNothingOpen (scan endsInComment) ∧
      scan (joinLines endsInComment startsWithEqual) =
        [.token ⟨.identifier, "a", 1⟩, .error ⟨1, .unexpectedCharacter⟩,
          .token ⟨.symbol .equal, "=", 2⟩, .token ⟨.symbol .equal, "=", 3⟩,
          .token ⟨.string "b\n", "\"b\n\"", 4⟩, .token ⟨.symbol .dot, ".", 4⟩,
          .token (.ending 4)] := by
  have items : scan endsInComment =
      [.token ⟨.identifier, "a", 1⟩, .error ⟨1, .unexpectedCharacter⟩,
        .token ⟨.symbol .equal, "=", 2⟩, .token (.ending 2)] := by
    cbv
  have itemsBelow : scan startsWithEqual =
      [.token ⟨.symbol .equal, "=", 1⟩, .token ⟨.string "b\n", "\"b\n\"", 2⟩,
        .token ⟨.symbol .dot, ".", 2⟩, .token (.ending 2)] := by
    cbv
  have closed : LeavesNothingOpen (scan endsInComment) := by
    rw [items]
    intro error member
    rw [List.mem_singleton.mp (show error ∈ [⟨1, .unexpectedCharacter⟩] from member)]
    constructor <;> rintro ⟨⟩
  refine ⟨closed, ?_⟩
  rw [scan_below closed, items, itemsBelow]
  rfl

end Item

end Lox
