import Lox.Proofs.Source.Spacing

/-!
# Only one way to cut a text

What a source text may consist of is said without reading it (`Piece.Fits`).  A text can be cut
into such parts in one way only: if parts that fit stand in front of a place, then the reading
reaches this place and cuts the text into the same parts up to there (`pieces_of_tiles`).
-/

namespace Lox

/-- No token starts with a blank. -/
theorem Kind.CanStartWith.not_isBlank {kind : Kind} {first : Char} (can : kind.CanStartWith first) :
    ¬ isBlank first := by
  intro blank
  have noWord : ¬ isWordStart first := by
    intro starts
    have noRest := not_isWordRest_of_isBlank blank
    rw [isWordRest_of_isWordStart starts] at noRest
    cases noRest
  cases kind with
  | symbol =>
    rw [(Symbol.isAlone_of_single? can).1] at blank
    cases blank
  | keyword => exact noWord can
  | identifier => exact noWord can
  | string =>
    rw [show first = '"' from can] at blank
    cases blank
  | number => exact Bool.eq_false_iff.mp (not_isDigit_of_isBlank blank) can
  | ending => exact can

/-- The slash that starts a comment could be a token. -/
theorem isLexeme_slash : IsLexeme ['/'] :=
  ⟨_, .symbol .slash⟩

theorem exists_slash_of_startsComment {chars : List Char} (starts : StartsComment chars) :
    ['/'] <+: chars := by
  rcases starts with starts | starts
  · exact (List.prefix_append ['/'] ['/']).trans starts
  · exact (List.prefix_append ['/'] ['*']).trans starts

theorem IsBlockComment.startsComment {text : List Char} (closed : IsBlockComment text)
    (rest : List Char) : StartsComment (text ++ rest) :=
  .inr (closed.1.trans (List.prefix_append text rest))

/-! ## Comments that are left open -/

/-- The markers of a comment that is closed do not reach beyond it. -/
theorem depthChanges_append_of_closes {depth : Int} {text : List Char}
    (closes : Closes depth (depthChanges text)) (isOpen : 0 < depth) (after : List Char) :
    depthChanges (text ++ after) = depthChanges text ++ depthChanges after := by
  fun_induction depthChanges text generalizing depth with
  | case1 => exact (closes.ne_nil isOpen rfl).elim
  | case2 rest induction =>
    rcases Int.lt_or_le 0 (depth + -1) with more | last
    · exact congrArg (List.cons _) (induction closes.tail more)
    · obtain rfl : depth = 1 := by omega
      obtain rfl : rest = [] := depthChanges_eq_nil closes.tail.eq_nil
      rfl
  | case3 rest induction => exact congrArg (List.cons _) (induction closes.tail (by omega))
  | case4 char rest notClosing notOpening induction =>
    have later := closes.tail
    rw [Int.add_zero] at later
    -- The comment goes on, so the next character is one of its own.
    have nonempty : rest ≠ [] := by
      rintro rfl
      exact later.ne_nil isOpen rfl
    rcases List.exists_cons_of_ne_nil nonempty with ⟨second, others, rfl⟩
    rw [List.cons_append, depthChanges_cons, induction later isOpen, List.cons_append]
    · rintro more rfl same
      obtain rfl := (List.cons.inj same).1
      exact notClosing others rfl rfl
    · rintro more rfl same
      obtain rfl := (List.cons.inj same).1
      exact notOpening others rfl rfl

/-- A comment that is left open has no end. -/
theorem IsOpenComment.not_closes {more text after : List Char}
    (unclosed : IsOpenComment ('/' :: '*' :: more)) (split : more = text ++ after) :
    ¬ Closes 1 (depthChanges text) := by
  intro closes
  have changes : depthChanges ('/' :: '*' :: more) =
      (1 :: depthChanges text) ++ depthChanges after := by
    rw [split]
    exact congrArg (List.cons _) (depthChanges_append_of_closes closes (by decide) after)
  have stillOpen := unclosed.2 (1 :: depthChanges text) (changes ▸ List.prefix_append _ _)
    (List.cons_ne_nil _ _)
  have sum := closes.sum
  rw [List.sum_cons] at stillOpen
  omega

namespace Piece

/-! ## The first piece -/

section

variable {first : Char} {rest after : List Char}

/-- The longest token at the start of a text is cut off it. -/
theorem text_next_of_token {kind : Kind} {text : List Char}
    (fits : (Piece.token kind text).Fits after) (whole : text ++ after = first :: rest) :
    (next first rest).1.text = text := by
  rcases fits with ⟨spelt, longest, noComment⟩
  have other := fits_next first rest
  have joined := text_next_append first rest
  rw [whole] at longest noComment
  generalize next first rest = cut at other joined ⊢
  rcases cut with ⟨piece, after'⟩
  dsimp only at other joined
  cases piece with
  | blank text' =>
    cases other with
    | blank blank =>
      obtain rfl := (List.cons.inj joined).1
      exact ((spelt.canStartWith longest.isPrefix).not_isBlank blank).elim
    | lineComment => exact (noComment (.inl ⟨_, joined⟩)).elim
    | blockComment closed => exact (noComment (joined ▸ closed.startsComment after')).elim
  | token kind' text' =>
    have longest' := other.2.1
    dsimp only [Piece.text] at joined ⊢
    rw [joined] at longest'
    have shorter := longest.length_le text' longest'.isLexeme longest'.isPrefix
    have isPrefix := List.prefix_of_prefix_length_le longest'.isPrefix longest.isPrefix shorter
    exact isPrefix.eq_of_length_le (longest'.length_le text longest.isLexeme longest.isPrefix)
  | fault cause count text' =>
    cases other with
    | unexpectedCharacter _ _ noLexeme =>
      rw [show _ :: after' = first :: rest from joined] at noLexeme
      exact (noLexeme text longest.isLexeme longest.isPrefix).elim
    | @unterminatedString contents unclosed =>
      have isPrefix : text <+: '"' :: contents := by
        rw [Piece.text, List.append_nil] at joined
        exact joined ▸ longest.isPrefix
      rcases (spelt.canStartWith isPrefix).of_quote with ⟨inner, rfl⟩
      cases spelt with
      | string =>
        have within := (List.cons_prefix_cons.mp isPrefix).2.subset
        exact (unclosed (within (List.mem_append_right _ List.mem_cons_self))).elim
    | unterminatedComment unclosed =>
      exact (noComment (joined ▸ .inr (unclosed.1.trans (List.prefix_append _ _)))).elim

/-- A character that starts nothing is cut off alone. -/
theorem text_next_of_stray (noBlank : ¬ isBlank first) (noQuote : first ≠ '"')
    (noLexeme : ∀ text, IsLexeme text → ¬ text <+: first :: rest) :
    (next first rest).1.text = [first] := by
  have other := fits_next first rest
  have joined := text_next_append first rest
  have noComment : ¬ StartsComment (first :: rest) :=
    fun starts => noLexeme _ isLexeme_slash (exists_slash_of_startsComment starts)
  generalize next first rest = cut at other joined ⊢
  rcases cut with ⟨piece, after'⟩
  dsimp only at other joined
  cases piece with
  | blank text =>
    cases other with
    | blank blank =>
      obtain rfl := (List.cons.inj joined).1
      exact (noBlank blank).elim
    | lineComment => exact (noComment (.inl ⟨_, joined⟩)).elim
    | blockComment closed => exact (noComment (joined ▸ closed.startsComment after')).elim
  | token kind text => exact (noLexeme text ⟨kind, other.1⟩ ⟨after', joined⟩).elim
  | fault cause count text =>
    cases other with
    | unexpectedCharacter => exact congrArg (fun char => [char]) (List.cons.inj joined).1
    | unterminatedString => exact (noQuote (List.cons.inj joined).1.symm).elim
    | unterminatedComment unclosed =>
      exact (noComment (joined ▸ .inr (unclosed.1.trans (List.prefix_append _ _)))).elim

theorem text_next_of_blank {text : List Char} (trivia : IsTrivia text after)
    (whole : text ++ after = first :: rest) : (next first rest).1.text = text := by
  cases trivia with
  | blank blank =>
    obtain rfl := (List.cons.inj whole).1
    rw [next.eq_def, if_pos blank]
    rfl
  | @lineComment comment after within ends =>
    have stops : Stops (· != '\n') after := by
      rcases ends with rfl | isBreak
      · rintro _ ⟨⟩
      · intro char isFirst
        rw [Option.mem_def.mp isFirst] at isBreak
        cases isBreak
        rfl
    have inside := forall_bne_of_not_mem within
    cases whole
    show '/' :: '/' :: (comment ++ after).takeWhile (· != '\n') = _
    rw [stops.takeWhile_append inside]
  | blockComment closed =>
    have read : pieces (text ++ after) = .blank text :: pieces after :=
      pieces_blockComment closed
    rw [whole, pieces] at read
    rw [(List.cons.inj read).1]
    rfl

theorem text_next_of_fault {cause : LexicalFault} {text : List Char}
    (isFault : IsFault cause text after) (whole : text ++ after = first :: rest) :
    (next first rest).1.text = text := by
  cases isFault with
  | unexpectedCharacter noBlank noQuote noLexeme =>
    cases whole
    exact text_next_of_stray noBlank noQuote noLexeme
  | unterminatedString unclosed =>
    rw [List.append_nil] at whole
    cases whole
    have read : next '"' rest = string rest := rfl
    rw [read, string_of_open unclosed]
    rfl
  | unterminatedComment unclosed =>
    rw [List.append_nil] at whole
    rcases unclosed.1 with ⟨more, rfl⟩
    cases whole
    show (blockComment more).1.text = _
    rw [blockComment]
    split
    · next text after' closed =>
      have split := (closeComment_append closed).symm
      exact (unclosed.not_closes split (closes_closeComment closed)).elim
    · rfl

/-- The first piece of a text is the part that fits at its start. -/
theorem text_next_of_fits {piece : Piece} (fits : piece.Fits after)
    (whole : piece.text ++ after = first :: rest) : (next first rest).1.text = piece.text := by
  cases piece with
  | blank => exact text_next_of_blank fits whole
  | token => exact text_next_of_token fits whole
  | fault => exact text_next_of_fault fits whole

/-- A part that fits is not empty. -/
theorem text_ne_nil_of_fits {piece : Piece} (fits : piece.Fits after) : piece.text ≠ [] := by
  cases piece with
  | blank text =>
    cases fits with
    | blank => exact List.cons_ne_nil _ _
    | lineComment => exact List.cons_ne_nil _ _
    | blockComment closed =>
      rintro rfl
      cases List.prefix_nil.mp closed.1
  | token kind text =>
    rcases fits.1.exists_cons with ⟨first, others, same, -⟩
    exact same ▸ List.cons_ne_nil _ _
  | fault cause count text =>
    cases fits with
    | unexpectedCharacter => exact List.cons_ne_nil _ _
    | unterminatedString => exact List.cons_ne_nil _ _
    | unterminatedComment unclosed =>
      rintro rfl
      cases List.prefix_nil.mp unclosed.1

end

end Piece

/-! ## All pieces -/

/-- Parts one behind the other, each of which fits where the others and the rest follow it. -/
inductive Tiles (rest : List Char) : List Piece → Prop where
  | nil : Tiles rest []
  | cons {piece : Piece} {others : List Piece}
    (fits : piece.Fits (others.flatMap Piece.text ++ rest)) (tiles : Tiles rest others) :
    Tiles rest (piece :: others)

/-- Each part fits where the parts behind it and the rest follow. -/
theorem fits_of_tiles {rest : List Char} {earlier later : List Piece} {piece : Piece}
    (tiles : Tiles rest (earlier ++ piece :: later)) :
    piece.Fits (later.flatMap Piece.text ++ rest) := by
  induction earlier with
  | nil => cases tiles with | cons fits _ => exact fits
  | cons head earlier induction => cases tiles with | cons _ tiles => exact induction tiles

/-- The pieces of a text start with the texts of the parts that fit at its start. -/
theorem pieces_of_tiles {rest : List Char} {parts : List Piece} (tiles : Tiles rest parts) :
    ∃ earlier, Piece.pieces (parts.flatMap Piece.text ++ rest) = earlier ++ Piece.pieces rest ∧
      earlier.map Piece.text = parts.map Piece.text := by
  induction tiles with
  | nil => exact ⟨[], rfl, rfl⟩
  | @cons piece others fits tiles induction =>
    rcases induction with ⟨earlier, read, texts⟩
    rcases List.exists_cons_of_ne_nil (Piece.text_ne_nil_of_fits fits) with ⟨first, more, starts⟩
    let behind := more ++ (others.flatMap Piece.text ++ rest)
    have whole : piece.text ++ (others.flatMap Piece.text ++ rest) = first :: behind := by
      rw [starts, List.cons_append]
    have same := Piece.text_next_of_fits fits whole
    have joined := Piece.text_next_append first behind
    rw [same, ← whole, List.append_cancel_left_eq] at joined
    refine ⟨(Piece.next first behind).1 :: earlier, ?_, ?_⟩
    · rw [List.flatMap_cons, List.append_assoc, whole, Piece.pieces, joined, read, List.cons_append]
    · rw [List.map_cons, List.map_cons, same, texts]

end Lox
