import Lox.Proofs.Source.Joining
import Mathlib.Data.List.TakeWhile

/-!
# Source texts are tiled by their pieces

Each piece that is cut off a source text is the longest token that the text starts with, or what
means nothing, or a fault (`Piece.fits_next`).  So the items of a source text belong to parts of
it, one behind the other, and what lies between them is blank: `Item.scan_tiles`.
-/

namespace Lox

/-- A part of a list whose elements go on is within the longest such part of the list. -/
theorem length_le_takeWhile {goesOn : Char → Bool} {part chars : List Char}
    (isPrefix : part <+: chars) (inside : ∀ char ∈ part, goesOn char) :
    part.length ≤ (chars.takeWhile goesOn).length := by
  rcases isPrefix with ⟨more, rfl⟩
  rw [List.takeWhile_append_of_pos inside, List.length_append]
  exact Nat.le_add_right _ _

/-! ## Numerals -/

namespace Numeral

theorem isDigit_nextFraction (chars : List Char) :
    ∀ digit ∈ (nextFraction chars).1, digit.isDigit := by
  unfold nextFraction
  split
  · split
    · next isDigit =>
      exact List.forall_mem_cons.mpr ⟨isDigit, fun digit member => List.mem_takeWhile_imp member⟩
    · exact List.forall_mem_nil _
  · exact List.forall_mem_nil _

theorem isSpelt_next {first : Char} (isDigit : first.isDigit) (rest : List Char) :
    (Kind.number (next (first :: rest)).1.value).IsSpelt (next (first :: rest)).1.text := by
  apply Kind.IsSpelt.number
  · simp [next, isDigit]
  · exact fun digit member => List.mem_takeWhile_imp member
  · exact isDigit_nextFraction _

/-- No longer numeral starts a text than the one that is read. -/
theorem length_le_next {numeral : Numeral} {chars : List Char}
    (whole : ∀ digit ∈ numeral.whole, digit.isDigit)
    (fraction : ∀ digit ∈ numeral.fraction, digit.isDigit) (starts : numeral.text <+: chars) :
    numeral.text.length ≤ (next chars).1.text.length := by
  rcases numeral with ⟨digits, _ | ⟨digit, others⟩⟩
  · have wholeLe := length_le_takeWhile
      ((List.prefix_append digits (fractionText [])).trans starts) whole
    simp only [text, fractionText, next, List.append_nil, List.length_append] at wholeLe ⊢
    omega
  · rcases starts with ⟨more, rfl⟩
    have split : (⟨digits, digit :: others⟩ : Numeral).text ++ more =
        digits ++ '.' :: digit :: (others ++ more) := by
      simp [text, fractionText]
    have noDigit : Char.isDigit '.' = false := rfl
    have isDigit : digit.isDigit := fraction digit List.mem_cons_self
    have othersLe := length_le_takeWhile (List.prefix_append others more)
      fun digit member => fraction digit (List.mem_cons_of_mem _ member)
    rw [split, next, List.takeWhile_append_of_pos whole, List.dropWhile_append_of_pos whole,
      List.takeWhile_cons_of_neg (Bool.eq_false_iff.mp noDigit),
      List.dropWhile_cons_of_neg (Bool.eq_false_iff.mp noDigit), nextFraction, if_pos isDigit]
    simp only [text, fractionText, List.append_nil, List.length_append, List.length_cons]
    omega

end Numeral

/-! ## Symbols -/

namespace Symbol

/-- A symbol is a single character, or one that is read together with a following `=`. -/
theorem toList_text_cases (sign : Symbol) :
    (∃ first, sign.text.toList = [first] ∧ single? first = some sign) ∨
      ∃ first, sign.text.toList = [first, '='] ∧ withEqual? first = some sign := by
  cases sign <;> first | exact .inl ⟨_, rfl, rfl⟩ | exact .inr ⟨_, rfl, rfl⟩

theorem toList_text_of_single? {first : Char} {sign : Symbol}
    (found : single? first = some sign) : sign.text.toList = [first] := by
  unfold single? at found
  split at found <;> cases found <;> rfl

theorem toList_text_of_withEqual? {first : Char} {sign : Symbol}
    (found : withEqual? first = some sign) : sign.text.toList = [first, '='] := by
  unfold withEqual? at found
  split at found <;> cases found <;> rfl

variable {first : Char} {rest text after : List Char} {symbol : Symbol}

/-- A symbol is spelt like what is read. -/
theorem toList_text_of_next? (found : next? first rest = some (symbol, text, after)) :
    symbol.text.toList = text := by
  unfold next? at found
  split at found
  · next isTwo =>
    cases found
    exact toList_text_of_withEqual? isTwo
  · rcases Option.map_eq_some_iff.mp found with ⟨sign, isOne, same⟩
    cases same
    exact toList_text_of_single? isOne

/-- What is read as a symbol starts with a character that is a symbol by itself. -/
theorem isSome_single? (found : next? first rest = some (symbol, text, after)) :
    (single? first).isSome := by
  rcases symbol.exists_toList_text with ⟨head, others, same, single⟩
  have whole := next?_append found
  rw [← toList_text_of_next? found, same] at whole
  rwa [← (List.cons.inj whole).1]

/-- No longer symbol starts a text than the one that is read. -/
theorem length_le_next? (found : next? first rest = some (symbol, text, after)) {sign : Symbol}
    (starts : sign.text.toList <+: first :: rest) :
    sign.text.toList.length ≤ text.length := by
  have nonempty := List.length_pos_iff.mpr (next?_ne_nil found)
  rcases sign.toList_text_cases with ⟨head, one, -⟩ | ⟨head, two, isTwo⟩
  · rwa [one]
  rw [two] at starts ⊢
  rcases List.cons_prefix_cons.mp starts with ⟨rfl, more, same⟩
  rw [← same, List.cons_append, next?.eq_def, isTwo] at found
  cases found
  exact Nat.le_refl _

/-- A text of which no symbol is read starts with no symbol. -/
theorem single?_of_next?_eq_none (missing : next? first rest = none) : single? first = none := by
  unfold next? at missing
  split at missing
  · cases missing
  · exact Option.map_eq_none_iff.mp missing

end Symbol

/-! ## Pieces -/

namespace Piece

theorem isSpelt_wordKind {first : Char} {rest : List Char} (starts : isWordStart first)
    (goesOn : ∀ char ∈ rest, isWordRest char) :
    (wordKind (first :: rest)).IsSpelt (first :: rest) := by
  rw [wordKind]
  split
  · next word found =>
    have same : word.text = .ofList (first :: rest) := by
      have spelt := List.find?_some found
      exact eq_of_beq spelt
    have chars : word.text.toList = first :: rest := by rw [same, String.toList_ofList]
    rw [← chars]
    exact .keyword word
  · next missing =>
    apply Kind.IsSpelt.identifier starts goesOn
    intro word same
    have different := List.find?_eq_none.mp missing word word.mem_all
    apply different
    rw [← same, String.ofList_toList]
    exact beq_self_eq_true _

/-- A token fits if no token of any kind that can start in the same way is longer. -/
theorem fits_token {kind : Kind} {text rest : List Char} (spelt : kind.IsSpelt text)
    (longest : ∀ other chars, Kind.IsSpelt other chars → chars <+: text ++ rest →
      chars.length ≤ text.length)
    (noComment : ¬ StartsComment (text ++ rest)) : (Piece.token kind text).Fits rest := by
  refine ⟨spelt, ⟨⟨kind, spelt⟩, List.prefix_append text rest, ?_⟩, noComment⟩
  rintro chars ⟨other, otherSpelt⟩ starts
  exact longest other chars otherSpelt starts

/-- No comment starts with another character than a slash. -/
theorem not_startsComment {first : Char} {rest : List Char} (noSlash : first ≠ '/') :
    ¬ StartsComment (first :: rest) := by
  rintro (starts | starts) <;> exact noSlash (List.cons_prefix_cons.mp starts).1.symm

theorem fits_number {first : Char} (isDigit : first.isDigit) (rest : List Char) :
    (Piece.token (.number (Numeral.next (first :: rest)).1.value)
      (Numeral.next (first :: rest)).1.text).Fits (Numeral.next (first :: rest)).2 := by
  have whole := Numeral.text_next_append (first :: rest)
  apply fits_token (Numeral.isSpelt_next isDigit rest)
  · intro kind chars spelt starts
    rw [whole] at starts
    rcases (spelt.canStartWith starts).of_isDigit isDigit with ⟨value, rfl⟩
    cases spelt with
    | number _ whole fraction => exact Numeral.length_le_next whole fraction starts
  · rw [whole]
    apply not_startsComment
    rintro rfl
    cases isDigit

theorem fits_word {first : Char} (isWord : isWordStart first) (rest : List Char) :
    (Piece.token (wordKind (first :: rest.takeWhile isWordRest))
      (first :: rest.takeWhile isWordRest)).Fits (rest.dropWhile isWordRest) := by
  have whole : first :: rest.takeWhile isWordRest ++ rest.dropWhile isWordRest = first :: rest := by
    rw [List.cons_append, List.takeWhile_append_dropWhile]
  apply fits_token (isSpelt_wordKind isWord fun char member => List.mem_takeWhile_imp member)
  · intro kind chars spelt starts
    rw [whole] at starts
    have inside : ∃ head others, chars = head :: others ∧ ∀ char ∈ others, isWordRest char := by
      rcases (spelt.canStartWith starts).of_isWordStart isWord with rfl | ⟨word, rfl⟩
      · cases spelt with
        | identifier _ goesOn => exact ⟨_, _, rfl, goesOn⟩
      · cases spelt with
        | keyword =>
          rcases word.exists_toList_text with ⟨head, others, same, -, goesOn⟩
          exact ⟨head, others, same, goesOn⟩
    rcases inside with ⟨head, others, rfl, goesOn⟩
    exact Nat.succ_le_succ (length_le_takeWhile (List.cons_prefix_cons.mp starts).2 goesOn)
  · rw [whole]
    apply not_startsComment
    rintro rfl
    cases isWord

theorem fits_string (rest : List Char) : (string rest).1.Fits (string rest).2 := by
  by_cases member : '"' ∈ rest
  · rcases List.eq_append_cons_of_mem member with ⟨contents, after, rfl, noQuote⟩
    rw [string_of_closed noQuote]
    have whole : '"' :: contents ++ ['"'] ++ after = '"' :: (contents ++ '"' :: after) := by simp
    apply fits_token (.string noQuote)
    · intro kind chars spelt starts
      rw [whole] at starts
      rcases (spelt.canStartWith starts).of_quote with ⟨other, rfl⟩
      cases spelt with
      | @string other closed =>
        have within := (List.prefix_append other _).trans (List.cons_prefix_cons.mp starts).2
        have le : other.length ≤ ((contents ++ '"' :: after).takeWhile (· != '"')).length :=
          length_le_takeWhile within (forall_bne_of_not_mem closed)
        rw [List.takeWhile_append_of_pos (forall_bne_of_not_mem noQuote),
          List.takeWhile_cons_of_neg (by decide), List.append_nil] at le
        simp only [List.cons_append, List.length_cons, List.length_append, List.length_nil]
        omega
    · rw [whole]
      exact not_startsComment (by decide)
  · rw [string_of_open member]
    exact .unterminatedString member

theorem fits_lineComment (rest : List Char) : (lineComment rest).1.Fits (lineComment rest).2 := by
  apply IsTrivia.lineComment
  · intro member
    have isOther := List.mem_takeWhile_imp member
    cases isOther
  · show rest.dropWhile (· != '\n') = [] ∨ (rest.dropWhile (· != '\n')).head? = some '\n'
    have head := List.head?_dropWhile_not (· != '\n') rest
    cases found : rest.dropWhile (· != '\n') with
    | nil => exact .inl rfl
    | cons char others =>
      rw [found] at head
      right
      simpa using head

theorem fits_blockComment (rest : List Char) :
    (blockComment rest).1.Fits (blockComment rest).2 := by
  rw [blockComment]
  split
  · next text after closed =>
    exact .blockComment (isBlockComment_iff.mpr (closes_closeComment closed))
  · next line unclosed =>
    have isOpen : StaysOpen 1 (depthChanges rest) := staysOpen_closeComment unclosed
    refine IsFault.unterminatedComment ⟨List.prefix_append ['/', '*'] rest, ?_⟩
    intro parts isPrefix nonempty
    rcases List.prefix_cons_iff.mp isPrefix with rfl | ⟨others, rfl, within⟩
    · exact (nonempty rfl).elim
    · exact isOpen others within

/-- The first piece of a text fits where the rest follows it. -/
theorem fits_next (first : Char) (rest : List Char) :
    (next first rest).1.Fits (next first rest).2 := by
  rw [next.eq_def]
  split
  · next isBlank => exact IsTrivia.blank isBlank
  next noBlank =>
  split
  · next isDigit => exact fits_number isDigit rest
  next noDigit =>
  split
  · next isWord => exact fits_word isWord rest
  next noWord =>
  split
  · exact fits_string _
  · exact fits_lineComment _
  · exact fits_blockComment _
  next noQuote noLineComment noBlockComment =>
  have isQuote : first ≠ '"' := fun same => noQuote same
  split
  · next symbol text after found =>
    have whole := Symbol.next?_append found
    apply fits_token
    · rw [← Symbol.toList_text_of_next? found]
      exact .symbol symbol
    · intro kind chars spelt starts
      rw [whole] at starts
      rcases (spelt.canStartWith starts).of_other noDigit noWord isQuote with ⟨sign, rfl⟩
      cases spelt with
      | symbol => exact Symbol.length_le_next? found starts
    · rw [whole]
      rintro (⟨more, same⟩ | ⟨more, same⟩)
      · cases same
        exact noLineComment _ rfl rfl
      · cases same
        exact noBlockComment _ rfl rfl
  · next missing =>
    refine IsFault.unexpectedCharacter noBlank isQuote ?_
    rintro chars ⟨kind, spelt⟩ starts
    have can := spelt.canStartWith starts
    rcases can.of_other noDigit noWord isQuote with ⟨sign, rfl⟩
    rw [Kind.CanStartWith, Symbol.single?_of_next?_eq_none missing] at can
    cases can

/-- All pieces of a text fit where the pieces behind them follow. -/
theorem fits_of_pieces_eq {chars : List Char} {earlier later : List Piece} {piece : Piece}
    (split : pieces chars = earlier ++ piece :: later) : piece.Fits (later.flatMap text) := by
  fun_induction pieces chars generalizing earlier with
  | case1 => exact absurd split.symm (by simp)
  | case2 first rest induction =>
    cases earlier with
    | nil =>
      rcases List.cons.inj split with ⟨rfl, rfl⟩
      rw [flatMap_text_pieces]
      exact fits_next first rest
    | cons head others => exact induction (List.cons.inj split).2

end Piece

/--
A source text is tiled.  It is the text of some pieces, one behind the other.  Each piece that is a
token is the longest lexeme that the text starts with there; each other one is blank, a comment or
a fault.  The items are those of the pieces, one for each that is not blank, and the end of the
input behind them all.
-/
theorem Item.scan_tiles (source : String) : ∃ pieces : List Piece,
    pieces.flatMap Piece.text = source.toList ∧
    (∀ earlier piece later, pieces = earlier ++ piece :: later →
      piece.Fits (later.flatMap Piece.text)) ∧
    scan source = within 1 pieces ++ [.token (.ending (1 + newlines source.toList))] ∧
    ∀ token ∈ tokens (within 1 pieces), token.kind ≠ .ending := by
  refine ⟨Piece.pieces source.toList, Piece.flatMap_text_pieces _, ?_, scan_eq_within source, ?_⟩
  · exact fun earlier piece later => Piece.fits_of_pieces_eq
  · intro token member same
    apply not_isEnding_within (fun _ => Piece.isInner_of_mem_pieces) token member
    rw [same]
    rfl

end Lox
