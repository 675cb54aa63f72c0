import Lox.Proofs.Bytes.Lexemes

/-!
# Pieces read by bytes

In front of a text the scanner over bytes reads its first piece (`scanToken_eq`), so from one piece
to the next it stays on boundaries between characters.
-/

namespace Lox.Bytes

variable {scanner : Scanner} {before rest after text : List Char} {first : Char} {fuel : Nat}

/-- What reading a piece that starts on this line comes to. -/
def outcome (line : Nat) : Piece → Except LexicalError (Option Kind)
  | .blank _ => .ok none
  | .token kind _ => .ok (some kind)
  | .fault cause count _ => .error ⟨line + count, cause⟩

/-- Behind the first byte of a piece, its other bytes are read. -/
def Reads (action : Scan (Except LexicalError (Option Kind))) (scanner : Scanner)
    (piece : Piece) : Prop :=
  action (scanner.forward 1 0) = .ok (outcome scanner.line piece) (scanner.beyond piece.text)

/-! ## Comments -/

theorem slash_lineComment (stands : scanner.Stands before ('/' :: '/' :: rest)) :
    Reads (slash fuel) scanner (Piece.lineComment rest).1 := by
  have behind := stands.behind (by decide)
  have inside := behind.behind (by decide)
  have left := behind.left
  rw [encode_ascii (by decide)] at left
  have noLines : newlines (rest.takeWhile (· != '\n')) = 0 :=
    List.count_eq_zero.mpr fun member => by
      cases List.mem_takeWhile_imp member
  rw [Reads, slash, bind_eq (accepts_eq_true left)]
  show (skipLine >>= _) _ = _
  rw [bind_eq (skipLine_eq inside.inside), inside.left,
    takeWhile_encode (fun _ => bne_of_le (by decide)), Piece.lineComment, Piece.text,
    scanner.beyond_pair (by decide) (by decide), Scanner.beyond, noLines]
  rfl

theorem slash_blockComment (stands : scanner.Stands before ('/' :: '*' :: rest))
    (enough : scanner.left.length < fuel) :
    Reads (slash fuel) scanner (Piece.blockComment rest).1 := by
  have behind := stands.behind (by decide)
  have inside := behind.behind (by decide)
  have left := behind.left
  have other := @head?_encode_ne '/' ('*' :: rest) (by decide) (by rintro ⟨⟩)
  rw [← left] at other
  rw [encode_ascii (by decide)] at left
  have less : byteSize rest < fuel := by
    rw [byteSize, ← inside.left]
    exact less_forward (less_forward enough)
  have comment := @skipBlockComment_eq _ fuel 0 0 scanner.line [] rest inside.left rfl less
  rw [List.map_singleton, Nat.add_zero] at comment
  rw [Reads, slash, bind_eq (accepts_eq_false other)]
  show (accepts '*' >>= _) _ = _
  rw [bind_eq (accepts_eq_true left)]
  show (skipBlockComment fuel [scanner.line] >>= _) _ = _
  rw [Piece.blockComment]
  cases read : closeComment 0 [] 0 rest with
  | ok pair =>
    rw [read] at comment
    rw [bind_eq comment]
    exact congrArg _ (scanner.beyond_pair (by decide) (by decide) _).symm
  | error =>
    rw [read] at comment
    rw [bind_eq comment]
    exact congrArg _ (scanner.beyond_pair (by decide) (by decide) _).symm

/-! ## Symbols -/

theorem isAscii_of_single? (single : (Symbol.single? first).isSome) : first.toNat < 128 := by
  unfold Symbol.single? at single
  split at single <;> first | decide | cases single

theorem ne_newline_of_single? (single : (Symbol.single? first).isSome) : first ≠ '\n' := by
  rintro rfl
  cases single

/-- A slash that starts no comment is a symbol. -/
theorem slash_symbol (stands : scanner.Stands before ('/' :: rest))
    (noComment : ¬ StartsComment ('/' :: rest)) :
    Reads (slash fuel) scanner (.token (.symbol .slash) ['/']) := by
  have behind := (stands.behind (by decide)).left
  have differs {second : Char} (isAscii : second.toNat < 128)
      (starts : ∀ more, rest = second :: more → StartsComment ('/' :: rest)) :
      (scanner.forward 1 0).left.head? ≠ some second.toUInt8 := by
    rw [behind]
    exact head?_encode_ne isAscii fun found =>
      noComment (starts _ (List.eq_cons_of_mem_head? found))
  have noLine := @differs '/' (by decide) fun more same => .inl ⟨more, same ▸ rfl⟩
  have noBlock := @differs '*' (by decide) fun more same => .inr ⟨more, same ▸ rfl⟩
  rw [Reads, slash, bind_eq (accepts_eq_false noLine)]
  show (accepts '*' >>= _) _ = _
  rw [bind_eq (accepts_eq_false noBlock)]
  rfl

/-- The longest symbol is read. -/
theorem lexeme_symbol {symbol : Symbol} (stands : scanner.Stands before (first :: rest))
    (found : Symbol.next? first rest = some (symbol, text, after)) :
    Reads (lexeme fuel first) scanner (.token (.symbol symbol) text) := by
  have isSome := Symbol.isSome_single? found
  have isAscii := isAscii_of_single? isSome
  have noBreak := ne_newline_of_single? isSome
  have behind := (stands.behind isAscii).left
  rcases Option.isSome_iff_exists.mp isSome with ⟨single, isSingle⟩
  rw [Reads, lexeme, isSingle]
  unfold Symbol.next? at found
  split at found
  · next isTwo =>
    cases found
    rw [encode_ascii (by decide)] at behind
    rw [isTwo]
    show (accepts '=' >>= _) _ = _
    rw [bind_eq (accepts_eq_true behind), Piece.text,
      scanner.beyond_pair ⟨isAscii, noBreak⟩ (by decide)]
    rfl
  · next notTwo =>
    rw [isSingle] at found
    cases found
    rw [Piece.text, scanner.beyond_cons first isAscii noBreak]
    cases isTwo : Symbol.withEqual? first with
    | none => rfl
    | some double =>
      have other := @head?_encode_ne '=' _ (by decide) fun same =>
        notTwo _ _ (List.eq_cons_of_mem_head? same) isTwo
      rw [← behind] at other
      show (accepts '=' >>= _) _ = _
      rw [bind_eq (accepts_eq_false other)]
      rfl

/-! ## Characters that start no lexeme -/

/-- No character starts with a byte that goes on with another one. -/
theorem takeWhile_isContinuation (chars : List Char) :
    (encode chars).takeWhile isContinuation = [] := by
  cases chars with
  | nil => rfl
  | cons char chars =>
    have starts : ∃ byte others, String.utf8EncodeChar char = byte :: others ∧
        ¬ isContinuation byte := by
      rcases Nat.lt_or_ge char.toNat 128 with isAscii | isOther
      · refine ⟨_, [], utf8EncodeChar_of_lt isAscii, ?_⟩
        rw [isContinuation_iff, ← toNat_ofUInt8, ofUInt8_toUInt8 isAscii]
        omega
      · rcases utf8EncodeChar_of_le isOther with ⟨byte, others, same, large, -⟩
        refine ⟨byte, others, same, ?_⟩
        rw [isContinuation_iff]
        omega
    rcases starts with ⟨byte, others, same, other⟩
    rw [encode_cons, same, List.cons_append, List.takeWhile_cons_of_neg other]

/-- A character is read to its last byte. -/
theorem skipContinuations_eq (stands : scanner.Stands before (first :: rest))
    (noBreak : first ≠ '\n') (enough : scanner.left.length < fuel) {byte : UInt8}
    {others : List UInt8} (same : String.utf8EncodeChar first = byte :: others) :
    skipContinuations fuel (.ofUInt8 byte) (scanner.forward 1 0) =
      .ok () (scanner.beyond [first]) := by
  have left := stands.left
  rw [encode_cons, same, List.cons_append] at left
  have size : byteSize [first] = 1 + others.length := by
    rw [byteSize, encode_cons, encode_nil, List.append_nil, same, List.length_cons, Nat.add_comm]
  rw [Scanner.beyond, newlines_singleton noBreak, size, skipContinuations, toNat_ofUInt8]
  rcases Nat.lt_or_ge first.toNat 128 with isAscii | isOther
  · rw [utf8EncodeChar_of_lt isAscii] at same
    cases same
    rw [← toNat_ofUInt8, ofUInt8_toUInt8 isAscii, if_neg (Nat.not_le.mpr isAscii)]
    rfl
  · rcases utf8EncodeChar_of_le isOther with ⟨byte', others', same', large, continues⟩
    cases same.symm.trans same'
    have looks (scanner : Scanner) :
        (do return !(← atEnd) && isContinuation (← peek 0) : Scan Bool) scanner =
          .ok (scanner.left.head?.any isContinuation) scanner := by
      rw [bind_eq atEnd_eq, bind_eq (peek_eq 0)]
      cases scanner.left <;> rfl
    have inside : ∀ byte ∈ others, isContinuation byte :=
      fun byte member => (isContinuation_iff byte).mpr (continues byte member)
    rw [if_pos (by omega), skipWhile_skip_eq looks (less_forward enough),
      Scanner.left_behind left, List.takeWhile_append_of_pos inside, takeWhile_isContinuation,
      List.append_nil, Scanner.forward_forward]

theorem unexpectedCharacter_eq (stands : scanner.Stands before (first :: rest))
    (starts : scanner.start = scanner.curr) (noBreak : first ≠ '\n')
    (enough : scanner.left.length < fuel) {byte : UInt8} {others : List UInt8}
    (same : String.utf8EncodeChar first = byte :: others) :
    unexpectedCharacter fuel (.ofUInt8 byte) (scanner.forward 1 0) =
      .ok ⟨scanner.line, .unexpectedCharacter⟩ (scanner.beyond [first]) := by
  have whole := @Scanner.Stands.beyond _ _ [first] _ stands
  have slice := whole.slice (starts.trans stands.curr) whole.curr
  have line : (scanner.beyond [first]).line = scanner.line := by
    rw [Scanner.beyond, Scanner.line_forward, newlines_singleton noBreak, Nat.add_zero]
  rw [unexpectedCharacter, bind_eq (skipContinuations_eq stands noBreak enough same)]
  show (Bytes.slice scanner.start _ >>= _) _ = _
  rw [bind_eq slice, line]
  rfl

/-- A character that starts no lexeme. -/
structure IsStray (char : Char) : Prop where
  noBlank : ¬ isBlank char
  noDigit : ¬ char.isDigit
  noWord : ¬ isWordStart char
  noQuote : char ≠ '"'
  noSymbol : Symbol.single? char = none

namespace IsStray

theorem of_le (isOther : 128 ≤ first.toNat) : IsStray first where
  noBlank := by
    rw [isBlank, beq_of_le (by decide) isOther, beq_of_le (by decide) isOther,
      beq_of_le (by decide) isOther, beq_of_le (by decide) isOther]
    decide
  noDigit isDigit := Nat.not_lt.mpr isOther (isAscii_of_isDigit isDigit)
  noWord isWord := Nat.not_lt.mpr isOther (isAscii_of_isWordStart isWord)
  noQuote := beq_eq_false_iff_ne.mp (beq_of_le (by decide) isOther)
  noSymbol := by
    by_contra isSome
    exact Nat.not_lt.mpr isOther (isAscii_of_single? (Option.isSome_iff_ne_none.mpr isSome))

theorem noBreak (isStray : IsStray first) : first ≠ '\n' := by
  rintro rfl
  exact isStray.noBlank rfl

theorem next_eq (isStray : IsStray first) :
    Piece.next first rest = (.fault .unexpectedCharacter 0 [first], rest) := by
  have noSymbol := isStray.noSymbol
  rw [Piece.next.eq_def, if_neg isStray.noBlank, if_neg isStray.noDigit, if_neg isStray.noWord]
  split
  · exact (isStray.noQuote rfl).elim
  · cases noSymbol
  · cases noSymbol
  · split
    · next found =>
      have isSome := Symbol.isSome_single? found
      rw [noSymbol] at isSome
      cases isSome
    · rfl

end IsStray

/-- A character that starts no lexeme, nor does its first byte, is read whole. -/
theorem lexeme_stray (stands : scanner.Stands before (first :: rest))
    (starts : scanner.start = scanner.curr) (enough : scanner.left.length < fuel)
    {byte : UInt8} {others : List UInt8} (same : String.utf8EncodeChar first = byte :: others)
    (isStray : IsStray first) (isStray' : IsStray (.ofUInt8 byte)) :
    Reads (lexeme fuel (.ofUInt8 byte)) scanner (.fault .unexpectedCharacter 0 [first]) := by
  rw [Reads, lexeme, isStray'.noSymbol, if_neg isStray'.noDigit, if_neg isStray'.noWord]
  show (unexpectedCharacter fuel _ >>= _) _ = _
  rw [bind_eq (unexpectedCharacter_eq stands starts isStray.noBreak enough same)]
  rfl

/-! ## Numerals and words -/

theorem lexeme_number (stands : scanner.Stands before (first :: rest))
    (starts : scanner.start = scanner.curr) (isDigit : first.isDigit)
    (enough : scanner.left.length < fuel) :
    Reads (lexeme fuel first) scanner (Piece.next first rest).1 := by
  have noSymbol : Symbol.single? first = none := by
    by_contra isSome
    rw [(Symbol.isAlone_of_single? (Option.isSome_iff_ne_none.mpr isSome)).2.2.1] at isDigit
    cases isDigit
  rw [Reads, lexeme, noSymbol, if_pos isDigit, Piece.next_number isDigit rfl]
  show (number fuel >>= _) _ = _
  rw [bind_eq (number_eq stands starts isDigit enough)]
  rfl

theorem lexeme_word (stands : scanner.Stands before (first :: rest))
    (starts : scanner.start = scanner.curr) (isWord : isWordStart first)
    (enough : scanner.left.length < fuel) :
    Reads (lexeme fuel first) scanner (Piece.next first rest).1 := by
  have noDigit : ¬ first.isDigit := Bool.eq_false_iff.mp (not_isDigit_of_isWordStart isWord)
  have noSymbol : Symbol.single? first = none := by
    by_contra isSome
    rw [(Symbol.isAlone_of_single? (Option.isSome_iff_ne_none.mpr isSome)).2.1] at isWord
    cases isWord
  have read := @Piece.next_word first _ isWord (rest.takeWhile isWordRest)
    (forall_mem_takeWhile isWordRest rest) (stops_dropWhile isWordRest rest)
  rw [List.takeWhile_append_dropWhile] at read
  rw [Reads, lexeme, noSymbol, if_neg noDigit, if_pos isWord, read]
  show (identifier fuel >>= _) _ = _
  rw [bind_eq (identifier_eq stands starts isWord enough)]
  rfl

/-! ## All pieces -/

theorem scanBehind_blank (isBlank : isBlank first) :
    Reads (scanBehind fuel first) scanner (.blank [first]) := by
  rcases isBlank_cases isBlank with rfl | rfl | rfl | rfl <;> rfl

theorem scanBehind_slash (stands : scanner.Stands before ('/' :: rest))
    (enough : scanner.left.length < fuel) :
    Reads (scanBehind fuel '/') scanner (Piece.next '/' rest).1 := by
  by_cases starts : StartsComment ('/' :: rest)
  · rcases starts with ⟨more, same⟩ | ⟨more, same⟩
    · cases same
      exact slash_lineComment stands
    · cases same
      exact slash_blockComment stands enough
  · have noTwo : Symbol.next? '/' rest = some (.slash, ['/'], rest) := by
      rw [Symbol.next?.eq_def]
      split
      · next isTwo => cases isTwo
      · rfl
    rw [Piece.next_symbol noTwo starts]
    exact slash_symbol stands starts

theorem scanBehind_string (stands : scanner.Stands before ('"' :: rest))
    (starts : scanner.start = scanner.curr) (enough : scanner.left.length < fuel) :
    Reads (scanBehind fuel '"') scanner (Piece.next '"' rest).1 := by
  have read := string_eq stands starts enough
  have first : Piece.next '"' rest = Piece.string rest := rfl
  rw [first]
  show (string fuel >>= _) _ = _
  rw [bind_eq read, Piece.string]
  cases rest.dropWhile (· != '"') <;> rfl

theorem scanBehind_other (noBlank : ¬ isBlank first) (noSlash : first ≠ '/')
    (noQuote : first ≠ '"') : scanBehind fuel first = lexeme fuel first := by
  have differs {char : Char} (blank : isBlank char) : first ≠ char := by
    rintro rfl
    exact noBlank blank
  rw [scanBehind]
  · exact differs rfl
  · exact differs rfl
  · exact differs rfl
  · exact differs rfl
  · exact noSlash
  · exact noQuote

/-- The first piece is read. -/
theorem scanToken_eq (stands : scanner.Stands before (first :: rest))
    (starts : scanner.start = scanner.curr) (enough : scanner.left.length < fuel) :
    scanToken fuel scanner = .ok (outcome scanner.line (Piece.next first rest).1)
      (scanner.beyond (Piece.next first rest).1.text) := by
  rcases List.exists_cons_of_ne_nil (utf8EncodeChar_ne_nil first) with ⟨byte, others, same⟩
  have left := stands.left
  rw [encode_cons, same, List.cons_append] at left
  rw [scanToken, bind_eq (advance_eq left)]
  show Reads (scanBehind fuel (.ofUInt8 byte)) scanner _
  -- From 128 on, neither the character nor its first byte, taken for a character, starts a lexeme.
  have stray (isStray : IsStray first) (isStray' : IsStray (.ofUInt8 byte)) :
      Reads (scanBehind fuel (.ofUInt8 byte)) scanner (Piece.next first rest).1 := by
    have noSlash : Char.ofUInt8 byte ≠ '/' := by
      intro isSlash
      have noSymbol := isStray'.noSymbol
      rw [isSlash] at noSymbol
      cases noSymbol
    rw [isStray.next_eq, scanBehind_other isStray'.noBlank noSlash isStray'.noQuote]
    exact lexeme_stray stands starts enough same isStray isStray'
  rcases Nat.lt_or_ge first.toNat 128 with isAscii | isOther
  · have isByte : Char.ofUInt8 byte = first := by
      rw [utf8EncodeChar_of_lt isAscii] at same
      cases same
      exact ofUInt8_toUInt8 isAscii
    rw [isByte] at stray ⊢
    by_cases blank : isBlank first
    · rw [Piece.next.eq_def, if_pos blank]
      exact scanBehind_blank blank
    by_cases isSlash : first = '/'
    · subst isSlash
      exact scanBehind_slash stands enough
    by_cases isQuote : first = '"'
    · subst isQuote
      exact scanBehind_string stands starts enough
    by_cases isDigit : first.isDigit
    · rw [scanBehind_other blank isSlash isQuote]
      exact lexeme_number stands starts isDigit enough
    by_cases isWord : isWordStart first
    · rw [scanBehind_other blank isSlash isQuote]
      exact lexeme_word stands starts isWord enough
    cases found : Symbol.next? first rest with
    | some read =>
      rw [scanBehind_other blank isSlash isQuote,
        Piece.next_symbol found (Piece.not_startsComment isSlash)]
      exact lexeme_symbol stands found
    | none =>
      have noSymbol := Symbol.single?_of_next?_eq_none found
      have isStray : IsStray first := ⟨blank, isDigit, isWord, isQuote, noSymbol⟩
      exact stray isStray isStray
  · refine stray (.of_le isOther) (.of_le ?_)
    rcases utf8EncodeChar_of_le isOther with ⟨byte', others', same', large, -⟩
    cases same.symm.trans same'
    rw [toNat_ofUInt8]
    omega

end Lox.Bytes
