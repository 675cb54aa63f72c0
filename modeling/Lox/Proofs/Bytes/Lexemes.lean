import Lox.Proofs.Bytes.Steps
import Lox.Proofs.Source.Delimited
import Lox.Proofs.Source.LineNumber
import Lox.Proofs.Source.Replacing

/-!
# Lexemes read by bytes

In front of a text the scanner over bytes reads its first piece: `scanToken_eq`.
-/

namespace Lox.Bytes

/-! ## Characters that are left -/

/-- The scanner is between two parts of its text. -/
structure Scanner.Stands (scanner : Scanner) (before after : List Char) : Prop where
  text : scanner.text.toList = before ++ after
  curr : scanner.curr = byteSize before

/-- Behind a text. -/
def Scanner.beyond (scanner : Scanner) (text : List Char) : Scanner :=
  scanner.forward (byteSize text) (newlines text)

namespace Scanner.Stands

variable {scanner : Scanner} {before middle after : List Char}

theorem left (stands : scanner.Stands before after) : scanner.left = encode after := by
  rw [Scanner.left, bytes_eq_encode, stands.text, stands.curr, encode_append, byteSize,
    List.drop_left]

theorem forward (stands : scanner.Stands before (middle ++ after)) (lines : Nat) :
    (scanner.forward (byteSize middle) lines).Stands (before ++ middle) after where
  text := stands.text.trans (List.append_assoc _ _ _).symm
  curr := by
    rw [curr_forward, stands.curr, byteSize_append]

theorem beyond (stands : scanner.Stands before (middle ++ after)) :
    (scanner.beyond middle).Stands (before ++ middle) after :=
  stands.forward _

theorem inside (stands : scanner.Stands before after) :
    scanner.curr ≤ (bytes scanner.text).length := by
  rw [bytes_eq_encode, stands.text, stands.curr, encode_append, List.length_append]
  exact Nat.le_add_right _ _

/-- The text that was read is taken. -/
theorem slice (stands : scanner.Stands (before ++ middle) after) {first last : Nat}
    (starts : first = byteSize before) (ends : last = byteSize (before ++ middle)) :
    Bytes.slice first last scanner = .ok (.ofList middle) scanner := by
  rw [starts, ends]
  exact slice_eq stands.text

theorem bytesBetween (stands : scanner.Stands (before ++ middle) after) {first last : Nat}
    (starts : first = byteSize before) (ends : last = byteSize (before ++ middle)) :
    Bytes.bytesBetween first last scanner = .ok (encode middle) scanner := by
  have whole := bytes_eq_encode scanner.text
  rw [stands.text, encode_append, encode_append] at whole
  have ordered : first ≤ last := by
    rw [starts, ends, byteSize_append]
    exact Nat.le_add_right _ _
  rw [bytesBetween_eq ordered (ends.trans stands.curr.symm ▸ stands.inside), whole, starts, ends,
    byteSize_append, Nat.add_sub_cancel_left, byteSize, byteSize, List.append_assoc,
    List.drop_left, List.take_left]

end Scanner.Stands

/-! ## Characters below 128 -/

section

variable {char expected : Char} {rest : List Char}

theorem encode_ascii (isAscii : char.toNat < 128) :
    encode (char :: rest) = char.toUInt8 :: encode rest := by
  rw [encode_cons, utf8EncodeChar_of_lt isAscii]
  rfl

theorem byteSize_singleton (isAscii : char.toNat < 128) : byteSize [char] = 1 := by
  rw [byteSize, encode_ascii isAscii]
  rfl

theorem newlines_singleton (noBreak : char ≠ '\n') : newlines [char] = 0 :=
  List.count_singleton.trans (if_neg (by simpa using noBreak))

theorem byteSize_ascii (isAscii : char.toNat < 128) :
    byteSize (char :: rest) = byteSize rest + 1 := by
  rw [byteSize, encode_ascii isAscii]
  rfl

theorem beq_of_le (isAscii : expected.toNat < 128) (isOther : 128 ≤ char.toNat) :
    (char == expected) = false := by
  rw [beq_eq_false_iff_ne]
  rintro rfl
  omega

theorem bne_of_le (isAscii : expected.toNat < 128) (isOther : 128 ≤ char.toNat) :
    (char != expected) = true := by
  rw [bne, beq_of_le isAscii isOther]
  rfl

theorem isWordRest_of_le (isOther : 128 ≤ char.toNat) : isWordRest char = false := by
  have size : char.toNat = char.val.toNat := rfl
  have noUnderscore : (char == '_') = false := beq_of_le (by decide) isOther
  simp only [isWordRest, Char.isAlphanum, Char.isAlpha, Char.isUpper, Char.isLower, Char.isDigit,
    noUnderscore, Bool.or_false, Bool.or_eq_false_iff,
    Bool.and_eq_false_iff, decide_eq_false_iff_not, ge_iff_le, UInt32.le_iff_toNat_le]
  have : 'Z'.val.toNat = 90 := rfl
  have : 'z'.val.toNat = 122 := rfl
  have : '9'.val.toNat = 57 := rfl
  omega

theorem isDigit_of_le (isOther : 128 ≤ char.toNat) : char.isDigit = false :=
  (Bool.or_eq_false_iff.mp (Bool.or_eq_false_iff.mp (isWordRest_of_le isOther)).1).2

theorem isAscii_of_isWordStart (isWord : isWordStart char) : char.toNat < 128 := by
  by_contra isOther
  have goesOn := isWordRest_of_isWordStart isWord
  rw [isWordRest_of_le (Nat.le_of_not_lt isOther)] at goesOn
  cases goesOn

theorem isAscii_of_isDigit (isDigit : char.isDigit) : char.toNat < 128 := by
  by_contra isOther
  rw [isDigit_of_le (Nat.le_of_not_lt isOther)] at isDigit
  cases isDigit

/-- The first byte that is left is not that of another character. -/
theorem head?_encode_ne {chars : List Char} (isAscii : expected.toNat < 128)
    (other : chars.head? ≠ some expected) : (encode chars).head? ≠ some expected.toUInt8 := by
  cases chars with
  | nil => exact fun impossible => by cases impossible
  | cons char rest =>
    intro same
    rcases List.exists_cons_of_ne_nil (utf8EncodeChar_ne_nil char) with ⟨first, others, starts⟩
    have tests := holds_of_mem_utf8EncodeChar (fun _ => beq_of_le isAscii) char first
      (starts ▸ List.mem_cons_self)
    rw [encode_cons, starts, List.cons_append, List.head?_cons, Option.some.injEq] at same
    rw [same, ofUInt8_toUInt8 isAscii, beq_self_eq_true] at tests
    exact other (congrArg some (beq_iff_eq.mp tests.symm))

/-- A test of the first byte is a test of the first character. -/
theorem test_head {holds : Char → Bool}
    (uniform : ∀ char : Char, 128 ≤ char.toNat → holds char = false)
    (zero : holds (Char.ofUInt8 0) = false) (chars : List Char) :
    holds (Char.ofUInt8 ((encode chars)[0]?.getD 0)) = chars.head?.any holds := by
  cases chars with
  | nil => exact zero
  | cons char rest =>
    rcases List.exists_cons_of_ne_nil (utf8EncodeChar_ne_nil char) with ⟨first, others, starts⟩
    rw [encode_cons, starts]
    exact holds_of_mem_utf8EncodeChar uniform char first (starts ▸ List.mem_cons_self)

end

variable {scanner : Scanner} {before rest : List Char} {first : Char} {fuel : Nat}

theorem less_forward (enough : scanner.left.length < fuel) {count lines : Nat} :
    (scanner.forward count lines).left.length < fuel := by
  rw [Scanner.left_forward, List.length_drop]
  omega

/-- Behind a character below 128. -/
theorem Scanner.Stands.behind (stands : scanner.Stands before (first :: rest))
    (isAscii : first.toNat < 128) :
    (scanner.forward 1 0).Stands (before ++ [first]) rest := by
  have moved : (scanner.forward (byteSize [first]) 0).Stands (before ++ [first]) rest :=
    Scanner.Stands.forward stands 0
  rwa [byteSize_singleton isAscii] at moved

theorem Scanner.beyond_append (scanner : Scanner) (first second : List Char) :
    scanner.beyond (first ++ second) = (scanner.beyond first).beyond second := by
  rw [beyond, beyond, beyond, forward_forward, byteSize_append, newlines_append]

theorem Scanner.beyond_cons (scanner : Scanner) (first : Char) (isAscii : first.toNat < 128)
    (noBreak : first ≠ '\n') (text : List Char) :
    scanner.beyond (first :: text) = (scanner.forward 1 0).beyond text := by
  rw [← List.singleton_append, beyond_append]
  show (scanner.forward (byteSize [first]) (newlines [first])).beyond text = _
  rw [byteSize_singleton isAscii, newlines_singleton noBreak]

theorem Scanner.beyond_pair (scanner : Scanner) {first second : Char}
    (plain : first.toNat < 128 ∧ first ≠ '\n') (plain' : second.toNat < 128 ∧ second ≠ '\n')
    (text : List Char) :
    scanner.beyond (first :: second :: text) =
      ((scanner.forward 1 0).forward 1 0).beyond text := by
  rw [scanner.beyond_cons _ plain.1 plain.2, Scanner.beyond_cons _ _ plain'.1 plain'.2]

/-! ## Numerals and words -/

/-- Characters of a class are read. -/
theorem skipClass_eq {holds : Char → Bool}
    (uniform : ∀ char : Char, 128 ≤ char.toNat → holds char = false)
    (zero : holds (Char.ofUInt8 0) = false) {chars : List Char} (left : scanner.left = encode chars)
    (enough : scanner.left.length < fuel) :
    skipWhile (do return holds (Char.ofUInt8 (← peek 0))) skip fuel scanner =
      .ok () (scanner.forward (byteSize (chars.takeWhile holds)) 0) := by
  have looks (scanner : Scanner) : (do return holds (Char.ofUInt8 (← peek 0)) : Scan Bool) scanner =
      .ok (scanner.left.head?.any fun byte => holds (Char.ofUInt8 byte)) scanner := by
    rw [bind_eq (peek_eq 0)]
    cases scanner.left with
    | nil => exact congrArg (EStateM.Result.ok · scanner) zero
    | cons => rfl
  rw [skipWhile_skip_eq looks enough, left, takeWhile_encode uniform]
  rfl

theorem skipDigits_eq {chars : List Char} (left : scanner.left = encode chars)
    (enough : scanner.left.length < fuel) :
    skipDigits fuel scanner =
      .ok () (scanner.forward (byteSize (chars.takeWhile Char.isDigit)) 0) :=
  skipClass_eq (fun _ => isDigit_of_le) rfl left enough

/-- A point is read only in front of a digit, with the digits behind it. -/
theorem skipFraction_eq {chars : List Char} (left : scanner.left = encode chars)
    (enough : scanner.left.length < fuel) :
    skipFraction fuel scanner = .ok () (scanner.forward
      (byteSize (Numeral.fractionText (Numeral.nextFraction chars).1)) 0) := by
  rw [skipFraction, bind_eq (peek_eq 0), bind_eq (peek_eq 1), left,
    test_head (fun _ => beq_of_le (by decide)) rfl]
  cases chars with
  | nil => rfl
  | cons char others =>
    rw [List.head?_cons, Option.any_some]
    by_cases isPoint : char = '.'
    · subst isPoint
      rw [encode_ascii (by decide)] at left ⊢
      rw [List.getElem?_cons_succ, test_head (fun _ => isDigit_of_le) rfl]
      cases others with
      | nil => rfl
      | cons digit more =>
        rw [List.head?_cons, Option.any_some, beq_self_eq_true, Bool.true_and, Numeral.nextFraction]
        have behind := Scanner.left_behind left 0
        split
        · next isDigit =>
          rw [bind_eq (advance_eq left), skipDigits_eq behind (less_forward enough),
            Scanner.forward_forward, List.takeWhile_cons_of_pos isDigit, Numeral.fractionText,
            ← byteSize_singleton, ← byteSize_append]
          · rfl
          · decide
          · exact List.cons_ne_nil _ _
        · rfl
    · rw [beq_eq_false_iff_ne.mpr isPoint, Bool.false_and, Numeral.nextFraction]
      · rfl
      · exact fun _ _ same => isPoint (List.cons.inj same).1

/-- A numeral is read again. -/
theorem next_text_next (chars : List Char) :
    (Numeral.next (Numeral.next chars).1.text).1 = (Numeral.next chars).1 := by
  have stops : Stops Char.isDigit [] := fun _ impossible => by cases impossible
  have again := @Numeral.next_text_append [] (Numeral.next chars).1
    (forall_mem_takeWhile Char.isDigit chars) (Numeral.isDigit_nextFraction _) stops fun _ => rfl
  rw [List.append_nil] at again
  rw [again]

theorem number_eq (stands : scanner.Stands before (first :: rest))
    (starts : scanner.start = scanner.curr) (isDigit : first.isDigit)
    (enough : scanner.left.length < fuel) :
    number fuel (scanner.forward 1 0) =
      .ok (.number (Numeral.next (first :: rest)).1.value)
        (scanner.beyond (Numeral.next (first :: rest)).1.text) := by
  have isAscii := isAscii_of_isDigit isDigit
  have text : (Numeral.next (first :: rest)).1.text = [first] ++ rest.takeWhile Char.isDigit ++
      Numeral.fractionText (Numeral.nextFraction (rest.dropWhile Char.isDigit)).1 := by
    rw [Numeral.next, Numeral.text, List.takeWhile_cons_of_pos isDigit,
      List.dropWhile_cons_of_pos isDigit, List.singleton_append]
  have behind := stands.behind isAscii
  have digits := behind
  rw [← List.takeWhile_append_dropWhile (p := Char.isDigit) (l := rest)] at digits
  have noLines := (Numeral.isSpelt_next isDigit rest).newlines_eq_zero fun _ impossible => by
    cases impossible
  have last : ((scanner.forward 1 0).forward (byteSize (rest.takeWhile Char.isDigit)) 0).forward
      (byteSize (Numeral.fractionText (Numeral.nextFraction (rest.dropWhile Char.isDigit)).1)) 0 =
        scanner.beyond (Numeral.next (first :: rest)).1.text := by
    rw [Scanner.beyond, noLines, text, byteSize_append, byteSize_append,
      byteSize_singleton isAscii, Scanner.forward_forward, Scanner.forward_forward,
      Nat.add_assoc]
  have whole := stands
  rw [← Numeral.text_next_append (first :: rest)] at whole
  have slice := whole.beyond.slice (starts.trans stands.curr) whole.beyond.curr
  rw [number, bind_eq (skipDigits_eq behind.left (less_forward enough)),
    bind_eq (skipFraction_eq (digits.forward 0).left (less_forward (less_forward enough))), last]
  show (Bytes.slice scanner.start _ >>= _) _ = _
  rw [bind_eq slice, String.toList_ofList, next_text_next]
  rfl

/-- A reserved word is found by its bytes. -/
theorem find?_bytes (word : List Char) :
    Keyword.all.find? (bytes ·.text == encode word) = Keyword.ofText? (.ofList word) := by
  rw [Keyword.ofText?]
  congr 1
  funext keyword
  have same : bytes (.ofList word) = encode word := by
    rw [bytes_eq_encode, String.toList_ofList]
  rw [Bool.eq_iff_iff, beq_iff_eq, beq_iff_eq, ← same, bytes_inj]

theorem identifier_eq (stands : scanner.Stands before (first :: rest))
    (starts : scanner.start = scanner.curr) (isWord : isWordStart first)
    (enough : scanner.left.length < fuel) :
    identifier fuel (scanner.forward 1 0) =
      .ok (Piece.wordKind (first :: rest.takeWhile isWordRest))
        (scanner.beyond (first :: rest.takeWhile isWordRest)) := by
  have isAscii := isAscii_of_isWordStart isWord
  have noLines : newlines (first :: rest.takeWhile isWordRest) = 0 :=
    newlines_word isWord fun _ => List.mem_takeWhile_imp
  have last : (scanner.forward 1 0).forward (byteSize (rest.takeWhile isWordRest)) 0 =
      scanner.beyond (first :: rest.takeWhile isWordRest) := by
    rw [Scanner.beyond, noLines, ← List.singleton_append, byteSize_append,
      byteSize_singleton isAscii, Scanner.forward_forward]
  have whole : scanner.Stands before
      (first :: rest.takeWhile isWordRest ++ rest.dropWhile isWordRest) := by
    rw [List.cons_append, List.takeWhile_append_dropWhile]
    exact stands
  have word := whole.beyond.bytesBetween (starts.trans stands.curr) whole.beyond.curr
  have behind := stands.behind isAscii
  rw [identifier, bind_eq (skipClass_eq (fun _ => isWordRest_of_le) rfl behind.left
    (less_forward enough)), last]
  show (Bytes.bytesBetween scanner.start _ >>= _) _ = _
  rw [bind_eq word, find?_bytes, Piece.wordKind]
  cases Keyword.ofText? (.ofList (first :: rest.takeWhile isWordRest)) <;> rfl

/-! ## Strings -/

/-- A string is read up to its closing quote, or to the end of the input. -/
theorem skipContents_eq {chars : List Char} (left : scanner.left = encode chars)
    (enough : scanner.left.length < fuel) :
    skipWhile (do return !(← atEnd) && Char.ofUInt8 (← peek 0) != '"') skipCounting fuel scanner =
      .ok () (scanner.beyond (chars.takeWhile (· != '"'))) := by
  have looks (scanner : Scanner) :
      (do return !(← atEnd) && Char.ofUInt8 (← peek 0) != '"' : Scan Bool) scanner =
        .ok (scanner.left.head?.any fun byte => Char.ofUInt8 byte != '"') scanner := by
    rw [bind_eq atEnd_eq, bind_eq (peek_eq 0)]
    cases scanner.left <;> rfl
  rw [skipWhile_eq looks (fun _ _ _ => skipCounting_eq) enough, left,
    takeWhile_encode (fun _ => bne_of_le (by decide)), countP_encode]
  rfl

theorem string_eq (stands : scanner.Stands before ('"' :: rest))
    (starts : scanner.start = scanner.curr) (enough : scanner.left.length < fuel) :
    string fuel (scanner.forward 1 0) =
      .ok (match (Piece.string rest).1 with
        | .token kind _ => .ok kind
        | _ => .error ⟨scanner.line + newlines rest, .unterminatedString⟩)
        (scanner.beyond (Piece.string rest).1.text) := by
  have behind := stands.behind (by decide)
  rw [string, bind_eq (skipContents_eq behind.left (less_forward enough))]
  by_cases member : '"' ∈ rest
  · rcases List.eq_append_cons_of_mem member with ⟨contents, after, rfl, noQuote⟩
    have inside := forall_bne_of_not_mem noQuote
    have atQuote := behind.beyond
    have left := atQuote.left
    rw [encode_ascii (by decide)] at left
    have last : ((scanner.forward 1 0).beyond contents).forward 1 0 =
        scanner.beyond ('"' :: contents ++ ['"']) := by
      rw [Scanner.beyond_append, scanner.beyond_cons '"' (by decide) (by decide),
        Scanner.beyond_cons _ '"' (by decide) (by decide)]
      rfl
    have first : byteSize (before ++ ['"']) = scanner.start + 1 := by
      rw [starts, stands.curr, byteSize_append, byteSize_singleton (by decide)]
    have final : byteSize (before ++ ['"'] ++ contents) =
        (((scanner.forward 1 0).beyond contents).forward 1 0).curr - 1 :=
      atQuote.curr.symm
    have slice := @slice_eq (((scanner.forward 1 0).beyond contents).forward 1 0) _ _ _
      atQuote.text
    rw [first, final] at slice
    rw [List.takeWhile_append_of_pos inside, List.takeWhile_cons_of_neg (by decide),
      List.append_nil, bind_eq atEnd_eq, left, List.isEmpty_cons, if_neg (by decide),
      bind_eq (advance_eq left)]
    show (Bytes.slice (scanner.start + 1) _ >>= _) _ = _
    rw [bind_eq slice, Piece.string_of_closed noQuote, last]
    rfl
  · have all : rest.takeWhile (· != '"') = rest :=
      List.takeWhile_eq_self_iff.mpr (forall_bne_of_not_mem member)
    have atEnd := behind
    rw [← List.append_nil rest] at atEnd
    rw [all, bind_eq atEnd_eq, atEnd.beyond.left, Piece.string_of_open member,
      ← scanner.beyond_cons '"' (by decide) (by decide)]
    rfl

/-! ## Comments -/

section

variable {byte : UInt8} {more : List UInt8} {openLines : List Nat}

/-- While a marker is open, the comment goes on. -/
theorem skipBlockComment_succ (here : scanner.left = byte :: more) {innermost : Nat}
    {others : List Nat} {next : Scanner} (behind : skipMarker openLines (.ofUInt8 byte)
      (scanner.forward 1 0) = .ok (innermost :: others) next) :
    skipBlockComment (fuel + 1) openLines scanner =
      skipBlockComment fuel (innermost :: others) next := by
  rw [skipBlockComment, bind_eq atEnd_eq, here]
  show (advance >>= _) _ = _
  rw [bind_eq (advance_eq here), bind_eq behind]
  rfl

/-- When no marker is open any more, the comment is read. -/
theorem skipBlockComment_last (here : scanner.left = byte :: more) {next : Scanner}
    (behind : skipMarker openLines (.ofUInt8 byte) (scanner.forward 1 0) = .ok [] next) :
    skipBlockComment (fuel + 1) openLines scanner = .ok (.ok ()) next := by
  rw [skipBlockComment, bind_eq atEnd_eq, here]
  show (advance >>= _) _ = _
  rw [bind_eq (advance_eq here), bind_eq behind]
  rfl

theorem skipMarker_closing (here : scanner.left = '/'.toUInt8 :: more) :
    skipMarker openLines '*' scanner = .ok openLines.tail (scanner.forward 1 0) := by
  rw [skipMarker, bind_eq (accepts_eq_true here)]
  rfl

theorem skipMarker_opening (here : scanner.left = '*'.toUInt8 :: more) :
    skipMarker openLines '/' scanner = .ok (scanner.line :: openLines) (scanner.forward 1 0) := by
  rw [skipMarker, bind_eq (accepts_eq_true here)]
  rfl

/-- A character that starts no marker leaves them open. -/
theorem skipMarker_other {char : Char} (noBreak : char ≠ '\n')
    (noClosing : char = '*' → scanner.left.head? ≠ some '/'.toUInt8)
    (noOpening : char = '/' → scanner.left.head? ≠ some '*'.toUInt8) :
    skipMarker openLines char scanner = .ok openLines scanner := by
  by_cases isStar : char = '*'
  · rw [isStar, skipMarker, bind_eq (accepts_eq_false (noClosing isStar))]
    rfl
  by_cases isSlash : char = '/'
  · rw [isSlash, skipMarker, bind_eq (accepts_eq_false (noOpening isSlash))]
    rfl
  rw [skipMarker]
  · rfl
  · exact noBreak
  · exact isStar
  · exact isSlash

/-- The bytes of characters from 128 on are read one by one. -/
theorem skipBlockComment_others {innermost : Nat} {outer : List Nat} {others : List UInt8}
    (here : scanner.left = others ++ more) (large : ∀ byte ∈ others, 128 ≤ byte.toNat) :
    skipBlockComment (fuel + others.length) (innermost :: outer) scanner =
      skipBlockComment fuel (innermost :: outer) (scanner.forward others.length 0) := by
  induction others generalizing scanner with
  | nil => rfl
  | cons byte others induction =>
    rcases List.forall_mem_cons.mp large with ⟨first, large⟩
    have differs (char : Char) (isAscii : char.toNat < 128) : Char.ofUInt8 byte ≠ char := by
      rintro rfl
      rw [toNat_ofUInt8] at isAscii
      omega
    have behind := Scanner.left_behind here 0
    rw [List.length_cons, ← Nat.add_assoc, skipBlockComment_succ here (skipMarker_other
      (differs _ (by decide)) (fun same => (differs _ (by decide) same).elim)
      fun same => (differs _ (by decide) same).elim),
      induction behind large, Scanner.forward_forward, Nat.add_comm 1]

end

/-- A character that starts no marker is read. -/
theorem skipBlockComment_char {innermost : Nat} {outer : List Nat} {char : Char}
    {chars : List Char} (left : scanner.left = encode (char :: chars))
    (noClosing : char = '*' → chars.head? ≠ some '/')
    (noOpening : char = '/' → chars.head? ≠ some '*') :
    skipBlockComment (fuel + byteSize [char]) (innermost :: outer) scanner =
      skipBlockComment fuel (innermost :: outer) (scanner.beyond [char]) := by
  rw [Scanner.beyond]
  rcases Nat.lt_or_ge char.toNat 128 with isAscii | isOther
  · rw [encode_ascii isAscii] at left
    have behind := Scanner.left_behind left 0
    rw [byteSize_singleton isAscii]
    by_cases isBreak : char = '\n'
    · subst isBreak
      exact skipBlockComment_succ left rfl
    · rw [newlines_singleton isBreak]
      apply skipBlockComment_succ left
      rw [ofUInt8_toUInt8 isAscii]
      refine skipMarker_other isBreak (fun same => ?_) fun same => ?_
      · exact behind ▸ head?_encode_ne (by decide) (noClosing same)
      · exact behind ▸ head?_encode_ne (by decide) (noOpening same)
  · have noLines := newlines_singleton (beq_eq_false_iff_ne.mp (beq_of_le (by decide) isOther))
    have large : ∀ byte ∈ String.utf8EncodeChar char, 128 ≤ byte.toNat := by
      rcases utf8EncodeChar_of_le isOther with ⟨first, others, same, large, rest⟩
      rw [same]
      refine List.forall_mem_cons.mpr ⟨by omega, fun byte member => (rest byte member).1⟩
    have alone : byteSize [char] = (String.utf8EncodeChar char).length := by
      rw [byteSize, encode_cons, encode_nil, List.append_nil]
    rw [noLines, alone]
    exact skipBlockComment_others left large

/-- A block comment is read as far as it goes, and its line breaks are counted. -/
theorem skipBlockComment_eq {innermost count line : Nat} {others : List Nat} {chars : List Char}
    (left : scanner.left = encode chars) (counted : scanner.line = line + count)
    (enough : byteSize chars < fuel) :
    skipBlockComment fuel ((innermost :: others).map (line + ·)) scanner =
      match closeComment innermost others count chars with
      | .ok (text, _) => .ok (.ok ()) (scanner.beyond text)
      | .error number =>
        .ok (.error ⟨line + number, .unterminatedComment⟩) (scanner.beyond chars) := by
  fun_induction closeComment innermost others count chars generalizing scanner fuel with
  | case1 innermost others count =>
    rcases Nat.exists_eq_add_one.mpr (Nat.zero_lt_of_lt enough) with ⟨fuel, rfl⟩
    rw [skipBlockComment, bind_eq atEnd_eq, left]
    rfl
  | case2 innermost count rest =>
    rcases Nat.exists_eq_add_one.mpr (Nat.zero_lt_of_lt enough) with ⟨fuel, rfl⟩
    rw [encode_ascii (by decide), encode_ascii (by decide)] at left
    have behind := Scanner.left_behind left 0
    rw [skipBlockComment_last left (skipMarker_closing behind)]
    exact congrArg _ (scanner.beyond_pair (by decide) (by decide) []).symm
  | case3 innermost count rest outer outermost induction =>
    rcases Nat.exists_eq_add_one.mpr (Nat.zero_lt_of_lt enough) with ⟨fuel, rfl⟩
    rw [byteSize_ascii (by decide), byteSize_ascii (by decide)] at enough
    rw [encode_ascii (by decide), encode_ascii (by decide)] at left
    have behind := Scanner.left_behind left 0
    have inner := @induction ((scanner.forward 1 0).forward 1 0) fuel
      (Scanner.left_behind behind 0) counted (by omega)
    rw [List.map_cons] at inner
    rw [skipBlockComment_succ left (skipMarker_closing behind), inner]
    cases closeComment outer outermost count rest with
    | ok => exact congrArg _ (scanner.beyond_pair (by decide) (by decide) _).symm
    | error => exact congrArg _ (scanner.beyond_pair (by decide) (by decide) _).symm
  | case4 innermost others count rest induction =>
    rcases Nat.exists_eq_add_one.mpr (Nat.zero_lt_of_lt enough) with ⟨fuel, rfl⟩
    rw [byteSize_ascii (by decide), byteSize_ascii (by decide)] at enough
    rw [encode_ascii (by decide), encode_ascii (by decide)] at left
    have behind := Scanner.left_behind left 0
    have inner := @induction ((scanner.forward 1 0).forward 1 0) fuel
      (Scanner.left_behind behind 0) counted (by omega)
    rw [List.map_cons, ← counted] at inner
    rw [skipBlockComment_succ left (skipMarker_opening behind)]
    refine inner.trans ?_
    cases closeComment count (innermost :: others) count rest with
    | ok => exact congrArg _ (scanner.beyond_pair (by decide) (by decide) _).symm
    | error => exact congrArg _ (scanner.beyond_pair (by decide) (by decide) _).symm
  | case5 innermost others count char rest noClosing noOpening induction =>
    -- The loop takes as many turns as the character has bytes.
    rw [← List.singleton_append, byteSize_append] at enough
    have counted' : (scanner.beyond [char]).line = line + (count + newlines [char]) := by
      rw [Scanner.beyond, Scanner.line_forward, counted, Nat.add_assoc]
    have behind : (scanner.beyond [char]).left = encode rest := by
      rw [Scanner.beyond, Scanner.left_forward, left, ← @List.singleton_append _ char rest,
        encode_append]
      exact List.drop_left
    rcases Nat.exists_eq_add_of_le' (Nat.le_of_lt (Nat.lt_of_le_of_lt (Nat.le_add_right _ _)
      enough)) with ⟨fuel, rfl⟩
    have inner := @induction (scanner.beyond [char]) fuel behind counted' (by omega)
    rw [List.map_cons] at inner ⊢
    rw [skipBlockComment_char left
      (fun same found => noClosing rest.tail same (List.eq_cons_of_mem_head? found))
      (fun same found => noOpening rest.tail same (List.eq_cons_of_mem_head? found)), inner]
    cases closeComment innermost others (count + newlines [char]) rest with
    | ok => exact congrArg _ (scanner.beyond_append [char] _).symm
    | error => exact congrArg _ (scanner.beyond_append [char] _).symm

end Lox.Bytes
