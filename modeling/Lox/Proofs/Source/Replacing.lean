import Lox.Proofs.Source.Name
import Lox.Proofs.Source.Tiling

/-!
# Other names in a source text

The names in some positions of a source text are replaced by a word (`replaceNames`).  A piece that
is cut off a text does not depend on how what follows goes on if this starts with the same
characters or with a word, too (`Piece.pieces_append`).  So the pieces stay the same but for the
names (`Piece.pieces_replaceAll`), and so do the tokens (`Item.tokens_replaceNames`).
-/

namespace Lox

/-! ## Where a class of characters ends -/

/-- A text does not start with a character of a class. -/
def Stops (goesOn : Char → Bool) (chars : List Char) : Prop :=
  ∀ char ∈ chars.head?, goesOn char = false

section

variable {goesOn : Char → Bool} {text rest : List Char}

theorem Stops.takeWhile_append (stops : Stops goesOn rest) (inside : ∀ char ∈ text, goesOn char) :
    (text ++ rest).takeWhile goesOn = text := by
  rw [List.takeWhile_append_of_pos inside]
  cases rest with
  | nil => exact List.append_nil text
  | cons first others =>
    rw [List.takeWhile_cons_of_neg (Bool.eq_false_iff.mp (stops first rfl)), List.append_nil]

theorem Stops.dropWhile_append (stops : Stops goesOn rest) (inside : ∀ char ∈ text, goesOn char) :
    (text ++ rest).dropWhile goesOn = rest := by
  rw [List.dropWhile_append_of_pos inside]
  cases rest with
  | nil => rfl
  | cons first others => exact List.dropWhile_cons_of_neg (Bool.eq_false_iff.mp (stops first rfl))

theorem forall_mem_takeWhile (goesOn : Char → Bool) (chars : List Char) :
    ∀ char ∈ chars.takeWhile goesOn, goesOn char :=
  fun _ member => List.mem_takeWhile_imp member

theorem stops_dropWhile (goesOn : Char → Bool) (chars : List Char) :
    Stops goesOn (chars.dropWhile goesOn) := by
  intro char isFirst
  have head := List.head?_dropWhile_not goesOn chars
  rw [Option.mem_def.mp isFirst] at head
  simpa using head

end

/-! ## Texts that start alike -/

theorem isWordRest_of_isWordStart {char : Char} (starts : isWordStart char) : isWordRest char := by
  rw [isWordStart, Bool.or_eq_true] at starts
  rw [isWordRest, Char.isAlphanum, Bool.or_eq_true, Bool.or_eq_true]
  rcases starts with isAlpha | isUnderscore
  · exact .inl (.inl isAlpha)
  · exact .inr isUnderscore

/-- Two texts are the same up to a place where they end, or where words start in both. -/
inductive StartsAlike : List Char → List Char → Prop where
  | nil : StartsAlike [] []
  | word {first first' : Char} {rest rest' : List Char} (starts : isWordStart first)
    (starts' : isWordStart first') : StartsAlike (first :: rest) (first' :: rest')
  | cons (char : Char) {rest rest' : List Char} (alike : StartsAlike rest rest') :
    StartsAlike (char :: rest) (char :: rest')

namespace StartsAlike

variable {rest rest' : List Char} (alike : StartsAlike rest rest')
include alike

theorem append (text : List Char) : StartsAlike (text ++ rest) (text ++ rest') := by
  induction text with
  | nil => exact alike
  | cons first others induction => exact .cons first induction

/-- Both texts start with a character of a class, or none, if the class has all starts of words. -/
theorem stops {goesOn : Char → Bool} (uniform : ∀ char char', isWordStart char →
    isWordStart char' → goesOn char = goesOn char') (stops : Stops goesOn rest) :
    Stops goesOn rest' := by
  rintro char isFirst
  cases alike with
  | nil => cases isFirst
  | word starts starts' =>
    cases isFirst
    rw [uniform _ _ starts' starts]
    exact stops _ rfl
  | cons first => exact stops char isFirst

theorem stops_isWordRest (stops : Stops isWordRest rest) : Stops isWordRest rest' := by
  apply alike.stops _ stops
  intro char char' starts starts'
  rw [isWordRest_of_isWordStart starts, isWordRest_of_isWordStart starts']

theorem stops_isDigit (stops : Stops Char.isDigit rest) : Stops Char.isDigit rest' := by
  apply alike.stops _ stops
  intro char char' starts starts'
  rw [not_isDigit_of_isWordStart starts, not_isDigit_of_isWordStart starts']

theorem stops_newline (stops : Stops (· != '\n') rest) : Stops (· != '\n') rest' := by
  apply alike.stops _ stops
  have other : ∀ char, isWordStart char → (char != '\n') = true := by
    intro char starts
    rw [bne_iff_ne]
    rintro rfl
    cases starts
  intro char char' starts starts'
  rw [other char starts, other char' starts']

/-- A character that starts no word starts both texts, or none. -/
theorem exists_of_eq_cons {char : Char} {more : List Char} (noWord : isWordStart char = false)
    (same : rest' = char :: more) : ∃ others, rest = char :: others := by
  cases alike with
  | nil => cases same
  | word _ starts' =>
    cases same
    rw [noWord] at starts'
    cases starts'
  | cons first =>
    cases same
    exact ⟨_, rfl⟩

end StartsAlike

/-! ## What follows a piece -/

section

variable {first : Char} {chars rest after after' : List Char}

namespace Numeral

/-- Without a fraction there is none if the text goes on in another way. -/
theorem nextFraction_of_alike (missing : (nextFraction after).1 = [])
    (alike : StartsAlike after after') : nextFraction after' = ([], after') := by
  cases alike with
  | nil => rfl
  | word starts starts' =>
    rw [nextFraction]
    rintro _ _ ⟨⟩
    cases starts'
  | cons char alike =>
    by_cases isPoint : char = '.'
    · subst isPoint
      cases alike with
      | nil => rfl
      | word _ starts' => rw [nextFraction, if_neg (by simp [not_isDigit_of_isWordStart starts'])]
      | cons digit =>
        rw [nextFraction] at missing ⊢
        split at missing
        · cases missing
        · next noDigit => rw [if_neg noDigit]
    · rw [nextFraction]
      exact fun _ _ same => isPoint (List.cons.inj same).1

/-- A numeral is read up to a place where no digit follows, and no fraction if it has none. -/
theorem next_text_append {numeral : Numeral} (whole : ∀ digit ∈ numeral.whole, digit.isDigit)
    (fraction : ∀ digit ∈ numeral.fraction, digit.isDigit) (stops : Stops Char.isDigit after)
    (alone : numeral.fraction = [] → nextFraction after = ([], after)) :
    next (numeral.text ++ after) = (numeral, after) := by
  rcases numeral with ⟨digits, _ | ⟨digit, others⟩⟩
  · rw [text, fractionText, List.append_nil, next, stops.takeWhile_append whole,
      stops.dropWhile_append whole, alone rfl]
  · have stopsAtPoint : Stops Char.isDigit ('.' :: digit :: (others ++ after)) := by
      rintro char ⟨⟩
      rfl
    have split : text ⟨digits, digit :: others⟩ ++ after =
        digits ++ '.' :: digit :: (others ++ after) := by
      simp [text, fractionText]
    rcases List.forall_mem_cons.mp fraction with ⟨isDigit, inside⟩
    rw [split, next, stopsAtPoint.takeWhile_append whole, stopsAtPoint.dropWhile_append whole,
      nextFraction, if_pos isDigit, stops.takeWhile_append inside, stops.dropWhile_append inside]

/-- Where a fraction ends no digit follows. -/
theorem stops_nextFraction (stops : Stops Char.isDigit chars) :
    Stops Char.isDigit (nextFraction chars).2 := by
  rw [nextFraction.eq_def]
  split
  · split
    · exact stops_dropWhile _ _
    · exact stops
  · exact stops

/-- Without a fraction nothing is read. -/
theorem nextFraction_of_nil (missing : (nextFraction chars).1 = []) :
    (nextFraction chars).2 = chars := by
  have whole := fractionText_nextFraction_append chars
  rwa [missing] at whole

/-- The same numeral is read from a text that goes on in a similar way. -/
theorem next_append {numeral : Numeral} (read : next chars = (numeral, after))
    (alike : StartsAlike after after') : next (numeral.text ++ after') = (numeral, after') := by
  have parts : next chars = (⟨chars.takeWhile Char.isDigit,
      (nextFraction (chars.dropWhile Char.isDigit)).1⟩,
      (nextFraction (chars.dropWhile Char.isDigit)).2) := rfl
  rw [parts] at read
  cases read
  have stops := stops_nextFraction (stops_dropWhile Char.isDigit chars)
  apply next_text_append (forall_mem_takeWhile Char.isDigit chars) (isDigit_nextFraction _)
    (alike.stops_isDigit stops)
  intro missing
  rw [nextFraction_of_nil missing] at alike
  exact nextFraction_of_alike missing alike

end Numeral

/-- The same symbol is read from a text that goes on in a similar way. -/
theorem Symbol.next?_cons_append {symbol : Symbol} {text : List Char}
    (found : next? first rest = some (symbol, text, after)) (alike : StartsAlike after after') :
    ∃ more, text = first :: more ∧ next? first (more ++ after') = some (symbol, text, after') := by
  unfold next? at found
  split at found
  · next isTwo =>
    cases found
    refine ⟨['='], rfl, ?_⟩
    rw [List.singleton_append, next?.eq_def, isTwo]
    rfl
  · next notTwo =>
    rcases Option.map_eq_some_iff.mp found with ⟨sign, isOne, same⟩
    cases same
    refine ⟨[], rfl, ?_⟩
    rw [List.nil_append, next?.eq_def]
    split
    · next others sign' isTwo =>
      rcases alike.exists_of_eq_cons (by decide) rfl with ⟨others', starts⟩
      exact (notTwo _ _ starts isTwo).elim
    · rw [isOne]
      rfl

namespace Piece

variable {piece : Piece}

theorem string_append (read : string rest = (piece, after)) (clean : piece.IsClean) :
    ∃ more, piece.text = '"' :: more ∧ string (more ++ after') = (piece, after') := by
  by_cases member : '"' ∈ rest
  · rcases List.eq_append_cons_of_mem member with ⟨contents, others, rfl, noQuote⟩
    rw [string_of_closed noQuote] at read
    cases read
    refine ⟨contents ++ ['"'], rfl, ?_⟩
    rw [List.append_assoc, List.singleton_append, string_of_closed noQuote]
  · rw [string_of_open member] at read
    cases read
    exact clean.elim

theorem lineComment_append (read : lineComment rest = (piece, after))
    (alike : StartsAlike after after') :
    ∃ more, piece.text = '/' :: '/' :: more ∧ lineComment (more ++ after') = (piece, after') := by
  have stops := stops_dropWhile (· != '\n') rest
  have inside := forall_mem_takeWhile (· != '\n') rest
  cases read
  refine ⟨_, rfl, ?_⟩
  have stops' := alike.stops_newline stops
  rw [lineComment, stops'.takeWhile_append inside, stops'.dropWhile_append inside]

theorem blockComment_append (read : blockComment rest = (piece, after)) (clean : piece.IsClean) :
    ∃ more, piece.text = '/' :: '*' :: more ∧ blockComment (more ++ after') = (piece, after') := by
  rw [blockComment] at read
  split at read
  · next text others closed =>
    cases read
    refine ⟨_, rfl, ?_⟩
    rw [blockComment, closeComment_of_closes (closes_closeComment closed)]
  · cases read
    exact clean.elim

/-- A word ends where no character of a word follows. -/
theorem next_word (starts : isWordStart first) {more : List Char}
    (goesOn : ∀ char ∈ more, isWordRest char) (stops : Stops isWordRest after) :
    next first (more ++ after) = (.token (wordKind (first :: more)) (first :: more), after) := by
  have noBlank : ¬ isBlank first := by
    intro blank
    have noWord := not_isWordRest_of_isBlank blank
    rw [isWordRest_of_isWordStart starts] at noWord
    cases noWord
  have noDigit : ¬ first.isDigit := Bool.eq_false_iff.mp (not_isDigit_of_isWordStart starts)
  rw [next.eq_def, if_neg noBlank, if_neg noDigit, if_pos starts, stops.takeWhile_append goesOn,
    stops.dropWhile_append goesOn]

/-- A numeral is the first piece. -/
theorem next_number (isDigit : first.isDigit) {numeral : Numeral}
    (read : Numeral.next (first :: rest) = (numeral, after)) :
    next first rest = (.token (.number numeral.value) numeral.text, after) := by
  have noBlank : ¬ isBlank first := by
    intro blank
    rw [not_isDigit_of_isBlank blank] at isDigit
    cases isDigit
  rw [next.eq_def, if_neg noBlank, if_pos isDigit, read]

/-- A symbol that starts no comment is the first piece. -/
theorem next_symbol {symbol : Symbol} {text : List Char}
    (found : Symbol.next? first rest = some (symbol, text, after))
    (noComment : ¬ StartsComment (first :: rest)) :
    next first rest = (.token (.symbol symbol) text, after) := by
  rcases Symbol.isAlone_of_single? (Symbol.isSome_single? found) with
    ⟨noBlank, noWord, noDigit, noQuote⟩
  rw [next.eq_def, if_neg (Bool.eq_false_iff.mp noBlank), if_neg (Bool.eq_false_iff.mp noDigit),
    if_neg (Bool.eq_false_iff.mp noWord)]
  split
  · exact (noQuote rfl).elim
  · exact (noComment (.inl ⟨_, rfl⟩)).elim
  · exact (noComment (.inr ⟨_, rfl⟩)).elim
  · rw [found]

/-- The same piece is cut off a text that goes on in a similar way. -/
theorem next_append (read : next first rest = (piece, after)) (clean : piece.IsClean)
    (alike : StartsAlike after after') :
    ∃ more, piece.text = first :: more ∧ next first (more ++ after') = (piece, after') := by
  rw [next.eq_def] at read
  split at read
  · next isBlank =>
    cases read
    refine ⟨[], rfl, ?_⟩
    rw [next.eq_def, if_pos isBlank]
    rfl
  next notBlank =>
  split at read
  · next isDigit =>
    have whole := Numeral.text_next_append (first :: rest)
    have nonempty := Numeral.text_next_cons_ne_nil isDigit rest
    rcases found : Numeral.next (first :: rest) with ⟨numeral, others⟩
    rw [found] at read whole nonempty
    cases read
    rcases List.exists_cons_of_ne_nil nonempty with ⟨head, more, isMore⟩
    have same := Numeral.next_append found alike
    rw [isMore] at whole same
    obtain rfl : head = first := (List.cons.inj whole).1
    exact ⟨more, isMore, next_number isDigit same⟩
  next notDigit =>
  split at read
  · next isWord =>
    cases read
    have stops := alike.stops_isWordRest (stops_dropWhile isWordRest rest)
    exact ⟨_, rfl, next_word isWord (forall_mem_takeWhile isWordRest rest) stops⟩
  next notWord =>
  split at read
  · exact string_append read clean
  · rcases lineComment_append read alike with ⟨more, text, same⟩
    exact ⟨'/' :: more, text, same⟩
  · rcases blockComment_append read clean with ⟨more, text, same⟩
    exact ⟨'*' :: more, text, same⟩
  next noLineComment noBlockComment =>
  split at read
  · next symbol text others found =>
    cases read
    have whole := Symbol.next?_append found
    rcases Symbol.next?_cons_append found alike with ⟨more, rfl, same⟩
    refine ⟨more, rfl, next_symbol same ?_⟩
    have isRest : more ++ after = rest := (List.cons.inj whole).2
    have restAlike := alike.append more
    rw [isRest] at restAlike
    rintro (⟨_, starts⟩ | ⟨_, starts⟩)
    · rcases List.cons.inj starts with ⟨rfl, isSlash⟩
      rcases restAlike.exists_of_eq_cons (by decide) isSlash.symm with ⟨others, starts⟩
      exact noLineComment others rfl starts
    · rcases List.cons.inj starts with ⟨rfl, isStar⟩
      rcases restAlike.exists_of_eq_cons (by decide) isStar.symm with ⟨others, starts⟩
      exact noBlockComment others rfl starts
  · cases read
    exact clean.elim

/-- The first piece of a text comes first if the text goes on in a similar way. -/
theorem pieces_append (read : next first rest = (piece, after)) (clean : piece.IsClean)
    (alike : StartsAlike after after') :
    pieces (piece.text ++ after') = piece :: pieces after' := by
  rcases next_append read clean alike with ⟨more, text, same⟩
  rw [text, List.cons_append, pieces, same]

/-- A name is no reserved word. -/
theorem isPlainName_of_isSpelt {text : List Char} (spelt : Kind.IsSpelt .identifier text) :
    IsPlainName (.ofList text) := by
  cases spelt with
  | @identifier first more starts goesOn plain =>
    apply Option.eq_none_iff_forall_ne_some.mpr
    intro keyword found
    have isText := List.find?_some found
    have same : keyword.text = .ofList (first :: more) := eq_of_beq isText
    exact plain keyword (by rw [same, String.toList_ofList])

/-- A word, as the first piece of a text. -/
theorem pieces_word {word : List Char} (spelt : Kind.IsSpelt .identifier word)
    (stops : Stops isWordRest after) :
    pieces (word ++ after) = .token .identifier word :: pieces after := by
  have isName : wordKind word = .identifier := by
    rw [wordKind, isPlainName_of_isSpelt spelt]
  cases spelt with
  | identifier starts goesOn =>
    rw [List.cons_append, pieces, next_word starts goesOn stops, isName]

/-- Where a name ends no other character of a word follows. -/
theorem next_name {text : List Char} (read : next first rest = (.token .identifier text, after)) :
    isWordStart first ∧ Stops isWordRest after := by
  have fits := fits_next first rest
  have whole := text_next_append first rest
  rw [read] at fits whole
  have starts : isWordStart first :=
    fits.1.canStartWith (whole ▸ List.prefix_append text after)
  refine ⟨starts, ?_⟩
  have stops := stops_dropWhile isWordRest rest
  have word := next_word starts (forall_mem_takeWhile isWordRest rest) stops
  rw [List.takeWhile_append_dropWhile, read] at word
  rwa [(Prod.mk.inj word).2]

end Piece

end

/-! ## Other names -/

namespace Piece

/-- A word in the place of a name; other pieces stay. -/
def replaceName (word : List Char) : Piece → Piece
  | token .identifier _ => token .identifier word
  | piece => piece

/-- How many tokens a piece is. -/
def tokenCount : Piece → Nat
  | token _ _ => 1
  | _ => 0

/-- A word in the place of the names in some positions, if this many tokens come before. -/
def replaceAll (word : List Char) (positions : List Nat) : Nat → List Piece → List Piece
  | _, [] => []
  | position, piece :: others =>
    (if position ∈ positions then piece.replaceName word else piece) ::
      replaceAll word positions (position + piece.tokenCount) others

section

variable {first : Char} {rest after after' : List Char} {piece : Piece}
  (read : next first rest = (piece, after)) (alike : StartsAlike after after')
include read alike

/-- A piece stays the first one of a text that goes on in a similar way. -/
theorem pieces_keep (clean : piece.IsClean) :
    pieces (piece.text ++ after') = piece :: pieces after' ∧
      StartsAlike (first :: rest) (piece.text ++ after') := by
  have whole := text_next_append first rest
  rw [read] at whole
  refine ⟨pieces_append read clean alike, ?_⟩
  rw [← whole]
  exact alike.append piece.text

/-- A name can be replaced by another word. -/
theorem pieces_replaceName {word : List Char} (spelt : Kind.IsSpelt .identifier word)
    (clean : piece.IsClean) :
    pieces ((piece.replaceName word).text ++ after') = piece.replaceName word :: pieces after' ∧
      StartsAlike (first :: rest) ((piece.replaceName word).text ++ after') := by
  have keep := pieces_keep read alike clean
  cases piece with
  | blank => exact keep
  | fault => exact keep
  | token kind text =>
    cases kind with
    | identifier =>
      rcases next_name read with ⟨starts, stops⟩
      refine ⟨pieces_word spelt (alike.stops_isWordRest stops), ?_⟩
      cases spelt with
      | identifier starts' => exact .word starts starts'
    | symbol | keyword | string | number | ending => exact keep

end

variable {word : List Char} (spelt : Kind.IsSpelt .identifier word)
include spelt

/-- A text with other names has the same pieces but for these names. -/
theorem pieces_replaceAll (positions : List Nat) (position : Nat) (chars : List Char)
    (clean : ∀ piece ∈ pieces chars, piece.IsClean) :
    pieces ((replaceAll word positions position (pieces chars)).flatMap text) =
        replaceAll word positions position (pieces chars) ∧
      StartsAlike chars ((replaceAll word positions position (pieces chars)).flatMap text) := by
  fun_induction pieces chars generalizing position with
  | case1 =>
    rw [replaceAll, List.flatMap_nil, pieces]
    exact ⟨rfl, .nil⟩
  | case2 first rest induction =>
    rw [List.forall_mem_cons] at clean
    rcases read : next first rest with ⟨piece, after⟩
    have whole := text_next_append first rest
    rw [read] at induction clean whole
    rcases induction (position + piece.tokenCount) clean.2 with ⟨later, alike⟩
    rw [replaceAll, List.flatMap_cons]
    split
    · have here := pieces_replaceName read alike spelt clean.1
      rw [later] at here
      exact here
    · have here := pieces_keep read alike clean.1
      rw [later] at here
      exact here

end Piece

/-- A source text with a word in the place of the names in some positions. -/
def replaceNames (word : String) (positions : List Nat) (source : String) : String :=
  .ofList ((Piece.replaceAll word.toList positions 0 (Piece.pieces source.toList)).flatMap
    Piece.text)

/-! ## Items -/

/-- A word in the place of a name. -/
def Token.replaceName (word : String) : Token → Token
  | ⟨.identifier, _, line⟩ => ⟨.identifier, word, line⟩
  | token => token

/-- A word in the place of the names in some positions, if this many tokens come before. -/
def Token.replaceAll (word : String) (positions : List Nat) : Nat → List Token → List Token
  | _, [] => []
  | position, token :: others =>
    (if position ∈ positions then token.replaceName word else token) ::
      replaceAll word positions (position + 1) others

namespace Piece

variable {word : String} (spelt : Kind.IsSpelt .identifier word.toList) {piece : Piece}
  (named : ∀ text, piece = .token .identifier text → newlines text = 0)
include spelt named

theorem newlines_replaceName :
    newlines (piece.replaceName word.toList).text = newlines piece.text := by
  cases piece with
  | token kind text =>
    cases kind with
    | identifier => exact (spelt.newlines_eq_zero nofun).trans (named text rfl).symm
    | symbol | keyword | string | number | ending => rfl
  | blank | fault => rfl

theorem item?_replaceName (line : Nat) :
    (piece.replaceName word.toList).item? line = (piece.item? line).map fun
      | .token found => .token (found.replaceName word)
      | .error found => .error found := by
  cases piece with
  | token kind text =>
    cases kind with
    | identifier =>
      have newlines := newlines_replaceName spelt named
      simp only [replaceName, Piece.text] at newlines
      simp only [replaceName, item?, newlines, String.ofList_toList]
      rfl
    | symbol | keyword | string | number | ending => rfl
  | blank | fault => rfl

end Piece

namespace Item

variable {word : String} (spelt : Kind.IsSpelt .identifier word.toList)
include spelt

theorem tokens_replaceAll (positions : List Nat) (position line : Nat) {pieces : List Piece}
    (named : ∀ piece ∈ pieces, ∀ text, piece = .token .identifier text → newlines text = 0) :
    tokens (ofPieces line (Piece.replaceAll word.toList positions position pieces)) =
      Token.replaceAll word positions position (tokens (ofPieces line pieces)) := by
  induction pieces generalizing position line with
  | nil =>
    show [Token.ending line] = [if position ∈ positions then _ else _]
    split <;> rfl
  | cons piece others induction =>
    rw [List.forall_mem_cons] at named
    have same : newlines (if position ∈ positions then piece.replaceName word.toList
        else piece).text = newlines piece.text := by
      split
      · exact Piece.newlines_replaceName spelt named.1
      · rfl
    have later := induction (position + piece.tokenCount) (line + newlines piece.text) named.2
    rw [Piece.replaceAll, ofPieces, ofPieces, tokens, tokens, List.filterMap_append,
      List.filterMap_append, same, ← tokens, ← tokens, later]
    cases piece with
    | blank | fault =>
      simp only [Piece.replaceName, ite_self]
      rfl
    | token kind text =>
      have here : (if position ∈ positions then (Piece.token kind text).replaceName word.toList
          else .token kind text).item? line = some (.token
            (if position ∈ positions then (Token.mk kind (.ofList text)
              (line + newlines text)).replaceName word else
              ⟨kind, .ofList text, line + newlines text⟩)) := by
        split
        · exact Piece.item?_replaceName spelt named.1 line
        · rfl
      rw [here]
      rfl

omit spelt in
theorem errors_replaceAll (positions : List Nat) (position line : Nat) {pieces : List Piece}
    (clean : ∀ piece ∈ pieces, piece.IsClean) :
    errors (ofPieces line (Piece.replaceAll word.toList positions position pieces)) = [] := by
  induction pieces generalizing position line with
  | nil => rfl
  | cons piece others induction =>
    rw [List.forall_mem_cons] at clean
    rw [Piece.replaceAll, ofPieces, errors, List.filterMap_append]
    refine List.append_eq_nil_iff.mpr ⟨?_, induction _ _ clean.2⟩
    cases piece with
    | blank text =>
      simp only [Piece.replaceName, ite_self]
      rfl
    | fault => exact clean.1.elim
    | token kind text =>
      split
      · cases kind <;> rfl
      · rfl

end Item

/-- The names of a text are on one line. -/
theorem Piece.newlines_of_mem_pieces {chars : List Char} {piece : Piece}
    (member : piece ∈ pieces chars) (text : List Char) (isName : piece = .token .identifier text) :
    newlines text = 0 := by
  rcases List.append_of_mem member with ⟨earlier, later, split⟩
  subst isName
  exact (fits_of_pieces_eq split).1.newlines_eq_zero nofun

/-- A source text with other names has no lexical errors, too, and the same tokens but for them. -/
theorem Item.scan_replaceNames {word : String} (spelt : Kind.IsSpelt .identifier word.toList)
    (positions : List Nat) {source : String} (none : errors (scan source) = []) :
    errors (scan (replaceNames word positions source)) = [] ∧
      tokens (scan (replaceNames word positions source)) =
        Token.replaceAll word positions 0 (tokens (scan source)) := by
  have clean := isClean_of_errors none
  rw [scan, replaceNames, String.toList_ofList,
    (Piece.pieces_replaceAll spelt positions 0 source.toList clean).1]
  exact ⟨errors_replaceAll positions 0 1 clean,
    tokens_replaceAll spelt positions 0 1 fun _ => Piece.newlines_of_mem_pieces⟩

end Lox
