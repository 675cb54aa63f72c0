import Lox.Proofs.Source.Replacing

/-!
# Tokens with other gaps between them

The tokens of a source text can be written one behind the other again, with single spaces or with
other separators between them.  No token merges with what follows it if this starts with a blank
(`Kind.IsSpelt.pieces_append`), so the same tokens are read, and without errors:
`Item.rereads_joinWith`.
-/

namespace Lox

/-! ## Separators -/

/-- Blanks, line comments with the line breaks that end them, and block comments. -/
inductive IsGap : List Char → Prop where
  | nil : IsGap []
  | blank {char : Char} {rest : List Char} (isBlank : isBlank char) (goesOn : IsGap rest) :
    IsGap (char :: rest)
  | lineComment {comment rest : List Char} (within : '\n' ∉ comment) (goesOn : IsGap rest) :
    IsGap ('/' :: '/' :: comment ++ '\n' :: rest)
  | blockComment {text rest : List Char} (closed : IsBlockComment text) (goesOn : IsGap rest) :
    IsGap (text ++ rest)

/-- A gap that starts with a blank. -/
structure IsSeparator (text : List Char) : Prop where
  isGap : IsGap text
  starts : ∃ char ∈ text.head?, isBlank char

/-- Texts one behind the other, each but the last one with a separator behind it. -/
def joinWith (separator : Nat → String) : List String → String
  | [] => ""
  | [text] => text
  | text :: next :: others =>
    text ++ separator 0 ++ joinWith (fun index => separator (index + 1)) (next :: others)

/-- If all separators are the same, then the texts are joined with it. -/
theorem joinWith_const (separator : String) (texts : List String) :
    joinWith (fun _ => separator) texts = separator.intercalate texts := by
  rw [← String.toList_inj, String.toList_intercalate]
  induction texts with
  | nil => rfl
  | cons text others induction =>
    cases others with
    | nil => rw [joinWith, List.map_singleton, List.intercalate_singleton]
    | cons next others =>
      rw [joinWith, String.toList_append, String.toList_append, induction, List.map_cons,
        List.map_cons, List.map_cons, List.intercalate_cons_cons]

/-- A single space is a separator. -/
theorem isSeparator_space : IsSeparator " ".toList :=
  ⟨.blank rfl .nil, ' ', rfl, rfl⟩

/-! ## Where a blank follows -/

/-- A text is at its end, or a blank comes next. -/
def StartsBlank (chars : List Char) : Prop :=
  ∀ char ∈ chars.head?, isBlank char

theorem IsSeparator.startsBlank {text : List Char} (isSeparator : IsSeparator text)
    (rest : List Char) : StartsBlank (text ++ rest) := by
  rcases isSeparator.starts with ⟨char, isFirst, blank⟩
  intro other isOther
  rw [List.head?_append, Option.mem_def.mp isFirst] at isOther
  cases isOther
  exact blank

namespace StartsBlank

variable {rest : List Char} (starts : StartsBlank rest)
include starts

/-- A character that is no blank does not come next. -/
theorem ne_cons {char : Char} (noBlank : isBlank char = false) (others : List Char) :
    rest ≠ char :: others := by
  rintro rfl
  have blank := starts char rfl
  rw [noBlank] at blank
  cases blank

theorem stops_isDigit : Stops Char.isDigit rest :=
  fun char isFirst => not_isDigit_of_isBlank (starts char isFirst)

theorem stops_isWordRest : Stops isWordRest rest :=
  fun char isFirst => not_isWordRest_of_isBlank (starts char isFirst)

theorem nextFraction_eq : Numeral.nextFraction rest = ([], rest) := by
  rw [Numeral.nextFraction]
  exact fun _ _ same => starts.ne_cons rfl _ same

theorem not_startsComment (first : Char) : ¬ StartsComment (first :: rest) := by
  rintro (⟨others, same⟩ | ⟨others, same⟩)
  · exact starts.ne_cons rfl others (List.cons.inj same).2.symm
  · exact starts.ne_cons rfl others (List.cons.inj same).2.symm

end StartsBlank

/-! ## Tokens in front of a blank -/

namespace Symbol

/-- A symbol is read in front of a blank. -/
theorem next?_text_append (sign : Symbol) {rest : List Char} (starts : StartsBlank rest) :
    ∃ first more, sign.text.toList = first :: more ∧
      next? first (more ++ rest) = some (sign, first :: more, rest) ∧
      ¬ StartsComment (first :: (more ++ rest)) := by
  rcases sign.toList_text_cases with ⟨first, text, single⟩ | ⟨first, text, two⟩
  · refine ⟨first, [], text, ?_, starts.not_startsComment first⟩
    rw [List.nil_append, next?.eq_def]
    split
    · exact (starts.ne_cons rfl _ rfl).elim
    · rw [single]
      rfl
  · refine ⟨first, ['='], text, ?_, ?_⟩
    · rw [List.singleton_append, next?.eq_def, two]
      rfl
    · rintro (⟨others, same⟩ | ⟨others, same⟩) <;> cases same

end Symbol

theorem wordKind_text (word : Keyword) : Piece.wordKind word.text.toList = .keyword word := by
  cases word <;> rfl

/-- A token in front of a blank is the first piece. -/
theorem Kind.IsSpelt.pieces_append {kind : Kind} {text rest : List Char}
    (spelt : kind.IsSpelt text) (starts : StartsBlank rest) :
    Piece.pieces (text ++ rest) = .token kind text :: Piece.pieces rest := by
  cases spelt with
  | symbol sign =>
    rcases sign.next?_text_append starts with ⟨first, more, same, found, noComment⟩
    rw [same, List.cons_append, Piece.pieces, Piece.next_symbol found noComment]
  | keyword word =>
    rcases word.exists_toList_text with ⟨first, more, same, isWord, goesOn⟩
    rw [← wordKind_text, same, List.cons_append, Piece.pieces,
      Piece.next_word isWord goesOn starts.stops_isWordRest]
  | identifier isWord goesOn plain =>
    exact Piece.pieces_word (.identifier isWord goesOn plain) starts.stops_isWordRest
  | @string contents closed =>
    have literal : Piece.next '"' (contents ++ '"' :: rest) =
        Piece.string (contents ++ '"' :: rest) := rfl
    rw [List.cons_append, List.cons_append, List.append_assoc, List.singleton_append,
      Piece.pieces, literal, Piece.string_of_closed closed]
    rfl
  | @number numeral nonempty whole fraction =>
    have read := Numeral.next_text_append whole fraction starts.stops_isDigit
      fun _ => starts.nextFraction_eq
    rcases List.exists_cons_of_ne_nil nonempty with ⟨digit, digits, isWhole⟩
    have isDigit : digit.isDigit := whole digit (isWhole ▸ List.mem_cons_self)
    have split : numeral.text ++ rest =
        digit :: (digits ++ Numeral.fractionText numeral.fraction ++ rest) := by
      rw [Numeral.text, isWhole]
      rfl
    rw [split] at read ⊢
    rw [Piece.pieces, Piece.next_number isDigit read]

/-! ## Pieces of separators -/

namespace Piece

variable {rest : List Char}

theorem pieces_blank {char : Char} (blank : isBlank char) :
    pieces (char :: rest) = .blank [char] :: pieces rest := by
  rw [pieces, next.eq_def, if_pos blank]

theorem pieces_lineComment {comment : List Char} (within : '\n' ∉ comment) :
    pieces ('/' :: '/' :: comment ++ '\n' :: rest) =
      .blank ('/' :: '/' :: comment) :: .blank ['\n'] :: pieces rest := by
  have inside := forall_bne_of_not_mem within
  have stops : Stops (· != '\n') ('\n' :: rest) := by
    rintro char ⟨⟩
    rfl
  have read : next '/' ('/' :: (comment ++ '\n' :: rest)) =
      lineComment (comment ++ '\n' :: rest) := rfl
  rw [List.cons_append, List.cons_append, pieces, read, lineComment,
    stops.takeWhile_append inside, stops.dropWhile_append inside, pieces_blank rfl]

theorem pieces_blockComment {text : List Char} (closed : IsBlockComment text) :
    pieces (text ++ rest) = .blank text :: pieces rest := by
  rcases closed.1 with ⟨more, rfl⟩
  have read : next '/' ('*' :: (more ++ rest)) = blockComment (more ++ rest) := rfl
  have ends : closeComment 0 [] 0 (more ++ rest) = .ok (more, rest) :=
    closeComment_eq_ok_iff.mpr ⟨rfl, isBlockComment_iff.mp closed⟩
  rw [List.append_assoc, List.cons_append, List.cons_append, List.nil_append, pieces, read,
    blockComment, ends]
  rfl

/-! ## Tokens and what is between them -/

/-- Pieces without faults whose tokens are spelt in some way. -/
inductive AreSpelt : List Piece → List (Kind × String) → Prop where
  | nil : AreSpelt [] []
  | blank {text : List Char} {pieces : List Piece} {spellings : List (Kind × String)}
    (others : AreSpelt pieces spellings) : AreSpelt (.blank text :: pieces) spellings
  | token {kind : Kind} {text : List Char} {pieces : List Piece}
    {spellings : List (Kind × String)} (others : AreSpelt pieces spellings) :
    AreSpelt (.token kind text :: pieces) ((kind, .ofList text) :: spellings)

/-- What is between tokens is no token. -/
theorem AreSpelt.behind {gap : List Char} (isGap : IsGap gap) {spellings : List (Kind × String)}
    (others : AreSpelt (pieces rest) spellings) : AreSpelt (pieces (gap ++ rest)) spellings := by
  induction isGap with
  | nil => exact others
  | blank blank _ induction =>
    rw [List.cons_append, pieces_blank blank]
    exact .blank induction
  | @lineComment comment others within _ induction =>
    have split : '/' :: '/' :: comment ++ '\n' :: others ++ rest =
        '/' :: '/' :: comment ++ '\n' :: (others ++ rest) := List.append_assoc _ _ _
    rw [split, pieces_lineComment within]
    exact .blank (.blank induction)
  | blockComment closed _ induction =>
    rw [List.append_assoc, pieces_blockComment closed]
    exact .blank induction

end Piece

/-- The kind and the lexeme of a token. -/
def Token.spelling (token : Token) : Kind × String :=
  (token.kind, token.lexeme)

/-- Joined lexemes are cut into their tokens and what is between them. -/
theorem areSpelt_joinWith {tokens : List Token}
    (spelt : ∀ token ∈ tokens, token.kind.IsSpelt token.lexeme.toList) {separator : Nat → String}
    (separates : ∀ index, IsSeparator (separator index).toList) :
    Piece.AreSpelt (Piece.pieces (joinWith separator (tokens.map Token.lexeme)).toList)
      (tokens.map Token.spelling) := by
  induction tokens generalizing separator with
  | nil =>
    rw [List.map_nil, joinWith, String.toList_empty, Piece.pieces]
    exact .nil
  | cons token others induction =>
    rw [List.forall_mem_cons] at spelt
    have spelling : token.spelling = (token.kind, .ofList token.lexeme.toList) := by
      rw [String.ofList_toList]
      rfl
    rw [List.map_cons, List.map_cons, spelling]
    cases others with
    | nil =>
      have atEnd : StartsBlank [] := by rintro _ ⟨⟩
      have alone := spelt.1.pieces_append atEnd
      rw [List.append_nil, Piece.pieces] at alone
      rw [List.map_nil, joinWith, alone]
      exact .token .nil
    | cons next others =>
      have later := induction spelt.2 fun index => separates (index + 1)
      rw [List.map_cons, joinWith, String.toList_append, String.toList_append, List.append_assoc,
        spelt.1.pieces_append ((separates 0).startsBlank _)]
      exact .token (.behind (separates 0).isGap later)

namespace Item

/-- The lexemes of the tokens of a source text in front of the end of the input. -/
def lexemes (source : String) : List String :=
  (tokens (scan source)).dropLast.map Token.lexeme

/-- Another text has no lexical errors, and its tokens have the kinds and lexemes of the first. -/
def Rereads (source other : String) : Prop :=
  errors (scan other) = [] ∧
    (tokens (scan other)).map Token.spelling = (tokens (scan source)).map Token.spelling

/-- Pieces without faults yield no errors, and their tokens in front of the end of the input. -/
theorem spelling_ofPieces {pieces : List Piece} {spellings : List (Kind × String)}
    (areSpelt : Piece.AreSpelt pieces spellings) (line : Nat) :
    errors (ofPieces line pieces) = [] ∧
      (tokens (ofPieces line pieces)).map Token.spelling = spellings ++ [(.ending, "")] := by
  induction areSpelt generalizing line with
  | nil => exact ⟨rfl, rfl⟩
  | blank _ induction => exact induction _
  | token _ induction => exact ⟨(induction _).1, congrArg (List.cons _) (induction _).2⟩

/-- The lexemes of tokens are spelt as their kinds demand. -/
theorem isSpelt_within {line : Nat} {pieces : List Piece}
    (spelt : ∀ kind text, Piece.token kind text ∈ pieces → kind.IsSpelt text) :
    ∀ token ∈ tokens (within line pieces), token.kind.IsSpelt token.lexeme.toList := by
  induction pieces generalizing line with
  | nil => exact List.forall_mem_nil _
  | cons piece others induction =>
    intro token member
    rw [within, tokens, List.filterMap_append, List.mem_append] at member
    rcases member with here | later
    · cases piece with
      | blank => cases here
      | token kind text =>
        rw [List.mem_singleton.mp here, String.toList_ofList]
        exact spelt kind text List.mem_cons_self
      | fault => cases here
    · exact induction (fun kind text member => spelt kind text (List.mem_cons_of_mem _ member))
        token later

/--
Tokens are read again.  If the lexemes of the tokens of a source text are joined with single
spaces, then the result has no lexical errors, and its tokens have the same kinds and lexemes up
to the end of the input.  The same holds for any separators, each of which starts with a blank and
goes on with blanks, line comments and block comments.
-/
theorem rereads_joinWith (source : String) :
    Rereads source (" ".intercalate (lexemes source)) ∧
      ∀ separator : Nat → String, (∀ index, IsSeparator (separator index).toList) →
        Rereads source (joinWith separator (lexemes source)) := by
  let inner := tokens (within 1 (Piece.pieces source.toList))
  have isFound : tokens (scan source) = inner ++ [.ending (1 + newlines source.toList)] := by
    rw [scan_eq_within, tokens, List.filterMap_append]
    rfl
  have isLexemes : lexemes source = inner.map Token.lexeme := by
    rw [lexemes, isFound, List.dropLast_concat]
  have spelt : ∀ token ∈ inner, token.kind.IsSpelt token.lexeme.toList := by
    apply isSpelt_within
    intro kind text member
    rcases List.append_of_mem member with ⟨earlier, later, split⟩
    exact (Piece.fits_of_pieces_eq split).1
  have rereads : ∀ separator : Nat → String, (∀ index, IsSeparator (separator index).toList) →
      Rereads source (joinWith separator (lexemes source)) := by
    intro separator separates
    rw [Rereads, isFound, isLexemes, List.map_append]
    exact spelling_ofPieces (areSpelt_joinWith spelt separates) 1
  refine ⟨?_, rereads⟩
  rw [← joinWith_const]
  exact rereads _ fun _ => isSeparator_space

/-- Stray characters keep signs apart, and a string looks like a comment. -/
def keptApart : String := "/#/!#=\"//\n\"or"

/-- A nested block comment and a line comment. -/
def nestedGap : String := "\t/*/**/*///\n"

/-- Comments between tokens leave the tokens as they are. -/
theorem rereads_joinWith_nestedGap :
    IsSeparator nestedGap.toList ∧
      Rereads keptApart
        (joinWith (fun _ => nestedGap) ["/", "/", "!", "=", "\"//\n\"", "or"]) := by
  have gap : nestedGap.toList = '\t' :: (['/', '*', '/', '*', '*', '/', '*', '/'] ++
      ('/' :: '/' :: [] ++ ['\n'])) := rfl
  have comment : IsBlockComment ['/', '*', '/', '*', '*', '/', '*', '/'] := by
    have closed : closeComment 0 [] 0 ['/', '*', '*', '/', '*', '/'] =
        .ok (['/', '*', '*', '/', '*', '/'], []) := rfl
    exact isBlockComment_iff.mpr (closes_closeComment closed)
  have separates : IsSeparator nestedGap.toList := by
    rw [gap]
    exact ⟨.blank rfl (.blockComment comment (.lineComment List.not_mem_nil .nil)), '\t', rfl, rfl⟩
  have isLexemes : lexemes keptApart = ["/", "/", "!", "=", "\"//\n\"", "or"] := by cbv
  have rereads := (rereads_joinWith keptApart).2 (fun _ => nestedGap) fun _ => separates
  rw [isLexemes] at rereads
  exact ⟨separates, rereads⟩

end Item

end Lox
