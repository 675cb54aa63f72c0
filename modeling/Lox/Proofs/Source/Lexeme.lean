import Lox.Source.Piece
import Mathlib

/-!
# Lexemes

What a source text may consist of, said without reading it: how tokens are spelt
(`Kind.IsSpelt`), what means nothing (`IsTrivia`), and what is a fault (`IsFault`).  The first
token of a text is its longest prefix that is a lexeme (`IsLongest`).
-/

namespace Lox

/-! ## Tokens -/

/-- How a token of some kind is spelt. -/
inductive Kind.IsSpelt : Kind → List Char → Prop where
  | symbol (sign : Symbol) : IsSpelt (.symbol sign) sign.text.toList
  | keyword (word : Keyword) : IsSpelt (.keyword word) word.text.toList
  /-- A name is a word that is no reserved word. -/
  | identifier {first : Char} {rest : List Char} (starts : isWordStart first)
    (goesOn : ∀ char ∈ rest, isWordRest char)
    (plain : ∀ word : Keyword, word.text.toList ≠ first :: rest) :
    IsSpelt .identifier (first :: rest)
  /-- A string literal is the text between its quotes. -/
  | string {contents : List Char} (closed : '"' ∉ contents) :
    IsSpelt (.string (.ofList contents)) ('"' :: contents ++ ['"'])
  /-- A fraction has digits, too, if there is one. -/
  | number {numeral : Numeral} (nonempty : numeral.whole ≠ [])
    (whole : ∀ digit ∈ numeral.whole, digit.isDigit)
    (fraction : ∀ digit ∈ numeral.fraction, digit.isDigit) :
    IsSpelt (.number numeral.value) numeral.text

/-- A text that spells some token. -/
def IsLexeme (text : List Char) : Prop :=
  ∃ kind : Kind, kind.IsSpelt text

/-- The longest lexeme that a text starts with. -/
structure IsLongest (text chars : List Char) : Prop where
  isLexeme : IsLexeme text
  isPrefix : text <+: chars
  length_le : ∀ other, IsLexeme other → other <+: chars → other.length ≤ text.length

/-! ## Comments -/

/-- Two slashes, or the marker that opens a block comment. -/
def StartsComment (chars : List Char) : Prop :=
  ['/', '/'] <+: chars ∨ ['/', '*'] <+: chars

/--
How many comments more are open behind the parts of a text, which are the markers that open and
close comments and the other characters.  The markers are read from left to right; they do not
overlap.
-/
def depthChanges : List Char → List Int
  | [] => []
  | '*' :: '/' :: rest => -1 :: depthChanges rest
  | '/' :: '*' :: rest => 1 :: depthChanges rest
  | _ :: rest => 0 :: depthChanges rest

/-- All comments are closed at the end of the text, and some comment is open up to there. -/
def IsBlockComment (text : List Char) : Prop :=
  ['/', '*'] <+: text ∧ (depthChanges text).sum = 0 ∧
    ∀ parts, parts <+: depthChanges text → parts ≠ [] → parts ≠ depthChanges text → 0 < parts.sum

/-- Some comment is open up to the end of the text, and there, too. -/
def IsOpenComment (text : List Char) : Prop :=
  ['/', '*'] <+: text ∧ ∀ parts, parts <+: depthChanges text → parts ≠ [] → 0 < parts.sum

/-! ## What is no token -/

/-- A text that means nothing where another one follows. -/
inductive IsTrivia : List Char → List Char → Prop where
  | blank {char : Char} {rest : List Char} (isBlank : isBlank char) : IsTrivia [char] rest
  /-- A comment up to the end of its line. -/
  | lineComment {comment rest : List Char} (within : '\n' ∉ comment)
    (ends : rest = [] ∨ rest.head? = some '\n') : IsTrivia ('/' :: '/' :: comment) rest
  | blockComment {text rest : List Char} (closed : IsBlockComment text) : IsTrivia text rest

/-- A text that is wrong where another one follows. -/
inductive IsFault : LexicalFault → List Char → List Char → Prop where
  /-- A character that is no blank and that no token starts with. -/
  | unexpectedCharacter {char : Char} {rest : List Char} (noBlank : ¬ isBlank char)
    (noQuote : char ≠ '"') (noLexeme : ∀ text, IsLexeme text → ¬ text <+: char :: rest) :
    IsFault .unexpectedCharacter [char] rest
  | unterminatedString {contents : List Char} (unclosed : '"' ∉ contents) :
    IsFault .unterminatedString ('"' :: contents) []
  | unterminatedComment {text : List Char} (unclosed : IsOpenComment text) :
    IsFault .unterminatedComment text []

/-- What holds of a piece of a source text where another text follows. -/
def Piece.Fits (rest : List Char) : Piece → Prop
  | .blank text => IsTrivia text rest
  | .token kind text =>
    kind.IsSpelt text ∧ IsLongest text (text ++ rest) ∧ ¬ StartsComment (text ++ rest)
  | .fault cause _ text => IsFault cause text rest

/-! ## How lexemes start -/

/-- The first character of a token shows of what sort it is. -/
def Kind.CanStartWith (first : Char) : Kind → Prop
  | symbol _ => (Symbol.single? first).isSome
  | keyword _ | identifier => isWordStart first
  | string _ => first = '"'
  | number _ => first.isDigit
  | ending => False

/-- A reserved word is a word. -/
theorem Keyword.exists_toList_text (word : Keyword) :
    ∃ first rest, word.text.toList = first :: rest ∧ isWordStart first ∧
      ∀ char ∈ rest, isWordRest char := by
  cases word <;> exact ⟨_, _, rfl, rfl, List.all_eq_true.mp rfl⟩

/-- A symbol starts with a character that is a symbol by itself. -/
theorem Symbol.exists_toList_text (sign : Symbol) :
    ∃ first rest, sign.text.toList = first :: rest ∧ (single? first).isSome := by
  cases sign <;> exact ⟨_, _, rfl, rfl⟩

theorem Kind.IsSpelt.exists_cons {kind : Kind} {text : List Char} (spelt : kind.IsSpelt text) :
    ∃ first rest, text = first :: rest ∧ kind.CanStartWith first := by
  cases spelt with
  | symbol sign => exact sign.exists_toList_text
  | keyword word =>
    rcases word.exists_toList_text with ⟨first, rest, same, starts, -⟩
    exact ⟨first, rest, same, starts⟩
  | identifier starts => exact ⟨_, _, rfl, starts⟩
  | string => exact ⟨_, _, rfl, rfl⟩
  | @number numeral nonempty whole =>
    rcases List.exists_cons_of_ne_nil nonempty with ⟨first, rest, same⟩
    refine ⟨first, rest ++ Numeral.fractionText numeral.fraction, ?_, ?_⟩
    · rw [Numeral.text, same, List.cons_append]
    · exact whole first (same ▸ List.mem_cons_self)

/-- A lexeme that a text starts with is not empty. -/
theorem Kind.IsSpelt.canStartWith {kind : Kind} {text rest : List Char} {first : Char}
    (spelt : kind.IsSpelt text) (starts : text <+: first :: rest) : kind.CanStartWith first := by
  rcases spelt.exists_cons with ⟨head, others, rfl, can⟩
  rwa [← (List.cons_prefix_cons.mp starts).1]

/-! ## Line breaks -/

/-- No line ends within a word. -/
theorem newlines_word {first : Char} {rest : List Char} (starts : isWordStart first)
    (goesOn : ∀ char ∈ rest, isWordRest char) : newlines (first :: rest) = 0 := by
  apply List.count_eq_zero.mpr
  intro member
  rcases List.mem_cons.mp member with rfl | member
  · cases starts
  · cases goesOn '\n' member

/-- A line ends only within a string literal. -/
theorem Kind.IsSpelt.newlines_eq_zero {kind : Kind} {text : List Char} (spelt : kind.IsSpelt text)
    (noString : ∀ contents, kind ≠ .string contents) : newlines text = 0 := by
  cases spelt with
  | symbol sign => cases sign <;> rfl
  | keyword word =>
    rcases word.exists_toList_text with ⟨first, rest, same, starts, goesOn⟩
    rw [same]
    exact newlines_word starts goesOn
  | identifier starts goesOn => exact newlines_word starts goesOn
  | string => exact (noString _ rfl).elim
  | @number numeral _ whole fraction =>
    apply List.count_eq_zero.mpr
    intro member
    rcases List.mem_append.mp member with isWhole | isFraction
    · cases whole '\n' isWhole
    · cases found : numeral.fraction with
      | nil =>
        rw [found] at isFraction
        cases isFraction
      | cons digit digits =>
        rw [found] at isFraction fraction
        rcases List.mem_cons.mp isFraction with isPoint | isDigit
        · cases isPoint
        · cases fraction '\n' isDigit

/-! ## Kinds by their first characters -/

section

variable {first : Char}

theorem isBlank_cases (blank : isBlank first) :
    first = ' ' ∨ first = '\t' ∨ first = '\r' ∨ first = '\n' := by
  simpa only [isBlank, Bool.or_eq_true, beq_iff_eq, or_assoc] using blank

theorem not_isDigit_of_isBlank (blank : isBlank first) : first.isDigit = false := by
  rcases isBlank_cases blank with rfl | rfl | rfl | rfl <;> rfl

theorem not_isWordRest_of_isBlank (blank : isBlank first) : isWordRest first = false := by
  rcases isBlank_cases blank with rfl | rfl | rfl | rfl <;> rfl

/-- A character that is a symbol by itself starts nothing else. -/
theorem Symbol.isAlone_of_single? (single : (single? first).isSome) :
    isBlank first = false ∧ isWordStart first = false ∧ first.isDigit = false ∧
      first ≠ '"' := by
  unfold single? at single
  split at single <;> first | exact ⟨rfl, rfl, rfl, by decide⟩ | cases single

theorem not_isDigit_of_isWordStart (starts : isWordStart first) : first.isDigit = false := by
  rw [isWordStart, Bool.or_eq_true, beq_iff_eq] at starts
  rcases starts with isAlpha | rfl
  · simp only [Char.isAlpha, Char.isUpper, Char.isLower, Bool.or_eq_true, Bool.and_eq_true,
      decide_eq_true_eq, ge_iff_le, UInt32.le_iff_toNat_le] at isAlpha
    simp only [Char.isDigit, Bool.and_eq_false_iff, decide_eq_false_iff_not, ge_iff_le,
      UInt32.le_iff_toNat_le]
    have upperA : 'A'.val.toNat = 65 := rfl
    have lowerA : 'a'.val.toNat = 97 := rfl
    have nine : '9'.val.toNat = 57 := rfl
    omega
  · rfl

variable {kind : Kind}

theorem Kind.CanStartWith.of_isDigit (can : kind.CanStartWith first) (isDigit : first.isDigit) :
    ∃ value, kind = .number value := by
  cases kind with
  | symbol => rw [(Symbol.isAlone_of_single? can).2.2.1] at isDigit; cases isDigit
  | keyword => rw [not_isDigit_of_isWordStart can] at isDigit; cases isDigit
  | identifier => rw [not_isDigit_of_isWordStart can] at isDigit; cases isDigit
  | string => rw [show first = '"' from can] at isDigit; cases isDigit
  | number value => exact ⟨value, rfl⟩
  | ending => exact can.elim

theorem Kind.CanStartWith.of_isWordStart (can : kind.CanStartWith first)
    (starts : isWordStart first) : kind = .identifier ∨ ∃ word, kind = .keyword word := by
  cases kind with
  | symbol => rw [(Symbol.isAlone_of_single? can).2.1] at starts; cases starts
  | keyword word => exact .inr ⟨word, rfl⟩
  | identifier => exact .inl rfl
  | string => rw [show first = '"' from can] at starts; cases starts
  | number => exact absurd can (Bool.eq_false_iff.mp (not_isDigit_of_isWordStart starts))
  | ending => exact can.elim

theorem Kind.CanStartWith.of_quote (can : kind.CanStartWith '"') :
    ∃ contents, kind = .string contents := by
  cases kind with
  | symbol => cases can
  | keyword => cases can
  | identifier => cases can
  | string contents => exact ⟨contents, rfl⟩
  | number => cases can
  | ending => exact can.elim

theorem Kind.CanStartWith.of_other (can : kind.CanStartWith first) (noDigit : ¬ first.isDigit)
    (noWord : ¬ isWordStart first) (noQuote : first ≠ '"') : ∃ sign, kind = .symbol sign := by
  cases kind with
  | symbol sign => exact ⟨sign, rfl⟩
  | keyword => exact (noWord can).elim
  | identifier => exact (noWord can).elim
  | string => exact (noQuote can).elim
  | number => exact (noDigit can).elim
  | ending => exact can.elim

end

end Lox
