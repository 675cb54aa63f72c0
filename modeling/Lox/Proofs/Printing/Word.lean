import Lox.Proofs.Source.Spacing
import Lox.Tree.Printer

/-!
# Printed words

The words of a printed tree, which are symbols, reserved words, names and numbers, have no space,
bracket or quote in them (`Word.isPlain_of_isFit`).  They can be told from one another if the
numbers can (`Word.eq_of_text_eq`).
-/

namespace Lox

/-! ## Plain characters -/

/-- The characters of printed words: others than spaces, brackets and quotes. -/
def isPlain (char : Char) : Bool :=
  !([' ', '(', ')', '{', '}', '"'].contains char)

theorem isPlain_of_all {char : Char} {goesOn : Char → Bool} (holds : goesOn char)
    (stops : [' ', '(', ')', '{', '}', '"'].all (!goesOn ·)) : isPlain char := by
  rw [isPlain, Bool.not_eq_true', List.contains_eq_mem, decide_eq_false_iff_not]
  intro member
  have stops := List.all_eq_true.mp stops char member
  rw [holds] at stops
  cases stops

theorem isPlain_of_isWordRest {char : Char} (goesOn : isWordRest char) : isPlain char :=
  isPlain_of_all goesOn rfl

theorem isPlain_of_isWordStart {char : Char} (starts : isWordStart char) : isPlain char :=
  isPlain_of_all starts rfl

theorem isPlain_of_isDigit {char : Char} (isDigit : char.isDigit) : isPlain char :=
  isPlain_of_all isDigit rfl

/-- Words are plain. -/
theorem isPlain_word {first : Char} {rest : List Char} (starts : isWordStart first)
    (goesOn : ∀ char ∈ rest, isWordRest char) : ∀ char ∈ first :: rest, isPlain char :=
  List.forall_mem_cons.mpr ⟨isPlain_of_isWordStart starts,
    fun char member => isPlain_of_isWordRest (goesOn char member)⟩

theorem isPlain_identifier {text : List Char} (spelt : Kind.IsSpelt .identifier text) :
    ∀ char ∈ text, isPlain char := by
  cases spelt with
  | identifier starts goesOn => exact isPlain_word starts goesOn

/-! ## Numbers -/

namespace Decimal

theorem isDigit_of_mem_digits {decimal : Decimal} :
    ∀ digit ∈ decimal.digits, digit.isDigit :=
  fun _ => Nat.isDigit_of_mem_toDigits (by decide) (by decide)

/-- A text that starts with a digit and goes on with plain characters. -/
def IsNumeric (text : List Char) : Prop :=
  ∃ digit rest, text = digit :: rest ∧ digit.isDigit ∧ ∀ char ∈ rest, isPlain char

/-- Digits at the start make a text of plain characters numeric. -/
theorem isNumeric_append {digits rest : List Char} (nonempty : digits ≠ [])
    (areDigits : ∀ digit ∈ digits, digit.isDigit) (plain : ∀ char ∈ rest, isPlain char) :
    IsNumeric (digits ++ rest) := by
  rcases List.exists_cons_of_ne_nil nonempty with ⟨digit, others, rfl⟩
  rcases List.forall_mem_cons.mp areDigits with ⟨isDigit, othersDigits⟩
  refine ⟨digit, others ++ rest, rfl, isDigit, List.forall_mem_append.mpr ⟨?_, plain⟩⟩
  exact fun char member => isPlain_of_isDigit (othersDigits char member)

theorem digits_ne_nil (decimal : Decimal) : decimal.digits ≠ [] :=
  Nat.toDigits_ne_nil

theorem isPlain_digits (decimal : Decimal) : ∀ digit ∈ decimal.digits, isPlain digit :=
  fun digit member => isPlain_of_isDigit (isDigit_of_mem_digits digit member)

theorem isPlain_zeros (count : Nat) : ∀ zero ∈ List.replicate count '0', isPlain zero := by
  intro zero member
  rw [List.eq_of_mem_replicate member]
  rfl

theorem isNumeric_positional (decimal : Decimal) : IsNumeric (decimal.positional false) := by
  rw [positional]
  split
  · rw [List.append_assoc]
    apply isNumeric_append decimal.digits_ne_nil isDigit_of_mem_digits
    rw [if_neg (by decide), List.append_nil]
    exact isPlain_zeros _
  · next less _ =>
    dsimp only
    split
    · next more =>
      apply isNumeric_append
      · rw [← List.length_pos_iff, List.length_take]
        omega
      · exact fun digit member => isDigit_of_mem_digits digit (List.mem_of_mem_take member)
      · refine List.forall_mem_cons.mpr ⟨rfl, fun digit member => ?_⟩
        exact isPlain_digits _ digit (List.mem_of_mem_drop member)
    · refine ⟨'0', _, rfl, rfl, List.forall_mem_cons.mpr ⟨rfl, ?_⟩⟩
      exact List.forall_mem_append.mpr ⟨isPlain_zeros _, isPlain_digits _⟩

theorem isPlain_exponentText (exponent : Int) :
    ∀ char ∈ exponentText false exponent, isPlain char := by
  have digits (size : Nat) : ∀ char ∈ Nat.toDigits 10 size, isPlain char := fun char member =>
    isPlain_of_isDigit (Nat.isDigit_of_mem_toDigits (by decide) (by decide) member)
  cases exponent with
  | ofNat size => exact digits size
  | negSucc less => exact List.forall_mem_cons.mpr ⟨rfl, digits _⟩

theorem isNumeric_scientific (decimal : Decimal) :
    IsNumeric (decimal.scientific 'E' false true) := by
  rw [scientific, List.append_assoc]
  apply isNumeric_append
  · rw [← List.length_pos_iff, List.length_take]
    have := List.length_pos_iff.mpr decimal.digits_ne_nil
    omega
  · exact fun digit member => isDigit_of_mem_digits digit (List.mem_of_mem_take member)
  · rw [List.forall_mem_append]
    refine ⟨?_, List.forall_mem_cons.mpr ⟨rfl, isPlain_exponentText _⟩⟩
    split
    · exact List.forall_mem_cons.mpr ⟨rfl, List.forall_mem_singleton.mpr rfl⟩
    · next others =>
      refine List.forall_mem_cons.mpr ⟨rfl, fun digit member => ?_⟩
      exact isPlain_digits _ digit (List.mem_of_mem_tail member)

end Decimal

/-- A number that is neither infinite nor no number at all. -/
def IsFinite (number : Float) : Prop :=
  number.isNaN = false ∧ number.isInf = false

/-- The text of a finite number is numeric, perhaps behind a sign. -/
theorem isNumeric_displayNumber {number : Float} (finite : IsFinite number) :
    Decimal.IsNumeric (displayNumber number).toList ∨
      ∃ text, (displayNumber number).toList = '-' :: text ∧ Decimal.IsNumeric text := by
  have magnitude : Decimal.IsNumeric (if number == 0 then NumberFormat.display.zero
      else NumberFormat.display.magnitudeText number).toList := by
    split
    · exact ⟨'0', [], rfl, rfl, List.forall_mem_nil _⟩
    · rw [NumberFormat.magnitudeText, String.toList_ofList]
      split
      · exact Decimal.isNumeric_positional _
      · exact Decimal.isNumeric_scientific _
  rw [displayNumber, NumberFormat.write, finite.1, finite.2, if_neg (by decide),
    if_neg (by decide), String.toList_append]
  split
  · exact .inr ⟨_, rfl, magnitude⟩
  · exact .inl magnitude

/-! ## Words -/

/-- A word of a printed tree. -/
inductive Word where
  | symbol (sign : Symbol)
  | keyword (word : Keyword)
  | name (text : String)
  | number (value : Float)

/-- How a word is printed. -/
@[simp]
def Word.text : Word → String
  | symbol sign => sign.text
  | keyword word => word.text
  | name text => text
  | number value => displayNumber value

/-- Finite numbers of which no two are printed alike. -/
structure AreLegible (numbers : Float → Prop) : Prop where
  finite : ∀ number, numbers number → IsFinite number
  distinct : ∀ first second, numbers first → numbers second →
    displayNumber first = displayNumber second → first = second

/-- A word may be in a tree with these numbers. -/
def Word.IsFit (numbers : Float → Prop) : Word → Prop
  | symbol sign => ∀ char ∈ sign.text.toList, isPlain char
  | keyword _ => True
  | name text => Kind.IsSpelt .identifier text.toList
  | number value => numbers value

/-- A text spells one token only. -/
theorem Kind.IsSpelt.unique {first second : Kind} {text : List Char} (spelt : first.IsSpelt text)
    (spelt' : second.IsSpelt text) : first = second := by
  have atEnd : StartsBlank [] := fun _ impossible => by cases impossible
  have read := spelt.pieces_append atEnd
  rw [spelt'.pieces_append atEnd] at read
  cases read
  rfl

namespace Word

variable {numbers : Float → Prop}

theorem toList_text_ne_nil (legible : AreLegible numbers) {word : Word} (fit : word.IsFit numbers) :
    word.text.toList ≠ [] := by
  cases word with
  | symbol sign =>
    rcases sign.exists_toList_text with ⟨first, rest, same, -⟩
    exact fun none => List.cons_ne_nil _ _ (same.symm.trans none)
  | keyword word =>
    rcases word.exists_toList_text with ⟨first, rest, same, -⟩
    exact fun none => List.cons_ne_nil _ _ (same.symm.trans none)
  | name text =>
    rcases Kind.IsSpelt.exists_cons fit with ⟨first, rest, same, -⟩
    exact fun none => List.cons_ne_nil _ _ (same.symm.trans none)
  | number value =>
    rcases isNumeric_displayNumber (legible.finite value fit) with
      ⟨digit, rest, same, -⟩ | ⟨text, same, -⟩
    · exact fun none => List.cons_ne_nil _ _ (same.symm.trans none)
    · exact fun none => List.cons_ne_nil _ _ (same.symm.trans none)

/-- A token that is spelt like a finite number is a number. -/
theorem exists_number_of_isSpelt {kind : Kind} {number : Float} (finite : IsFinite number)
    (spelt : kind.IsSpelt (displayNumber number).toList) : ∃ value, kind = .number value := by
  rcases isNumeric_displayNumber finite with
    ⟨digit, rest, same, isDigit, -⟩ | ⟨text, same, digit, rest, rfl, isDigit, -⟩
  · rw [same] at spelt
    exact (spelt.canStartWith (List.prefix_refl _)).of_isDigit isDigit
  · rw [same] at spelt
    have can := spelt.canStartWith (List.prefix_refl _)
    rcases can.of_other (by decide) (by decide) (by decide) with ⟨sign, rfl⟩
    -- No symbol is a minus sign with a digit behind it.
    generalize isText : '-' :: digit :: rest = chars at spelt
    cases spelt with
    | symbol =>
      rcases sign.toList_text_cases with ⟨first, one, -⟩ | ⟨first, two, -⟩
      · rw [one] at isText
        cases isText
      · rw [two] at isText
        cases isText
        cases isDigit

/-- The token that is spelt like a word that is no number. -/
def kind? : Word → Option Kind
  | symbol sign => some (.symbol sign)
  | keyword word => some (.keyword word)
  | name _ => some .identifier
  | number _ => none

theorem isSpelt_of_kind? {word : Word} {kind : Kind} (fit : word.IsFit numbers)
    (found : word.kind? = some kind) : kind.IsSpelt word.text.toList := by
  cases word with
  | symbol sign => cases found; exact .symbol sign
  | keyword word => cases found; exact .keyword word
  | name => cases found; exact fit
  | number => cases found

/-- Words that are printed alike are the same. -/
theorem eq_of_text_eq (legible : AreLegible numbers) {first second : Word}
    (fit : first.IsFit numbers) (fit' : second.IsFit numbers) (same : first.text = second.text) :
    first = second := by
  have noNumber {word : Word} {value : Float} (fit : word.IsFit numbers) (isOther : numbers value)
      (same : word.text = displayNumber value) : word.kind? = none := by
    by_contra found
    rcases Option.ne_none_iff_exists'.mp found with ⟨kind, isKind⟩
    have spelt := isSpelt_of_kind? fit isKind
    rw [same] at spelt
    rcases exists_number_of_isSpelt (legible.finite value isOther) spelt with ⟨other, rfl⟩
    cases word <;> cases isKind
  cases first with
  | number value =>
    have none := noNumber fit' fit same.symm
    cases second with
    | number value' => rw [legible.distinct value value' fit fit' same]
    | _ => cases none
  | _ =>
    cases second with
    | number value =>
      have none := noNumber fit fit' same
      cases none
    | _ =>
      have spelt := isSpelt_of_kind? fit rfl
      have spelt' := isSpelt_of_kind? fit' rfl
      rw [← same] at spelt'
      cases spelt.unique spelt' <;> first | rfl | exact congrArg name same

/-- There is no space, bracket or quote in a word. -/
theorem isPlain_of_isFit (legible : AreLegible numbers) {word : Word} (fit : word.IsFit numbers) :
    ∀ char ∈ word.text.toList, isPlain char := by
  have numeric {text : List Char} (isNumeric : Decimal.IsNumeric text) :
      ∀ char ∈ text, isPlain char := by
    rcases isNumeric with ⟨digit, rest, rfl, isDigit, plain⟩
    exact List.forall_mem_cons.mpr ⟨isPlain_of_isDigit isDigit, plain⟩
  cases word with
  | symbol sign => exact fit
  | keyword word =>
    rcases word.exists_toList_text with ⟨first, rest, same, starts, goesOn⟩
    rw [text, same]
    exact isPlain_word starts goesOn
  | name => exact isPlain_identifier fit
  | number value =>
    rcases isNumeric_displayNumber (legible.finite value fit) with
      isNumeric | ⟨rest, same, isNumeric⟩
    · exact numeric isNumeric
    · rw [text, same]
      exact List.forall_mem_cons.mpr ⟨rfl, numeric isNumeric⟩

end Word

end Lox
