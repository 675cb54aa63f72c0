import Lox.Decimal.Layout
import Lox.Proofs.Source.Replacing
import Mathlib.Algebra.Order.Field.Rat
import Mathlib.Algebra.Order.Field.Power
import Mathlib.Tactic.Ring

/-!
# Decimal texts denote numbers

What decimal number a text denotes, in positional or in scientific notation (`Decimal.read?`), and
what such texts look like (`Decimal.IsPositional`, `Decimal.IsScientific`).  A decimal that is
written is read as the same number, in either notation (`read?_positional`, `read?_scientific`).
-/

namespace Lox

/-! ## Digits -/

/-- One or more digits. -/
structure AreDigits (text : List Char) : Prop where
  ne_nil : text ≠ []
  isDigit : ∀ digit ∈ text, digit.isDigit

theorem areDigits_toDigits (size : Nat) : AreDigits (Nat.toDigits 10 size) :=
  ⟨Nat.toDigits_ne_nil, fun _ => Nat.isDigit_of_mem_toDigits (by decide) (by decide)⟩

/-- A positive number does not start with zero. -/
theorem head?_toDigits {size : Nat} (positive : 0 < size) :
    (Nat.toDigits 10 size).head? ≠ some '0' := by
  induction size using Nat.strong_induction_on with
  | _ size induction =>
    rw [Nat.toDigits_eq_if (by decide)]
    split
    · next small =>
      interval_cases size <;> decide
    · next large =>
      have more := induction (size / 10) (by omega) (by omega)
      rw [List.head?_append]
      cases found : (Nat.toDigits 10 (size / 10)).head? with
      | none => exact absurd (List.head?_eq_none_iff.mp found) Nat.toDigits_ne_nil
      | some first =>
        rw [found] at more
        exact more

/-- A number that is not divisible by ten does not end with zero. -/
theorem getLast?_toDigits {size : Nat} (ends : size % 10 ≠ 0) :
    (Nat.toDigits 10 size).getLast? ≠ some '0' := by
  have last : (Nat.toDigits 10 size).getLast? = some (Nat.digitChar (size % 10)) := by
    rw [Nat.toDigits_eq_if (by decide)]
    split
    · next small =>
      rw [Nat.mod_eq_of_lt small]
      rfl
    · rw [List.getLast?_append]
      rfl
  have bound : size % 10 < 10 := Nat.mod_lt _ (by decide)
  rw [last]
  generalize size % 10 = digit at ends bound
  interval_cases digit <;> revert ends <;> decide

namespace Decimal

/-! ## Reading -/

/-- Whether a text begins with a minus sign, and what is behind it. -/
def readSign : List Char → Bool × List Char
  | '-' :: rest => (true, rest)
  | rest => (false, rest)

/-- The digits at the beginning of a text, and what is behind them. -/
def readDigits (text : List Char) : List Char × List Char :=
  (text.takeWhile Char.isDigit, text.dropWhile Char.isDigit)

/-- The digits behind a point, if there is one, and what is behind them. -/
def readFraction : List Char → List Char × List Char
  | '.' :: rest => readDigits rest
  | rest => ([], rest)

/-- A whole number, perhaps behind a minus sign. -/
def readInteger? (text : List Char) : Option Int :=
  let (isNegative, digits) := readSign text
  if digits ≠ [] ∧ digits.all Char.isDigit then
    let size : Nat := Nat.ofDigitChars 10 digits 0
    some (if isNegative then -size else size)
  else
    none

/-- The power of ten behind the mark of scientific notation; without the mark it is zero. -/
def readExponent? : List Char → Option Int
  | [] => some 0
  | 'E' :: rest => readInteger? rest
  | _ => none

/-- The number that a text denotes: whether it has a minus sign, and its magnitude. -/
def read? (text : List Char) : Option (Bool × Decimal) :=
  let (isNegative, unsigned) := readSign text
  let (whole, afterWhole) := readDigits unsigned
  let (fraction, afterFraction) := readFraction afterWhole
  match whole, readExponent? afterFraction with
  | [], _ => none
  | _, none => none
  | _, some exponent =>
    some (isNegative,
      ⟨Nat.ofDigitChars 10 (whole ++ fraction) 0, exponent - fraction.length⟩)

/-- A minus sign, if a number has one. -/
def signText (isNegative : Bool) : List Char :=
  if isNegative then ['-'] else []

/-- A fraction behind a point, or nothing. -/
def fractionText (fraction : List Char) : List Char :=
  if fraction = [] then [] else '.' :: fraction

theorem readSign_digits {text : List Char} (digits : ∀ digit ∈ text.head?, digit.isDigit)
    (isNegative : Bool) : readSign (signText isNegative ++ text) = (isNegative, text) := by
  cases isNegative with
  | true => rfl
  | false =>
    show readSign text = _
    rw [readSign.eq_def]
    split
    · exact absurd (digits '-' rfl) (by decide)
    · rfl

theorem readInteger?_signText (isNegative : Bool) (size : Nat) :
    readInteger? (signText isNegative ++ Nat.toDigits 10 size) =
      some (if isNegative then -(size : Int) else size) := by
  have digits := areDigits_toDigits size
  have sign := readSign_digits (fun digit isFirst => digits.isDigit digit
    (List.mem_of_mem_head? isFirst)) isNegative
  rw [readInteger?, sign]
  dsimp only
  rw [if_pos ⟨digits.ne_nil, List.all_eq_true.mpr digits.isDigit⟩, Nat.ofDigitChars_ten_toDigits]

theorem readExponent?_exponentText (exponent : Int) :
    readExponent? ('E' :: exponentText false exponent) = some exponent := by
  cases exponent with
  | ofNat size => exact readInteger?_signText false size
  | negSucc less => exact readInteger?_signText true (less + 1)

/-- What a text denotes that consists of these parts. -/
theorem read?_append (isNegative : Bool) {whole fraction behind : List Char} {exponent : Int}
    (digits : AreDigits whole) (others : ∀ digit ∈ fraction, digit.isDigit)
    (marked : behind = [] ∨ ∃ rest, behind = 'E' :: rest)
    (power : readExponent? behind = some exponent) :
    read? (signText isNegative ++ (whole ++ (fractionText fraction ++ behind))) =
      some (isNegative,
        ⟨Nat.ofDigitChars 10 (whole ++ fraction) 0, exponent - fraction.length⟩) := by
  have stops : Stops Char.isDigit behind := by
    rcases marked with rfl | ⟨rest, rfl⟩
    · intro char impossible
      cases impossible
    · rintro char ⟨⟩
      rfl
  have stopsAtPoint : Stops Char.isDigit (fractionText fraction ++ behind) := by
    rw [fractionText]
    split
    · exact stops
    · rintro char ⟨⟩
      rfl
  have readsFraction : readFraction (fractionText fraction ++ behind) = (fraction, behind) := by
    rw [fractionText]
    split
    · next isNil =>
      rcases marked with rfl | ⟨rest, rfl⟩ <;> rw [isNil] <;> rfl
    · show readDigits (fraction ++ behind) = _
      rw [readDigits, stops.takeWhile_append others, stops.dropWhile_append others]
  obtain ⟨first, rest, rfl⟩ := List.exists_cons_of_ne_nil digits.ne_nil
  have startsWithDigit : ∀ digit ∈ (first :: rest ++ (fractionText fraction ++ behind)).head?,
      digit.isDigit := by
    rintro digit ⟨⟩
    exact digits.isDigit first List.mem_cons_self
  have sign := readSign_digits startsWithDigit isNegative
  rw [read?, sign]
  dsimp only
  rw [readDigits, stopsAtPoint.takeWhile_append digits.isDigit,
    stopsAtPoint.dropWhile_append digits.isDigit]
  dsimp only
  rw [readsFraction]
  dsimp only
  rw [power]

/-! ## The digits of decimals -/

variable (decimal : Decimal)

theorem areDigits_digits : AreDigits decimal.digits :=
  areDigits_toDigits decimal.coefficient

theorem ofDigitChars_digits : Nat.ofDigitChars 10 decimal.digits 0 = decimal.coefficient :=
  Nat.ofDigitChars_ten_toDigits

/-! ## Positional notation -/

/--
Positional notation: digits, perhaps with a fraction behind a point that does not end with zero.
-/
def IsPositional (text : List Char) : Prop :=
  ∃ (isNegative : Bool) (whole fraction : List Char),
    text = signText isNegative ++ (whole ++ fractionText fraction) ∧ AreDigits whole ∧
      (∀ digit ∈ fraction, digit.isDigit) ∧ fraction.getLast? ≠ some '0'

/-- The digits before and behind the point. -/
def parts : List Char × List Char :=
  match decimal.exponent with
  | .ofNat zeros => (decimal.digits ++ List.replicate zeros '0', [])
  | .negSucc less =>
    if less + 1 < decimal.digits.length then
      (decimal.digits.take (decimal.digits.length - (less + 1)),
        decimal.digits.drop (decimal.digits.length - (less + 1)))
    else
      (['0'], List.replicate (less + 1 - decimal.digits.length) '0' ++ decimal.digits)

theorem positional_eq : decimal.positional false = decimal.parts.1 ++ fractionText decimal.parts.2 := by
  rw [positional, parts]
  cases decimal.exponent with
  | ofNat zeros => rfl
  | negSucc less =>
    dsimp only
    split
    · next more =>
      have isLonger : decimal.digits.drop (decimal.digits.length - (less + 1)) ≠ [] := by
        rw [Ne, List.drop_eq_nil_iff]
        omega
      rw [fractionText, if_neg isLonger]
    · have isLonger : List.replicate (less + 1 - decimal.digits.length) '0' ++ decimal.digits ≠
          [] := List.append_ne_nil_of_right_ne_nil _ decimal.areDigits_digits.ne_nil
      rw [fractionText, if_neg isLonger]
      rfl

theorem isDigit_zeros (count : Nat) : ∀ digit ∈ List.replicate count '0', digit.isDigit := by
  intro digit member
  rw [List.eq_of_mem_replicate member]
  rfl

theorem areDigits_parts : AreDigits decimal.parts.1 ∧
    ∀ digit ∈ decimal.parts.2, digit.isDigit := by
  have digits := decimal.areDigits_digits
  rw [parts]
  cases decimal.exponent with
  | ofNat zeros =>
    refine ⟨⟨List.append_ne_nil_of_left_ne_nil digits.ne_nil _, ?_⟩, List.forall_mem_nil _⟩
    exact List.forall_mem_append.mpr ⟨digits.isDigit, isDigit_zeros zeros⟩
  | negSucc less =>
    dsimp only
    split
    · next more =>
      refine ⟨⟨?_, fun digit member => digits.isDigit digit (List.mem_of_mem_take member)⟩,
        fun digit member => digits.isDigit digit (List.mem_of_mem_drop member)⟩
      rw [← List.length_pos_iff, List.length_take]
      omega
    · refine ⟨⟨List.cons_ne_nil _ _, List.forall_mem_singleton.mpr rfl⟩, ?_⟩
      exact List.forall_mem_append.mpr ⟨isDigit_zeros _, digits.isDigit⟩

/-- The parts denote the decimal. -/
theorem value_parts :
    Decimal.value ⟨Nat.ofDigitChars 10 (decimal.parts.1 ++ decimal.parts.2) 0,
      0 - decimal.parts.2.length⟩ = decimal.value := by
  have digits := decimal.ofDigitChars_digits
  rw [value, value, parts]
  cases decimal.exponent with
  | ofNat zeros =>
    show ((Nat.ofDigitChars 10 (decimal.digits ++ List.replicate zeros '0' ++ []) 0 : Nat) : Rat) *
      10 ^ (0 : Int) = decimal.coefficient * 10 ^ (zeros : Int)
    rw [List.append_nil, Nat.ofDigitChars_append, digits, Nat.ofDigitChars_replicate_zero, zpow_zero,
      zpow_natCast]
    push_cast
    ring
  | negSucc less =>
    have exponent : 0 - ((less + 1 : Nat) : Int) = Int.negSucc less := by omega
    dsimp only
    split
    · next more =>
      have length : (decimal.digits.drop (decimal.digits.length - (less + 1))).length = less + 1 := by
        rw [List.length_drop]
        omega
      rw [List.take_append_drop, digits, length, exponent]
    · next less' =>
      have length : (List.replicate (less + 1 - decimal.digits.length) '0' ++
          decimal.digits).length = less + 1 := by
        rw [List.length_append, List.length_replicate]
        omega
      have zeros : Nat.ofDigitChars 10 (['0'] ++
          (List.replicate (less + 1 - decimal.digits.length) '0' ++ decimal.digits)) 0 =
          decimal.coefficient := by
        rw [List.singleton_append, Nat.ofDigitChars_cons, Nat.ofDigitChars_append,
          Nat.ofDigitChars_replicate_zero]
        exact digits
      rw [zeros, length, exponent]

/-- A fraction ends with the last digit of the decimal. -/
theorem getLast?_parts (ends : decimal.coefficient % 10 ≠ 0) :
    decimal.parts.2.getLast? ≠ some '0' := by
  have last : decimal.digits.getLast? ≠ some '0' := getLast?_toDigits ends
  rw [parts]
  cases decimal.exponent with
  | ofNat zeros => exact fun impossible => by cases impossible
  | negSucc less =>
    dsimp only
    split
    · rw [List.getLast?_drop]
      split
      · exact fun impossible => by cases impossible
      · exact last
    · rw [List.getLast?_append, List.getLast?_eq_some_getLast decimal.areDigits_digits.ne_nil]
      rwa [List.getLast?_eq_some_getLast decimal.areDigits_digits.ne_nil] at last

theorem isPositional_positional (isNegative : Bool) (ends : decimal.coefficient % 10 ≠ 0) :
    IsPositional (signText isNegative ++ decimal.positional false) :=
  ⟨isNegative, decimal.parts.1, decimal.parts.2, by rw [positional_eq],
    decimal.areDigits_parts.1, decimal.areDigits_parts.2, decimal.getLast?_parts ends⟩

/-- Positional notation is read as the number that is written. -/
theorem read?_positional (isNegative : Bool) :
    ∃ denoted, read? (signText isNegative ++ decimal.positional false) =
      some (isNegative, denoted) ∧ denoted.value = decimal.value := by
  have reads := read?_append isNegative decimal.areDigits_parts.1 decimal.areDigits_parts.2
    (.inl rfl) (show readExponent? [] = some 0 from rfl)
  rw [List.append_nil, ← positional_eq] at reads
  exact ⟨_, reads, decimal.value_parts⟩

/-! ## Scientific notation -/

/--
Scientific notation: one digit that is not zero, a fraction behind a point, the mark and the
exponent, which has no plus sign and does not start with zero.
-/
def IsScientific (text : List Char) : Prop :=
  ∃ (isNegative : Bool) (first : Char) (fraction : List Char) (isSmall : Bool)
    (exponent : List Char),
    text = signText isNegative ++
        ([first] ++ ('.' :: fraction ++ 'E' :: (signText isSmall ++ exponent))) ∧
      first.isDigit ∧ first ≠ '0' ∧ AreDigits fraction ∧ AreDigits exponent ∧
        exponent.head? ≠ some '0'

/-- The digits behind the point of scientific notation. -/
def behindFirst : List Char :=
  if decimal.digits.tail = [] then ['0'] else decimal.digits.tail

theorem scientific_eq : decimal.scientific 'E' false true =
    decimal.digits.take 1 ++ (fractionText decimal.behindFirst ++
      'E' :: exponentText false (decimal.magnitude - 1)) := by
  rw [scientific, behindFirst, List.append_assoc]
  cases decimal.digits.tail with
  | nil => rfl
  | cons digit others => rfl

theorem areDigits_behindFirst : AreDigits decimal.behindFirst := by
  rw [behindFirst]
  split
  · exact ⟨List.cons_ne_nil _ _, List.forall_mem_singleton.mpr rfl⟩
  · next more =>
    exact ⟨more, fun digit member => decimal.areDigits_digits.isDigit digit
      (List.mem_of_mem_tail member)⟩

theorem exists_digits_eq_cons : ∃ first others, decimal.digits = first :: others :=
  List.exists_cons_of_ne_nil decimal.areDigits_digits.ne_nil

/-- Scientific notation is read as the number that is written. -/
theorem read?_scientific (isNegative : Bool) :
    ∃ denoted, read? (signText isNegative ++ decimal.scientific 'E' false true) =
      some (isNegative, denoted) ∧ denoted.value = decimal.value := by
  obtain ⟨first, others, split⟩ := decimal.exists_digits_eq_cons
  have isDigit : first.isDigit :=
    decimal.areDigits_digits.isDigit first (split ▸ List.mem_cons_self)
  have whole : AreDigits (decimal.digits.take 1) := by
    rw [split]
    exact ⟨List.cons_ne_nil _ _, List.forall_mem_singleton.mpr isDigit⟩
  have reads := read?_append isNegative whole decimal.areDigits_behindFirst.isDigit
    (.inr ⟨_, rfl⟩) (readExponent?_exponentText (decimal.magnitude - 1))
  rw [← scientific_eq] at reads
  refine ⟨_, reads, ?_⟩
  have digits := decimal.ofDigitChars_digits
  rw [value, value, magnitude, behindFirst, split]
  rw [split] at digits
  cases others with
  | nil =>
    -- The zero behind the point is one digit more.
    have coefficient : Nat.ofDigitChars 10 ([first] ++ ['0']) 0 = 10 * decimal.coefficient := by
      rw [Nat.ofDigitChars_append, digits]
      rfl
    have exponent : ((1 : Nat) : Int) + decimal.exponent - 1 - ((1 : Nat) : Int) =
        decimal.exponent - 1 := by omega
    show ((Nat.ofDigitChars 10 ([first] ++ ['0']) 0 : Nat) : Rat) *
      10 ^ (((1 : Nat) : Int) + decimal.exponent - 1 - ((1 : Nat) : Int)) = _
    rw [coefficient, exponent, zpow_sub₀ (by norm_num), zpow_one]
    push_cast
    ring
  | cons second rest =>
    have exponent : (((first :: second :: rest).length : Nat) : Int) + decimal.exponent - 1 -
        ((second :: rest).length : Nat) = decimal.exponent := by
      simp only [List.length_cons]
      omega
    show ((Nat.ofDigitChars 10 (first :: second :: rest) 0 : Nat) : Rat) *
      10 ^ ((((first :: second :: rest).length : Nat) : Int) + decimal.exponent - 1 -
        ((second :: rest).length : Nat)) = _
    rw [digits, exponent]

/-- An exponent that is not zero is a number, perhaps behind a minus sign. -/
theorem exists_exponentText {exponent : Int} (notZero : exponent ≠ 0) :
    ∃ (isSmall : Bool) (size : Nat), 0 < size ∧
      exponentText false exponent = signText isSmall ++ Nat.toDigits 10 size := by
  cases exponent with
  | ofNat size =>
    refine ⟨false, size, Nat.pos_of_ne_zero ?_, rfl⟩
    rintro rfl
    exact notZero rfl
  | negSucc less => exact ⟨true, less + 1, Nat.succ_pos less, rfl⟩

theorem isScientific_scientific (isNegative : Bool) (positive : 0 < decimal.coefficient)
    (apart : decimal.magnitude ≠ 1) :
    IsScientific (signText isNegative ++ decimal.scientific 'E' false true) := by
  obtain ⟨first, others, split⟩ := decimal.exists_digits_eq_cons
  obtain ⟨isSmall, size, size_pos, exponent⟩ := exists_exponentText (sub_ne_zero.mpr apart)
  have fraction := decimal.areDigits_behindFirst
  refine ⟨isNegative, first, decimal.behindFirst, isSmall, Nat.toDigits 10 size, ?_, ?_, ?_,
    fraction, areDigits_toDigits size, head?_toDigits size_pos⟩
  · rw [scientific_eq, split, exponent, fractionText, if_neg fraction.ne_nil]
    rfl
  · exact decimal.areDigits_digits.isDigit first (split ▸ List.mem_cons_self)
  · have starts : decimal.digits.head? ≠ some '0' := head?_toDigits positive
    rw [split] at starts
    exact fun isZero => starts (congrArg some isZero)

/-! ## Both notations -/

theorem not_mem_signText (isNegative : Bool) : 'E' ∉ signText isNegative := by
  cases isNegative <;> decide

/-- No text is in both notations. -/
theorem not_isScientific {text : List Char} (positional : IsPositional text) :
    ¬IsScientific text := by
  have noDigit : ∀ {digits : List Char}, (∀ digit ∈ digits, digit.isDigit) → 'E' ∉ digits :=
    fun digits member => absurd (digits 'E' member) (by decide)
  obtain ⟨isNegative, whole, fraction, rfl, isWhole, isFraction, -⟩ := positional
  rintro ⟨isNegative', first, fraction', isSmall, exponent, same, -⟩
  have marked : 'E' ∈ signText isNegative ++ (whole ++ fractionText fraction) := by
    rw [same]
    simp
  rcases List.mem_append.mp marked with sign | rest
  · exact not_mem_signText isNegative sign
  · rcases List.mem_append.mp rest with inWhole | inFraction
    · exact noDigit isWhole.isDigit inWhole
    · rw [fractionText] at inFraction
      split at inFraction
      · cases inFraction
      · rcases List.mem_cons.mp inFraction with impossible | inside
        · exact absurd impossible (by decide)
        · exact noDigit isFraction inside

/-- The magnitude of a decimal is the place of its first digit. -/
theorem value_bounds (positive : 0 < decimal.coefficient) :
    (10 : Rat) ^ (decimal.magnitude - 1) ≤ decimal.value ∧
      decimal.value < 10 ^ decimal.magnitude := by
  have someDigit : 0 < decimal.digits.length := Nat.length_toDigits_pos
  have step_pos : (0 : Rat) < 10 ^ decimal.exponent := zpow_pos (by norm_num) _
  have small : decimal.coefficient < 10 ^ decimal.digits.length :=
    (Nat.length_toDigits_le_iff (by decide) someDigit).mp (le_refl _)
  have large : 10 ^ (decimal.digits.length - 1) ≤ decimal.coefficient := by
    rcases Nat.eq_zero_or_pos (decimal.digits.length - 1) with single | more
    · rw [single, pow_zero]
      exact positive
    · refine not_lt.mp fun less => ?_
      have shorter := (Nat.length_toDigits_le_iff (by decide) more).mpr less
      have same : (Nat.toDigits 10 decimal.coefficient).length = decimal.digits.length := rfl
      omega
  have small' : (decimal.coefficient : Rat) < 10 ^ decimal.digits.length := by exact_mod_cast small
  have large' : (10 : Rat) ^ (decimal.digits.length - 1) ≤ decimal.coefficient := by
    exact_mod_cast large
  have first : decimal.magnitude - 1 = ((decimal.digits.length - 1 : Nat) : Int) + decimal.exponent := by
    rw [magnitude]
    omega
  constructor
  · rw [first, zpow_add₀ (by norm_num), zpow_natCast]
    exact mul_le_mul_of_nonneg_right large' step_pos.le
  · rw [magnitude, zpow_add₀ (by norm_num), zpow_natCast]
    exact mul_lt_mul_of_pos_right small' step_pos

end Decimal

end Lox
