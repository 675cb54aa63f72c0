import Lox.Decimal.Display
import Lox.Proofs.Decimal.Double
import Lox.Proofs.Decimal.Numeral
import Lox.Proofs.Decimal.Shortest

/-!
# The texts of numbers tell them apart

The text of a finite number denotes a decimal number that rounds to it and to no other number, and
its notation is a matter of the magnitude of the number (`Shows`).  So numbers have different texts
unless they are the same or not numbers at all; the main statement is `displayNumber_tellsApart`.
-/

namespace Lox

open Decimal (IsPositional IsScientific read? signText)

/-- A decimal number, which may be negative, rounds to a finite number. -/
structure RoundsTo (denoted : Bool × Decimal) (number : Float) : Prop where
  isFinite : number.isFinite = true
  isNegative : denoted.1 = isNegative number
  isNearest : (Binary.of number).IsNearest denoted.2.value

/-- Positional notation is for zero, and from a thousandth up to ten millions. -/
def Binary.IsModerate (binary : Binary) : Prop :=
  binary.value = 0 ∨ 1 / 1000 ≤ binary.value ∧ binary.value < 10000000

/-- The decimal number that a text denotes rounds to the bits of this number and to no others. -/
def Denotes (text : List Char) (number : Float) : Prop :=
  ∃ denoted, read? text = some denoted ∧
    ∀ other : Float, RoundsTo denoted other ↔ other.toBits = number.toBits

/-- What a text shows of a finite number. -/
structure Shows (text : String) (number : Float) : Prop where
  denotes : Denotes text.toList number
  isPositional_iff : IsPositional text.toList ↔ (Binary.of number).IsModerate
  isScientific_iff : IsScientific text.toList ↔ ¬(Binary.of number).IsModerate

variable {number : Float}

/-- A decimal that rounds to a number rounds to no other bits. -/
theorem roundsTo_iff {denoted : Bool × Decimal} (rounds : RoundsTo denoted number) (other : Float) :
    RoundsTo denoted other ↔ other.toBits = number.toBits := by
  constructor
  · intro toOther
    refine toBits_eq (toOther.isNegative.symm.trans rounds.isNegative) ?_
    exact (Binary.isCanonical_of other).eq_of_isNearest (Binary.isCanonical_of number)
      toOther.isNearest rounds.isNearest
  · intro same
    have fields : Binary.of other = Binary.of number := congrArg Binary.ofBits same
    refine ⟨?_, ?_, fields ▸ rounds.isNearest⟩
    · rw [isFinite_iff, biasedExponent, same]
      exact isFinite_iff.mp rounds.isFinite
    · rw [rounds.isNegative, isNegative, isNegative, same]

section

variable (finite : number.isFinite = true)
include finite

/-- A text denotes a number if it is read as a decimal that rounds to it. -/
theorem denotes_of_isNearest {text : List Char} {decimal : Decimal}
    (reads : read? text = some (isNegative number, decimal))
    (nearest : (Binary.of number).IsNearest decimal.value) : Denotes text number :=
  ⟨_, reads, roundsTo_iff ⟨finite, rfl, nearest⟩⟩

/-- The text of a finite number, character by character. -/
theorem toList_displayNumber :
    (displayNumber number).toList = signText (isNegative number) ++
      if (Binary.of number).mantissa = 0 then ['0']
      else if 1 / 1000 ≤ (Binary.of number).value ∧ (Binary.of number).value < 10000000 then
        ((Binary.of number).shortest .up).positional false
      else ((Binary.of number).shortest .up).scientific 'E' false true := by
  have ordinary := isFinite_iff.mp finite
  have notNaN : number.isNaN = false := by
    rw [Bool.eq_false_iff]
    exact fun isNaN => ordinary (isNaN_iff.mp isNaN).1
  have notInf : number.isInf = false := by
    rw [Bool.eq_false_iff]
    exact fun isInf => ordinary (isInf_iff.mp isInf).1
  rw [displayNumber, NumberFormat.write, notNaN, notInf, if_neg Bool.false_ne_true,
    if_neg Bool.false_ne_true, String.toList_append]
  congr 1
  · cases isNegative number <;> rfl
  · by_cases isZero : (Binary.of number).mantissa = 0
    · rw [if_pos isZero, if_pos ((beq_zero_iff finite).mpr isZero)]
      rfl
    · have positive := Nat.pos_of_ne_zero isZero
      have inside : NumberFormat.display.isPositional number
          ((Binary.of number).shortest .up) = true ↔
          1 / 1000 ≤ (Binary.of number).value ∧ (Binary.of number).value < 10000000 := by
        show (decide _ && decide _) = true ↔ _
        rw [Bool.and_eq_true, decide_eq_true_iff, decide_eq_true_iff,
          thousandth_le_iff finite positive, lt_tenMillion_iff finite positive]
      rw [if_neg isZero, if_neg fun equal => isZero ((beq_zero_iff finite).mp equal),
        NumberFormat.magnitudeText, String.toList_ofList]
      exact if_congr inside rfl rfl

/-! ## Zero -/

omit finite in
theorem Binary.value_eq_zero_iff (binary : Binary) : binary.value = 0 ↔ binary.mantissa = 0 := by
  rw [value_eq, mul_eq_zero, Nat.cast_eq_zero]
  exact or_iff_left binary.unit_pos.ne'

theorem shows_of_zero (isZero : (Binary.of number).mantissa = 0) :
    Shows (displayNumber number) number := by
  have text := toList_displayNumber finite
  rw [if_pos isZero] at text
  have value := (Binary.value_eq_zero_iff _).mpr isZero
  have digit : AreDigits ['0'] := ⟨List.cons_ne_nil _ _, List.forall_mem_singleton.mpr rfl⟩
  have positional : IsPositional (displayNumber number).toList :=
    ⟨isNegative number, ['0'], [], text, digit, List.forall_mem_nil _, by decide⟩
  have reads := Decimal.read?_append (isNegative number) digit (List.forall_mem_nil _) (.inl rfl)
    (show Decimal.readExponent? [] = some 0 from rfl)
  refine ⟨?_, iff_of_true positional (.inl value),
    iff_of_false (Decimal.not_isScientific positional) (not_not_intro (.inl value))⟩
  rw [text]
  refine denotes_of_isNearest finite reads ?_
  have zero : Decimal.value ⟨Nat.ofDigitChars 10 (['0'] ++ []) 0, 0 - ([] : List Char).length⟩ =
      (Binary.of number).value := by
    rw [value, Decimal.value]
    exact zero_mul _
  rw [zero]
  exact Binary.isNearest_value _

/-! ## Other numbers -/

omit finite in
/-- The first digit of a number in scientific notation is not in the place of units. -/
theorem magnitude_ne_one {binary : Binary} (canonical : binary.IsCanonical)
    (positive : 0 < binary.mantissa) (extreme : ¬binary.IsModerate) (tie : Tie) :
    (binary.shortest tie).magnitude ≠ 1 := by
  intro isOne
  have rounds := binary.rounds_shortest tie
  have bounds := (binary.shortest tie).value_bounds
    (Binary.coefficient_pos_of_rounds positive rounds)
  rw [isOne, sub_self, zpow_zero, zpow_one] at bounds
  have one : Binary.IsCanonical ⟨2 ^ 52, -52, true⟩ :=
    ⟨by decide, by decide, fun _ => by decide, by decide⟩
  have one_value : Binary.value ⟨2 ^ 52, -52, true⟩ = 1 := by
    rw [Binary.value]
    norm_num
  have ten : Binary.IsCanonical ⟨5629499534213120, -49, false⟩ :=
    ⟨by decide, by decide, fun _ => by decide, by decide⟩
  have ten_value : Binary.value ⟨5629499534213120, -49, false⟩ = 10 := by
    rw [Binary.value]
    norm_num
  rcases lt_or_ge binary.value (1 / 1000) with small | large
  · have less : binary.value < Binary.value ⟨2 ^ 52, -52, true⟩ := by
      rw [one_value]
      linarith
    have below := Binary.lt_of_rounds canonical one less rounds
    rw [one_value] at below
    exact absurd bounds.1 (not_le.mpr below)
  · have atLeast : 10000000 ≤ binary.value := not_lt.mp fun less => extreme (.inr ⟨large, less⟩)
    have more : Binary.value ⟨5629499534213120, -49, false⟩ < binary.value := by
      rw [ten_value]
      linarith
    have above := Binary.gt_of_rounds canonical ten more rounds
    rw [ten_value] at above
    exact absurd bounds.2 (not_lt.mpr above.le)

/-- In either notation the text of a number denotes it, as it is read as the shortest decimal. -/
theorem denotes_of_shortest {text : List Char}
    (reads : ∃ denoted, read? text = some (isNegative number, denoted) ∧
      denoted.value = ((Binary.of number).shortest .up).value) : Denotes text number := by
  obtain ⟨denoted, reads, value⟩ := reads
  refine denotes_of_isNearest finite reads ?_
  rw [value]
  exact (Binary.isCanonical_of number).isNearest_of_rounds (Binary.rounds_shortest _ _)

theorem shows_of_positive (positive : 0 < (Binary.of number).mantissa) :
    Shows (displayNumber number) number := by
  have text := toList_displayNumber finite
  rw [if_neg positive.ne'] at text
  have canonical := Binary.isCanonical_of number
  split at text
  · next inside =>
    have positional := Decimal.isPositional_positional ((Binary.of number).shortest .up)
      (isNegative number)
      (Binary.coefficient_shortest_mod canonical (Binary.exponent_le finite) positive .up)
    rw [← text] at positional
    refine ⟨?_, iff_of_true positional (.inr inside),
      iff_of_false (Decimal.not_isScientific positional) (not_not_intro (.inr inside))⟩
    rw [text]
    exact denotes_of_shortest finite (Decimal.read?_positional _ _)
  · next outside =>
    have notZero : (Binary.of number).value ≠ 0 := fun isZero =>
      positive.ne' ((Binary.value_eq_zero_iff _).mp isZero)
    have extreme : ¬(Binary.of number).IsModerate := not_or_intro notZero outside
    have scientific := Decimal.isScientific_scientific ((Binary.of number).shortest .up)
      (isNegative number)
      (Binary.coefficient_pos_of_rounds positive (Binary.rounds_shortest _ _))
      (magnitude_ne_one canonical positive extreme .up)
    rw [← text] at scientific
    refine ⟨?_, iff_of_false (fun positional => ?_) extreme, iff_of_true scientific extreme⟩
    · rw [text]
      exact denotes_of_shortest finite (Decimal.read?_scientific _ _)
    · exact Decimal.not_isScientific positional scientific

/-- The text of a finite number denotes it, in the notation for its magnitude. -/
theorem shows_displayNumber : Shows (displayNumber number) number := by
  rcases Nat.eq_zero_or_pos (Binary.of number).mantissa with isZero | positive
  · exact shows_of_zero finite isZero
  · exact shows_of_positive finite positive

end

/-! ## Infinite numbers -/

theorem isFinite_or_isInf (isNumber : number.isNaN = false) :
    number.isFinite = true ∨ number.isInf = true := by
  rw [Bool.eq_false_iff, Ne, isNaN_iff, not_and_not_right] at isNumber
  rw [isFinite_iff, isInf_iff]
  by_cases ordinary : biasedExponent number = 2047
  · exact .inr ⟨ordinary, isNumber ordinary⟩
  · exact .inl ordinary

section

variable (infinite : number.isInf = true)
include infinite

theorem displayNumber_of_isInf :
    displayNumber number = if isNegative number then "-Infinity" else "Infinity" := by
  have notNaN : number.isNaN = false := by
    rw [Bool.eq_false_iff]
    exact fun isNaN => (isNaN_iff.mp isNaN).2 (isInf_iff.mp infinite).2
  rw [displayNumber, NumberFormat.write, notNaN, infinite, if_neg Bool.false_ne_true, if_pos rfl]
  rfl

/-- The text of an infinite number denotes no decimal. -/
theorem read?_displayNumber_of_isInf : read? (displayNumber number).toList = none := by
  rw [displayNumber_of_isInf infinite]
  cases isNegative number <;> rfl

end

/-! ## All numbers -/

/--
The text of each finite number denotes it, in the notation for its magnitude, and numbers with the
same text are the same.
-/
theorem displayNumber_tellsApart :
    (∀ number : Float, number.isFinite = true → Shows (displayNumber number) number) ∧
      ∀ first second : Float, first.isNaN = false → second.isNaN = false →
        displayNumber first = displayNumber second → first.toBits = second.toBits := by
  refine ⟨fun number finite => shows_displayNumber finite, ?_⟩
  intro first second isNumber isNumber' same
  rcases isFinite_or_isInf isNumber with finite | infinite <;>
    rcases isFinite_or_isInf isNumber' with finite' | infinite'
  · obtain ⟨denoted, reads, isFirst⟩ := (shows_displayNumber finite).denotes
    obtain ⟨denoted', reads', isSecond⟩ := (shows_displayNumber finite').denotes
    rw [same, reads'] at reads
    cases reads
    exact (isSecond first).mp ((isFirst first).mpr rfl)
  · obtain ⟨denoted, reads, -⟩ := (shows_displayNumber finite).denotes
    rw [same, read?_displayNumber_of_isInf infinite'] at reads
    cases reads
  · obtain ⟨denoted, reads, -⟩ := (shows_displayNumber finite').denotes
    rw [← same, read?_displayNumber_of_isInf infinite] at reads
    cases reads
  · obtain ⟨isLast, noFraction⟩ := isInf_iff.mp infinite
    obtain ⟨isLast', noFraction'⟩ := isInf_iff.mp infinite'
    refine toBits_eq ?_ ?_
    · rw [displayNumber_of_isInf infinite, displayNumber_of_isInf infinite'] at same
      revert same
      cases isNegative first <;> cases isNegative second <;> decide
    · rw [Binary.of_eq, Binary.of_eq, isLast, isLast', noFraction, noFraction']

/-- The smallest positive number has one digit in its text, and a half and a half make one. -/
theorem displayNumber_tellsApart_smallest :
    ((Float.ofBits 1).isFinite = true ∧ displayNumber (Float.ofBits 1) = "5.0E-324" ∧
      Shows (displayNumber (Float.ofBits 1)) (Float.ofBits 1)) ∧
      (0.5 + 0.5 : Float).isNaN = false ∧ (1.0 : Float).isNaN = false ∧
        displayNumber (0.5 + 0.5) = displayNumber 1.0 ∧
        (0.5 + 0.5 : Float).toBits = (1.0 : Float).toBits := by
  have finite : (Float.ofBits 1).isFinite = true := by decide +kernel
  have sum : (0.5 + 0.5 : Float).isNaN = false := by decide +kernel
  have one : (1.0 : Float).isNaN = false := by decide +kernel
  have same : displayNumber (0.5 + 0.5) = displayNumber 1.0 := by decide +kernel
  exact ⟨⟨finite, by decide +kernel, displayNumber_tellsApart.1 _ finite⟩, sum, one, same,
    displayNumber_tellsApart.2 _ _ sum one same⟩

end Lox
