import Lox.Decimal.Layout
import Lox.Proofs.Decimal.Nearest
import Mathlib

/-!
# The bits of doubles

What the operations on floating-point numbers say of a number is a matter of its bits: of its sign
and of the binary fraction `Binary.of` (`unpack_of_positive`).  Numbers that are positive compare as
the rational numbers that they are (`le_iff_value_le`).
-/

namespace Lox

open Float.Model (Format UnpackedFloat)
open Float.Model.UnpackedFloat (Sign)

/-- The magnitude of a number as a binary fraction. -/
def Binary.of (number : Float) : Binary :=
  .ofBits number.toBits

/-- The exponent of a number as its bits have it. -/
def biasedExponent (number : Float) : Nat :=
  number.toBits.toNat / 2 ^ 52 % 2 ^ 11

/-- The mantissa of a number as its bits have it. -/
def fraction (number : Float) : Nat :=
  number.toBits.toNat % 2 ^ 52

/-- The sign of a number as its bits have it. -/
def signOf (number : Float) : Sign :=
  if isNegative number then .negative else .positive

namespace Binary

theorem of_eq (number : Float) :
    Binary.of number =
      if biasedExponent number = 0 then ⟨fraction number, -1074, false⟩
      else ⟨2 ^ 52 + fraction number, (biasedExponent number : Int) - 1075,
        fraction number == 0 && biasedExponent number != 1⟩ := rfl

theorem isCanonical_of (number : Float) : (Binary.of number).IsCanonical := by
  have small : fraction number < 2 ^ 52 := Nat.mod_lt _ (by decide)
  rw [of_eq]
  split
  · refine ⟨?_, le_refl _, fun large => absurd large (lt_irrefl _), ?_⟩
    · show fraction number < 2 ^ 53
      omega
    · refine ⟨fun impossible => absurd impossible Bool.false_ne_true, ?_⟩
      exact fun large => absurd large.2 (lt_irrefl _)
  · next isNormal =>
    refine ⟨?_, ?_, fun _ => Nat.le_add_right _ _, ?_⟩
    · show 2 ^ 52 + fraction number < 2 ^ 53
      omega
    · show (-1074 : Int) ≤ biasedExponent number - 1075
      omega
    · rw [Bool.and_eq_true, beq_iff_eq, bne_iff_ne]
      show _ ↔ 2 ^ 52 + fraction number = 2 ^ 52 ∧ -1074 < (biasedExponent number : Int) - 1075
      omega

end Binary

/-! ## Unpacking -/

/-- The leading bit of a mantissa, which is left out of the bits of a number. -/
theorem toNat_one_append (bits : BitVec 52) : (1#1 ++ bits).toNat = 2 ^ 52 + bits.toNat := by
  rw [BitVec.toNat_append]
  exact (Nat.shiftLeft_add_eq_or_of_lt bits.isLt 1).symm

section

variable (number : Float)

theorem toNat_unpackExponent :
    (@UnpackedFloat.unpackExponent Format.binary64 number.toModel.toBits.toBitVec).toNat =
      biasedExponent number := by
  rw [UnpackedFloat.unpackExponent, BitVec.toNat_cast, BitVec.extractLsb_toNat,
    Nat.shiftRight_eq_div_pow]
  rfl

theorem toNat_unpackMantissa :
    (@UnpackedFloat.unpackMantissa Format.binary64 number.toModel.toBits.toBitVec).toNat =
      fraction number := by
  rw [UnpackedFloat.unpackMantissa, BitVec.toNat_cast, BitVec.extractLsb_toNat,
    Nat.shiftRight_zero]
  rfl

theorem ofBitVec_unpackSign :
    Sign.ofBitVec (@UnpackedFloat.unpackSign Format.binary64 number.toModel.toBits.toBitVec) =
      signOf number := by
  have bound : number.toBits.toNat < 2 ^ 64 := number.toBits.toNat_lt
  have bit : (@UnpackedFloat.unpackSign Format.binary64 number.toModel.toBits.toBitVec).toNat =
      number.toBits.toNat / 2 ^ 63 % 2 := by
    rw [UnpackedFloat.unpackSign, BitVec.toNat_cast, BitVec.extractLsb_toNat,
      Nat.shiftRight_eq_div_pow]
    rfl
  have isZero : @UnpackedFloat.unpackSign Format.binary64 number.toModel.toBits.toBitVec = 0#1 ↔
      number.toBits.toNat / 2 ^ 63 % 2 = 0 := by
    rw [← BitVec.toNat_inj, bit]
    rfl
  rw [Sign.ofBitVec, signOf, isNegative]
  show (if _ then Sign.positive else .negative) =
    if decide (2 ^ 63 ≤ number.toBits.toNat) = true then Sign.negative else .positive
  rcases Nat.lt_or_ge number.toBits.toNat (2 ^ 63) with small | large
  · rw [if_pos (isZero.mpr (by omega)), if_neg (by simpa using small)]
  · rw [if_neg (fun zero => by have := isZero.mp zero; omega), if_pos (decide_eq_true large)]

theorem unpack_eq :
    number.toModel.unpack =
      if biasedExponent number = 2047 then
        if fraction number = 0 then .infinity (signOf number) else .notANumber
      else if biasedExponent number = 0 then
        if isZero : fraction number = 0 then .zero (signOf number)
        else .finite (signOf number) (fraction number) (-1074) (Nat.pos_of_ne_zero isZero)
      else
        .finite (signOf number) (2 ^ 52 + fraction number) ((biasedExponent number : Int) - 1075)
          (Nat.add_pos_left (by decide) _) := by
  have mantissa := toNat_unpackMantissa number
  have exponent := toNat_unpackExponent number
  have special : @UnpackedFloat.unpackExponent Format.binary64 number.toModel.toBits.toBitVec =
      -1#_ ↔ biasedExponent number = 2047 := by
    rw [← BitVec.toNat_inj, exponent]
    rfl
  have isZero : @UnpackedFloat.unpackMantissa Format.binary64 number.toModel.toBits.toBitVec =
      0#_ ↔ fraction number = 0 := by
    rw [← BitVec.toNat_inj, mantissa]
    rfl
  have small : @UnpackedFloat.unpackExponent Format.binary64 number.toModel.toBits.toBitVec =
      0#_ ↔ biasedExponent number = 0 := by
    rw [← BitVec.toNat_inj, exponent]
    rfl
  have full : (1#1 ++ @UnpackedFloat.unpackMantissa Format.binary64
      number.toModel.toBits.toBitVec).toNat = 2 ^ 52 + fraction number := by
    rw [toNat_one_append, mantissa]
  have bias : ((Format.binary64.exponentBias : Nat) : Int) + ((52 : Nat) : Int) = 1075 := rfl
  simp only [Float.Model.unpack, UnpackedFloat.unpack, special, isZero, small, full, bias,
    ofBitVec_unpackSign, mantissa, exponent]
  split
  · rfl
  · split
    · next isSmall =>
      split
      · rfl
      · congr 1
        omega
    · rfl

end

/-! ## Kinds of numbers -/

section

variable {number : Float}

theorem isNaN_iff :
    number.isNaN = true ↔ biasedExponent number = 2047 ∧ fraction number ≠ 0 := by
  show number.toModel.unpack.isNaN = true ↔ _
  rw [unpack_eq]
  split
  · next special =>
    split
    · next isZero => simp [UnpackedFloat.isNaN, isZero]
    · next isZero => simp [UnpackedFloat.isNaN, special, isZero]
  · next ordinary =>
    split
    · split <;> simp [UnpackedFloat.isNaN, ordinary]
    · simp [UnpackedFloat.isNaN, ordinary]

theorem isInf_iff :
    number.isInf = true ↔ biasedExponent number = 2047 ∧ fraction number = 0 := by
  show number.toModel.unpack.isInf = true ↔ _
  rw [unpack_eq]
  split
  · next special =>
    split
    · next isZero => simp [UnpackedFloat.isInf, special, isZero]
    · next isZero => simp [UnpackedFloat.isInf, isZero]
  · next ordinary =>
    split
    · split <;> simp [UnpackedFloat.isInf, ordinary]
    · simp [UnpackedFloat.isInf, ordinary]

theorem isFinite_iff : number.isFinite = true ↔ biasedExponent number ≠ 2047 := by
  show number.toModel.unpack.isFinite = true ↔ _
  rw [unpack_eq]
  split
  · next special => split <;> simp [UnpackedFloat.isFinite, special]
  · next ordinary =>
    split
    · split <;> simp [UnpackedFloat.isFinite, ordinary]
    · simp [UnpackedFloat.isFinite, ordinary]

/-- Zero has a sign and nothing else. -/
theorem unpack_of_zero (finite : number.isFinite = true)
    (isZero : (Binary.of number).mantissa = 0) : number.toModel.unpack = .zero (signOf number) := by
  rw [Binary.of_eq] at isZero
  rw [unpack_eq, if_neg (isFinite_iff.mp finite)]
  split
  · next isSmall =>
    rw [if_pos isSmall] at isZero
    rw [dif_pos isZero]
  · next isNormal =>
    rw [if_neg isNormal] at isZero
    exact absurd isZero (Nat.add_pos_left (by decide) _).ne'

/-- Any other finite number has a sign and a binary fraction. -/
theorem unpack_of_positive (finite : number.isFinite = true)
    (positive : 0 < (Binary.of number).mantissa) :
    number.toModel.unpack = .finite (signOf number) (Binary.of number).mantissa
      (Binary.of number).exponent positive := by
  rw [unpack_eq, if_neg (isFinite_iff.mp finite)]
  by_cases isSmall : biasedExponent number = 0
  · have same : Binary.of number = ⟨fraction number, -1074, false⟩ := by
      rw [Binary.of_eq, if_pos isSmall]
    have isPositive : fraction number ≠ 0 := by
      rw [same] at positive
      exact positive.ne'
    rw [if_pos isSmall, dif_neg isPositive]
    simp only [same]
  · have same : Binary.of number =
        ⟨2 ^ 52 + fraction number, (biasedExponent number : Int) - 1075,
          fraction number == 0 && biasedExponent number != 1⟩ := by
      rw [Binary.of_eq, if_neg isSmall]
    rw [if_neg isSmall]
    simp only [same]

theorem Binary.exponent_le (finite : number.isFinite = true) :
    (Binary.of number).exponent ≤ 971 := by
  have ordinary := isFinite_iff.mp finite
  have bound : biasedExponent number < 2 ^ 11 := Nat.mod_lt _ (by decide)
  rw [Binary.of_eq]
  split
  · show (-1074 : Int) ≤ 971
    decide
  · show (biasedExponent number : Int) - 1075 ≤ 971
    omega

/-- A number is its sign and its binary fraction. -/
theorem toBits_eq {other : Float} (sign : isNegative number = isNegative other)
    (same : Binary.of number = Binary.of other) : number.toBits = other.toBits := by
  have bound : fraction number < 2 ^ 52 := Nat.mod_lt _ (by decide)
  have bound' : fraction other < 2 ^ 52 := Nat.mod_lt _ (by decide)
  have fields : biasedExponent number = biasedExponent other ∧ fraction number = fraction other := by
    rw [Binary.of_eq, Binary.of_eq] at same
    split at same
    · split at same
      · injection same
        omega
      · injection same
        omega
    · split at same
      · injection same
        omega
      · injection same
        omega
  have signs : 2 ^ 63 ≤ number.toBits.toNat ↔ 2 ^ 63 ≤ other.toBits.toNat := by
    rw [isNegative, isNegative] at sign
    exact decide_eq_decide.mp sign
  have size := number.toBits.toNat_lt
  have size' := other.toBits.toNat_lt
  rw [biasedExponent, biasedExponent, fraction, fraction] at fields
  rw [← UInt64.toNat_inj]
  omega

/-! ## Comparisons -/

theorem unpack_zero : (0 : Float).toModel.unpack = .zero .positive := by
  have bits : (0 : Float).toBits = 0 := by decide +kernel
  have notNegative : isNegative (0 : Float) = false := by
    rw [isNegative, bits]
    rfl
  rw [unpack_eq, biasedExponent, fraction, signOf, notNegative, bits]
  rfl

theorem beq_zero_iff (finite : number.isFinite = true) :
    (number == 0) = true ↔ (Binary.of number).mantissa = 0 := by
  show (number.toModel.unpack.compare (0 : Float).toModel.unpack == some .eq) = true ↔ _
  rw [unpack_zero]
  rcases Nat.eq_zero_or_pos (Binary.of number).mantissa with isZero | positive
  · rw [unpack_of_zero finite isZero]
    exact ⟨fun _ => isZero, fun _ => rfl⟩
  · rw [unpack_of_positive finite positive]
    refine ⟨?_, fun isZero => absurd isZero positive.ne'⟩
    cases signOf number <;> exact fun impossible => by cases impossible

/-- Packing a binary fraction loses nothing. -/
theorem unpack_pack {binary : Binary} (canonical : binary.IsCanonical)
    (bound : binary.exponent ≤ 971) (positive : 0 < binary.mantissa) (sign : Sign) :
    (Float.Model.pack (.finite sign binary.mantissa binary.exponent positive)).unpack =
      .finite sign binary.mantissa binary.exponent positive := by
  have biased : (binary.exponent + (Format.binary64.exponentBias : Nat) +
      (Format.binary64.mantissaBitsWithoutImplicit : Nat)).toNat =
      (binary.exponent + 1075).toNat := by
    have bias : ((Format.binary64.exponentBias : Nat) : Int) = 1023 := rfl
    have bits : ((Format.binary64.mantissaBitsWithoutImplicit : Nat) : Int) = 52 := rfl
    omega
  have atLeast := canonical.exponent_ge
  have small := canonical.mantissa_lt
  show UnpackedFloat.unpack _ (UnpackedFloat.pack _ _) = _
  simp only [UnpackedFloat.pack, biased]
  rw [if_neg (by show ¬2 ^ 11 ≤ _; omega)]
  split
  · next isFull =>
    have isLog : binary.mantissa.log2 = 52 := Nat.succ_injective isFull
    have large : 2 ^ 52 ≤ binary.mantissa := by
      rw [← isLog]
      exact Nat.log2_self_le positive.ne'
    have exponent : (BitVec.ofNat 11 (binary.exponent + 1075).toNat).toNat =
        (binary.exponent + 1075).toNat := by
      rw [BitVec.toNat_ofNat]
      omega
    have ordinary : BitVec.ofNat 11 (binary.exponent + 1075).toNat ≠ -1#11 := by
      rw [Ne, ← BitVec.toNat_inj, exponent]
      show (binary.exponent + 1075).toNat ≠ 2047
      omega
    have normal : BitVec.ofNat 11 (binary.exponent + 1075).toNat ≠ 0#11 := by
      rw [Ne, ← BitVec.toNat_inj, exponent]
      show (binary.exponent + 1075).toNat ≠ 0
      omega
    have full : (1#1 ++ BitVec.ofNat 52 binary.mantissa).toNat = binary.mantissa := by
      rw [toNat_one_append, BitVec.toNat_ofNat]
      omega
    simp only [UnpackedFloat.unpack, UnpackedFloat.unpackExponent_packComponents,
      UnpackedFloat.unpackMantissa_packComponents, UnpackedFloat.unpackSign_packComponents,
      Sign.ofBitVec_toBitVec]
    rw [if_neg ordinary, if_neg normal]
    simp only [full, exponent]
    congr 1
    have bias : ((Format.binary64.exponentBias : Nat) : Int) = 1023 := rfl
    omega
  · next isSmall =>
    have notFull : binary.mantissa < 2 ^ 52 := by
      by_contra large
      have isLog : binary.mantissa.log2 = 52 :=
        (Nat.log2_eq_iff positive.ne').mpr ⟨not_lt.mp large, small⟩
      exact isSmall (congrArg (· + 1) isLog)
    have exponent : binary.exponent = -1074 := by
      by_contra larger
      exact absurd (canonical.full (by omega)) (not_le.mpr notFull)
    have mantissa : (BitVec.ofNat 52 binary.mantissa).toNat = binary.mantissa := by
      rw [BitVec.toNat_ofNat]
      exact Nat.mod_eq_of_lt notFull
    have isPositive : BitVec.ofNat 52 binary.mantissa ≠ 0#52 := by
      rw [Ne, ← BitVec.toNat_inj, mantissa]
      exact positive.ne'
    simp only [UnpackedFloat.unpack, UnpackedFloat.unpackExponent_packComponents,
      UnpackedFloat.unpackMantissa_packComponents, UnpackedFloat.unpackSign_packComponents,
      Sign.ofBitVec_toBitVec]
    rw [if_neg (by decide), if_pos trivial, dif_neg isPositive]
    simp only [mantissa, exponent]
    rfl

/-! ## Thresholds -/

/-- A positive number is unpacked to its binary fraction. -/
def Unpacks (number : Float) (binary : Binary) : Prop :=
  ∃ positive, number.toModel.unpack = .finite .positive binary.mantissa binary.exponent positive

theorem unpacks_abs (finite : number.isFinite = true)
    (positive : 0 < (Binary.of number).mantissa) : Unpacks number.abs (Binary.of number) := by
  refine ⟨positive, ?_⟩
  show (Float.Model.pack number.toModel.unpack.abs).unpack = _
  rw [unpack_of_positive finite positive]
  exact unpack_pack (Binary.isCanonical_of number) (Binary.exponent_le finite) positive .positive

section Order

variable {first second : Float} {binary other : Binary} (isFirst : Unpacks first binary)
  (isSecond : Unpacks second other) (canonical : binary.IsCanonical)
  (other_canonical : other.IsCanonical)
include isFirst isSecond canonical other_canonical

/-- Positive numbers compare as the rational numbers that they are. -/
theorem compare_eq : first.toModel.unpack.compare second.toModel.unpack =
    some (compare binary.value other.value) := by
  obtain ⟨_, first_eq⟩ := isFirst
  obtain ⟨_, second_eq⟩ := isSecond
  rw [first_eq, second_eq]
  show some ((compare binary.exponent other.exponent).then
    (compare binary.mantissa other.mantissa)) = _
  rcases lt_trichotomy binary.exponent other.exponent with less | same | more
  · rw [compare_lt_iff_lt.mpr less, compare_lt_iff_lt.mpr (canonical.value_lt other_canonical less)]
    rfl
  · have pos : (0 : Rat) < 2 ^ other.exponent := Binary.pow_pos _
    rw [compare_eq_iff_eq.mpr same, Binary.value, Binary.value, same, Ordering.eq_then]
    rcases lt_trichotomy binary.mantissa other.mantissa with less | equal | more
    · have values := mul_lt_mul_of_pos_right (Nat.cast_lt.mpr less) pos
      rw [compare_lt_iff_lt.mpr less, compare_lt_iff_lt.mpr values]
    · rw [equal, compare_eq_iff_eq.mpr rfl, compare_eq_iff_eq.mpr rfl]
    · have values := mul_lt_mul_of_pos_right (Nat.cast_lt.mpr more) pos
      rw [compare_gt_iff_gt.mpr more, compare_gt_iff_gt.mpr values]
  · rw [compare_gt_iff_gt.mpr more, compare_gt_iff_gt.mpr (other_canonical.value_lt canonical more)]
    rfl

theorem lt_iff_value_lt : first < second ↔ binary.value < other.value := by
  show decide ((first.toModel.unpack.compare second.toModel.unpack == some .lt) = true) = true ↔ _
  rw [compare_eq isFirst isSecond canonical other_canonical, decide_eq_true_iff, beq_iff_eq,
    Option.some_inj, compare_lt_iff_lt]

theorem le_iff_value_le : first ≤ second ↔ binary.value ≤ other.value := by
  show decide ((first.toModel.unpack.compare second.toModel.unpack).any (·.isLE) = true) = true ↔ _
  rw [compare_eq isFirst isSecond canonical other_canonical, decide_eq_true_iff, Option.any_some,
    ← compare_le_iff_le]
  cases compare binary.value other.value <;> decide

end Order

/-- The number with which positional notation begins is the next double after a thousandth. -/
theorem unpacks_thousandth :
    Unpacks 0.001 ⟨4611686018427388, -62, false⟩ := by
  have bits : (0.001 : Float).toBits = 0x3F50624DD2F1A9FC := by decide +kernel
  refine ⟨by decide, ?_⟩
  rw [unpack_eq, biasedExponent, fraction, signOf, isNegative, bits]
  rfl

theorem unpacks_tenMillion :
    Unpacks 10000000.0 ⟨5368709120000000, -29, false⟩ := by
  have bits : (10000000.0 : Float).toBits = 0x416312D000000000 := by decide +kernel
  refine ⟨by decide, ?_⟩
  rw [unpack_eq, biasedExponent, fraction, signOf, isNegative, bits]
  rfl

/-- No double is between a thousandth and the double for it, so both bound the same numbers. -/
theorem thousandth_le_iff (finite : number.isFinite = true)
    (positive : 0 < (Binary.of number).mantissa) :
    0.001 ≤ number.abs ↔ 1 / 1000 ≤ (Binary.of number).value := by
  have canonical : Binary.IsCanonical ⟨4611686018427388, -62, false⟩ :=
    ⟨by decide, by decide, fun _ => by decide, by decide⟩
  have value : Binary.value ⟨4611686018427388, -62, false⟩ = 4611686018427388 * (2 ^ 62)⁻¹ := by
    rw [Binary.value]
    norm_num
  have own := Binary.isCanonical_of number
  rw [le_iff_value_le unpacks_thousandth (unpacks_abs finite positive) canonical own]
  constructor
  · intro atLeast
    refine le_trans ?_ atLeast
    rw [value]
    norm_num
  · intro atLeast
    by_contra less
    have gap := canonical.le_sub_unitBelow own.mantissa_lt own.exponent_ge (not_le.mp less)
    have below : Binary.unitBelow ⟨4611686018427388, -62, false⟩ = (2 ^ 62)⁻¹ := by
      rw [Binary.unitBelow, if_neg Bool.false_ne_true, Binary.unit]
      norm_num
    rw [value, below] at gap
    have isLess : (Binary.of number).value < 1 / 1000 := lt_of_le_of_lt gap (by norm_num)
    exact absurd atLeast (not_le.mpr isLess)

theorem lt_tenMillion_iff (finite : number.isFinite = true)
    (positive : 0 < (Binary.of number).mantissa) :
    number.abs < 10000000.0 ↔ (Binary.of number).value < 10000000 := by
  have canonical : Binary.IsCanonical ⟨5368709120000000, -29, false⟩ :=
    ⟨by decide, by decide, fun _ => by decide, by decide⟩
  have value : Binary.value ⟨5368709120000000, -29, false⟩ = 10000000 := by
    rw [Binary.value]
    norm_num
  rw [lt_iff_value_lt (unpacks_abs finite positive) unpacks_tenMillion
    (Binary.isCanonical_of number) canonical, value]

end

end Lox
