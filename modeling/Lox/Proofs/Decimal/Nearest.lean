import Lox.Decimal.Shortest
import Mathlib.Algebra.Order.Field.Power
import Mathlib.Algebra.Order.Field.Rat
import Mathlib.Data.Rat.Cast.Order
import Mathlib.Tactic.Linarith
import Mathlib.Tactic.NormNum
import Mathlib.Tactic.Positivity
import Mathlib.Tactic.Ring

/-!
# Nearest doubles

What it means that a rational number rounds to a double: no other number with a mantissa of 53 bits
is nearer, and of two that are equally near the double has the even mantissa.  This is the case
exactly in the rounding interval of the double (`isNearest_of_rounds`, `rounds_of_isNearest`), and a
number rounds to one double at most (`eq_of_isNearest`).
-/

namespace Lox.Binary

/--
A double in canonical form: the mantissa has 53 bits, unless the exponent is the smallest one.  The
exponent is not bounded above.
-/
structure IsCanonical (binary : Binary) : Prop where
  mantissa_lt : binary.mantissa < 2 ^ 53
  exponent_ge : -1074 ≤ binary.exponent
  full : -1074 < binary.exponent → 2 ^ 52 ≤ binary.mantissa
  narrowBelow_iff : binary.narrowBelow = true ↔
    binary.mantissa = 2 ^ 52 ∧ -1074 < binary.exponent

/-- A rational number rounds to a double: to the nearest one, in case of a tie to the even one. -/
def IsNearest (binary : Binary) (number : Rat) : Prop :=
  ∀ (mantissa : Nat) (exponent : Int), mantissa < 2 ^ 53 → -1074 ≤ exponent →
    mantissa * (2 : Rat) ^ exponent ≠ binary.value →
      |number - binary.value| < |number - mantissa * (2 : Rat) ^ exponent| ∨
        |number - binary.value| = |number - mantissa * (2 : Rat) ^ exponent| ∧
          binary.mantissa % 2 = 0

/-! ## Distances -/

section

variable {near far number : Rat}

theorem abs_sub_lt_iff_of_lt (order : near < far) :
    |number - near| < |number - far| ↔ number < (near + far) / 2 := by
  rcases abs_cases (number - near) with ⟨toNear, _⟩ | ⟨toNear, _⟩ <;>
    rcases abs_cases (number - far) with ⟨toFar, _⟩ | ⟨toFar, _⟩ <;>
    rw [toNear, toFar] <;> constructor <;> intro <;> linarith

theorem abs_sub_lt_iff_of_gt (order : far < near) :
    |number - near| < |number - far| ↔ (near + far) / 2 < number := by
  rcases abs_cases (number - near) with ⟨toNear, _⟩ | ⟨toNear, _⟩ <;>
    rcases abs_cases (number - far) with ⟨toFar, _⟩ | ⟨toFar, _⟩ <;>
    rw [toNear, toFar] <;> constructor <;> intro <;> linarith

theorem abs_sub_eq_iff (different : near ≠ far) :
    |number - near| = |number - far| ↔ number = (near + far) / 2 := by
  rw [abs_eq_abs]
  constructor
  · rintro (same | opposite)
    · exact absurd (sub_right_injective same) different
    · linarith
  · intro middle
    right
    linarith

end

/-! ## Distances between doubles -/

/-- The distance to the next larger double. -/
def unit (binary : Binary) : Rat :=
  (2 : Rat) ^ binary.exponent

/-- The distance to the next smaller double. -/
def unitBelow (binary : Binary) : Rat :=
  if binary.narrowBelow then binary.unit / 2 else binary.unit

theorem pow_pos (exponent : Int) : (0 : Rat) < 2 ^ exponent :=
  zpow_pos (by norm_num) exponent

theorem unit_pos (binary : Binary) : 0 < binary.unit :=
  pow_pos binary.exponent

theorem unitBelow_pos (binary : Binary) : 0 < binary.unitBelow := by
  have pos := binary.unit_pos
  rw [unitBelow]
  split <;> linarith

theorem unitBelow_le (binary : Binary) : binary.unitBelow ≤ binary.unit := by
  have pos := binary.unit_pos
  rw [unitBelow]
  split <;> linarith

theorem value_eq (binary : Binary) : binary.value = binary.mantissa * binary.unit := rfl

theorem high_eq (binary : Binary) : binary.high = binary.value + binary.unit / 2 := by
  rw [high, value_eq, unit]
  ring

theorem low_eq (binary : Binary) : binary.low = binary.value - binary.unitBelow / 2 := by
  rw [low, value_eq, unitBelow, unit]
  split <;> ring

/-- The rounding interval, of which the ends belong to the even mantissas. -/
theorem rounds_iff (binary : Binary) (number : Rat) :
    binary.rounds number ↔ binary.low ≤ number ∧ number ≤ binary.high ∧
      (number = binary.low ∨ number = binary.high → binary.mantissa % 2 = 0) := by
  rw [rounds]
  split
  · next even =>
    rw [Bool.and_eq_true, decide_eq_true_iff, decide_eq_true_iff]
    exact ⟨fun inside => ⟨inside.1, inside.2, fun _ => even⟩, fun all => ⟨all.1, all.2.1⟩⟩
  · next odd =>
    rw [Bool.and_eq_true, decide_eq_true_iff, decide_eq_true_iff]
    constructor
    · refine fun inside => ⟨inside.1.le, inside.2.le, ?_⟩
      rintro (tie | tie)
      · exact absurd tie inside.1.ne'
      · exact absurd tie inside.2.ne
    · rintro ⟨atLeast, atMost, ties⟩
      refine ⟨lt_of_le_of_ne atLeast fun tie => odd (ties (.inl tie.symm)), ?_⟩
      exact lt_of_le_of_ne atMost fun tie => odd (ties (.inr tie))

/-- A multiple of a larger power of two is a multiple of a smaller one. -/
theorem exists_multiple (mantissa : Nat) {exponent larger : Int} (order : exponent ≤ larger) :
    ∃ multiple : Nat, (mantissa : Rat) * 2 ^ larger = multiple * 2 ^ exponent := by
  obtain ⟨steps, rfl⟩ := Int.le.dest order
  refine ⟨mantissa * 2 ^ steps, ?_⟩
  rw [zpow_add₀ (by norm_num), zpow_natCast]
  push_cast
  ring

/-- What has a mantissa of 53 bits and a smaller exponent is at least a step below a full mantissa. -/
theorem le_of_exponent_lt {mantissa : Nat} {exponent larger : Int} (small : mantissa < 2 ^ 53)
    (order : exponent < larger) :
    (mantissa : Rat) * 2 ^ exponent ≤ 2 ^ 52 * 2 ^ larger - 2 ^ larger / 2 := by
  have bound : (mantissa : Rat) ≤ 2 ^ 53 - 1 := by
    have := Nat.le_pred_of_lt small
    calc (mantissa : Rat) ≤ ((2 ^ 53 - 1 : Nat) : Rat) := by exact_mod_cast this
      _ = 2 ^ 53 - 1 := by norm_num
  have steps : (2 : Rat) ^ exponent ≤ 2 ^ (larger - 1) :=
    zpow_le_zpow_right₀ (by norm_num) (Int.le_sub_one_of_lt order)
  have half : (2 : Rat) ^ (larger - 1) = 2 ^ larger / 2 := by
    rw [zpow_sub₀ (by norm_num), zpow_one]
  calc (mantissa : Rat) * 2 ^ exponent
      ≤ (2 ^ 53 - 1) * 2 ^ (larger - 1) :=
        mul_le_mul bound steps (pow_pos exponent).le (by norm_num)
    _ = 2 ^ 52 * 2 ^ larger - 2 ^ larger / 2 := by
        rw [half]
        ring

namespace IsCanonical

variable {binary other : Binary} (canonical : binary.IsCanonical)
include canonical

/-- A smaller exponent is followed by full mantissas only. -/
theorem full_mantissa {exponent : Int} (bound : -1074 ≤ exponent)
    (order : exponent < binary.exponent) : (2 : Rat) ^ 52 ≤ binary.mantissa := by
  have full := canonical.full (lt_of_le_of_lt bound order)
  exact_mod_cast full

/-- Larger numbers are at least a unit larger. -/
theorem add_unit_le {mantissa : Nat} {exponent : Int} (small : mantissa < 2 ^ 53)
    (bound : -1074 ≤ exponent) (larger : binary.value < mantissa * (2 : Rat) ^ exponent) :
    binary.value + binary.unit ≤ mantissa * (2 : Rat) ^ exponent := by
  have pos := binary.unit_pos
  rcases le_or_gt binary.exponent exponent with order | order
  · obtain ⟨multiple, same⟩ := exists_multiple mantissa order
    rw [same, value_eq] at larger
    have more : binary.mantissa < multiple := by
      exact_mod_cast lt_of_mul_lt_mul_right larger pos.le
    have most : (binary.mantissa : Rat) + 1 ≤ multiple := by exact_mod_cast more
    calc binary.value + binary.unit
        = (binary.mantissa + 1) * binary.unit := by
          rw [value_eq]
          ring
      _ ≤ multiple * binary.unit := mul_le_mul_of_nonneg_right most pos.le
      _ = mantissa * (2 : Rat) ^ exponent := same.symm
  · -- With a smaller exponent no number is larger.
    have below := le_of_exponent_lt small order
    have full := mul_le_mul_of_nonneg_right (canonical.full_mantissa bound order) pos.le
    rw [← value_eq] at full
    have steps : (2 : Rat) ^ binary.exponent = binary.unit := rfl
    rw [steps] at below
    linarith

/-- Smaller numbers are at least the unit below smaller. -/
theorem le_sub_unitBelow {mantissa : Nat} {exponent : Int} (small : mantissa < 2 ^ 53)
    (bound : -1074 ≤ exponent) (less : mantissa * (2 : Rat) ^ exponent < binary.value) :
    mantissa * (2 : Rat) ^ exponent ≤ binary.value - binary.unitBelow := by
  have pos := binary.unit_pos
  rcases le_or_gt binary.exponent exponent with order | order
  · obtain ⟨multiple, same⟩ := exists_multiple mantissa order
    rw [same, value_eq] at less
    have fewer : multiple < binary.mantissa := by
      exact_mod_cast lt_of_mul_lt_mul_right less pos.le
    have most : (multiple : Rat) + 1 ≤ binary.mantissa := by exact_mod_cast fewer
    have product := mul_le_mul_of_nonneg_right most pos.le
    have steps : (2 : Rat) ^ binary.exponent = binary.unit := rfl
    rw [same, value_eq, steps]
    have narrow := binary.unitBelow_le
    linarith
  · have below := le_of_exponent_lt small order
    have steps : (2 : Rat) ^ binary.exponent = binary.unit := rfl
    rw [steps] at below
    rw [unitBelow, value_eq]
    split
    · next narrow =>
      have isPower := (canonical.narrowBelow_iff.mp narrow).1
      have isPower' : (binary.mantissa : Rat) = 2 ^ 52 := by exact_mod_cast isPower
      rw [isPower']
      exact below
    · next notNarrow =>
      -- The mantissa is full, but not the smallest one that is.
      have full := canonical.full (lt_of_le_of_lt bound order)
      have isMore : 2 ^ 52 < binary.mantissa := by
        refine lt_of_le_of_ne full fun isPower => notNarrow ?_
        exact canonical.narrowBelow_iff.mpr ⟨isPower.symm, lt_of_le_of_lt bound order⟩
      have most : (2 : Rat) ^ 52 + 1 ≤ binary.mantissa := by exact_mod_cast isMore
      have product := mul_le_mul_of_nonneg_right most pos.le
      linarith

/-- A double with a larger exponent is larger. -/
theorem value_lt (other_canonical : other.IsCanonical) (order : binary.exponent < other.exponent) :
    binary.value < other.value := by
  have pos := other.unit_pos
  have below := le_of_exponent_lt canonical.mantissa_lt order
  have full := other_canonical.full_mantissa canonical.exponent_ge order
  have product := mul_le_mul_of_nonneg_right full pos.le
  have steps : (2 : Rat) ^ other.exponent = other.unit := rfl
  rw [steps] at below
  rw [← value_eq] at product
  have value : binary.value = binary.mantissa * (2 : Rat) ^ binary.exponent := rfl
  linarith

/-- A double has one canonical form. -/
theorem eq_of_value_eq (other_canonical : other.IsCanonical) (same : binary.value = other.value) :
    binary = other := by
  have exponents : binary.exponent = other.exponent := by
    rcases lt_trichotomy binary.exponent other.exponent with less | equal | more
    · exact absurd same (ne_of_lt (canonical.value_lt other_canonical less))
    · exact equal
    · exact absurd same (ne_of_gt (other_canonical.value_lt canonical more))
  have mantissas : binary.mantissa = other.mantissa := by
    rw [value_eq, value_eq, unit, unit, exponents] at same
    exact_mod_cast mul_right_cancel₀ (pow_pos other.exponent).ne' same
  have narrow : binary.narrowBelow = other.narrowBelow := by
    rw [Bool.eq_iff_iff, canonical.narrowBelow_iff, other_canonical.narrowBelow_iff, mantissas,
      exponents]
  rcases binary with ⟨mantissa, exponent, narrowBelow⟩
  cases mantissas
  cases exponents
  cases narrow
  rfl

/-! ## Neighbours -/

/-- The next larger double. -/
theorem exists_above : ∃ (mantissa : Nat) (exponent : Int), mantissa < 2 ^ 53 ∧
    -1074 ≤ exponent ∧ (mantissa : Rat) * 2 ^ exponent = binary.value + binary.unit := by
  have bound := canonical.exponent_ge
  rcases Nat.lt_or_ge (binary.mantissa + 1) (2 ^ 53) with small | large
  · refine ⟨binary.mantissa + 1, binary.exponent, small, bound, ?_⟩
    rw [value_eq, unit]
    push_cast
    ring
  · have isLast : binary.mantissa + 1 = 2 ^ 53 := le_antisymm canonical.mantissa_lt large
    refine ⟨2 ^ 52, binary.exponent + 1, by norm_num, by omega, ?_⟩
    have isLast' : (binary.mantissa : Rat) + 1 = 2 ^ 53 := by exact_mod_cast isLast
    have value : binary.value + binary.unit = (binary.mantissa + 1) * binary.unit := by
      rw [value_eq]
      ring
    rw [value, isLast', unit, zpow_add₀ (by norm_num), zpow_one]
    push_cast
    ring

/-- The next smaller double. -/
theorem exists_below (positive : 0 < binary.mantissa) :
    ∃ (mantissa : Nat) (exponent : Int), mantissa < 2 ^ 53 ∧ -1074 ≤ exponent ∧
      (mantissa : Rat) * 2 ^ exponent = binary.value - binary.unitBelow := by
  have bound := canonical.exponent_ge
  rw [unitBelow]
  split
  · next narrow =>
    obtain ⟨isPower, isLarge⟩ := canonical.narrowBelow_iff.mp narrow
    refine ⟨2 ^ 53 - 1, binary.exponent - 1, by norm_num, by omega, ?_⟩
    rw [value_eq, isPower, unit, zpow_sub₀ (by norm_num), zpow_one]
    norm_num
    ring
  · refine ⟨binary.mantissa - 1, binary.exponent, ?_, bound, ?_⟩
    · exact lt_of_le_of_lt (Nat.sub_le _ _) canonical.mantissa_lt
    · rw [Nat.cast_sub positive, value_eq, unit]
      push_cast
      ring

/-! ## Rounding -/

/-- In the rounding interval of a double no other double is nearer. -/
theorem isNearest_of_rounds {number : Rat} (rounds : binary.rounds number) :
    binary.IsNearest number := by
  rw [rounds_iff, low_eq, high_eq] at rounds
  obtain ⟨atLeast, atMost, ties⟩ := rounds
  intro mantissa exponent small bound isOther
  rcases lt_or_gt_of_ne isOther with less | more
  · have gap := canonical.le_sub_unitBelow small bound less
    have unitBelow_pos := binary.unitBelow_pos
    rw [abs_sub_lt_iff_of_gt less, abs_sub_eq_iff less.ne']
    rcases lt_or_eq_of_le atLeast with inside | tie
    · exact .inl (by linarith)
    · rcases lt_or_eq_of_le gap with further | next
      · exact .inl (by linarith)
      · exact .inr ⟨by linarith, ties (.inl tie.symm)⟩
  · have gap := canonical.add_unit_le small bound more
    have unit_pos := binary.unit_pos
    rw [abs_sub_lt_iff_of_lt more, abs_sub_eq_iff more.ne]
    rcases lt_or_eq_of_le atMost with inside | tie
    · exact .inl (by linarith)
    · rcases lt_or_eq_of_le gap with further | next
      · exact .inl (by linarith)
      · exact .inr ⟨by linarith, ties (.inr tie)⟩

/-- What rounds to a double is in its rounding interval: compare it with the neighbours. -/
theorem rounds_of_isNearest (positive : 0 < binary.mantissa) {number : Rat}
    (nearest : binary.IsNearest number) : binary.rounds number := by
  have unit_pos := binary.unit_pos
  have unitBelow_pos := binary.unitBelow_pos
  obtain ⟨above, exponentAbove, small, bound, isAbove⟩ := canonical.exists_above
  have toAbove := nearest above exponentAbove small bound (by rw [isAbove]; linarith)
  obtain ⟨below, exponentBelow, small, bound, isBelow⟩ := canonical.exists_below positive
  have toBelow := nearest below exponentBelow small bound (by rw [isBelow]; linarith)
  rw [isAbove, abs_sub_lt_iff_of_lt (by linarith), abs_sub_eq_iff (by linarith)] at toAbove
  rw [isBelow, abs_sub_lt_iff_of_gt (by linarith), abs_sub_eq_iff (by linarith)] at toBelow
  rw [rounds_iff, low_eq, high_eq]
  refine ⟨?_, ?_, ?_⟩
  · rcases toBelow with inside | ⟨tie, -⟩ <;> linarith
  · rcases toAbove with inside | ⟨tie, -⟩ <;> linarith
  · rintro (tie | tie)
    · rcases toBelow with inside | ⟨-, even⟩
      · linarith
      · exact even
    · rcases toAbove with inside | ⟨-, even⟩
      · linarith
      · exact even

/-- What rounds to a double does not round to a larger one. -/
theorem not_lt_of_isNearest (other_canonical : other.IsCanonical) {number : Rat}
    (nearest : binary.IsNearest number) (other_nearest : other.IsNearest number) :
    ¬binary.value < other.value := by
  intro less
  have toOther : _ ∨ _ ∧ _ := nearest other.mantissa other.exponent other_canonical.mantissa_lt
    other_canonical.exponent_ge less.ne'
  have toThis : _ ∨ _ ∧ _ := other_nearest binary.mantissa binary.exponent canonical.mantissa_lt
    canonical.exponent_ge less.ne
  rw [← value, abs_sub_lt_iff_of_lt less, abs_sub_eq_iff less.ne] at toOther
  rw [← value, abs_sub_lt_iff_of_gt less, abs_sub_eq_iff less.ne'] at toThis
  -- Neither of the two is nearer than the other one, so both have an even mantissa.
  obtain ⟨middle, even⟩ : number = (binary.value + other.value) / 2 ∧ binary.mantissa % 2 = 0 := by
    rcases toOther with inside | tie
    · rcases toThis with inside' | ⟨tie', -⟩ <;> linarith
    · exact tie
  have even' : other.mantissa % 2 = 0 := by
    rcases toThis with inside | ⟨-, even'⟩
    · linarith
    · exact even'
  have unit_pos := binary.unit_pos
  have gap := canonical.add_unit_le other_canonical.mantissa_lt other_canonical.exponent_ge less
  rw [← value] at gap
  rcases lt_or_eq_of_le gap with inside | next
  · -- The next double after the first is between the two, and nearer.
    obtain ⟨above, exponentAbove, small, bound, isAbove⟩ := canonical.exists_above
    have toAbove := nearest above exponentAbove small bound (by rw [isAbove]; linarith)
    rw [isAbove, abs_sub_lt_iff_of_lt (by linarith), abs_sub_eq_iff (by linarith)] at toAbove
    rcases toAbove with inside' | ⟨tie, -⟩ <;> linarith
  · -- Of two neighbours one has an odd mantissa.
    have small := canonical.mantissa_lt
    have isNext : IsCanonical ⟨binary.mantissa + 1, binary.exponent, false⟩ := by
      refine ⟨?_, canonical.exponent_ge, fun large => ?_, ?_⟩
      · show binary.mantissa + 1 < 2 ^ 53
        omega
      · exact Nat.le_succ_of_le (canonical.full large)
      · refine ⟨fun impossible => absurd impossible Bool.false_ne_true, ?_⟩
        rintro ⟨isPower, -⟩
        have isPower : binary.mantissa + 1 = 2 ^ 52 := isPower
        omega
    have isOther := other_canonical.eq_of_value_eq isNext <| by
      rw [← next, value_eq, value, unit]
      push_cast
      ring
    rw [isOther] at even'
    have even' : (binary.mantissa + 1) % 2 = 0 := even'
    omega

/-- A number rounds to one double at most. -/
theorem eq_of_isNearest (other_canonical : other.IsCanonical) {number : Rat}
    (nearest : binary.IsNearest number) (other_nearest : other.IsNearest number) :
    binary = other := by
  refine canonical.eq_of_value_eq other_canonical (le_antisymm ?_ ?_)
  · exact not_lt.mp (other_canonical.not_lt_of_isNearest canonical other_nearest nearest)
  · exact not_lt.mp (canonical.not_lt_of_isNearest other_canonical nearest other_nearest)

end IsCanonical

/-- The value of a double rounds to it. -/
theorem isNearest_value (binary : Binary) : binary.IsNearest binary.value := by
  intro mantissa exponent _ _ isOther
  left
  rw [sub_self, abs_zero]
  exact abs_pos.mpr (sub_ne_zero.mpr isOther.symm)

end Lox.Binary
