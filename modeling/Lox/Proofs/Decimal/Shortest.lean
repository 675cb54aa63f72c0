import Lox.Decimal.Layout
import Lox.Proofs.Decimal.Nearest
import Mathlib.Tactic.IntervalCases

/-!
# Shortest decimals round to their doubles

The shortest decimal of a positive double rounds to it (`rounds_shortest`), and no decimal on a
coarser grid does (`not_rounds_of_lt`).  So its digits do not end with zero, and no decimal that
rounds to the double has fewer of them (`length_digits_le`).
-/

namespace Lox

theorem Decimal.pow_pos (exponent : Int) : (0 : Rat) < 10 ^ exponent :=
  zpow_pos (by norm_num) exponent

namespace Binary

variable {binary : Binary} {tie : Tie}

theorem rounds_value (binary : Binary) : binary.rounds binary.value := by
  have unit_pos := binary.unit_pos
  have unitBelow_pos := binary.unitBelow_pos
  rw [rounds_iff, low_eq, high_eq]
  refine ⟨by linarith, by linarith, ?_⟩
  rintro (tie | tie) <;> linarith

/-- The rounding interval has no gaps. -/
theorem rounds_of_between {first number last : Rat} (least : binary.rounds first)
    (atLeast : first ≤ number) (atMost : number ≤ last) (most : binary.rounds last) :
    binary.rounds number := by
  rw [rounds_iff] at least most ⊢
  refine ⟨least.1.trans atLeast, atMost.trans most.2.1, ?_⟩
  rintro (tie | tie)
  · exact least.2.2 (.inl (le_antisymm (tie ▸ atLeast) least.1))
  · exact most.2.2 (.inr (le_antisymm most.2.1 (tie ▸ atMost)))

/-- What rounds to a double is less than all larger doubles. -/
theorem lt_of_rounds {other : Binary} (canonical : binary.IsCanonical)
    (other_canonical : other.IsCanonical) (less : binary.value < other.value) {number : Rat}
    (rounds : binary.rounds number) : number < other.value := by
  by_contra atLeast
  have inside := rounds_of_between binary.rounds_value less.le (not_lt.mp atLeast) rounds
  have same := canonical.eq_of_isNearest other_canonical (canonical.isNearest_of_rounds inside)
    other.isNearest_value
  exact less.ne (congrArg value same)

/-- What rounds to a double is more than all smaller doubles. -/
theorem gt_of_rounds {other : Binary} (canonical : binary.IsCanonical)
    (other_canonical : other.IsCanonical) (more : other.value < binary.value) {number : Rat}
    (rounds : binary.rounds number) : other.value < number := by
  by_contra atMost
  have inside := rounds_of_between rounds (not_lt.mp atMost) more.le binary.rounds_value
  have same := canonical.eq_of_isNearest other_canonical (canonical.isNearest_of_rounds inside)
    other.isNearest_value
  exact more.ne' (congrArg value same)

/-! ## Single grids -/

/-- What is found on a grid is there, and rounds to the double. -/
theorem rounds_of_onGrid? {exponent : Int} {decimal : Decimal}
    (found : binary.onGrid? tie exponent = some decimal) :
    binary.rounds decimal.value ∧ decimal.exponent = exponent := by
  rw [onGrid?.eq_def] at found
  dsimp only at found
  split at found
  · cases found
  · next isBelow _ =>
    cases found
    exact ⟨isBelow, rfl⟩
  · next isAbove =>
    cases found
    exact ⟨isAbove, rfl⟩
  · next isBelow isAbove =>
    split at found
    · cases found
      exact ⟨isBelow, rfl⟩
    · split at found
      · cases found
        exact ⟨isAbove, rfl⟩
      · split at found
        · cases found
          exact ⟨isAbove, rfl⟩
        · cases found
          split
          · exact ⟨isBelow, rfl⟩
          · exact ⟨isAbove, rfl⟩

theorem value_nonneg (binary : Binary) : 0 ≤ binary.value :=
  mul_nonneg (Nat.cast_nonneg _) (pow_pos _).le

/-- The double is between two neighbours on a grid. -/
theorem floor_bounds (binary : Binary) (exponent : Int) :
    ((binary.value / (10 : Rat) ^ exponent).floor.toNat : Rat) * 10 ^ exponent ≤ binary.value ∧
      binary.value <
        ((binary.value / (10 : Rat) ^ exponent).floor.toNat + 1 : Nat) * (10 : Rat) ^ exponent := by
  have step_pos := Decimal.pow_pos exponent
  have nonneg : 0 ≤ binary.value / (10 : Rat) ^ exponent := div_nonneg binary.value_nonneg step_pos.le
  have floor_nonneg : 0 ≤ (binary.value / (10 : Rat) ^ exponent).floor :=
    Rat.le_floor_iff.mpr (by simpa using nonneg)
  have cast : (((binary.value / (10 : Rat) ^ exponent).floor.toNat : Int) : Rat) =
      ((binary.value / (10 : Rat) ^ exponent).floor : Rat) := by
    rw [Int.toNat_of_nonneg floor_nonneg]
  rw [Int.cast_natCast] at cast
  constructor
  · rw [cast, ← le_div_iff₀ step_pos]
    exact Rat.floor_le _
  · rw [← div_lt_iff₀ step_pos, Nat.cast_add, cast, Nat.cast_one]
    have less := Rat.lt_floor_add_one (binary.value / (10 : Rat) ^ exponent)
    rwa [Int.cast_add, Int.cast_one] at less

/-- If nothing is found on a grid, nothing on it rounds to the double. -/
theorem not_rounds_of_onGrid? {exponent : Int} (missing : binary.onGrid? tie exponent = none)
    (coefficient : Nat) : ¬binary.rounds (coefficient * (10 : Rat) ^ exponent) := by
  obtain ⟨floor_le, lt_next⟩ := binary.floor_bounds exponent
  have step_pos := Decimal.pow_pos exponent
  rw [onGrid?.eq_def] at missing
  dsimp only at missing
  split at missing
  · next notBelow notAbove =>
    intro rounds
    rcases Nat.lt_or_ge (binary.value / (10 : Rat) ^ exponent).floor.toNat coefficient with
      more | less
    · have atMost : (((binary.value / (10 : Rat) ^ exponent).floor.toNat + 1 : Nat) : Rat) ≤
          coefficient := by exact_mod_cast more
      have inside := rounds_of_between binary.rounds_value lt_next.le
        (mul_le_mul_of_nonneg_right atMost step_pos.le) rounds
      exact Bool.false_ne_true (notAbove.symm.trans inside)
    · have atLeast : (coefficient : Rat) ≤
          (binary.value / (10 : Rat) ^ exponent).floor.toNat := by exact_mod_cast less
      have inside := rounds_of_between rounds
        (mul_le_mul_of_nonneg_right atLeast step_pos.le) floor_le binary.rounds_value
      exact Bool.false_ne_true (notBelow.symm.trans inside)
  · cases missing
  · cases missing
  · exfalso
    split at missing
    · cases missing
    · split at missing
      · cases missing
      · split at missing <;> cases missing

/-! ## The coarsest grid -/

/-- Ten bits are a little more than three digits. -/
theorem thousand_pow_le {tens : Int} (bound : tens ≤ 102) :
    (1024 : Rat) ^ tens ≤ 100 * 1000 ^ tens := by
  have ratio : (1024 / 1000 : Rat) ^ tens ≤ 100 :=
    calc (1024 / 1000 : Rat) ^ tens
        ≤ (1024 / 1000) ^ (102 : Int) := zpow_le_zpow_right₀ (by norm_num) bound
      _ ≤ 100 := by norm_num
  rw [div_zpow, div_le_iff₀ (zpow_pos (by norm_num) tens)] at ratio
  exact ratio

/-- A power of two is less than a power of ten with three tenths of its exponent, and three more. -/
theorem two_pow_le {exponent : Int} (bound : exponent ≤ 1024) :
    (2 : Rat) ^ exponent ≤ 10 ^ (exponent * 3 / 10 + 3) := by
  obtain ⟨tens, rest, small, rfl⟩ : ∃ (tens : Int) (rest : Nat), rest < 10 ∧
      exponent = 10 * tens + rest :=
    ⟨exponent / 10, (exponent % 10).toNat, by omega, by omega⟩
  have bits : (2 : Rat) ^ (10 * tens + (rest : Int)) = 1024 ^ tens * 2 ^ rest := by
    rw [zpow_add₀ (by norm_num), zpow_mul, zpow_natCast]
    norm_num
  have digits : (10 : Rat) ^ ((10 * tens + (rest : Int)) * 3 / 10 + 3) =
      1000 ^ tens * (10 ^ (rest * 3 / 10) * 1000) := by
    have split : (10 * tens + (rest : Int)) * 3 / 10 + 3 =
        3 * tens + ((rest * 3 / 10 : Nat) + (3 : Nat) : Int) := by omega
    rw [split, zpow_add₀ (by norm_num), zpow_mul, zpow_add₀ (by norm_num), zpow_natCast,
      zpow_natCast]
    norm_num
  have few : (2 : Rat) ^ rest ≤ 10 * 10 ^ (rest * 3 / 10) := by
    interval_cases rest <;> norm_num
  have thousands : (0 : Rat) < 1000 ^ tens := zpow_pos (by norm_num) tens
  rw [bits, digits]
  calc (1024 : Rat) ^ tens * 2 ^ rest
      ≤ (100 * 1000 ^ tens) * (10 * 10 ^ (rest * 3 / 10)) :=
        mul_le_mul (thousand_pow_le (by omega)) few (by positivity) (by positivity)
    _ = 1000 ^ tens * (10 ^ (rest * 3 / 10) * 1000) := by ring

/-- A double is less than the steps of all grids that are coarser than the coarsest one. -/
theorem high_lt (canonical : binary.IsCanonical) (bound : binary.exponent ≤ 971) :
    binary.high < 10 ^ (binary.coarsest + 1) := by
  have small : (binary.mantissa : Rat) + 1 ≤ 2 ^ 53 := by exact_mod_cast canonical.mantissa_lt
  have unit_pos := binary.unit_pos
  calc binary.high
      = (binary.mantissa + 1 / 2) * binary.unit := rfl
    _ < 2 ^ 53 * binary.unit := mul_lt_mul_of_pos_right (by linarith) unit_pos
    _ = (2 : Rat) ^ (binary.exponent + 53) := by
        rw [unit, zpow_add₀ (by norm_num), mul_comm]
        norm_num
    _ ≤ 10 ^ ((binary.exponent + 53) * 3 / 10 + 3) := two_pow_le (by omega)
    _ = 10 ^ (binary.coarsest + 1) := by
        rw [coarsest, add_assoc]
        norm_num

/-- No positive decimal on a grid that is coarser than the coarsest one rounds to the double. -/
theorem not_rounds_of_coarsest_lt (canonical : binary.IsCanonical) (bound : binary.exponent ≤ 971)
    {coefficient : Nat} (positive : 0 < coefficient) {exponent : Int}
    (coarser : binary.coarsest < exponent) :
    ¬binary.rounds (coefficient * (10 : Rat) ^ exponent) := by
  intro rounds
  have least : (1 : Rat) ≤ coefficient := by exact_mod_cast positive
  have atMost := ((rounds_iff _ _).mp rounds).2.1
  have less : (coefficient : Rat) * 10 ^ exponent < 1 * 10 ^ exponent := by
    calc (coefficient : Rat) * 10 ^ exponent
        ≤ binary.high := atMost
      _ < 10 ^ (binary.coarsest + 1) := high_lt canonical bound
      _ ≤ 10 ^ exponent := zpow_le_zpow_right₀ (by norm_num) coarser
      _ = 1 * 10 ^ exponent := (one_mul _).symm
  exact absurd (lt_of_mul_lt_mul_right less (Decimal.pow_pos exponent).le) (not_lt.mpr least)

/-! ## All grids -/

theorem mem_grids {exponent : Int} :
    exponent ∈ binary.grids ↔ min 0 binary.exponent < exponent ∧ exponent ≤ binary.coarsest := by
  rw [grids, List.mem_map]
  constructor
  · rintro ⟨index, inside, rfl⟩
    have inside := List.mem_range.mp inside
    constructor <;> omega
  · rintro ⟨finer, coarser⟩
    refine ⟨(binary.coarsest - exponent).toNat, List.mem_range.mpr ?_, ?_⟩ <;> omega

theorem pairwise_grids (binary : Binary) : binary.grids.Pairwise (· > ·) := by
  refine List.pairwise_map.mpr (List.pairwise_lt_range.imp ?_)
  intro first second less
  omega

/-- The value itself is on its own grid. -/
theorem value_exact (binary : Binary) :
    binary.exact.value = binary.value ∧ binary.exact.exponent = min 0 binary.exponent := by
  rw [exact]
  cases sign : binary.exponent with
  | ofNat power =>
    refine ⟨?_, (min_eq_left (Int.natCast_nonneg power)).symm⟩
    rw [value, sign, Decimal.value]
    show ((binary.mantissa * Nat.pow 2 power : Nat) : Rat) * 10 ^ (0 : Int) =
      binary.mantissa * (2 : Rat) ^ (power : Int)
    rw [zpow_zero, mul_one, zpow_natCast, Nat.cast_mul]
    exact congrArg (_ * ·) (Nat.cast_pow 2 power)
  | negSucc power =>
    refine ⟨?_, (min_eq_right (Int.negSucc_lt_zero power).le).symm⟩
    rw [value, sign, Decimal.value]
    show ((binary.mantissa * Nat.pow 5 (power + 1) : Nat) : Rat) * 10 ^ (Int.negSucc power) =
      binary.mantissa * (2 : Rat) ^ (Int.negSucc power)
    rw [zpow_negSucc, zpow_negSucc, Nat.cast_mul]
    have powers : ((Nat.pow 5 (power + 1) : Nat) : Rat) = 5 ^ (power + 1) := Nat.cast_pow 5 _
    have tens : (10 : Rat) ^ (power + 1) = 5 ^ (power + 1) * 2 ^ (power + 1) := by
      rw [← mul_pow]
      norm_num
    rw [powers, tens, mul_inv, mul_assoc, ← mul_assoc (5 ^ (power + 1)),
      mul_inv_cancel₀ (by positivity), one_mul]

/-- The shortest decimal rounds to the double, and nothing is found on coarser grids. -/
theorem shortest_spec (binary : Binary) (tie : Tie) :
    binary.rounds (binary.shortest tie).value ∧
      min 0 binary.exponent ≤ (binary.shortest tie).exponent ∧
        ∀ exponent, (binary.shortest tie).exponent < exponent → exponent ≤ binary.coarsest →
          binary.onGrid? tie exponent = none := by
  rw [shortest]
  cases found : binary.grids.findSome? (binary.onGrid? tie) with
  | none =>
    have missing := List.findSome?_eq_none_iff.mp found
    obtain ⟨value, isOwn⟩ := binary.value_exact
    rw [Option.getD_none, value, isOwn]
    refine ⟨binary.rounds_value, le_refl _, ?_⟩
    exact fun exponent finer coarser => missing exponent (mem_grids.mpr ⟨finer, coarser⟩)
  | some decimal =>
    obtain ⟨coarser, grid, finer, split, here, missing⟩ := List.findSome?_eq_some_iff.mp found
    obtain ⟨rounds, rfl⟩ := rounds_of_onGrid? here
    have isGrid := mem_grids.mp (show decimal.exponent ∈ binary.grids by rw [split]; simp)
    rw [Option.getD_some]
    refine ⟨rounds, isGrid.1.le, ?_⟩
    intro exponent isCoarser bound
    have member := mem_grids.mpr ⟨isGrid.1.trans isCoarser, bound⟩
    have order := binary.pairwise_grids
    rw [split] at member order
    -- The grids are tried from the coarsest one to finer ones.
    rcases List.mem_append.mp member with before | after
    · exact missing exponent before
    · rcases List.mem_cons.mp after with rfl | isFiner
      · exact absurd isCoarser (lt_irrefl _)
      · have less := List.rel_of_pairwise_cons (List.pairwise_append.mp order).2.1 isFiner
        exact absurd isCoarser (lt_asymm less)

/-- The shortest decimal of a double rounds to it. -/
theorem rounds_shortest (binary : Binary) (tie : Tie) :
    binary.rounds (binary.shortest tie).value :=
  (binary.shortest_spec tie).1

section

variable (canonical : binary.IsCanonical) (bound : binary.exponent ≤ 971)
include canonical bound

/-- No positive decimal on a coarser grid rounds to the double. -/
theorem not_rounds_of_lt (tie : Tie) {coefficient : Nat} (positive : 0 < coefficient)
    {exponent : Int} (coarser : (binary.shortest tie).exponent < exponent) :
    ¬binary.rounds (coefficient * (10 : Rat) ^ exponent) := by
  rcases lt_or_ge binary.coarsest exponent with outside | inside
  · exact not_rounds_of_coarsest_lt canonical bound positive outside
  · exact not_rounds_of_onGrid? ((binary.shortest_spec tie).2.2 exponent coarser inside) coefficient

variable (positive : 0 < binary.mantissa)
include positive

omit canonical bound in
/-- Zero does not round to a positive double. -/
theorem coefficient_pos_of_rounds {decimal : Decimal} (rounds : binary.rounds decimal.value) :
    0 < decimal.coefficient := by
  rw [Nat.pos_iff_ne_zero]
  intro isZero
  have atLeast := ((rounds_iff _ _).mp rounds).1
  have unit_pos := binary.unit_pos
  have narrow := binary.unitBelow_le
  have least : (1 : Rat) ≤ binary.mantissa := by exact_mod_cast positive
  have product := mul_le_mul_of_nonneg_right least unit_pos.le
  rw [low_eq, value_eq, Decimal.value, isZero, Nat.cast_zero, zero_mul] at atLeast
  linarith

/-- The digits of the shortest decimal do not end with zero. -/
theorem coefficient_shortest_mod (tie : Tie) : (binary.shortest tie).coefficient % 10 ≠ 0 := by
  intro ends
  have rounds := binary.rounds_shortest tie
  obtain ⟨tenth, isTenth⟩ := Nat.dvd_of_mod_eq_zero ends
  have isPositive := coefficient_pos_of_rounds positive rounds
  have coarser : (binary.shortest tie).value =
      (tenth : Rat) * 10 ^ ((binary.shortest tie).exponent + 1) := by
    rw [Decimal.value, isTenth, zpow_add₀ (by norm_num), zpow_one]
    push_cast
    ring
  rw [coarser] at rounds
  exact not_rounds_of_lt canonical bound tie (by omega) (Int.lt_add_one_of_le le_rfl) rounds

/-- No decimal that rounds to the double has fewer digits than the shortest one. -/
theorem length_digits_le (tie : Tie) {decimal : Decimal} (nearest : binary.IsNearest decimal.value) :
    (binary.shortest tie).digits.length ≤ decimal.digits.length := by
  have rounds := canonical.rounds_of_isNearest positive nearest
  have isPositive := coefficient_pos_of_rounds positive rounds
  have someDigit : 0 < decimal.digits.length := Nat.length_toDigits_pos
  have step_pos := Decimal.pow_pos (binary.shortest tie).exponent
  by_contra more
  have large : 10 ^ decimal.digits.length ≤ (binary.shortest tie).coefficient :=
    not_lt.mp fun small => more ((Nat.length_toDigits_le_iff (by decide) someDigit).mpr small)
  have small : decimal.coefficient < 10 ^ decimal.digits.length :=
    (Nat.length_toDigits_le_iff (by decide) someDigit).mp (le_refl _)
  rcases lt_or_ge (binary.shortest tie).exponent decimal.exponent with coarser | finer
  · exact not_rounds_of_lt canonical bound tie isPositive coarser rounds
  · -- A power of ten with more zeros is between the two decimals.
    have small' : (decimal.coefficient : Rat) ≤ 10 ^ decimal.digits.length := by
      exact_mod_cast small.le
    have large' : (10 : Rat) ^ decimal.digits.length ≤ (binary.shortest tie).coefficient := by
      exact_mod_cast large
    have atLeast : decimal.value ≤
        10 ^ decimal.digits.length * 10 ^ (binary.shortest tie).exponent :=
      mul_le_mul small' (zpow_le_zpow_right₀ (by norm_num) finer) (Decimal.pow_pos _).le
        (by positivity)
    have atMost := mul_le_mul_of_nonneg_right large' step_pos.le
    have power := rounds_of_between rounds atLeast atMost (binary.rounds_shortest tie)
    rw [← zpow_natCast, ← zpow_add₀ (by norm_num)] at power
    refine not_rounds_of_lt canonical bound tie Nat.one_pos ?_ (by rwa [Nat.cast_one, one_mul])
    omega

end

end Binary

end Lox
