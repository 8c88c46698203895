/-
Module: SafRprGen.Lib.Significant
Layer: Lib
Purpose: Numbers with a bounded number of significant digits in a base, and rounding to the nearest of
  them. The error is at most half a unit in the last place, whatever the magnitude, also where the rounding
  carries into the next decade.
Main exports: HasDigits, Nearest, nearest_error, nearest_le, hasDigits_gap
-/
import Mathlib.Algebra.Order.Archimedean.Basic
import Mathlib.Algebra.Order.Round
import Mathlib.Data.Rat.Floor
import Mathlib.Tactic.Linarith
import Mathlib.Tactic.FieldSimp
import Mathlib.Tactic.Positivity

namespace Significant

/-- At most `digits` significant digits in base `base`. -/
def HasDigits (base digits : Nat) (y : ℚ) : Prop :=
  ∃ (m : Nat) (k : Int), m < base ^ digits ∧ y = m * (base : ℚ) ^ k

/-- No number with the property is closer. -/
def Nearest (P : ℚ → Prop) (x y : ℚ) : Prop := P y ∧ ∀ z, P z → |x - y| ≤ |x - z|

theorem hasDigits_one {base digits : Nat} (big : 1 < base) (some : 0 < digits) : HasDigits base digits 1 :=
  ⟨1, 0, Nat.one_lt_pow some.ne' big, by simp⟩

/-- Rounding does not pass a number that need not be rounded. -/
theorem nearest_le {P : ℚ → Prop} {x y z : ℚ} (nearest : Nearest P x y) (hz : P z) (le : x ≤ z) : y ≤ z := by
  by_contra above
  have closer := nearest.2 z hz
  rw [abs_sub_comm, abs_sub_comm x z, abs_of_nonneg (by linarith), abs_of_nonneg (by linarith)] at closer
  linarith

/-- Some number with the digits is within half a unit of the last place. -/
theorem exists_hasDigits_near {base digits : Nat} (big : 1 < base) (some : 0 < digits) {x : ℚ}
    (pos : 0 < x) :
    ∃ y, HasDigits base digits y ∧ 2 * |x - y| ≤ x / base ^ (digits - 1) := by
  have one : (1 : ℚ) < base := Nat.one_lt_cast.mpr big
  have basePos : (0 : ℚ) < base := by linarith
  obtain ⟨e, low, high⟩ := exists_mem_Ico_zpow pos one
  obtain ⟨digits, rfl⟩ := Nat.exists_eq_add_one_of_ne_zero some.ne'
  -- the unit in the last place
  generalize hu : (base : ℚ) ^ (e - digits) = u
  have unitPos : 0 < u := by
    rw [← hu]
    exact zpow_pos basePos _
  have decade : (base : ℚ) ^ e = u * base ^ digits := by
    rw [← hu, ← zpow_natCast, ← zpow_add₀ basePos.ne', sub_add_cancel]
  have top : x / u < base ^ (digits + 1) := by
    rw [div_lt_iff₀ unitPos, pow_succ, mul_right_comm, mul_comm _ u, ← decade, ← zpow_add_one₀ basePos.ne']
    exact high
  have nonneg : 0 ≤ round (x / u) := by
    rw [round_eq]
    exact Int.floor_nonneg.mpr (by positivity)
  obtain ⟨m, hm⟩ := Int.eq_ofNat_of_zero_le nonneg
  have error : |x / u - m| ≤ 1 / 2 := by
    have := abs_sub_round (x / u)
    rwa [hm] at this
  have within : m ≤ base ^ (digits + 1) := by
    have half := (abs_le.mp error).1
    have : (m : ℚ) < (base ^ (digits + 1) : Nat) + 1 := by
      push_cast
      linarith
    exact Nat.lt_succ_iff.mp (by exact_mod_cast this)
  refine ⟨m * u, ?_, ?_⟩
  · rcases within.lt_or_eq with less | full
    · exact ⟨m, e - digits, less, by rw [hu]⟩
    · refine ⟨base ^ digits, e - digits + 1, Nat.pow_lt_pow_right big (Nat.lt_succ_self _), ?_⟩
      rw [full, zpow_add_one₀ basePos.ne', hu]
      push_cast
      ring
  · have scaled : x - m * u = (x / u - m) * u := by
      field_simp
    rw [scaled, abs_mul, abs_of_pos unitPos, Nat.add_sub_cancel]
    have unit : u ≤ x / base ^ digits := by
      rw [le_div_iff₀ (by positivity), ← decade]
      exact low
    nlinarith [error, unitPos, unit]

/-- Rounding to the nearest has a relative error of at most half a unit. -/
theorem nearest_error {base digits : Nat} (big : 1 < base) (some : 0 < digits) {x y : ℚ} (pos : 0 < x)
    (nearest : Nearest (HasDigits base digits) x y) : 2 * |x - y| ≤ x / base ^ (digits - 1) := by
  obtain ⟨z, digitsZ, near⟩ := exists_hasDigits_near big some pos
  have closer := nearest.2 z digitsZ
  linarith

/-- Below one there is a gap. -/
theorem hasDigits_gap {base digits : Nat} (big : 1 < base) {y : ℚ} (has : HasDigits base digits y)
    (lt : y < 1) : y + 1 / base ^ digits ≤ 1 := by
  have one : (1 : ℚ) < base := Nat.one_lt_cast.mpr big
  have power : ∀ j : Nat, (0 : ℚ) < base ^ j := fun j => by positivity
  obtain ⟨m, k, hm, rfl⟩ := has
  have places : (m : ℚ) + 1 ≤ base ^ digits := by exact_mod_cast hm
  rcases Int.le_total 0 k with whole | fraction
  · obtain ⟨j, rfl⟩ := Int.eq_ofNat_of_zero_le whole
    have zero : m = 0 := by
      by_contra some
      have atLeast : (1 : ℚ) ≤ m := Nat.one_le_cast.mpr (Nat.one_le_iff_ne_zero.mpr some)
      have scale : (1 : ℚ) ≤ base ^ (j : Int) := by
        rw [zpow_natCast]
        exact one_le_pow₀ one.le
      nlinarith
    subst zero
    rw [Nat.cast_zero, zero_mul, zero_add, div_le_one (power _)]
    exact one_le_pow₀ one.le
  · obtain ⟨j, hj⟩ := Int.eq_ofNat_of_zero_le (show 0 ≤ -k by omega)
    obtain rfl : k = -(j : Int) := by omega
    rw [zpow_neg, zpow_natCast, ← div_eq_mul_inv] at lt ⊢
    rw [div_lt_one (power j)] at lt
    -- the unit is that of the last place, or of the last digit that fits
    rcases Nat.le_total j digits with short | long
    · have next : (m : ℚ) + 1 ≤ base ^ j := by exact_mod_cast lt
      have unit : 1 / (base : ℚ) ^ digits ≤ 1 / base ^ j :=
        one_div_le_one_div_of_le (power j) (pow_le_pow_right₀ one.le short)
      have sum : (m : ℚ) / base ^ j + 1 / base ^ j ≤ 1 := by
        rw [← add_div, div_le_one (power j)]
        exact next
      linarith
    · have smaller : (m : ℚ) / base ^ j ≤ m / base ^ digits :=
        div_le_div_of_nonneg_left (Nat.cast_nonneg m) (power digits) (pow_le_pow_right₀ one.le long)
      have sum : (m : ℚ) / base ^ digits + 1 / base ^ digits ≤ 1 := by
        rw [← add_div, div_le_one (power digits)]
        exact places
      linarith

end Significant
