/-
Module: SafRprGen.Coverage.Rounding
Layer: Coverage
Purpose: The number of detecting patterns survives the report. The report keeps eleven digits of the
  density; as long as the number has at most ten, multiplying by the number of patterns and rounding gives
  it back, whatever the magnitude of the density.
Main exports: CorrectTo, PrintsNearest, KeepsBits, roundDetectingPatterns_printed
-/
import SafRprGen.Coverage.Csv
import SafRprGen.Lib.Significant

namespace SafRprGen

open Significant

/-- A value read for the decimal `d`, correct to a precision: a decimal that the precision can hold is read
exactly. -/
structure CorrectTo (precision : Nat) (d value : ℚ) : Prop where
  error : |value - d| ≤ d / 2 ^ precision
  exact : HasDigits 2 precision d → value = d

/-- A density is printed as the nearest decimal of eleven digits, and that is read correctly. -/
def PrintsNearest (gmp : Gmp) (precision : Nat) (D : ℚ) : Prop :=
  ∃ d value, Nearest (HasDigits 10 11) D d ∧ gmp.setStr precision (gmp.snprintf D) = some value ∧
    CorrectTo precision d value

/-- A variable keeps a result to the precision. -/
def KeepsBits (mpf : ℚ → ℚ) (precision : Nat) : Prop := ∀ x, 0 ≤ x → |mpf x - x| ≤ x / 2 ^ precision

theorem coveragePrecision_large (nInputs : Nat) :
    (1 : ℚ) / 2 ^ coveragePrecision nInputs ≤ 1 / 10 ^ 30 := by
  have large : 100 ≤ coveragePrecision nInputs := by
    unfold coveragePrecision
    omega
  apply one_div_le_one_div_of_le (by positivity)
  calc (10 : ℚ) ^ 30 ≤ 2 ^ 100 := by norm_num
    _ ≤ 2 ^ coveragePrecision nInputs := pow_le_pow_right₀ (by norm_num) large

/-- An error of the precision is below one part in `10 ^ 30`. -/
theorem small_error {nInputs : Nat} {x y : ℚ} (nonneg : 0 ≤ x)
    (error : |y - x| ≤ x / 2 ^ coveragePrecision nInputs) : |y - x| ≤ x / 10 ^ 30 := by
  have large := coveragePrecision_large nInputs
  calc |y - x| ≤ x * (1 / 2 ^ coveragePrecision nInputs) := by rw [mul_one_div]; exact error
    _ ≤ x * (1 / 10 ^ 30) := mul_le_mul_of_nonneg_left large nonneg
    _ = x / 10 ^ 30 := mul_one_div _ _

variable {gmp : Gmp} {mpf : ℚ → ℚ} {nInputs Fd : Nat}

/-- The value read is a density, and off by less than half a unit of the eleventh digit. -/
theorem printed_value {D d value : ℚ} (pos : 0 < D) (le : D ≤ 1)
    (nearest : Nearest (HasDigits 10 11) D d) (correct : CorrectTo (coveragePrecision nInputs) d value) :
    2 * |D - d| ≤ D / 10 ^ 10 ∧ 0 < d ∧ |value - d| ≤ d / 10 ^ 30 ∧ 0 < value ∧ value ≤ 1 := by
  have half : 2 * |D - d| ≤ D / 10 ^ 10 := by
    simpa using nearest_error (by norm_num) (by norm_num) pos nearest
  have dPos : 0 < d := by
    have below := le_abs_self (D - d)
    linarith
  have dOne : d ≤ 1 := nearest_le nearest (hasDigits_one (by norm_num) (by norm_num)) le
  have error := small_error dPos.le correct.error
  have bounds := abs_le.mp error
  have tiny : d / 10 ^ 30 < d := by
    rw [div_lt_iff₀ (by norm_num)]
    nlinarith
  refine ⟨half, dPos, error, by linarith, ?_⟩
  rcases dOne.lt_or_eq with below | one
  · have gap := hasDigits_gap (by norm_num) nearest.1 below
    have small : d / 10 ^ 30 ≤ 1 / 10 ^ 11 := by
      rw [div_le_iff₀ (by norm_num)]
      norm_num
      linarith
    push_cast at gap
    linarith
  · have holds : HasDigits 2 (coveragePrecision nInputs) d := by
      rw [one]
      exact hasDigits_one (by norm_num) (by unfold coveragePrecision; omega)
    rw [correct.exact holds]
    exact dOne

/-- The number of detecting patterns comes back from the report, for every number of inputs and every
count of at most ten digits. -/
theorem roundDetectingPatterns_printed (some : 1 ≤ Fd) (digits : Fd < 10 ^ 10) (le : Fd ≤ 2 ^ nInputs)
    (keeps : KeepsBits mpf (coveragePrecision nInputs))
    (printed : PrintsNearest gmp (coveragePrecision nInputs) (Fd / 2 ^ nInputs)) :
    ∃ density, readFdp gmp (coveragePrecision nInputs) (gmp.snprintf (Fd / 2 ^ nInputs)) = .some density ∧
      0 < density ∧ density ≤ 1 ∧ roundDetectingPatterns mpf (2 ^ nInputs) density = Fd := by
  obtain ⟨d, value, nearest, read, correct⟩ := printed
  have patterns : (0 : ℚ) < 2 ^ nInputs := by positivity
  have atLeast : (1 : ℚ) ≤ Fd := Nat.one_le_cast.mpr some
  have atMost : (Fd : ℚ) ≤ 10 ^ 10 - 1 := by
    have : (Fd : ℚ) + 1 ≤ (10 ^ 10 : Nat) := by exact_mod_cast digits
    push_cast at this
    linarith
  have total : (Fd : ℚ) ≤ 2 ^ nInputs := by exact_mod_cast le
  obtain ⟨half, dPos, error, valuePos, valueOne⟩ := printed_value (by positivity)
    ((div_le_one patterns).mpr total) nearest correct
  refine ⟨value, ?_, valuePos, valueOne, ?_⟩
  · simp [readFdp, read, valuePos.le, valueOne]
  · generalize (2 : ℚ) ^ nInputs = N at patterns total half ⊢
    have count : (Fd : ℚ) / N * N = Fd := div_mul_cancel₀ _ patterns.ne'
    -- the two multiplications by the number of patterns, each with its errors
    have scaled : 2 * |(Fd : ℚ) - d * N| ≤ Fd / 10 ^ 10 := by
      have wide := mul_le_mul_of_nonneg_right half patterns.le
      rwa [mul_assoc, ← abs_of_pos patterns, ← abs_mul, sub_mul, abs_of_pos patterns, count,
        div_mul_eq_mul_div, count] at wide
    have product : |value * N - d * N| ≤ d * N / 10 ^ 30 := by
      have wide := mul_le_mul_of_nonneg_right error patterns.le
      rwa [← abs_of_pos patterns, ← abs_mul, sub_mul, abs_of_pos patterns, div_mul_eq_mul_div] at wide
    have dN : 0 < d * N := mul_pos dPos patterns
    have valueN : 0 < value * N := mul_pos valuePos patterns
    have kept := small_error valueN.le (keeps _ valueN.le)
    obtain ⟨low₁, high₁⟩ := abs_le.mp (show |(Fd : ℚ) - d * N| ≤ Fd / 10 ^ 10 / 2 by linarith)
    obtain ⟨low₂, high₂⟩ := abs_le.mp product
    obtain ⟨low₃, high₃⟩ := abs_le.mp kept
    have productPos : 0 ≤ mpf (value * N) + 1 / 2 := by
      linarith
    obtain ⟨low₄, high₄⟩ := abs_le.mp (small_error productPos (keeps _ productPos))
    have floor : ⌊mpf (mpf (value * N) + 1 / 2)⌋ = (Fd : Int) := by
      rw [Int.floor_eq_iff, Int.cast_natCast]
      constructor
      · linarith
      · linarith
    simp only [roundDetectingPatterns, floor, Int.cast_natCast]
    rw [if_neg (show ¬ (Fd : ℚ) < 1 by linarith), if_neg (by linarith)]

/-- The density `3 / 8` is printed exactly. -/
theorem roundDetectingPatterns_printed_threeEighths :
    ∃ density, readFdp threeEighths (coveragePrecision 3) (threeEighths.snprintf ((3 : Nat) / 2 ^ 3)) =
        some density ∧
      0 < density ∧ density ≤ 1 ∧ roundDetectingPatterns id (2 ^ 3) density = (3 : Nat) := by
  have exactly : ((3 : Nat) : ℚ) / 2 ^ 3 = 3 / 8 := by norm_num
  apply roundDetectingPatterns_printed (by norm_num) (by norm_num) (by norm_num)
  · intro x nonneg
    rw [id, sub_self, abs_zero]
    positivity
  · rw [exactly]
    refine ⟨3 / 8, 3 / 8, ⟨⟨375, -3, by norm_num, by norm_num⟩, fun z _ => ?_⟩, by decide +kernel, ?_, ?_⟩
    · rw [sub_self, abs_zero]
      exact abs_nonneg _
    · rw [sub_self, abs_zero]
      positivity
    · intro _
      rfl

end SafRprGen
