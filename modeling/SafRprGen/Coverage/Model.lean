/-
Module: SafRprGen.Coverage.Model
Layer: Coverage
Purpose: The sums of `coverage_model.c`. The probability of a miss is carried from one pattern count to
  the next, with a power of the difference for draws with replacement and factor by factor without. `mpf`
  is what a variable of the model's precision keeps of an exact result; with `id` for it the sums are the
  formulas of `coverage_model.h`.
Main exports: CoverageModel, coverageModelAddFault, coverageModel_sums
-/
import SafRprGen.Coverage.Options
import SafRprGen.Lib.Loop
import Mathlib.Algebra.BigOperators.Intervals
import Mathlib.Algebra.Order.Round
import Mathlib.Data.Rat.Floor
import Mathlib.Algebra.Order.Floor.Ring
import Mathlib.Algebra.Order.BigOperators.Group.List
import Mathlib.Tactic.Ring
import Mathlib.Tactic.Linarith
import Mathlib.Tactic.FieldSimp

namespace SafRprGen

/-- `CoverageModel` without its precision; no sums without replacement are the null pointer. -/
structure CoverageModel where
  patternCounts : List Nat
  withoutReplacement : Bool
  totalPatterns : ℚ
  sumWithReplacement : List ℚ
  sumWithoutReplacement : List ℚ

/-- The precision `CoverageModelInit` chooses. -/
def coveragePrecision (nInputs : Nat) : Nat := max (nInputs + 128) 2048

/-- `CoverageModelInit`. -/
def coverageModelInit (patternCounts : List Nat) (withoutReplacement : Bool) (nInputs : Nat) :
    CoverageModel :=
  ⟨patternCounts, withoutReplacement, 2 ^ nInputs, patternCounts.map fun _ => 0,
    if withoutReplacement then patternCounts.map fun _ => 0 else []⟩

section Arithmetic

variable (mpf : ℚ → ℚ)

/-- One pass of the loop of `PowerUi`, on the result, the square and the exponent. -/
def powerPass (s : ℚ × ℚ × Nat) : Option (ℚ × ℚ × Nat) :=
  if s.2.2 = 0 then none
  else
    let result := if s.2.2 % 2 = 1 then mpf (s.1 * s.2.1) else s.1
    let exponent := s.2.2 / 2
    some (result, if 0 < exponent then mpf (s.2.1 * s.2.1) else s.2.1, exponent)

/-- `PowerUi`. -/
def powerUi (base : ℚ) (exponent : Nat) : Option ℚ :=
  (Loop.whileLoop (powerPass mpf) (exponent + 1) (1, mpf base, exponent)).map (·.1)

/-- The loop of `AddWithReplacement` over the counts and their sums; `none` when the difference of two
counts wraps around. -/
def withReplacementLoop (miss : ℚ) : List (Nat × ℚ) → ℚ → Nat → Option (List ℚ)
  | [], _, _ => some []
  | (np, sum) :: rest, allMiss, applied =>
      if np < applied then none
      else
        (powerUi mpf miss (np - applied)).bind fun step =>
          let allMiss := mpf (allMiss * step)
          (withReplacementLoop miss rest allMiss np).map (mpf (sum + mpf (1 - allMiss)) :: ·)

/-- `AddWithReplacement`. -/
def addWithReplacement (model : CoverageModel) (density : ℚ) : Option CoverageModel :=
  (withReplacementLoop mpf (mpf (1 - density))
    (model.patternCounts.zip model.sumWithReplacement) 1 0).map
      fun sums => { model with sumWithReplacement := sums }

/-- `RoundDetectingPatterns`. -/
def roundDetectingPatterns (totalPatterns density : ℚ) : ℚ :=
  let detecting := mpf (density * totalPatterns)
  let detecting := mpf (detecting + 1 / 2)
  let detecting : ℚ := ⌊detecting⌋
  let detecting := if detecting < 1 then 1 else detecting
  if totalPatterns < detecting then totalPatterns else detecting

/-- The inner loop of `AddWithoutReplacement`, `steps` passes from `k` on with `all_miss` and `certain`;
`none` when it divides by zero. -/
def drawLoop (missing totalPatterns : ℚ) : Nat → Nat → ℚ × Bool → Option (ℚ × Bool)
  | 0, _, s => some s
  | steps + 1, k, (allMiss, certain) =>
      if certain then some (allMiss, certain)
      else
        let numerator := mpf (missing - k)
        if numerator ≤ 0 then some (0, true)
        else
          let denominator := mpf (totalPatterns - k)
          if denominator = 0 then none
          else drawLoop missing totalPatterns steps (k + 1)
            (mpf (allMiss * mpf (numerator / denominator)), false)

/-- The loop of `AddWithoutReplacement` over the counts and their sums. -/
def withoutReplacementLoop (missing totalPatterns : ℚ) :
    List (Nat × ℚ) → ℚ × Bool → Nat → Option (List ℚ)
  | [], _, _ => some []
  | (np, sum) :: rest, s, applied =>
      (drawLoop mpf missing totalPatterns (np - applied) applied s).bind fun s =>
        (withoutReplacementLoop missing totalPatterns rest s np).map (mpf (sum + mpf (1 - s.1)) :: ·)

/-- `AddWithoutReplacement`. -/
def addWithoutReplacement (model : CoverageModel) (density : ℚ) : Option CoverageModel :=
  let missing := mpf (model.totalPatterns - roundDetectingPatterns mpf model.totalPatterns density)
  (withoutReplacementLoop mpf missing model.totalPatterns
    (model.patternCounts.zip model.sumWithoutReplacement) (1, false) 0).map
      fun sums => { model with sumWithoutReplacement := sums }

/-- `CoverageModelAddFault`. -/
def coverageModelAddFault (model : CoverageModel) (density : ℚ) : Option CoverageModel :=
  (addWithReplacement mpf model density).bind fun model =>
    if model.withoutReplacement then addWithoutReplacement mpf model density else some model

end Arithmetic

/-! ### Powers -/

/-- Square and multiply. -/
theorem powerUi_eq (base : ℚ) (exponent : Nat) : powerUi id base exponent = some (base ^ exponent) := by
  have step : ∀ s s' : ℚ × ℚ × Nat, s.1 * s.2.1 ^ s.2.2 = base ^ exponent →
      powerPass id s = some s' → s'.1 * s'.2.1 ^ s'.2.2 = base ^ exponent ∧ s'.2.2 < s.2.2 := by
    rintro ⟨result, square, e⟩ s' inv pass
    unfold powerPass at pass
    simp only [id] at inv pass
    by_cases zero : e = 0
    · rw [if_pos zero] at pass
      cases pass
    · rw [if_neg zero] at pass
      cases pass
      refine ⟨?_, by simp only; omega⟩
      rw [← inv]
      simp only
      have halves := Nat.div_add_mod e 2
      by_cases last : 0 < e / 2
      · rw [if_pos last, ← pow_two, ← pow_mul]
        by_cases odd : e % 2 = 1
        · rw [if_pos odd, mul_assoc, ← pow_succ']
          congr 2
          omega
        · rw [if_neg odd]
          congr 2
          omega
      · obtain rfl : e = 1 := by omega
        simp
  obtain ⟨⟨result, square, e⟩, run, inv, exit⟩ := Loop.whileLoop_total
    (fun s : ℚ × ℚ × Nat => s.1 * s.2.1 ^ s.2.2 = base ^ exponent) (fun s => s.2.2) step
    (exponent + 1) (1, id base, exponent) (one_mul _) (Nat.lt_succ_self _)
  have done : e = 0 := by
    by_contra more
    simp [powerPass, more] at exit
  subst done
  rw [powerUi, run, Option.map_some, ← inv]
  simp

/-! ### What the sums are -/

/-- The probability that `np` draws with replacement detect a fault of density `D`. -/
def detectWith (D : ℚ) (np : Nat) : ℚ := 1 - (1 - D) ^ np

/-- The number of detecting patterns: `D * N` to the nearest integer, between 1 and `N`. -/
def detectingPatterns (nInputs : Nat) (D : ℚ) : Nat :=
  min (max (round (D * 2 ^ nInputs)).toNat 1) (2 ^ nInputs)

/-- The probability that `np` draws without replacement from `N` patterns detect a fault that `Fd` of them
detect: certain once there are more draws than patterns that miss. -/
def detectWithout (N Fd np : Nat) : ℚ :=
  if N - Fd < np then 1 else 1 - ∏ k ∈ Finset.range np, ((N : ℚ) - Fd - k) / (N - k)

/-- The model after faults whose contributions for each count add up to the two functions. -/
def coverageState (counts : List Nat) (withoutReplacement : Bool) (nInputs : Nat)
    (sumWith sumWithout : Nat → ℚ) : CoverageModel :=
  ⟨counts, withoutReplacement, 2 ^ nInputs, counts.map sumWith,
    if withoutReplacement then counts.map sumWithout else []⟩

/-! ### With replacement -/

/-- The loop has `(1 - D) ^ applied` when it comes to the next count. -/
theorem withReplacementLoop_eq (miss : ℚ) (sum : Nat → ℚ) : ∀ (counts : List Nat) (applied : Nat),
    counts.Pairwise (· < ·) → (∀ np ∈ counts, applied ≤ np) →
      withReplacementLoop id miss (counts.zip (counts.map sum)) (miss ^ applied) applied =
        some (counts.map fun np => sum np + (1 - miss ^ np)) := by
  intro counts
  induction counts with
  | nil => intro _ _ _; rfl
  | cons np rest ih =>
      intro applied sorted above
      obtain ⟨first, sorted⟩ := List.pairwise_cons.mp sorted
      have le : applied ≤ np := above np List.mem_cons_self
      have power : miss ^ applied * miss ^ (np - applied) = miss ^ np := by
        rw [← pow_add, Nat.add_sub_cancel' le]
      simp only [List.map_cons, List.zip_cons_cons, withReplacementLoop, if_neg (Nat.not_lt.mpr le),
        powerUi_eq, Option.bind_some, id, power]
      rw [ih np sorted fun np' mem => (first np' mem).le]
      rfl

/-! ### Without replacement -/

/-- Rounding gives the number of detecting patterns. -/
theorem roundDetectingPatterns_eq (nInputs : Nat) {D : ℚ} (pos : 0 < D) :
    roundDetectingPatterns id (2 ^ nInputs) D = detectingPatterns nInputs D := by
  have nonneg : 0 ≤ round (D * 2 ^ nInputs) := by
    rw [round_eq]
    apply Int.floor_nonneg.mpr
    positivity
  obtain ⟨r, eq⟩ := Int.eq_ofNat_of_zero_le nonneg
  have floor : ⌊D * 2 ^ nInputs + 1 / 2⌋ = (r : Int) := by rw [← round_eq, eq]
  have total : (2 ^ nInputs : ℚ) = ((2 ^ nInputs : Nat) : ℚ) := by push_cast; rfl
  have one : (1 : Nat) ≤ 2 ^ nInputs := Nat.one_le_two_pow
  simp only [roundDetectingPatterns, id, floor, detectingPatterns, eq, Int.toNat_natCast,
    Int.cast_natCast, Nat.cast_lt_one]
  rw [total]
  generalize 2 ^ nInputs = N at one
  by_cases zero : r = 0
  · subst zero
    have notOver : ¬ ((N : ℚ) < 1) := by
      rw [not_lt]
      exact_mod_cast one
    simp [notOver, one]
  · rw [if_neg zero, max_eq_left (by omega)]
    by_cases more : N < r
    · rw [if_pos (Nat.cast_lt.mpr more), min_eq_right more.le]
    · rw [if_neg (by rwa [Nat.cast_lt]), min_eq_left (by omega)]

/-- The probability of a miss in `np` draws from `N` patterns of which `M` miss. -/
def missWithout (N M np : Nat) : ℚ :=
  if M < np then 0 else ∏ k ∈ Finset.range np, ((M : ℚ) - k) / (N - k)

theorem missWithout_succ {N M k : Nat} (lt : k < M) :
    missWithout N M (k + 1) = missWithout N M k * (((M : ℚ) - k) / (N - k)) := by
  rw [missWithout, missWithout, if_neg (by omega), if_neg (by omega), Finset.prod_range_succ]

/-- The inner loop carries the probability of a miss in `k` draws, and is certain when it is zero. -/
theorem drawLoop_eq {N M : Nat} (lt : M < N) : ∀ steps k : Nat,
    drawLoop id (M : ℚ) (N : ℚ) steps k (missWithout N M k, decide (M < k)) =
      some (missWithout N M (k + steps), decide (M < k + steps)) := by
  intro steps
  induction steps with
  | zero => intro k; rfl
  | succ steps ih =>
      intro k
      by_cases certain : M < k
      · have later : M < k + (steps + 1) := by omega
        simp [drawLoop, certain, later, missWithout]
      · by_cases last : k = M
        · subst last
          simp [drawLoop, missWithout]
        · have less : k < M := by omega
          have numerator : (0 : ℚ) < M - k := by
            have : (k : ℚ) < M := Nat.cast_lt.mpr less
            linarith
          have denominator : (N : ℚ) - k ≠ 0 := by
            have : (k : ℚ) < N := Nat.cast_lt.mpr (by omega)
            linarith
          have next := ih (k + 1)
          rw [missWithout_succ less, decide_eq_false (show ¬ M < k + 1 by omega)] at next
          simp only [drawLoop, certain, decide_false, Bool.false_eq_true, if_false, id,
            not_le.mpr numerator, denominator, next, Nat.add_assoc, Nat.add_comm 1]

theorem withoutReplacementLoop_eq {N M : Nat} (lt : M < N) (sum : Nat → ℚ) :
    ∀ (counts : List Nat) (applied : Nat), counts.Pairwise (· < ·) → (∀ np ∈ counts, applied ≤ np) →
      withoutReplacementLoop id (M : ℚ) (N : ℚ) (counts.zip (counts.map sum))
          (missWithout N M applied, decide (M < applied)) applied =
        some (counts.map fun np => sum np + (1 - missWithout N M np)) := by
  intro counts
  induction counts with
  | nil => intro _ _ _; rfl
  | cons np rest ih =>
      intro applied sorted above
      obtain ⟨first, sorted⟩ := List.pairwise_cons.mp sorted
      have le : applied ≤ np := above np List.mem_cons_self
      simp only [List.map_cons, List.zip_cons_cons, withoutReplacementLoop, drawLoop_eq lt,
        Nat.add_sub_cancel' le, Option.bind_some, id]
      rw [ih np sorted fun np' mem => (first np' mem).le]
      rfl

/-! ### Faults -/

theorem detectingPatterns_bounds (nInputs : Nat) (D : ℚ) :
    1 ≤ detectingPatterns nInputs D ∧ detectingPatterns nInputs D ≤ 2 ^ nInputs := by
  have one : (1 : Nat) ≤ 2 ^ nInputs := Nat.one_le_two_pow
  unfold detectingPatterns
  omega

theorem detectWithout_eq {N Fd : Nat} (le : Fd ≤ N) (np : Nat) :
    detectWithout N Fd np = 1 - missWithout N (N - Fd) np := by
  unfold detectWithout missWithout
  split
  · rw [sub_zero]
  · rw [Nat.cast_sub le]

/-- A fault adds its two probabilities to the sums of every count. -/
theorem coverageModelAddFault_eq {counts : List Nat} (sorted : counts.Pairwise (· < ·))
    (withoutReplacement : Bool) (nInputs : Nat) (sumWith sumWithout : Nat → ℚ) {D : ℚ} (pos : 0 < D) :
    coverageModelAddFault id (coverageState counts withoutReplacement nInputs sumWith sumWithout) D =
      some (coverageState counts withoutReplacement nInputs (fun np => sumWith np + detectWith D np)
        fun np => sumWithout np + detectWithout (2 ^ nInputs) (detectingPatterns nInputs D) np) := by
  have first := withReplacementLoop_eq (1 - D) sumWith counts 0 sorted fun _ _ => Nat.zero_le _
  rw [pow_zero] at first
  have withOnly : addWithReplacement id
      (coverageState counts withoutReplacement nInputs sumWith sumWithout) D =
        some (coverageState counts withoutReplacement nInputs
          (fun np => sumWith np + detectWith D np) sumWithout) := by
    simp only [addWithReplacement, coverageState, id, first, Option.map_some, detectWith]
  rw [coverageModelAddFault, withOnly, Option.bind_some]
  cases withoutReplacement with
  | false => rfl
  | true =>
      obtain ⟨low, high⟩ := detectingPatterns_bounds nInputs D
      have total : (2 ^ nInputs : ℚ) = ((2 ^ nInputs : Nat) : ℚ) := by push_cast; rfl
      have missing : (2 ^ nInputs : ℚ) - detectingPatterns nInputs D =
          ((2 ^ nInputs - detectingPatterns nInputs D : Nat) : ℚ) := by
        rw [Nat.cast_sub high, total]
      have start : missWithout (2 ^ nInputs) (2 ^ nInputs - detectingPatterns nInputs D) 0 = 1 := by
        simp [missWithout]
      have second := withoutReplacementLoop_eq
        (show 2 ^ nInputs - detectingPatterns nInputs D < 2 ^ nInputs by omega) sumWithout counts 0 sorted
        fun _ _ => Nat.zero_le _
      rw [start, decide_eq_false (Nat.not_lt_zero _)] at second
      simp only [coverageState, if_true, addWithoutReplacement, roundDetectingPatterns_eq nInputs pos, id,
        missing]
      rw [total, second]
      simp only [Option.map_some, detectWithout_eq high]

/-- The calls of `CoverageModelAddFault` for the faults of a report. -/
def coverageModelAddFaults (mpf : ℚ → ℚ) (model : CoverageModel) (densities : List ℚ) :
    Option CoverageModel :=
  densities.foldlM (coverageModelAddFault mpf) model

theorem coverageModelAddFaults_eq {counts : List Nat} (sorted : counts.Pairwise (· < ·))
    (withoutReplacement : Bool) (nInputs : Nat) :
    ∀ (densities : List ℚ) (sumWith sumWithout : Nat → ℚ), (∀ D ∈ densities, 0 < D ∧ D ≤ 1) →
      coverageModelAddFaults id (coverageState counts withoutReplacement nInputs sumWith sumWithout)
          densities =
        some (coverageState counts withoutReplacement nInputs
          (fun np => sumWith np + (densities.map fun D => detectWith D np).sum)
          fun np => sumWithout np + (densities.map fun D =>
            detectWithout (2 ^ nInputs) (detectingPatterns nInputs D) np).sum) := by
  intro densities
  induction densities with
  | nil => intro sumWith sumWithout _; simp [coverageModelAddFaults]
  | cons D rest ih =>
      intro sumWith sumWithout range
      obtain ⟨⟨pos, -⟩, range⟩ := List.forall_mem_cons.mp range
      rw [coverageModelAddFaults, List.foldlM_cons, coverageModelAddFault_eq sorted _ _ _ _ pos]
      apply (ih _ _ range).trans
      simp only [List.map_cons, List.sum_cons, add_assoc]

/-- For every accepted list of counts and all densities the loops end without a wrap-around or a division
by zero, and the sums are those of the formulas over the distinct counts that were asked for. -/
theorem coverageModel_sums {config config' : CoverageConfig} {value : CStr}
    (accepted : setCoverageOption config "-calc_f".toList (some value) = .ok config')
    (withoutReplacement : Bool) (nInputs : Nat) (densities : List ℚ)
    (range : ∀ D ∈ densities, 0 < D ∧ D ≤ 1) :
    config'.patternCounts.Pairwise (· < ·) ∧
      (∃ requested, (value.splitOn ',').mapM parsePatternCount = some requested ∧
        ∀ np, np ∈ config'.patternCounts ↔ np ∈ requested) ∧
      ∃ model, coverageModelAddFaults id
          (coverageModelInit config'.patternCounts withoutReplacement nInputs) densities = some model ∧
        model.sumWithReplacement =
          config'.patternCounts.map (fun np => (densities.map fun D => 1 - (1 - D) ^ np).sum) ∧
        (withoutReplacement = true → model.sumWithoutReplacement =
          config'.patternCounts.map fun np => (densities.map fun D =>
            detectWithout (2 ^ nInputs) (detectingPatterns nInputs D) np).sum) := by
  have counts : ∃ config'', setPatternCounts config value = some config'' ∧ config'' = config' := by
    unfold setCoverageOption at accepted
    simp only [if_true] at accepted
    split at accepted
    · rename_i set
      cases accepted
      by_cases has : hasValue (some value)
      · rw [if_pos has] at set
        exact ⟨_, set, rfl⟩
      · rw [if_neg has] at set
        cases set
    · cases accepted
  obtain ⟨_, set, rfl⟩ := counts
  obtain ⟨requested, read, sorted, same, -⟩ := setPatternCounts_spec set
  have run := coverageModelAddFaults_eq sorted withoutReplacement nInputs densities (fun _ => 0)
    (fun _ => 0) range
  refine ⟨sorted, ⟨requested, read, same⟩, _, run, ?_, ?_⟩
  · simp only [coverageState, zero_add, detectWith]
  · rintro rfl
    simp only [coverageState, if_true, zero_add]

theorem coverageModel_sums_quarter : ∃ config' model,
    setCoverageOption initCoverageConfig "-calc_f".toList (some "10,1,2,1".toList) = .ok config' ∧
      coverageModelAddFaults id (coverageModelInit config'.patternCounts true 2) [1 / 4, 1] =
        some model ∧
      model.sumWithReplacement =
        config'.patternCounts.map (fun np => ([1 / 4, 1].map fun D : ℚ => 1 - (1 - D) ^ np).sum) := by
  have accepted : setCoverageOption initCoverageConfig "-calc_f".toList (some "10,1,2,1".toList) =
      .ok ⟨true, [1, 2, 10], false, none⟩ := by decide +kernel
  obtain ⟨-, -, model, run, sums, -⟩ := coverageModel_sums accepted true 2 [1 / 4, 1] (by
    intro D mem
    simp only [List.mem_cons, List.not_mem_nil, or_false] at mem
    rcases mem with rfl | rfl <;> norm_num)
  exact ⟨_, model, accepted, run, sums⟩

end SafRprGen
