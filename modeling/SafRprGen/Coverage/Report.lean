/-
Module: SafRprGen.Coverage.Report
Layer: Coverage
Purpose: The coverage report (`RunCoverage`) and what its numbers mean. A row gives the mean share of the
  requested faults that `np` random patterns detect, drawn with and without replacement, and is off by no
  more than the digits of the densities allow. Without replacement it is exact where no fault has more than
  ten digits of detecting patterns, since their number then survives the density report. Where a limit has
  left faults incomplete, the values are lower bounds.
Main exports: runCoverage, detectedBy, meanWithReplacement, meanWithoutReplacement, foundSets, CoverageRow,
  runCoverage_means
-/
import SafRprGen.Coverage.Csv
import SafRprGen.Coverage.Rounding
import SafRprGen.Lib.Sampling
import SafRprGen.Output.Densities

namespace SafRprGen

open Netlist Significant

/-! ### The report -/

section Report

variable (gmp : Gmp) (fixed : ℚ → CStr) (mpf : ℚ → ℚ)

/-- `Ratio`. -/
def ratio (sum : ℚ) (count : Nat) : ℚ := if 0 < count then mpf (sum / count) else 0

/-- A line of two fields. -/
def itemLine (item value : CStr) : CStr := item ++ ',' :: value ++ ['\n']

/-- `WriteResultRow`; `fixed` is `%.*Ff` with `RESULT_DIGITS` digits. -/
def writeResultRow (model : CoverageModel) (index : Nat) (counts : FaultCounts) (separator : CStr) : CStr :=
  let detectable := counts.total - counts.undetectable
  printCount (model.patternCounts.getD index 0) ++
    [counts.total, detectable].flatMap (fun denominator =>
      separator ++ fixed (ratio mpf (model.sumWithReplacement.getD index 0) denominator) ++
        if model.withoutReplacement then
          separator ++ fixed (ratio mpf (model.sumWithoutReplacement.getD index 0) denominator)
        else []) ++ ['\n']

/-- `WriteResultHeader`. -/
def writeResultHeader (withoutReplacement : Bool) (separator : CStr) : CStr :=
  if withoutReplacement then
    "Np".toList ++ separator ++ "F with-repl (=Sum/Nf)".toList ++ separator ++
      "F_nr without-repl (=Sum/Nf)".toList ++ separator ++ "E with-repl (=Sum/Nd)".toList ++ separator ++
        "E_nr without-repl (=Sum/Nd)\n".toList
  else "Np".toList ++ separator ++ "F (=Sum/Nf)".toList ++ separator ++ "E (=Sum/Nd)\n".toList

/-- The loop over `WriteResultRow`. -/
def writeResultRows (model : CoverageModel) (counts : FaultCounts) (separator : CStr) : CStr :=
  (List.range model.patternCounts.length).flatMap fun index =>
    writeResultRow fixed mpf model index counts separator

/-- `WriteCsvReport`. -/
def writeCsvReport (model : CoverageModel) (counts : FaultCounts) (fdpPath circuitName : CStr)
    (nInputs : Nat) :
    CStr :=
  let settings := "[Settings]\n".toList ++ itemLine "Item".toList "Value".toList ++
    itemLine "Circuit".toList circuitName ++ itemLine "FDP CSV".toList fdpPath ++
    itemLine "Primary inputs (n_pi)".toList (printCount nInputs) ++
    itemLine "N total patterns".toList ("2^".toList ++ printCount nInputs) ++
    itemLine "GMP precision (bits)".toList (printCount (coveragePrecision nInputs)) ++
    itemLine "Without replacement".toList (if model.withoutReplacement then "on".toList else "off".toList) ++
    "Np values,\"".toList ++ [' '].intercalate (model.patternCounts.map printCount) ++ "\"\n\n".toList
  let statistics := "[Fault Statistics]\n".toList ++ "Item,Count,Note\n".toList ++
    itemLine "Total faults (Nf)".toList (printCount counts.total ++ ",rows in FDP CSV".toList) ++
    itemLine "Undetectable (Nu)".toList (printCount counts.undetectable ++ ",fdp=0".toList) ++
    itemLine "Detectable (Nd)".toList (printCount (counts.total - counts.undetectable) ++ ",Nf-Nu".toList) ++
    itemLine "Equivalent (Neq)".toList (printCount counts.equivalent ++ ",cube_cnt blank".toList) ++
    itemLine "Incomplete (Ninc)".toList
      (printCount counts.incomplete ++ ",complete=0 (fdp is a lower bound)".toList) ++ ['\n']
  settings ++ statistics ++ "[F/E Results]\n".toList ++ writeResultHeader model.withoutReplacement [','] ++
    writeResultRows fixed mpf model counts [',']

/-- `PrintSummary`. -/
def printSummary (model : CoverageModel) (counts : FaultCounts) (output : CStr) : CStr :=
  "\n=== calc F ===\n".toList ++ "Nf = ".toList ++ printCount counts.total ++ ", Nu = ".toList ++
    printCount counts.undetectable ++ ", Nd = ".toList ++ printCount (counts.total - counts.undetectable) ++
    ", Neq = ".toList ++ printCount counts.equivalent ++ ", Ninc = ".toList ++
    printCount counts.incomplete ++
    ['\n'] ++
    (if 0 < counts.incomplete then "Note: incomplete faults exist; F and E are lower bounds.\n".toList
      else []) ++
    writeResultHeader model.withoutReplacement [' ', ' '] ++
    writeResultRows fixed mpf model counts [' ', ' '] ++
    "calc F CSV: ".toList ++ output ++ ['\n']

/-- What the files answer: the text of the density report where it can be opened, whether the output can be
opened, and whether it was written and closed without an error. -/
structure CoverageFiles where
  fdpCsv : Option CStr
  opens : Bool
  writes : Bool

/-- What `RunCoverage` leaves: its result, what it printed into the output, and the two streams. -/
structure CoverageRun where
  okay : Bool
  output : Option CStr
  stdout : CStr
  stderr : CStr
deriving DecidableEq, Repr

/-- `RunCoverage`; `none` when the arithmetic of the model fails. -/
def runCoverage (config : CoverageConfig) (fdpPath circuitName : CStr) (nInputs : Nat)
    (files : CoverageFiles) :
    Option CoverageRun :=
  let output := config.output.getD []
  match files.fdpCsv with
  | none => some ⟨false, none, [], "ERROR: calc F: cannot open FDP CSV: ".toList ++ fdpPath ++ ['\n']⟩
  | some csv =>
      match accumulateFaults gmp mpf (coveragePrecision nInputs) csv
        (coverageModelInit config.patternCounts config.withoutReplacement nInputs) with
      | .error e => some ⟨false, none, [], e.message fdpPath⟩
      | .ok (model, counts) => model.map fun model =>
          if !files.opens then
            ⟨false, none, [], "ERROR: calc F: cannot write: ".toList ++ output ++ ['\n']⟩
          else
            let report := writeCsvReport fixed mpf model counts fdpPath circuitName nInputs
            if !files.writes then
              ⟨false, some report, [], "ERROR: calc F: failed to write: ".toList ++ output ++ ['\n']⟩
            else ⟨true, some report, printSummary fixed mpf model counts output, []⟩

end Report

/-! ### What the numbers mean -/

namespace Netlist

variable {c : Netlist} {m : FaultModel}

/-- How many faults of a list some pattern of a set detects. -/
def detectedBy (c : Netlist) (m : FaultModel) (faults : List (Nat × FaultType))
    (patterns : Finset c.Assignment) :
    Nat :=
  faults.countP fun fault => decide (∃ x ∈ patterns, c.Detects m (c.entryFault m fault) x)

/-- The mean of the detected faults over all sequences of `np` patterns. -/
def meanWithReplacement (c : Netlist) (m : FaultModel) (faults : List (Nat × FaultType)) (np : Nat) : ℚ :=
  Sampling.mean (Finset.univ : Finset (Fin np → c.Assignment)) fun t =>
    c.detectedBy m faults (Finset.univ.image t)

/-- The mean of the detected faults over all sets of `np` patterns, or over the set of all patterns when
there are fewer. -/
def meanWithoutReplacement (c : Netlist) (m : FaultModel) (faults : List (Nat × FaultType)) (np : Nat) : ℚ :=
  Sampling.mean (Finset.univ.powersetCard (min np (2 ^ c.nPi))) fun patterns =>
    c.detectedBy m faults patterns

theorem card_assignment (c : Netlist) : Fintype.card c.Assignment = 2 ^ c.nPi := by
  unfold Assignment
  rw [Fintype.card_fun, Fintype.card_bool, Fintype.card_fin]

/-- The share of a set of assignments. -/
def shareOf (S : Finset c.Assignment) : ℚ := (S.card : ℚ) / 2 ^ c.nPi

theorem card_le_patterns (S : Finset c.Assignment) : S.card ≤ 2 ^ c.nPi := by
  rw [← card_assignment c]
  exact Finset.card_le_univ _

theorem shareOf_range (S : Finset c.Assignment) : 0 ≤ shareOf S ∧ shareOf S ≤ 1 := by
  unfold shareOf
  refine ⟨by positivity, ?_⟩
  rw [div_le_one (by positivity)]
  exact_mod_cast card_le_patterns S

theorem shareOf_eq_zero {S : Finset c.Assignment} : shareOf S = 0 ↔ S = ∅ := by
  rw [shareOf, div_eq_zero_iff, or_iff_left (by positivity), Nat.cast_eq_zero, Finset.card_eq_zero]

/-- How many sets of a list have a pattern. -/
def hits (found : List (Finset c.Assignment)) (patterns : Finset c.Assignment) : Nat :=
  found.countP fun S => decide (∃ x ∈ patterns, x ∈ S)

/-- The mean of the hits over all sequences of `np` patterns. -/
def meanHitsWith (found : List (Finset c.Assignment)) (np : Nat) : ℚ :=
  Sampling.mean (Finset.univ : Finset (Fin np → c.Assignment)) fun t => hits found (Finset.univ.image t)

/-- The mean of the hits over all sets of `np` patterns. -/
def meanHitsWithout (found : List (Finset c.Assignment)) (np : Nat) : ℚ :=
  Sampling.mean (Finset.univ.powersetCard (min np (2 ^ c.nPi))) fun patterns => hits found patterns

/-- A pattern detects a fault when it is one of its detecting assignments. -/
theorem detectedBy_eq (faults : List (Nat × FaultType)) (patterns : Finset c.Assignment) :
    c.detectedBy m faults patterns = hits (faults.map (c.detectingSet m)) patterns := by
  unfold detectedBy hits
  rw [List.countP_map]
  apply List.countP_congr
  intro fault _
  simp only [Function.comp_apply, detectingSet, Finset.mem_filter, Finset.mem_univ, true_and]

theorem meanWithReplacement_eq (faults : List (Nat × FaultType)) (np : Nat) :
    c.meanWithReplacement m faults np = meanHitsWith (faults.map (c.detectingSet m)) np := by
  unfold meanWithReplacement meanHitsWith
  simp only [detectedBy_eq]

theorem meanWithoutReplacement_eq (faults : List (Nat × FaultType)) (np : Nat) :
    c.meanWithoutReplacement m faults np = meanHitsWithout (faults.map (c.detectingSet m)) np := by
  unfold meanWithoutReplacement meanHitsWithout
  simp only [detectedBy_eq]

/-- Larger sets have more hits. -/
theorem hits_mono {found found' : List (Finset c.Assignment)} (sub : List.Forall₂ (· ⊆ ·) found found')
    (patterns : Finset c.Assignment) : hits found patterns ≤ hits found' patterns := by
  unfold hits
  induction sub with
  | nil => exact le_rfl
  | @cons S S' _ _ first _ ih =>
      rw [List.countP_cons, List.countP_cons]
      apply Nat.add_le_add ih
      by_cases hit : ∃ x ∈ patterns, x ∈ S
      · obtain ⟨x, drawn, mem⟩ := hit
        rw [if_pos (decide_eq_true ⟨x, drawn, mem⟩), if_pos (decide_eq_true ⟨x, drawn, first mem⟩)]
      · rw [if_neg (by simpa using hit)]
        exact Nat.zero_le _

theorem meanHits_mono {found found' : List (Finset c.Assignment)} (sub : List.Forall₂ (· ⊆ ·) found found')
    (np : Nat) : meanHitsWith found np ≤ meanHitsWith found' np ∧
      meanHitsWithout found np ≤ meanHitsWithout found' np :=
  ⟨Sampling.mean_le fun _ _ => Nat.cast_le.mpr (hits_mono sub _),
    Sampling.mean_le fun _ _ => Nat.cast_le.mpr (hits_mono sub _)⟩

/-- With replacement each set adds the probability of `AddWithReplacement`. -/
theorem meanHitsWith_eq (found : List (Finset c.Assignment)) (np : Nat) :
    meanHitsWith found np = (found.map fun S => detectWith (shareOf S) np).sum := by
  unfold meanHitsWith hits
  rw [Sampling.mean_count]
  congr 1
  apply List.map_congr_left
  intro S _
  have tuples := Sampling.mean_tuples S np
  rw [card_assignment] at tuples
  push_cast at tuples
  rw [detectWith, shareOf, ← tuples]
  refine congrArg (Sampling.mean _) (funext fun t => ?_)
  simp only [Sampling.share, Finset.mem_image, Finset.mem_univ, true_and, exists_exists_eq_and]

/-- After `N` draws there is nothing left to draw. -/
theorem detectWithout_min {N Fd : Nat} (le : Fd ≤ N) (np : Nat) :
    detectWithout N Fd (min np N) = if Fd = 0 then 0 else detectWithout N Fd np := by
  by_cases none : Fd = 0
  · subst none
    have one : ∀ k ∈ Finset.range (min np N), ((N : ℚ) - (0 : Nat) - k) / (N - k) = 1 := by
      intro k mem
      have low : k < N := (Finset.mem_range.mp mem).trans_le (min_le_right _ _)
      have left : (N : ℚ) - k ≠ 0 := sub_ne_zero.mpr (Nat.cast_lt.mpr low).ne'
      rw [Nat.cast_zero, sub_zero, div_self left]
    rw [if_pos rfl, detectWithout, if_neg (by omega), Finset.prod_congr rfl one, Finset.prod_const_one,
      sub_self]
  · rw [if_neg none]
    by_cases more : N < np
    · rw [min_eq_right more.le, detectWithout, detectWithout, if_pos (by omega), if_pos (by omega)]
    · rw [min_eq_left (by omega)]

/-- Without replacement each set that is not empty adds the probability of `AddWithoutReplacement`. -/
theorem meanHitsWithout_eq (found : List (Finset c.Assignment)) (np : Nat) :
    meanHitsWithout found np = (found.map fun S =>
      if shareOf S = 0 then 0 else detectWithout (2 ^ c.nPi) S.card np).sum := by
  unfold meanHitsWithout hits
  rw [Sampling.mean_count]
  congr 1
  apply List.map_congr_left
  intro S _
  have draws : min np (2 ^ c.nPi) ≤ Fintype.card c.Assignment := by
    rw [card_assignment]
    exact min_le_right _ _
  have subsets := Sampling.mean_subsets S draws
  have never : shareOf S = 0 ↔ S.card = 0 := by rw [shareOf_eq_zero, Finset.card_eq_zero]
  simp only [card_assignment] at subsets
  rw [subsets, if_congr never rfl rfl, ← detectWithout_min (card_le_patterns S)]
  rfl

end Netlist

/-! ### Printed densities -/

/-- A density is printed as the nearest decimal of eleven digits, in characters of a number, short enough
for the buffer, and that is read correctly. -/
structure PrintsWell (gmp : Gmp) (precision : Nat) (D : ℚ) : Prop where
  clean : ∀ ch ∈ gmp.snprintf D, fieldEnd ch = false
  nonempty : gmp.snprintf D ≠ []
  fits : (gmp.snprintf D).length < 64
  nearest : PrintsNearest gmp precision D

/-- A value read back for a density. -/
structure ReadsBack (D value : ℚ) : Prop where
  nonneg : 0 ≤ value
  le_one : value ≤ 1
  zero : value = 0 ↔ D = 0
  near : |value - D| ≤ D * (1 / (2 * 10 ^ 10) + 1 / 10 ^ 29)

section Printed

variable {gmp : Gmp} {nInputs : Nat} {D : ℚ}

/-- The density that is read back, and how far it is off. -/
theorem PrintsWell.density (prints : PrintsWell gmp (coveragePrecision nInputs) D) (nonneg : 0 ≤ D)
    (le : D ≤ 1) :
    ∃ value, PrintsDensity gmp (coveragePrecision nInputs) D value ∧ ReadsBack D value := by
  obtain ⟨d, value, nearest, read, correct⟩ := prints.nearest
  rcases nonneg.eq_or_lt with rfl | pos
  · -- zero is printed as zero
    have zero : HasDigits 10 11 0 := ⟨0, 0, by norm_num, by simp⟩
    have dZero : d = 0 := by
      have closer := nearest.2 0 zero
      rw [sub_zero, abs_zero, abs_nonpos_iff, zero_sub, neg_eq_zero] at closer
      exact closer
    have error := correct.error
    rw [dZero, sub_zero, zero_div, abs_nonpos_iff] at error
    subst error
    exact ⟨0, ⟨prints.clean, prints.nonempty, prints.fits, read, le_rfl, zero_le_one, Iff.rfl⟩,
      ⟨le_rfl, zero_le_one, Iff.rfl, by simp⟩⟩
  · obtain ⟨half, dPos, error, valuePos, valueOne⟩ := printed_value pos le nearest correct
    have zero : value = 0 ↔ D = 0 :=
      ⟨fun zero => absurd zero valuePos.ne', fun zero => absurd zero pos.ne'⟩
    refine ⟨value, ⟨prints.clean, prints.nonempty, prints.fits, read, valuePos.le, valueOne, zero⟩,
      ⟨valuePos.le, valueOne, zero, ?_⟩⟩
    obtain ⟨low, high⟩ := abs_le.mp (show |D - d| ≤ D / 10 ^ 10 / 2 by linarith)
    obtain ⟨low', high'⟩ := abs_le.mp error
    rw [abs_le]
    constructor
    · linarith
    · linarith

/-- The number of detecting patterns is found again. -/
theorem ReadsBack.detectingPatterns_eq {Fd : Nat} {value : ℚ} (read : ReadsBack (Fd / 2 ^ nInputs) value)
    (some : 1 ≤ Fd) (digits : Fd < 10 ^ 10) (le : Fd ≤ 2 ^ nInputs) :
    detectingPatterns nInputs value = Fd := by
  have patterns : (0 : ℚ) < 2 ^ nInputs := by positivity
  have atMost : (Fd : ℚ) ≤ 10 ^ 10 - 1 := by
    have : (Fd : ℚ) + 1 ≤ (10 ^ 10 : Nat) := by exact_mod_cast digits
    push_cast at this
    linarith
  have scaled : |value * 2 ^ nInputs - Fd| ≤ Fd * (1 / (2 * 10 ^ 10) + 1 / 10 ^ 29) := by
    have wide := mul_le_mul_of_nonneg_right read.near patterns.le
    rwa [← abs_of_pos patterns, ← abs_mul, sub_mul, abs_of_pos patterns, mul_right_comm,
      div_mul_cancel₀ _ patterns.ne'] at wide
  obtain ⟨low, high⟩ := abs_le.mp scaled
  have rounded : round (value * 2 ^ nInputs) = (Fd : Int) := by
    rw [round_eq, Int.floor_eq_iff, Int.cast_natCast]
    constructor
    · linarith
    · linarith
  rw [detectingPatterns, rounded, Int.toNat_natCast, max_eq_left some, min_eq_left le]

/-- Any number of detecting patterns is found again up to the digits of the density. -/
theorem ReadsBack.detectingPatterns_near {Fd : Nat} {value : ℚ} (read : ReadsBack (Fd / 2 ^ nInputs) value)
    (some : 1 ≤ Fd) (le : Fd ≤ 2 ^ nInputs) :
    |(detectingPatterns nInputs value : ℚ) - Fd| ≤ 2 * (Fd / 10 ^ 10) := by
  have patterns : (0 : ℚ) < 2 ^ nInputs := by positivity
  have scaled : |value * 2 ^ nInputs - Fd| ≤ Fd / 10 ^ 10 := by
    have wide := mul_le_mul_of_nonneg_right read.near patterns.le
    rw [← abs_of_pos patterns, ← abs_mul, sub_mul, abs_of_pos patterns, mul_right_comm,
      div_mul_cancel₀ _ patterns.ne'] at wide
    have small : (1 : ℚ) / (2 * 10 ^ 10) + 1 / 10 ^ 29 ≤ 1 / 10 ^ 10 := by norm_num
    exact wide.trans ((mul_le_mul_of_nonneg_left small (Nat.cast_nonneg _)).trans_eq (mul_one_div _ _))
  -- the nearest integer is no farther off than the number itself
  have nearest : |value * 2 ^ nInputs - round (value * 2 ^ nInputs)| ≤ Fd / 10 ^ 10 := by
    apply (round_le _ (Fd : Int)).trans
    rwa [Int.cast_natCast]
  have rounded : |(round (value * 2 ^ nInputs) : ℚ) - Fd| ≤ 2 * (Fd / 10 ^ 10) := by
    have split : (round (value * 2 ^ nInputs) : ℚ) - Fd =
        (value * 2 ^ nInputs - Fd) - (value * 2 ^ nInputs - round (value * 2 ^ nInputs)) := by ring
    rw [split]
    apply (abs_sub _ _).trans
    linarith
  have clamped : |(detectingPatterns nInputs value : Int) - Fd| ≤ |round (value * 2 ^ nInputs) - Fd| := by
    have above := le_abs_self (round (value * 2 ^ nInputs) - (Fd : Int))
    have below := neg_le_abs (round (value * 2 ^ nInputs) - (Fd : Int))
    unfold detectingPatterns
    exact abs_le.mpr ⟨by omega, by omega⟩
  have cast : |(detectingPatterns nInputs value : ℚ) - Fd| ≤ |(round (value * 2 ^ nInputs) : ℚ) - Fd| := by
    exact_mod_cast clamped
  exact cast.trans rounded

/-- Without replacement the error of the number of patterns grows with the number of draws. -/
theorem detectWithout_near {N F F' : Nat} (le : F ≤ N) (le' : F' ≤ N) (np : Nat) :
    |detectWithout N F np - detectWithout N F' np| ≤ |(F : ℚ) - F'| * (np / N) := by
  -- the probability as a quotient of binomial coefficients
  have quotient : np ≤ N → ∀ F ≤ N, detectWithout N F np =
      1 - (((N - F).choose np : Nat) : ℚ) / (N.choose np : Nat) := by
    intro draws F le
    unfold detectWithout
    by_cases certain : N - F < np
    · rw [if_pos certain, Nat.choose_eq_zero_of_lt certain, Nat.cast_zero, zero_div, sub_zero]
    · rw [if_neg certain, Sampling.choose_div_choose (Nat.sub_le _ _) (by omega), Nat.cast_sub le]
  have ordered : ∀ F F' : Nat, F ≤ F' → F' ≤ N →
      |detectWithout N F np - detectWithout N F' np| ≤ |(F : ℚ) - F'| * (np / N) := by
    intro F F' less le'
    by_cases draws : np ≤ N
    · have more : ((N - F').choose np : ℚ) / (N.choose np : Nat) ≤ ((N - F).choose np : ℚ) /
          (N.choose np : Nat) := by
        gcongr
      have few := @Sampling.choose_div_choose_add N (N - F') (F' - F) (by omega) np
      rw [show N - F' + (F' - F) = N - F by omega, Nat.cast_sub less] at few
      rw [quotient draws F (less.trans le'), quotient draws F' le', sub_sub_sub_cancel_left, abs_sub_comm,
        abs_of_nonneg (sub_nonneg.mpr more), abs_sub_comm,
        abs_of_nonneg (sub_nonneg.mpr (Nat.cast_le.mpr less))]
      exact few
    · have certain : ∀ F, detectWithout N F np = 1 := fun F => if_pos (by omega)
      rw [certain, certain, sub_self, abs_zero]
      positivity
  rcases Nat.le_total F F' with less | more
  · exact ordered F F' less le'
  · rw [abs_sub_comm, abs_sub_comm (F : ℚ)]
    exact ordered F' F more le

/-- The error of the density grows with the number of draws. -/
theorem ReadsBack.detectWith_near {value : ℚ} (read : ReadsBack D value) (nonneg : 0 ≤ D) (le : D ≤ 1)
    (np : Nat) :
    |detectWith value np - detectWith D np| ≤ np / 10 ^ 10 := by
  obtain ⟨nonneg', le', -, near⟩ := read
  have power := abs_pow_sub_pow_le (1 - D) (1 - value) np
  have base : max |1 - D| |1 - value| ^ (np - 1) ≤ 1 := by
    refine pow_le_one₀ (le_max_of_le_left (abs_nonneg _)) (max_le ?_ ?_)
    · rw [abs_of_nonneg (by linarith)]
      linarith
    · rw [abs_of_nonneg (by linarith)]
      linarith
  have gap : |1 - D - (1 - value)| ≤ 1 / 10 ^ 10 := by
    rw [show 1 - D - (1 - value) = value - D by ring]
    apply near.trans
    norm_num
    linarith
  calc |detectWith value np - detectWith D np| = |(1 - D) ^ np - (1 - value) ^ np| := by
        rw [detectWith, detectWith]
        congr 1
        ring
    _ ≤ |1 - D - (1 - value)| * np * max |1 - D| |1 - value| ^ (np - 1) := power
    _ ≤ 1 / 10 ^ 10 * np * 1 := by gcongr
    _ = np / 10 ^ 10 := by ring

end Printed

/-! ### Reading the report -/

section Read

variable {gmp : Gmp} {mpf : ℚ → ℚ} {precision : Nat} {c : Netlist} {m : FaultModel}

/-- The rows of a written report are read line by line. -/
theorem accumulateFaults_written (value : ℚ → ℚ) {written : List WrittenResult} (some : written ≠ [])
    (names : ∀ r ∈ written, CsvName r.target.name ∧ ∀ id ∈ r.members, CsvName (c.name (memberNet id)))
    (printed : ∀ r ∈ written, PrintsDensity gmp precision r.result.density (value r.result.density))
    (model : CoverageModel) :
    accumulateFaults gmp mpf precision (fdpCsv gmp c m written) model =
      .ok (coverageModelAddFaults mpf model (((written.flatMap (WrittenResult.readLines gmp c m value)).map
          ReadLine.density).filter fun D => decide (D ≠ 0)),
        FaultCounts.after ⟨0, 0, 0, 0⟩ (written.flatMap (WrittenResult.readLines gmp c m value))) := by
  generalize rows : written.flatMap (WrittenResult.readLines gmp c m value) = lines
  have whole : lines.map ReadLine.line = written.flatMap (WrittenResult.writeFaultResult gmp c m) := by
    rw [← rows, List.map_flatMap]
    exact List.flatMap_congr fun r _ => line_readLines value r
  have text : CText.getlines (fdpCsv gmp c m written) = fdpHeader :: lines.map ReadLine.line := by
    rw [whole, fdpCsv, fdpHeader, getlines_csvRow (by decide), getlines_rows]
    intro row mem
    obtain ⟨r, ofResult, mem⟩ := List.mem_flatMap.mp mem
    exact writeFaultResult_rows (names r ofResult).1 (names r ofResult).2 (printed r ofResult) row mem
  have reads : ∀ line ∈ lines,
      RowRead gmp precision line.line line.density line.equivalent line.incomplete := by
    intro line mem
    obtain ⟨r, ofResult, mem⟩ := List.mem_flatMap.mp (rows ▸ mem)
    rcases List.mem_cons.mp mem with rfl | mem
    · exact targetRow_read (names r ofResult).1 (printed r ofResult)
    · obtain ⟨id, other, rfl⟩ := List.mem_map.mp mem
      exact memberRow_read ((names r ofResult).2 id (List.mem_filter.mp other).1) (printed r ofResult)
  have filled : lines ≠ [] := by
    intro none
    obtain ⟨r, mem⟩ := List.exists_mem_of_ne_nil written some
    exact List.cons_ne_nil _ _ (List.flatMap_eq_nil_iff.mp (rows.trans none) r mem)
  simp only [accumulateFaults, text, readCsvColumns_fdpHeader,
    accumulateRows_eq lines 1 (.some model) ⟨0, 0, 0, 0⟩ reads, Except.bind, foldl_addFault]
  rw [if_neg]
  change 0 + lines.length ≠ 0
  rw [Nat.zero_add]
  exact List.length_eq_zero_iff.not.mpr filled

end Read

/-- What does not count may be left out. -/
theorem sum_filter_ne_zero (f : ℚ → ℚ) (l : List ℚ) :
    ((l.filter fun D => decide (D ≠ 0)).map f).sum = (l.map fun D => if D = 0 then 0 else f D).sum := by
  induction l with
  | nil => rfl
  | cons D l ih =>
      by_cases zero : D = 0
      · rw [List.filter_cons_of_neg (by simp [zero]), ih, List.map_cons, List.sum_cons, if_pos zero,
          zero_add]
      · rw [List.filter_cons_of_pos (by simp [zero]), List.map_cons, List.sum_cons, ih, List.map_cons,
          List.sum_cons, if_neg zero]

/-- Sums whose terms are near are near. -/
theorem abs_sum_sub_le {β : Type} {l : List β} {f g : β → ℚ} {p : β → Bool} {ε : ℚ}
    (near : ∀ b ∈ l, |f b - g b| ≤ if p b then ε else 0) :
    |(l.map f).sum - (l.map g).sum| ≤ l.countP p * ε := by
  induction l with
  | nil => simp
  | cons b l ih =>
      obtain ⟨first, near⟩ := List.forall_mem_cons.mp near
      have rest := ih near
      have split : (f b + (l.map f).sum) - (g b + (l.map g).sum) =
          (f b - g b) + ((l.map f).sum - (l.map g).sum) := by ring
      rw [List.map_cons, List.map_cons, List.sum_cons, List.sum_cons, split, List.countP_cons]
      refine (abs_add_le _ _).trans ((add_le_add first rest).trans (le_of_eq ?_))
      cases p b with
      | false => simp
      | true =>
          push_cast
          simp only [if_true]
          ring

/-! ### The rows -/

/-- How many faults of a list can be detected. -/
def Netlist.detectable (c : Netlist) (m : FaultModel) (faults : List (Nat × FaultType)) : Nat :=
  faults.countP fun fault => decide (c.detectingSet m fault ≠ ∅)

/-- A value is a lower bound of a mean up to an error, and near the mean where all results are complete. -/
def Estimates (complete : Prop) (error mean value : ℚ) : Prop :=
  value ≤ mean + error ∧ (complete → |value - mean| ≤ error)

/-- The numbers of a row against the mean of the faults that `np` patterns detect, as a share of all
faults and of those that can be detected. They are off by the digits of the densities; where `few` says
that every result has few patterns, those without replacement are not off at all. -/
structure CoverageRow (c : Netlist) (m : FaultModel) (faults : List (Nat × FaultType)) (complete few : Prop)
    (np : Nat) (f fNr e eNr : ℚ) : Prop where
  ofAll : Estimates complete (np / 10 ^ 10) (c.meanWithReplacement m faults np / faults.length) f
  ofDetectable :
    Estimates complete (np / 10 ^ 10) (c.meanWithReplacement m faults np / c.detectable m faults) e
  ofAllNr :
    Estimates complete (2 * (np / 10 ^ 10)) (c.meanWithoutReplacement m faults np / faults.length) fNr
  ofDetectableNr : Estimates complete (2 * (np / 10 ^ 10))
    (c.meanWithoutReplacement m faults np / c.detectable m faults) eNr
  ofAllNr_few : few → Estimates complete 0 (c.meanWithoutReplacement m faults np / faults.length) fNr
  ofDetectableNr_few : few →
    Estimates complete 0 (c.meanWithoutReplacement m faults np / c.detectable m faults) eNr

/-- A row of the report with these numbers. -/
def coverageLine (fixed : ℚ → CStr) (withoutReplacement : Bool) (separator : CStr) (np : Nat)
    (f fNr e eNr : ℚ) :
    CStr :=
  printCount np ++ (separator ++ fixed f ++ if withoutReplacement then separator ++ fixed fNr else []) ++
    (separator ++ fixed e ++ if withoutReplacement then separator ++ fixed eNr else []) ++ ['\n']

theorem ratio_id (sum : ℚ) (count : Nat) : ratio id sum count = sum / count := by
  unfold ratio
  split
  · rfl
  · rename_i none
    rw [Nat.eq_zero_of_not_pos none, Nat.cast_zero, div_zero]

/-- The share is off by no more than the sum, divided by what it is a sum over. -/
theorem abs_div_sub_le {sum mean ε : ℚ} {few many : Nat} (near : |sum - mean| ≤ few * ε) (le : few ≤ many)
    (nonneg : 0 ≤ ε) : |sum / many - mean / many| ≤ ε := by
  rw [← sub_div]
  rcases Nat.eq_zero_or_pos many with rfl | pos
  · simpa using nonneg
  · have size : (0 : ℚ) < many := Nat.cast_pos.mpr pos
    rw [abs_div, abs_of_pos size, div_le_iff₀ size, mul_comm]
    exact near.trans (mul_le_mul_of_nonneg_right (Nat.cast_le.mpr le) nonneg)

/-- A share estimates a mean where the sum is near to hits that the mean bounds. -/
theorem Estimates.of_sums {complete : Prop} {sum hits mean ε : ℚ} {few many : Nat}
    (near : |sum - hits| ≤ few * ε)
    (fewer : few ≤ many) (nonneg : 0 ≤ ε) (le : hits ≤ mean) (eq : complete → hits = mean) :
    Estimates complete ε (mean / many) (sum / many) := by
  have share := abs_div_sub_le near fewer nonneg
  refine ⟨?_, fun all => eq all ▸ share⟩
  have below := (abs_le.mp share).2
  have bound : hits / many ≤ mean / many := by gcongr
  linarith

section Sums

variable {c : Netlist} {found : List (Finset c.Assignment)} {value : ℚ → ℚ}

/-- The sum with replacement is off by the error of each set that is not empty. -/
theorem sum_withReplacement (reads : ∀ S ∈ found, ReadsBack (shareOf S) (value (shareOf S))) (np : Nat) :
    |(((found.map fun S => value (shareOf S)).filter fun D => decide (D ≠ 0)).map
      fun D => detectWith D np).sum -
        meanHitsWith found np| ≤ (found.countP fun S => decide (S ≠ ∅)) * (np / 10 ^ 10) := by
  rw [sum_filter_ne_zero, List.map_map, meanHitsWith_eq]
  apply abs_sum_sub_le
  intro S mem
  have read := reads S mem
  rw [Function.comp_apply]
  by_cases none : S = ∅
  · have never := shareOf_eq_zero.mpr none
    rw [if_pos (read.zero.mpr never), never]
    simp [detectWith, none]
  · rw [if_neg (read.zero.not.mpr (shareOf_eq_zero.not.mpr none)), decide_eq_true none, if_pos rfl]
    obtain ⟨nonneg, le⟩ := shareOf_range S
    exact read.detectWith_near nonneg le np

/-- The sum without replacement is off by twice as much at most. -/
theorem sum_withoutReplacement_near (reads : ∀ S ∈ found, ReadsBack (shareOf S) (value (shareOf S)))
    (np : Nat) :
    |(((found.map fun S => value (shareOf S)).filter fun D => decide (D ≠ 0)).map fun D =>
        detectWithout (2 ^ c.nPi) (detectingPatterns c.nPi D) np).sum - meanHitsWithout found np| ≤
      (found.countP fun S => decide (S ≠ ∅)) * (2 * (np / 10 ^ 10)) := by
  rw [sum_filter_ne_zero, List.map_map, meanHitsWithout_eq]
  apply abs_sum_sub_le
  intro S mem
  have read := reads S mem
  rw [Function.comp_apply, if_congr read.zero rfl rfl]
  by_cases never : shareOf S = 0
  · rw [if_pos never, if_pos never, decide_eq_false (not_not.mpr (shareOf_eq_zero.mp never)), sub_self,
      abs_zero]
    exact le_rfl
  · have isSome : S ≠ ∅ := shareOf_eq_zero.not.mp never
    have some : 1 ≤ S.card := Finset.card_pos.mpr (Finset.nonempty_iff_ne_empty.mpr isSome)
    rw [if_neg never, if_neg never, decide_eq_true isSome, if_pos rfl]
    apply (detectWithout_near (detectingPatterns_bounds _ _).2 (card_le_patterns S) np).trans
    have off := read.detectingPatterns_near some (card_le_patterns S)
    have share : (S.card : ℚ) / 2 ^ c.nPi ≤ 1 := (shareOf_range S).2
    push_cast
    calc _ ≤ 2 * ((S.card : ℚ) / 10 ^ 10) * (np / 2 ^ c.nPi) := by gcongr
      _ = (S.card : ℚ) / 2 ^ c.nPi * (2 * (np / 10 ^ 10)) := by ring
      _ ≤ 1 * (2 * (np / 10 ^ 10)) := by gcongr
      _ = 2 * (np / 10 ^ 10) := one_mul _

/-- The sum without replacement is exact where the sets are small. -/
theorem sum_withoutReplacement (reads : ∀ S ∈ found, ReadsBack (shareOf S) (value (shareOf S)))
    (digits : ∀ S ∈ found, S.card < 10 ^ 10) (np : Nat) :
    (((found.map fun S => value (shareOf S)).filter fun D => decide (D ≠ 0)).map fun D =>
      detectWithout (2 ^ c.nPi) (detectingPatterns c.nPi D) np).sum = meanHitsWithout found np := by
  rw [sum_filter_ne_zero, List.map_map, meanHitsWithout_eq]
  congr 1
  apply List.map_congr_left
  intro S mem
  have read := reads S mem
  rw [Function.comp_apply, if_congr read.zero rfl rfl]
  by_cases never : shareOf S = 0
  · rw [if_pos never, if_pos never]
  · have some : 1 ≤ S.card :=
      Finset.card_pos.mpr (Finset.nonempty_iff_ne_empty.mpr (shareOf_eq_zero.not.mp never))
    rw [if_neg never, if_neg never, read.detectingPatterns_eq some (digits S mem) (card_le_patterns S)]

end Sums

/-- The faults of the rows, each with the call that writes it. -/
def reportRows (written : List WrittenResult) : List (WrittenResult × (Nat × FaultType)) :=
  written.flatMap fun w => (reportedFaults w).map fun fault => (w, fault)

theorem mem_reportRows {written : List WrittenResult} {row : WrittenResult × (Nat × FaultType)} :
    row ∈ reportRows written ↔ row.1 ∈ written ∧ row.2 ∈ reportedFaults row.1 := by
  obtain ⟨w, fault⟩ := row
  unfold reportRows
  rw [List.mem_flatMap]
  constructor
  · rintro ⟨w', isWritten, mem⟩
    obtain ⟨fault', isFault, same⟩ := List.mem_map.mp mem
    cases same
    exact ⟨isWritten, isFault⟩
  · rintro ⟨isWritten, isFault⟩
    exact ⟨w, isWritten, List.mem_map.mpr ⟨fault, isFault, rfl⟩⟩

theorem map_snd_reportRows (written : List WrittenResult) :
    (reportRows written).map (·.2) = written.flatMap reportedFaults := by
  unfold reportRows
  rw [List.map_flatMap]
  apply List.flatMap_congr
  intro w _
  rw [List.map_map]
  exact List.map_id _

/-- The assignments that the results have for the faults of the rows. -/
def foundSets (c : Netlist) (written : List WrittenResult) : List (Finset c.Assignment) :=
  (reportRows written).map fun row => c.covered row.1.result.cubes

theorem length_foundSets (c : Netlist) (written : List WrittenResult) :
    (foundSets c written).length = (written.flatMap reportedFaults).length := by
  rw [foundSets, List.length_map, ← map_snd_reportRows, List.length_map]

section Rows

variable {gmp : Gmp} {c : Netlist} {opt : Opt} {t : FaultState} {results : List (FNODE × FaultResult)}
  {written : List WrittenResult}

/-- The density of a result is the share of what it has. -/
theorem DensityReport.density (report : DensityReport c opt t results written) {w : WrittenResult}
    (mem : w ∈ written) : w.result.density = shareOf (c.covered w.result.cubes) :=
  (report.right w mem (memberNet (nodeId w.target), memberType (nodeId w.target)) List.mem_cons_self).density

/-- The densities that are read, fault by fault. -/
theorem DensityReport.densities (report : DensityReport c opt t results written) (value : ℚ → ℚ) :
    (written.flatMap (WrittenResult.readLines gmp c opt.faultModel value)).map ReadLine.density =
      (foundSets c written).map fun S => value (shareOf S) := by
  unfold foundSets reportRows
  rw [List.map_flatMap, List.map_map, List.map_flatMap]
  apply List.flatMap_congr
  intro w mem
  rw [density_readLines, List.map_map, report.density mem]
  change _ = (reportedFaults w).map fun _ => value (shareOf (c.covered w.result.cubes))
  rw [List.map_const', length_writeFaultResult, reportedFaults, List.length_map, reportedIds,
    List.length_cons]

theorem countP_equivalent (value : ℚ → ℚ) (written : List WrittenResult) :
    (written.flatMap (WrittenResult.readLines gmp c opt.faultModel value)).countP (·.equivalent) +
      written.length = (written.flatMap (WrittenResult.readLines gmp c opt.faultModel value)).length := by
  induction written with
  | nil => rfl
  | cons w written ih =>
      simp only [List.flatMap_cons, List.countP_append, List.length_append, List.length_cons,
        WrittenResult.readLines, List.countP_cons, List.countP_map, List.length_map, Function.comp_def,
        List.countP_true, Bool.false_eq_true, if_false] at ih ⊢
      omega

theorem countP_incomplete (value : ℚ → ℚ) (written : List WrittenResult) :
    (written.flatMap (WrittenResult.readLines gmp c opt.faultModel value)).countP (·.incomplete) =
      written.countP fun w => !w.result.complete := by
  induction written with
  | nil => rfl
  | cons w written ih =>
      simp only [List.flatMap_cons, List.countP_append, WrittenResult.readLines, List.countP_cons,
        List.countP_map, Function.comp_def, List.countP_false, Function.const_apply] at ih ⊢
      rw [ih]
      omega

/-- What the reader counts. -/
theorem DensityReport.counts (report : DensityReport c opt t results written) {value : ℚ → ℚ}
    (zero : ∀ S ∈ foundSets c written, value (shareOf S) = 0 ↔ shareOf S = 0) :
    FaultCounts.after ⟨0, 0, 0, 0⟩ (written.flatMap (WrittenResult.readLines gmp c opt.faultModel value)) =
      { total := (foundSets c written).length
        undetectable := (foundSets c written).countP fun S => decide (S = ∅)
        equivalent := (foundSets c written).length - written.length
        incomplete := written.countP fun w => !w.result.complete } := by
  have densities := @DensityReport.densities gmp c opt t results written report value
  have total := congrArg List.length densities
  rw [List.length_map, List.length_map] at total
  have undetectable := congrArg (List.countP fun D => decide (D = 0)) densities
  rw [List.countP_map, List.countP_map] at undetectable
  have same : (foundSets c written).countP ((fun D => decide (D = 0)) ∘ fun S => value (shareOf S)) =
      (foundSets c written).countP fun S => decide (S = ∅) := by
    apply List.countP_congr
    intro S mem
    rw [Function.comp_apply, decide_eq_true_eq, decide_eq_true_eq, zero S mem, shareOf_eq_zero]
  have equivalent := @countP_equivalent gmp c opt value written
  rw [total] at equivalent
  unfold FaultCounts.after
  rw [FaultCounts.mk.injEq, Nat.zero_add, Nat.zero_add, Nat.zero_add, Nat.zero_add, ← same, ← undetectable,
    countP_incomplete, ← total]
  refine ⟨rfl, rfl, ?_, rfl⟩
  rw [total, ← equivalent, Nat.add_sub_cancel]

/-- A row names faults of nets that exist. -/
theorem DensityReport.names (report : DensityReport c opt t results written)
    (named : ∀ n < c.nNet, CsvName (c.name n)) :
    ∀ r ∈ written, CsvName r.target.name ∧ ∀ id ∈ r.members, CsvName (c.name (memberNet id)) := by
  intro r mem
  have low : ∀ id ∈ reportedIds r, memberNet id < c.nNet := by
    intro id isId
    have isFault : (memberNet id, memberType id) ∈ written.flatMap reportedFaults :=
      List.mem_flatMap.mpr ⟨r, mem, List.mem_map_of_mem isId⟩
    exact ((report.exact _ _).mp isFault).low
  have own := low (nodeId r.target) List.mem_cons_self
  rw [nodeId, memberNet_faultId] at own
  refine ⟨report.named r mem ▸ named _ own, fun id isMember => ?_⟩
  by_cases isTarget : id = nodeId r.target
  · rw [isTarget, nodeId, memberNet_faultId]
    exact named _ own
  · refine named _ (low id (List.mem_cons_of_mem _ ?_))
    rw [otherMembers_eq]
    exact List.mem_filter.mpr ⟨isMember, decide_eq_true isTarget⟩

/-- What `AccumulateFaults` makes of a density report. -/
theorem DensityReport.accumulate (report : DensityReport c opt t results written) (some : written ≠ [])
    (named : ∀ n < c.nNet, CsvName (c.name n))
    (prints : ∀ w ∈ written, PrintsWell gmp (coveragePrecision c.nPi) w.result.density) :
    ∃ value : ℚ → ℚ, (∀ S ∈ foundSets c written, ReadsBack (shareOf S) (value (shareOf S))) ∧
      ∀ mpf model, accumulateFaults gmp mpf (coveragePrecision c.nPi)
        (fdpCsv gmp c opt.faultModel written) model =
        .ok (coverageModelAddFaults mpf model (((foundSets c written).map fun S => value (shareOf S)).filter
            fun D => decide (D ≠ 0)),
          { total := (foundSets c written).length
            undetectable := (foundSets c written).countP fun S => decide (S = ∅)
            equivalent := (foundSets c written).length - written.length
            incomplete := written.countP fun w => !w.result.complete }) := by
  have near : ∀ D, ∃ value, PrintsWell gmp (coveragePrecision c.nPi) D → 0 ≤ D → D ≤ 1 →
      PrintsDensity gmp (coveragePrecision c.nPi) D value ∧ ReadsBack D value := by
    intro D
    by_cases well : PrintsWell gmp (coveragePrecision c.nPi) D ∧ 0 ≤ D ∧ D ≤ 1
    · obtain ⟨value, printed⟩ := well.1.density well.2.1 well.2.2
      exact ⟨value, fun _ _ _ => printed⟩
    · exact ⟨0, fun prints nonneg le => absurd ⟨prints, nonneg, le⟩ well⟩
  choose value near using near
  have printed : ∀ w ∈ written, PrintsDensity gmp (coveragePrecision c.nPi) w.result.density
      (value w.result.density) ∧ ReadsBack w.result.density (value w.result.density) := by
    intro w mem
    have prints := prints w mem
    rw [report.density mem] at prints ⊢
    obtain ⟨nonneg, le⟩ := shareOf_range (c.covered w.result.cubes)
    exact near _ prints nonneg le
  have reads : ∀ S ∈ foundSets c written, ReadsBack (shareOf S) (value (shareOf S)) := by
    intro S mem
    obtain ⟨row, isRow, rfl⟩ := List.mem_map.mp mem
    have isWritten := (mem_reportRows.mp isRow).1
    rw [← report.density isWritten]
    exact (printed row.1 isWritten).2
  refine ⟨value, reads, fun mpf model => ?_⟩
  rw [accumulateFaults_written value some (report.names named) fun w mem => (printed w mem).1,
    report.counts fun S mem => (reads S mem).zero, report.densities value]

/-- Every set is empty or not. -/
theorem sub_countP_empty (found : List (Finset c.Assignment)) :
    found.length - (found.countP fun S => decide (S = ∅)) = found.countP fun S => decide (S ≠ ∅) := by
  have split := @List.length_eq_countP_add_countP _ (fun S : Finset c.Assignment => decide (S = ∅)) found
  have other : (found.countP fun S => decide (¬ decide (S = ∅) = true)) =
      found.countP fun S => decide (S ≠ ∅) := by
    apply List.countP_congr
    intro S _
    simp only [decide_eq_true_eq, ne_eq]
  rw [split, Nat.add_sub_cancel_left, other]

/-- What was found for the faults of the rows. -/
theorem DensityReport.found (report : DensityReport c opt t results written) :
    (foundSets c written).countP (fun S => decide (S ≠ ∅)) =
        c.detectable opt.faultModel (written.flatMap reportedFaults) ∧
      List.Forall₂ (· ⊆ ·) (foundSets c written)
        ((written.flatMap reportedFaults).map (c.detectingSet opt.faultModel)) ∧
      ((written.countP fun w => !w.result.complete) = 0 →
        foundSets c written = (written.flatMap reportedFaults).map (c.detectingSet opt.faultModel)) := by
  have right : ∀ row ∈ reportRows written, ResultFor c opt.faultModel row.1.result row.2 := by
    intro row mem
    obtain ⟨isWritten, isFault⟩ := mem_reportRows.mp mem
    exact report.right row.1 isWritten row.2 isFault
  unfold foundSets Netlist.detectable
  rw [← map_snd_reportRows, List.countP_map, List.countP_map, List.map_map]
  refine ⟨List.countP_congr fun row mem => ?_, ?_, fun complete => List.map_congr_left fun row mem => ?_⟩
  · rw [Function.comp_apply, Function.comp_apply, decide_eq_true_eq, decide_eq_true_eq]
    have sound := (right row mem).sound
    constructor
    · intro some none
      rw [none] at sound
      exact some (Finset.subset_empty.mp sound)
    · exact fun some none => some ((right row mem).some none)
  · rw [List.forall₂_map_left_iff, List.forall₂_map_right_iff, List.forall₂_same]
    exact fun row mem => (right row mem).sound
  · have isComplete := List.countP_eq_zero.mp complete row.1 (mem_reportRows.mp mem).1
    rw [Bool.not_eq_true, Bool.not_eq_false'] at isComplete
    exact (right row mem).complete.mp isComplete

/-- The run that reads a report and writes the other. -/
theorem runCoverage_ok {fixed : ℚ → CStr} {mpf : ℚ → ℚ} {config : CoverageConfig}
    {fdpPath circuitName csv : CStr} {nInputs : Nat} {model : CoverageModel} {counts : FaultCounts}
    (read : accumulateFaults gmp mpf (coveragePrecision nInputs) csv
      (coverageModelInit config.patternCounts config.withoutReplacement nInputs) =
        .ok (some model, counts)) :
    runCoverage gmp fixed mpf config fdpPath circuitName nInputs ⟨some csv, true, true⟩ =
      some ⟨true, some (writeCsvReport fixed mpf model counts fdpPath circuitName nInputs),
        printSummary fixed mpf model counts (config.output.getD []), []⟩ := by
  simp only [runCoverage, read, Option.map_some, Bool.not_true, Bool.false_eq_true, if_false]

/-- The row of a model whose sums are functions of the number of patterns. -/
theorem writeResultRow_eq (fixed : ℚ → CStr) {patternCounts : List Nat} (withoutReplacement : Bool)
    (nInputs : Nat)
    (sumWith sumWithout : Nat → ℚ) {index np : Nat} (isCount : patternCounts[index]? = some np)
    (counts : FaultCounts) (separator : CStr) :
    writeResultRow fixed id (coverageState patternCounts withoutReplacement nInputs sumWith sumWithout)
      index counts
        separator =
      coverageLine fixed withoutReplacement separator np (sumWith np / counts.total)
        (sumWithout np / counts.total) (sumWith np / (counts.total - counts.undetectable : Nat))
        (sumWithout np / (counts.total - counts.undetectable : Nat)) := by
  have isWith : (patternCounts.map sumWith).getD index 0 = sumWith np := by
    rw [List.getD_eq_getElem?_getD, List.getElem?_map, isCount, Option.map_some, Option.getD_some]
  have isWithout : (patternCounts.map sumWithout).getD index 0 = sumWithout np := by
    rw [List.getD_eq_getElem?_getD, List.getElem?_map, isCount, Option.map_some, Option.getD_some]
  have isNp : patternCounts.getD index 0 = np := by
    rw [List.getD_eq_getElem?_getD, isCount, Option.getD_some]
  unfold writeResultRow coverageLine coverageState
  cases withoutReplacement <;>
    simp only [isWith, isWithout, isNp, ratio_id, if_true, Bool.false_eq_true, if_false, List.flatMap_cons,
      List.flatMap_nil, List.append_nil, List.append_assoc]

/-- The row of sums that are near or equal to the hits of what was found. -/
theorem DensityReport.coverageRow (report : DensityReport c opt t results written) (np : Nat)
    {few : Prop} {sumWith sumWithout : ℚ} (near : |sumWith - meanHitsWith (foundSets c written) np| ≤
      (foundSets c written).countP (fun S => decide (S ≠ ∅)) * (np / 10 ^ 10))
    (nearNr : |sumWithout - meanHitsWithout (foundSets c written) np| ≤
      (foundSets c written).countP (fun S => decide (S ≠ ∅)) * (2 * (np / 10 ^ 10)))
    (exactly : few → sumWithout = meanHitsWithout (foundSets c written) np) :
    CoverageRow c opt.faultModel (written.flatMap reportedFaults)
      ((written.countP fun w => !w.result.complete) = 0) few np
      (sumWith / (written.flatMap reportedFaults).length)
        (sumWithout / (written.flatMap reportedFaults).length)
      (sumWith / c.detectable opt.faultModel (written.flatMap reportedFaults))
      (sumWithout / c.detectable opt.faultModel (written.flatMap reportedFaults)) := by
  obtain ⟨detectable, sub, all⟩ := report.found
  obtain ⟨lessWith, lessWithout⟩ := meanHits_mono sub np
  rw [← meanWithReplacement_eq] at lessWith
  rw [← meanWithoutReplacement_eq] at lessWithout
  rw [detectable] at near nearNr
  have fewer : c.detectable opt.faultModel (written.flatMap reportedFaults) ≤
      (written.flatMap reportedFaults).length := List.countP_le_length
  have allWith : (written.countP fun w => !w.result.complete) = 0 → meanHitsWith (foundSets c written) np =
      c.meanWithReplacement opt.faultModel (written.flatMap reportedFaults) np := fun complete => by
    rw [meanWithReplacement_eq, ← all complete]
  have allWithout : (written.countP fun w => !w.result.complete) = 0 →
      meanHitsWithout (foundSets c written) np =
      c.meanWithoutReplacement opt.faultModel (written.flatMap reportedFaults) np := fun complete => by
    rw [meanWithoutReplacement_eq, ← all complete]
  have same : few → |sumWithout - meanHitsWithout (foundSets c written) np| ≤
      (c.detectable opt.faultModel (written.flatMap reportedFaults) : ℚ) * 0 := fun small => by
    rw [exactly small, sub_self, abs_zero, mul_zero]
  exact
    { ofAll := .of_sums near fewer (by positivity) lessWith allWith
      ofDetectable := .of_sums near le_rfl (by positivity) lessWith allWith
      ofAllNr := .of_sums nearNr fewer (by positivity) lessWithout allWithout
      ofDetectableNr := .of_sums nearNr le_rfl (by positivity) lessWithout allWithout
      ofAllNr_few := fun small => .of_sums (same small) fewer le_rfl lessWithout allWithout
      ofDetectableNr_few := fun small => .of_sums (same small) le_rfl le_rfl lessWithout allWithout }

/-- The coverage report of a density report. It counts the requested faults; a row gives for its number of
patterns the mean share of the faults that so many random patterns detect, up to the digits of the densities,
and without replacement exactly where every result has fewer than `10 ^ 10` patterns. Where faults are
incomplete, the numbers are lower bounds. -/
theorem runCoverage_means (report : DensityReport c opt t results written) (some : written ≠ [])
    (named : ∀ n < c.nNet, CsvName (c.name n))
    (prints : ∀ w ∈ written, PrintsWell gmp (coveragePrecision c.nPi) w.result.density)
    (config : CoverageConfig) (sorted : config.patternCounts.Pairwise (· < ·)) (fixed : ℚ → CStr)
    (fdpPath circuitName : CStr) :
    ∃ model counts, runCoverage gmp fixed id config fdpPath circuitName c.nPi
        ⟨.some (fdpCsv gmp c opt.faultModel written), true, true⟩ =
        .some ⟨true, .some (writeCsvReport fixed id model counts fdpPath circuitName c.nPi),
          printSummary fixed id model counts (config.output.getD []), []⟩ ∧
      counts.total = (written.flatMap reportedFaults).length ∧
      counts.total - counts.undetectable = c.detectable opt.faultModel (written.flatMap reportedFaults) ∧
      counts.equivalent = counts.total - written.length ∧
      counts.incomplete = written.countP (fun w => !w.result.complete) ∧
      model.patternCounts = config.patternCounts ∧
      ∀ index np, config.patternCounts[index]? = .some np → ∃ f fNr e eNr,
        CoverageRow c opt.faultModel (written.flatMap reportedFaults) (counts.incomplete = 0)
            (∀ w ∈ written, w.result.density * 2 ^ c.nPi < 10 ^ 10) np f fNr e eNr ∧
          ∀ separator, writeResultRow fixed id model index counts separator =
            coverageLine fixed config.withoutReplacement separator np f fNr e eNr := by
  obtain ⟨value, reads, read⟩ := report.accumulate some named prints
  have few : (∀ w ∈ written, w.result.density * 2 ^ c.nPi < 10 ^ 10) → ∀ S ∈ foundSets c written,
      S.card < 10 ^ 10 := by
    intro digits S mem
    obtain ⟨row, isRow, rfl⟩ := List.mem_map.mp mem
    have isWritten := (mem_reportRows.mp isRow).1
    have low := digits row.1 isWritten
    rw [report.density isWritten, shareOf, div_mul_cancel₀ _ (by positivity)] at low
    exact_mod_cast low
  -- the sums of the model
  have range : ∀ D ∈ ((foundSets c written).map fun S => value (shareOf S)).filter fun D => decide (D ≠ 0),
      0 < D ∧ D ≤ 1 := by
    intro D mem
    obtain ⟨isValue, nonzero⟩ := List.mem_filter.mp mem
    obtain ⟨S, isFound, rfl⟩ := List.mem_map.mp isValue
    have back := reads S isFound
    exact ⟨lt_of_le_of_ne back.nonneg (Ne.symm (of_decide_eq_true nonzero)), back.le_one⟩
  have sums := coverageModelAddFaults_eq sorted config.withoutReplacement c.nPi _ (fun _ => 0)
      (fun _ => 0) range
  have ran := read id (coverageModelInit config.patternCounts config.withoutReplacement c.nPi)
  have start : coverageModelInit config.patternCounts config.withoutReplacement c.nPi =
      coverageState config.patternCounts config.withoutReplacement c.nPi (fun _ => 0) fun _ => 0 := rfl
  rw [start, sums] at ran
  have detectable := (sub_countP_empty (foundSets c written)).trans report.found.1
  refine ⟨_, _, runCoverage_ok ran, length_foundSets c written, detectable, rfl, rfl, rfl,
    fun index np isCount => ?_⟩
  have row := report.coverageRow np (sum_withReplacement reads np) (sum_withoutReplacement_near reads np)
    fun digits => sum_withoutReplacement reads (few digits) np
  rw [← detectable, ← length_foundSets c written] at row
  refine ⟨_, _, _, _, ?_, writeResultRow_eq fixed _ _ _ _ isCount _⟩
  rw [zero_add, zero_add]
  exact row

end Rows

/-! ### The AND gate -/

/-- The six faults of the AND gate, each in a class of its own; the limit cuts the cubes of one of them
off. -/
def andWritten : List WrittenResult :=
  [(0, .SF0, "11", 1 / 4), (0, .SF1, "0X", 2 / 4), (1, .SF0, "11", 1 / 4), (1, .SF1, "01", 1 / 4),
    (2, .SF0, "11", 1 / 4), (2, .SF1, "10", 1 / 4)].map fun (net, type, cube, density) =>
      ⟨⟨[], andNetlist.name net, type, net, none⟩, ⟨[cube.toList], 1, cube != "0X", density⟩, []⟩

theorem andWritten_right : ∀ w ∈ andWritten, ∀ fault ∈ reportedFaults w,
    ResultFor andNetlist .SAF w.result fault := by
  have each : ∀ w ∈ andWritten, ∀ fault ∈ reportedFaults w,
      w.result.density = ((andNetlist.covered w.result.cubes).card : ℚ) / 2 ^ andNetlist.nPi ∧
        andNetlist.covered w.result.cubes ⊆ andNetlist.detectingSet .SAF fault ∧
        (w.result.complete = true ↔ andNetlist.covered w.result.cubes = andNetlist.detectingSet .SAF fault) ∧
        (andNetlist.covered w.result.cubes = ∅ → andNetlist.detectingSet .SAF fault = ∅) := by
    decide +kernel
  intro w mem fault isFault
  obtain ⟨density, sound, complete, some⟩ := each w mem fault isFault
  exact ⟨density, sound, complete, some⟩

theorem andWritten_report : DensityReport andNetlist ⟨.SAF, none, none⟩ emptyFaultState
    (andWritten.map fun w => (w.target, w.result)) andWritten where
  calls := by
    have alone : ∀ w ∈ andWritten, andNetlist.getEquivalentFaults emptyFaultState w.target =
        some w.members := by
      decide +kernel
    rw [List.forall₂_map_left_iff, List.forall₂_same]
    exact fun w mem => ⟨alone w mem, rfl, rfl⟩
  named := by decide +kernel
  rows := by
    intro gmp w mem
    have named : andNetlist.name w.target.netptr = w.target.name := by
      revert w
      decide +kernel
    exact rows_reportedFaults gmp (r := w) named
  right := andWritten_right
  once := by decide +kernel
  exact := by
    intro net type
    have faults : ∀ net < 3, (net, .SF0) ∈ andWritten.flatMap reportedFaults ∧
        (net, .SF1) ∈ andWritten.flatMap reportedFaults := by decide +kernel
    have low : ∀ fault ∈ andWritten.flatMap reportedFaults, fault.1 < 3 := by decide +kernel
    constructor
    · exact fun mem => ⟨low _ mem, fun tdf => by cases tdf⟩
    · intro wanted
      cases type with
      | SF0 => exact (faults net wanted.1).1
      | SF1 => exact (faults net wanted.1).2

/-- GMP on the densities of the AND gate. -/
def quarters : Gmp where
  snprintf D := if D = 2 / 4 then "5.0000000000e-01".toList else "2.5000000000e-01".toList
  setStr _ text := if text = "5.0000000000e-01".toList then some (2 / 4) else some (1 / 4)

theorem quarters_prints {m : Nat} {text : CStr} (isText : quarters.snprintf (m / 4) = text)
    (read : quarters.setStr (coveragePrecision 2) text = some ((m : ℚ) / 4))
    (clean : ∀ ch ∈ text, fieldEnd ch = false)
    (nonempty : text ≠ []) (fits : text.length < 64) (low : m < 4) :
    PrintsWell quarters (coveragePrecision 2) (m / 4) where
  clean := isText ▸ clean
  nonempty := isText ▸ nonempty
  fits := isText ▸ fits
  nearest := by
    refine ⟨m / 4, m / 4, ⟨⟨25 * m, -2, by omega, ?_⟩, fun z _ => ?_⟩, isText ▸ read, ?_, fun _ => rfl⟩
    · push_cast
      norm_num
      ring
    · rw [sub_self, abs_zero]
      exact abs_nonneg _
    · rw [sub_self, abs_zero]
      positivity

/-- `%.15Ff`. -/
def fixedPoint (x : ℚ) : CStr :=
  let units := ⌊x * 10 ^ 15 + 1 / 2⌋.toNat
  let fraction := printCount (units % 10 ^ 15)
  printCount (units / 10 ^ 15) ++ '.' :: List.replicate (15 - fraction.length) '0' ++ fraction

theorem runCoverage_means_and : ∃ model counts, runCoverage quarters fixedPoint id
      ⟨true, [1, 2], true, some "and_F.csv".toList⟩ "and.csv".toList "and".toList 2
      ⟨.some (fdpCsv quarters andNetlist .SAF andWritten), true, true⟩ =
      .some ⟨true, .some (writeCsvReport fixedPoint id model counts "and.csv".toList "and".toList 2),
        printSummary fixedPoint id model counts "and_F.csv".toList, []⟩ ∧
    counts.total = (andWritten.flatMap reportedFaults).length ∧
    counts.total - counts.undetectable = andNetlist.detectable .SAF (andWritten.flatMap reportedFaults) ∧
    counts.equivalent = counts.total - andWritten.length ∧
    counts.incomplete = andWritten.countP (fun w => !w.result.complete) ∧
    model.patternCounts = [1, 2] ∧
    ∀ index np, [1, 2][index]? = .some np → ∃ f fNr e eNr,
      CoverageRow andNetlist .SAF (andWritten.flatMap reportedFaults) (counts.incomplete = 0)
          (∀ w ∈ andWritten, w.result.density * 2 ^ 2 < 10 ^ 10) np f fNr e eNr ∧
        ∀ separator,
        writeResultRow fixedPoint id model index counts separator =
          coverageLine fixedPoint true separator np f fNr e eNr := by
  have densities : ∀ w ∈ andWritten, w.result.density = (1 : Nat) / 4 ∨
      w.result.density = (2 : Nat) / 4 := by
    decide +kernel
  refine runCoverage_means andWritten_report (by decide) (by decide +kernel) (fun w mem => ?_)
    ⟨true, [1, 2], true, some "and_F.csv".toList⟩ (by decide) fixedPoint "and.csv".toList "and".toList
  rcases densities w mem with density | density
  · rw [density]
    exact quarters_prints rfl (by decide +kernel)
      (@of_decide_eq_true _ (List.decidableBAll _ _) (by decide +kernel))
      (by decide +kernel) (by decide +kernel) (by decide)
  · rw [density]
    exact quarters_prints rfl (by decide +kernel)
      (@of_decide_eq_true _ (List.decidableBAll _ _) (by decide +kernel))
      (by decide +kernel) (by decide +kernel) (by decide)

end SafRprGen
