/-
Module: SafRprGen.Lib.Sampling
Layer: Lib
Purpose: Drawing from a finite type. How often do `n` draws, with or without replacement, hit a given set;
  the mean of a count over all draws is the sum of these shares.
Main exports: mean, share, mean_count, mean_tuples, mean_subsets, choose_div_choose_add
-/
import Mathlib.Algebra.BigOperators.Field
import Mathlib.Algebra.BigOperators.Pi
import Mathlib.Algebra.Order.Field.Rat
import Mathlib.Data.Fintype.BigOperators
import Mathlib.Data.Fintype.Pi
import Mathlib.Data.Finset.Powerset
import Mathlib.Data.Nat.Choose.Basic
import Mathlib.Data.Nat.Factorial.BigOperators
import Mathlib.Tactic.FieldSimp
import Mathlib.Tactic.Linarith
import Mathlib.Tactic.Positivity
import Mathlib.Tactic.Ring

namespace Sampling

/-- The mean of a function on a finite set. -/
def mean {ι : Type} (s : Finset ι) (f : ι → ℚ) : ℚ := (∑ i ∈ s, f i) / s.card

theorem mean_le {ι : Type} {s : Finset ι} {f g : ι → ℚ} (le : ∀ i ∈ s, f i ≤ g i) : mean s f ≤ mean s g := by
  have sums := Finset.sum_le_sum le
  unfold mean
  gcongr

/-- The mean of a sum over a list is the sum of the means. -/
theorem mean_sum {ι β : Type} (s : Finset ι) (l : List β) (f : β → ι → ℚ) :
    mean s (fun i => (l.map fun b => f b i).sum) = (l.map fun b => mean s (f b)).sum := by
  unfold mean
  induction l with
  | nil => simp
  | cons b l ih =>
      simp only [List.map_cons, List.sum_cons, Finset.sum_add_distrib, add_div] at ih ⊢
      rw [ih]

/-- One for what holds and zero for what does not. -/
def share (p : Prop) [Decidable p] : ℚ := if p then 1 else 0

theorem sum_share {ι : Type} (s : Finset ι) (p : ι → Prop) [DecidablePred p] :
    ∑ i ∈ s, share (p i) = (s.filter p).card := by
  unfold share
  rw [Finset.sum_boole]

/-- A count is a sum of shares. -/
theorem countP_eq_sum {β : Type} (l : List β) (p : β → Prop) [DecidablePred p] :
    ((l.countP fun b => decide (p b) : Nat) : ℚ) = (l.map fun b => share (p b)).sum := by
  induction l with
  | nil => rfl
  | cons b l ih =>
      rw [List.countP_cons, Nat.cast_add, ih, List.map_cons, List.sum_cons, add_comm]
      unfold share
      by_cases holds : p b <;> simp [holds]

/-- The mean of a count is the sum of the means of its shares. -/
theorem mean_count {ι β : Type} (s : Finset ι) (l : List β) (p : β → ι → Prop) [∀ b, DecidablePred (p b)] :
    mean s (fun i => ((l.countP fun b => decide (p b i) : Nat) : ℚ)) =
      (l.map fun b => mean s fun i => share (p b i)).sum := by
  rw [← mean_sum]
  refine congrArg (mean s) (funext fun i => ?_)
  exact countP_eq_sum l fun b => p b i

/-- What holds nearly always: the mean of the complement. -/
theorem mean_share_not {ι : Type} {s : Finset ι} (some : 0 < s.card) (p : ι → Prop) [DecidablePred p] :
    mean s (fun i => share (p i)) = 1 - ((s.filter fun i => ¬ p i).card : ℚ) / s.card := by
  have whole : ((s.filter p).card : ℚ) = s.card - (s.filter fun i => ¬ p i).card := by
    rw [eq_sub_iff_add_eq]
    exact_mod_cast Finset.card_filter_add_card_filter_not p
  have size : (s.card : ℚ) ≠ 0 := Nat.cast_ne_zero.mpr some.ne'
  rw [mean, sum_share, whole, sub_div, div_self size]

section Draws

variable {α : Type} [Fintype α] [DecidableEq α]

/-- The tuples that miss a set. -/
theorem card_missing_tuples (D : Finset α) (n : Nat) :
    (Finset.univ.filter fun t : Fin n → α => ¬ ∃ i, t i ∈ D).card = (Fintype.card α - D.card) ^ n := by
  have same : (Finset.univ.filter fun t : Fin n → α => ¬ ∃ i, t i ∈ D) = Fintype.piFinset fun _ => Dᶜ := by
    ext t
    simp
  rw [same, Fintype.card_piFinset, Finset.prod_const, Finset.card_univ, Fintype.card_fin, Finset.card_compl]

/-- With replacement: the share of the `n`-tuples that hit a set. -/
theorem mean_tuples [Nonempty α] (D : Finset α) (n : Nat) :
    mean (Finset.univ : Finset (Fin n → α)) (fun t => share (∃ i, t i ∈ D)) =
      1 - (1 - (D.card : ℚ) / Fintype.card α) ^ n := by
  have size : (Fintype.card α : ℚ) ≠ 0 := Nat.cast_ne_zero.mpr Fintype.card_ne_zero
  have tuples : (Finset.univ : Finset (Fin n → α)).card = Fintype.card α ^ n := by
    rw [Finset.card_univ, Fintype.card_fun, Fintype.card_fin]
  rw [mean_share_not (by rw [tuples]; exact Nat.pow_pos Fintype.card_pos), card_missing_tuples, tuples,
    Nat.cast_pow, Nat.cast_pow, ← div_pow, Nat.cast_sub D.card_le_univ, sub_div, div_self size]

/-- The sets of `n` elements that miss a set. -/
theorem card_missing_subsets (D : Finset α) (n : Nat) :
    ((Finset.univ.powersetCard n).filter fun S => ¬ ∃ x ∈ S, x ∈ D).card =
      (Fintype.card α - D.card).choose n := by
  have same : (Finset.univ.powersetCard n).filter (fun S => ¬ ∃ x ∈ S, x ∈ D) = Dᶜ.powersetCard n := by
    ext S
    rw [Finset.mem_filter, Finset.mem_powersetCard_univ, Finset.mem_powersetCard, and_comm]
    simp only [not_exists, not_and, Finset.subset_iff, Finset.mem_compl]
  rw [same, Finset.card_powersetCard, Finset.card_compl]

/-- The number of sets as a product. -/
theorem choose_div_choose {N M n : Nat} (le : M ≤ N) (draws : n ≤ M) :
    ((M.choose n : Nat) : ℚ) / (N.choose n : Nat) = ∏ k ∈ Finset.range n, ((M : ℚ) - k) / (N - k) := by
  have product : ∀ K : Nat, n ≤ K →
      ((K.choose n : Nat) : ℚ) * (n.factorial : Nat) = ∏ k ∈ Finset.range n, ((K : ℚ) - k) := by
    intro K enough
    rw [← Nat.cast_mul, mul_comm, ← Nat.descFactorial_eq_factorial_mul_choose,
      Nat.descFactorial_eq_prod_range, Nat.cast_prod]
    apply Finset.prod_congr rfl
    intro k mem
    exact Nat.cast_sub ((Finset.mem_range.mp mem).le.trans enough)
  have factorial : ((n.factorial : Nat) : ℚ) ≠ 0 := Nat.cast_ne_zero.mpr n.factorial_ne_zero
  rw [Finset.prod_div_distrib, ← product M draws, ← product N (draws.trans le),
    mul_div_mul_right _ _ factorial]

/-- One element more adds the share of the sets that it is in, or less. -/
theorem choose_div_choose_succ {N M : Nat} (low : M < N) (n : Nat) :
    (((M + 1).choose n : Nat) : ℚ) / (N.choose n : Nat) - ((M.choose n : Nat) : ℚ) /
    (N.choose n : Nat) ≤ n / N := by
  cases n with
  | zero => simp
  | succ n =>
      obtain ⟨K, rfl⟩ : ∃ K, N = K + 1 := ⟨N - 1, by omega⟩
      rw [Nat.choose_succ_succ', Nat.cast_add, add_div, add_sub_cancel_right]
      rcases Nat.eq_zero_or_pos ((K + 1).choose (n + 1)) with none | some
      · rw [none, Nat.cast_zero, div_zero]
        positivity
      · have fewer : M.choose n * (K + 1) ≤ (n + 1) * (K + 1).choose (n + 1) := by
          calc M.choose n * (K + 1) ≤ K.choose n * (K + 1) :=
                Nat.mul_le_mul_right _ (Nat.choose_le_choose n (Nat.le_of_lt_succ low))
            _ = (n + 1) * (K + 1).choose (n + 1) := by
                rw [Nat.mul_comm, Nat.add_one_mul_choose_eq, Nat.mul_comm]
        rw [div_le_div_iff₀ (Nat.cast_pos.mpr some) (by positivity)]
        exact_mod_cast fewer

/-- So do `k` elements, `k` times. -/
theorem choose_div_choose_add {N M k : Nat} (low : M + k ≤ N) (n : Nat) :
    (((M + k).choose n : Nat) : ℚ) / (N.choose n : Nat) - ((M.choose n : Nat) : ℚ) / (N.choose n : Nat) ≤
      k * (n / N) := by
  induction k with
  | zero => simp
  | succ k ih =>
      have before := ih (by omega)
      have one := choose_div_choose_succ (show M + k < N by omega) n
      rw [← Nat.add_assoc, Nat.cast_succ, add_mul, one_mul]
      linarith

/-- Without replacement: the share of the sets of `n` elements that hit a set. -/
theorem mean_subsets (D : Finset α) {n : Nat} (draws : n ≤ Fintype.card α) :
    mean (Finset.univ.powersetCard n) (fun S => share (∃ x ∈ S, x ∈ D)) =
      if Fintype.card α - D.card < n then 1
      else 1 - ∏ k ∈ Finset.range n, ((Fintype.card α : ℚ) - D.card - k) / (Fintype.card α - k) := by
  have sets : ((Finset.univ : Finset α).powersetCard n).card = (Fintype.card α).choose n := by
    rw [Finset.card_powersetCard, Finset.card_univ]
  rw [mean_share_not (by rw [sets]; exact Nat.choose_pos draws), card_missing_subsets, sets]
  by_cases certain : Fintype.card α - D.card < n
  · rw [if_pos certain, Nat.choose_eq_zero_of_lt certain, Nat.cast_zero, zero_div, sub_zero]
  · rw [if_neg certain, choose_div_choose (Nat.sub_le _ _) (by omega), Nat.cast_sub D.card_le_univ]

end Draws

end Sampling
