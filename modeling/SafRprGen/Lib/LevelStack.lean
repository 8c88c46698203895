/-
Module: SafRprGen.Lib.LevelStack
Layer: Lib
Purpose: One stack per level and the number of items on all of them. The next item is taken from the
  first level at or above a cursor that is not empty (`checkLev`), or from the first one at or below it
  (`checkLevReverse`). As long as the count agrees with the stacks, a positive count finds an item.
Main exports: LevelStack, push, pop, checkLev, checkLevReverse, Valid, checkLev_spec,
  checkLevReverse_spec
-/
import Mathlib.Algebra.BigOperators.Group.Finset.Basic
import Mathlib.Algebra.BigOperators.Intervals
import Mathlib.Data.Finset.Range
import Mathlib.Logic.Function.Basic
import Mathlib.Tactic.Common

/-- The stacks, top first, and the number of items on them. -/
@[ext]
structure LevelStack (α : Type*) where
  lev : Nat → List α
  total : Nat

namespace LevelStack

variable {α : Type*}

def empty : LevelStack α := ⟨fun _ => [], 0⟩

def push (q : LevelStack α) (l : Nat) (x : α) : LevelStack α :=
  ⟨Function.update q.lev l (x :: q.lev l), q.total + 1⟩

/-- The top of a level; an empty level has none. -/
def pop (q : LevelStack α) (l : Nat) : Option (α × LevelStack α) :=
  match q.lev l with
  | [] => none
  | x :: rest => some (x, ⟨Function.update q.lev l rest, q.total - 1⟩)

/-- Upwards from `l` past empty levels, at most `fuel` of them. -/
def checkLevFrom (q : LevelStack α) : Nat → Nat → Nat
  | 0, l => l
  | fuel + 1, l => if (q.lev l).isEmpty then checkLevFrom q fuel (l + 1) else l

/-- The first level from `l` up to `maxLevel` that is not empty, or `maxLevel + 1`. -/
def checkLev (maxLevel : Nat) (q : LevelStack α) (l : Nat) : Nat :=
  q.checkLevFrom (maxLevel + 1 - l) l

/-- The first level from `l` down that is not empty, or 0. -/
def checkLevReverse (q : LevelStack α) : Nat → Nat
  | 0 => 0
  | l + 1 => if (q.lev (l + 1)).isEmpty then q.checkLevReverse l else l + 1

/-- The count is right and no level above `maxLevel` is used. -/
structure Valid (maxLevel : Nat) (q : LevelStack α) : Prop where
  total_eq : q.total = ∑ l ∈ Finset.range (maxLevel + 1), (q.lev l).length
  above : ∀ l, maxLevel < l → q.lev l = []

variable {maxLevel : Nat} {q : LevelStack α}

theorem valid_empty : (empty : LevelStack α).Valid maxLevel :=
  ⟨by simp [empty], fun _ _ => rfl⟩

/-- The count before and after one level changes. -/
private theorem sum_update (q : LevelStack α) {l : Nat} (hl : l ≤ maxLevel) (xs : List α) :
    (∑ k ∈ Finset.range (maxLevel + 1), (Function.update q.lev l xs k).length) + (q.lev l).length =
      (∑ k ∈ Finset.range (maxLevel + 1), (q.lev k).length) + xs.length := by
  have mem : l ∈ Finset.range (maxLevel + 1) := Finset.mem_range.mpr (by omega)
  rw [← Finset.add_sum_erase _ _ mem, ← Finset.add_sum_erase _ (fun k => (q.lev k).length) mem]
  have rest : ∑ k ∈ (Finset.range (maxLevel + 1)).erase l, (Function.update q.lev l xs k).length =
      ∑ k ∈ (Finset.range (maxLevel + 1)).erase l, (q.lev k).length := by
    apply Finset.sum_congr rfl
    intro k hk
    rw [Function.update_of_ne (Finset.ne_of_mem_erase hk)]
  rw [rest, Function.update_self]
  omega

private theorem above_update (valid : q.Valid maxLevel) {l : Nat} (hl : l ≤ maxLevel) (xs : List α) :
    ∀ k, maxLevel < k → Function.update q.lev l xs k = [] := by
  intro k hk
  rw [Function.update_of_ne (by omega)]
  exact valid.above k hk

theorem Valid.push (valid : q.Valid maxLevel) {l : Nat} (hl : l ≤ maxLevel) (x : α) :
    (q.push l x).Valid maxLevel where
  total_eq := by
    have changed := sum_update q hl (x :: q.lev l)
    have before := valid.total_eq
    simp only [List.length_cons] at changed
    simp only [LevelStack.push]
    omega
  above := above_update valid hl _

theorem mem_push {k l : Nat} {x y : α} :
    y ∈ (q.push l x).lev k ↔ y ∈ q.lev k ∨ (k = l ∧ y = x) := by
  by_cases here : k = l
  · subst here
    simp [push, or_comm]
  · simp [push, here]

theorem count_push [DecidableEq α] (q : LevelStack α) (k l : Nat) (x y : α) :
    ((q.push l x).lev k).count y = (q.lev k).count y + if k = l ∧ x = y then 1 else 0 := by
  by_cases here : k = l
  · subst here
    simp [push, List.count_cons]
  · simp [push, here]

theorem count_pop [DecidableEq α] {q q' : LevelStack α} {l : Nat} {x : α} (pop : q.pop l = some (x, q'))
    (k : Nat) (y : α) :
    (q'.lev k).count y + (if k = l ∧ x = y then 1 else 0) = (q.lev k).count y := by
  unfold LevelStack.pop at pop
  cases h : q.lev l with
  | nil =>
      rw [h] at pop
      cases pop
  | cons top rest =>
      rw [h] at pop
      cases pop
      by_cases here : k = l
      · subst here
        simp [h, List.count_cons]
      · simp [here]

/-- What is left when each item is stacked once. -/
theorem pop_nodup {l : Nat} {x : α} {q' : LevelStack α} (pop : q.pop l = some (x, q'))
    (once : ∀ k, (q.lev k).Nodup) : (∀ k, (q'.lev k).Nodup) ∧ x ∉ q'.lev l := by
  unfold LevelStack.pop at pop
  cases h : q.lev l with
  | nil =>
      rw [h] at pop
      cases pop
  | cons top rest =>
      rw [h] at pop
      cases pop
      have fresh := List.nodup_cons.mp (h ▸ once l)
      refine ⟨fun k => ?_, by simpa using fresh.1⟩
      by_cases here : k = l
      · subst here
        simpa using fresh.2
      · simpa [here] using once k

/-- Popping a level that is not empty. -/
theorem Valid.pop (valid : q.Valid maxLevel) {l : Nat} (some : q.lev l ≠ []) :
    ∃ x q', q.pop l = .some (x, q') ∧ x ∈ q.lev l ∧ q'.Valid maxLevel ∧ q'.total + 1 = q.total ∧
      (∀ k y, y ∈ q'.lev k → y ∈ q.lev k) ∧
      (∀ k y, y ∈ q.lev k → y ∈ q'.lev k ∨ (k = l ∧ y = x)) := by
  have hl : l ≤ maxLevel := by
    by_contra above
    exact some (valid.above l (by omega))
  cases h : q.lev l with
  | nil => exact absurd h some
  | cons x rest =>
      have changed := sum_update q hl rest
      have before := valid.total_eq
      rw [h, List.length_cons] at changed
      refine ⟨x, ⟨Function.update q.lev l rest, q.total - 1⟩, by simp [LevelStack.pop, h],
        List.mem_cons_self, ⟨?_, above_update valid hl _⟩, ?_, ?_, ?_⟩
      · simp only
        omega
      · simp only
        omega
      · intro k y hy
        change y ∈ Function.update q.lev l rest k at hy
        by_cases here : k = l
        · subst here
          rw [Function.update_self] at hy
          rw [h]
          exact List.mem_cons_of_mem _ hy
        · rwa [Function.update_of_ne here] at hy
      · intro k y hy
        change y ∈ Function.update q.lev l rest k ∨ _
        by_cases here : k = l
        · subst here
          rw [h, List.mem_cons] at hy
          rw [Function.update_self]
          exact hy.symm.imp_right fun same => ⟨rfl, same⟩
        · rw [Function.update_of_ne here]
          exact .inl hy

/-- A positive count means that some level is not empty. -/
theorem Valid.exists_ne_nil (valid : q.Valid maxLevel) (pos : q.total ≠ 0) :
    ∃ l ≤ maxLevel, q.lev l ≠ [] := by
  by_contra none
  push Not at none
  apply pos
  rw [valid.total_eq]
  apply Finset.sum_eq_zero
  intro l hl
  rw [none l (Nat.lt_succ_iff.mp (Finset.mem_range.mp hl)), List.length_nil]

theorem Valid.eq_nil (valid : q.Valid maxLevel) (zero : q.total = 0) (l : Nat) : q.lev l = [] := by
  by_cases low : l ≤ maxLevel
  · have each := (Finset.sum_eq_zero_iff (s := Finset.range (maxLevel + 1))
      (f := fun k => (q.lev k).length)).mp (valid.total_eq.symm.trans zero) l
      (Finset.mem_range.mpr (Nat.lt_succ_of_le low))
    exact List.length_eq_zero_iff.mp each
  · exact valid.above l (Nat.lt_of_not_le low)

private theorem checkLevFrom_spec (q : LevelStack α) :
    ∀ (fuel l k : Nat), l ≤ k → k < l + fuel → q.lev k ≠ [] →
      l ≤ q.checkLevFrom fuel l ∧ q.lev (q.checkLevFrom fuel l) ≠ [] ∧
        ∀ j, l ≤ j → j < q.checkLevFrom fuel l → q.lev j = [] := by
  intro fuel
  induction fuel with
  | zero => intro l k low high; omega
  | succ fuel ih =>
      intro l k low high found
      cases h : (q.lev l).isEmpty with
      | false =>
          simp only [checkLevFrom, h, Bool.false_eq_true, if_false]
          exact ⟨le_refl _, List.isEmpty_eq_false_iff.mp h, fun j h1 h2 => by omega⟩
      | true =>
          have here := List.isEmpty_iff.mp h
          have further : l ≠ k := fun same => found (same ▸ here)
          obtain ⟨le, some, below⟩ := ih (l + 1) k (by omega) (by omega) found
          simp only [checkLevFrom, h, if_true]
          refine ⟨by omega, some, ?_⟩
          intro j h1 h2
          by_cases first : j = l
          · rw [first, here]
          · exact below j (by omega) h2

/-- Upwards: with an item at or above the cursor, the result is the lowest such level. -/
theorem checkLev_spec {l k : Nat} (low : l ≤ k) (high : k ≤ maxLevel) (found : q.lev k ≠ []) :
    l ≤ q.checkLev maxLevel l ∧ q.lev (q.checkLev maxLevel l) ≠ [] ∧
      ∀ j, l ≤ j → j < q.checkLev maxLevel l → q.lev j = [] :=
  checkLevFrom_spec q (maxLevel + 1 - l) l k low (by omega) found

/-- Downwards: with an item at or below the cursor, the result is the highest such level. -/
theorem checkLevReverse_spec (q : LevelStack α) :
    ∀ (l k : Nat), k ≤ l → q.lev k ≠ [] →
      q.checkLevReverse l ≤ l ∧ q.lev (q.checkLevReverse l) ≠ [] ∧
        ∀ j, q.checkLevReverse l < j → j ≤ l → q.lev j = [] := by
  intro l
  induction l with
  | zero =>
      intro k low found
      obtain rfl : k = 0 := by omega
      exact ⟨le_refl _, found, fun j h1 h2 => by omega⟩
  | succ l ih =>
      intro k low found
      cases h : (q.lev (l + 1)).isEmpty with
      | false =>
          simp only [checkLevReverse, h, Bool.false_eq_true, if_false]
          exact ⟨le_refl _, List.isEmpty_eq_false_iff.mp h, fun j h1 h2 => by omega⟩
      | true =>
          have here := List.isEmpty_iff.mp h
          have further : k ≠ l + 1 := fun same => found (same ▸ here)
          obtain ⟨le, some, above⟩ := ih k (by omega) found
          simp only [checkLevReverse, h, if_true]
          refine ⟨by omega, some, ?_⟩
          intro j h1 h2
          by_cases last : j = l + 1
          · rw [last, here]
          · exact above j h1 (by omega)

end LevelStack
