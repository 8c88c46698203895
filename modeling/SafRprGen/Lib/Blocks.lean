/-
Module: SafRprGen.Lib.Blocks
Layer: Lib
Purpose: A table that is filled block by block: the entries of item `n` stand behind those of the items in
  front of it. `start n` is the number of the first one.
Main exports: Numbering, length_flatMap, getElem?_flatMap, exists_block
-/
import Mathlib.Data.List.Basic
import Mathlib.Tactic.Common

namespace Blocks

variable {α : Type*}

/-- The numbers that consecutive blocks get. -/
structure Numbering (block : Nat → List α) (start : Nat → Nat) : Prop where
  zero : start 0 = 0
  succ : ∀ n, start (n + 1) = start n + (block n).length

variable {block : Nat → List α} {start : Nat → Nat}

theorem length_flatMap (numbering : Numbering block start) (size : Nat) :
    ((List.range size).flatMap block).length = start size := by
  induction size with
  | zero => exact numbering.zero.symm
  | succ size ih =>
      rw [List.range_succ, List.flatMap_append, List.length_append, ih, numbering.succ]
      simp

/-- Entry `k` of the block of item `n`. -/
theorem getElem?_flatMap (numbering : Numbering block start) {size n k : Nat} (low : n < size)
    (inBlock : k < (block n).length) :
    ((List.range size).flatMap block)[start n + k]? = (block n)[k]? := by
  induction size with
  | zero => omega
  | succ size ih =>
      have front := length_flatMap numbering size
      rw [List.range_succ, List.flatMap_append]
      by_cases last : n = size
      · subst last
        rw [List.getElem?_append_right (by omega), front, Nat.add_sub_cancel_left]
        simp
      · have before := ih (by omega)
        have there : start n + k < ((List.range size).flatMap block).length := by
          rw [List.getElem?_eq_getElem inBlock] at before
          exact (List.getElem?_eq_some_iff.mp before).1
        rw [List.getElem?_append_left there, before]

/-- Every number below the end belongs to a block. -/
theorem exists_block (numbering : Numbering block start) {size m : Nat} (low : m < start size) :
    ∃ n < size, ∃ k < (block n).length, m = start n + k := by
  induction size with
  | zero =>
      rw [numbering.zero] at low
      omega
  | succ size ih =>
      by_cases front : m < start size
      · obtain ⟨n, hn, k, hk, rfl⟩ := ih front
        exact ⟨n, by omega, k, hk, rfl⟩
      · rw [numbering.succ] at low
        exact ⟨size, by omega, m - start size, by omega, by omega⟩

end Blocks
