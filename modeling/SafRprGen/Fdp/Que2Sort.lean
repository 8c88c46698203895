/-
Module: SafRprGen.Fdp.Que2Sort
Layer: Fdp
Purpose: The sort of `essential_assignment.c` in its own right. `que2_qsort` reads the queue through
  cursors that have no bound of their own, so it is stated here with every access of a call watched
  against the range of that call.
Main exports: que2Qsort, que2Qsort_spec, que2Sort_spec
-/
import SafRprGen.Fdp.EssentialAssignment

namespace SafRprGen

namespace Netlist

variable (c : Netlist)

/-- `que2_qsort` on the slots of the queue: an error when a call touches a slot outside its range. -/
def que2Qsort (fuel : Nat) (que : Nat → Nat) (left right : Int) :
    Except HoareSort.Refused (Nat → Nat) :=
  HoareSort.qsortIn c.level fuel que left right

/-- The sort ends without leaving its range: the nets of the range come out in level order, each as often
as before, and the other slots are as they were. -/
theorem que2Qsort_spec (que : Nat → Nat) (left right : Nat) :
    ∃ que' : Nat → Nat,
      (∀ fuel, right + 1 - left < fuel → c.que2Qsort fuel que left right = .ok que') ∧
      (∀ i j, left ≤ i → i ≤ j → j ≤ right → c.level (que' i) ≤ c.level (que' j)) ∧
      ((List.range' left (right + 1 - left)).map que').Perm
        ((List.range' left (right + 1 - left)).map que) ∧
      ∀ i, i < left ∨ right < i → que' i = que i := by
  have pos : (0 : Int) ≤ left := Int.natCast_nonneg left
  obtain ⟨que', run, arranged⟩ :=
    HoareSort.qsort_spec c.level (right + 1 - left + 1) que left right pos (by omega)
  have sorted := HoareSort.qsort_sorted _ que que' left right pos (by omega) run
  refine ⟨que', ?_, ?_, ?_, ?_⟩
  · intro fuel enough
    obtain ⟨more, rfl⟩ := Nat.exists_eq_add_of_lt enough
    rw [Nat.add_right_comm]
    exact HoareSort.qsortIn_eq _ que que' left right pos (by omega) (HoareSort.qsort_mono _ run more)
  · intro i j hi hij hj
    simpa [HoareSort.cell] using sorted i j (by omega) (by omega) (by omega)
  · by_cases empty : right + 1 ≤ left
    · simp [Nat.sub_eq_zero_of_le empty]
    · apply HoareSort.Rearranged.perm
      have ends : (left : Int) + (right + 1 - left : Nat) - 1 = right := by omega
      rwa [ends]
  · intro i out
    simpa [HoareSort.cell] using arranged.outside (Int.natCast_nonneg i) (by omega)

variable {c}

/-- The call in `unique_sentization` always sorts: the queue has not wrapped, so after each round the nets
leave it in level order. -/
theorem Que2Inv.sorted {flag : Nat → UniqueFlag} {q : RingQueue Nat} (inv : Que2Inv c flag q) :
    ∃ q', c.que2Sort q = some q' ∧ Que2Inv c flag q' ∧
      (q'.contents c.que2Maxnum).Perm (q.contents c.que2Maxnum) ∧
      (q'.contents c.que2Maxnum).Pairwise fun n n' => c.level n ≤ c.level n' := by
  obtain ⟨q', run, count, inv'⟩ := inv.sort
  have linear := inv.linear
  have linear' := inv'.linear
  refine ⟨q', run, inv', ?_⟩
  rw [RingQueue.contents_linear linear inv.fits.le, RingQueue.contents_linear linear' inv'.fits.le]
  by_cases guard : 1 < q.count ∧ q.front < q.rear
  · obtain ⟨items, done, arranged⟩ := HoareSort.qsort_spec c.level (q.rear + 1) q.items
      q.front (q.rear - 1) (by omega) (by omega)
    have sorted := HoareSort.qsort_sorted _ q.items items q.front (q.rear - 1) (by omega) (by omega) done
    have perm : ((List.range' q.front q.count).map items).Perm
        ((List.range' q.front q.count).map q.items) := by
      apply HoareSort.Rearranged.perm
      have ends : (q.front : Int) + q.count - 1 = q.rear - 1 := by omega
      rwa [ends]
    simp only [que2Sort, guard, and_self, if_true, done, Option.map_some, Option.some.injEq] at run
    subst run
    refine ⟨perm, ?_⟩
    change ((List.range' q.front q.count).map items).Pairwise _
    refine List.pairwise_map.mpr (List.Pairwise.imp_of_mem ?_ List.pairwise_lt_range')
    intro i j hi hj hij
    have hi := List.mem_range'_1.mp hi
    have hj := List.mem_range'_1.mp hj
    simpa [HoareSort.cell] using sorted i j (by omega) (by omega) (by omega)
  · rw [que2Sort, if_neg guard] at run
    cases run
    refine ⟨.refl _, ?_⟩
    have short : q.count ≤ 1 := by omega
    rcases (show q.count = 0 ∨ q.count = 1 by omega) with none | one
    · simp [none]
    · simp [one]

end Netlist

end SafRprGen
