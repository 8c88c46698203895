/-
Module: SafRprGen.Pool.Books
Layer: Pool
Purpose: The parent's bookkeeping. Every fault below `next_fault` is with exactly one worker or its result
  is in the buffer, never both; `completed_faults` counts the buffered results; a result that has not been
  written is what the task yields for its index; everything below `next_output` has arrived. One lemma for
  each place that changes the books.
Main exports: Books, Books.assign, Books.store, Books.wrote, Books.all_ready, Books.outstanding
-/
import SafRprGen.Pool.Link

namespace SafRprGen

namespace Pool

/-- The books of a pool whose first `n` workers have these orders. -/
structure Books (c : Job) (pool : FaultPool) (order : Nat → Order) (n : Nat) : Prop where
  next_le : pool.nextFault ≤ c.count
  given : ∀ i, i < pool.nextFault ↔ (pool.results i).ready = true ∨ ∃ w < n, order w = .fault i
  pending : ∀ w < n, ∀ i, order w = .fault i → (pool.results i).ready = false
  alone : ∀ v < n, ∀ w < n, ∀ i, order v = .fault i → order w = .fault i → v = w
  completed : pool.completedFaults = (List.range c.count).countP fun i => (pool.results i).ready
  succeeded : ∀ i, (pool.results i).ready = true → (c.task i).succeeded = true
  contents : ∀ i, (pool.results i).ready = true → pool.nextOutput ≤ i →
    (pool.results i).csv = (c.task i).csv ∧ (pool.results i).cubes = c.cubes i
  flushed : ∀ i < pool.nextOutput, (pool.results i).ready = true

/-- Setting one entry of a list of distinct entries raises a count by one. -/
theorem countP_update {l : List Nat} (nodup : l.Nodup) {i : Nat} (mem : i ∈ l) {p q : Nat → Bool}
    (was : p i = false) (now : q i = true) (same : ∀ j ≠ i, q j = p j) :
    l.countP q = l.countP p + 1 := by
  induction l with
  | nil => cases mem
  | cons a l ih =>
      have fresh := (List.nodup_cons.mp nodup).1
      by_cases here : a = i
      · subst here
        have rest : l.countP q = l.countP p := by
          apply List.countP_congr
          intro j hj
          rw [same j (fun eq => fresh (eq ▸ hj))]
        rw [List.countP_cons_of_pos now, List.countP_cons_of_neg (by simp [was]), rest]
      · have later := ih (List.nodup_cons.mp nodup).2 ((List.mem_cons.mp mem).resolve_left (Ne.symm here))
        rw [List.countP_cons, List.countP_cons, later, same a here]
        omega

namespace Books

variable {c : Job} {pool : FaultPool} {order : Nat → Order} {n w i : Nat}

theorem lt (books : Books c pool order n) (hw : w < n) (has : order w = .fault i) : i < c.count :=
  lt_of_lt_of_le ((books.given i).mpr (.inr ⟨w, hw, has⟩)) books.next_le

theorem ready_lt (books : Books c pool order n) (ready : (pool.results i).ready = true) : i < c.count :=
  lt_of_lt_of_le ((books.given i).mpr (.inl ready)) books.next_le

theorem output_le (books : Books c pool order n) : pool.nextOutput ≤ c.count := by
  by_contra more
  exact absurd (books.ready_lt (books.flushed c.count (by omega))) (Nat.lt_irrefl _)

/-- While a worker has a fault, not every fault has been completed. -/
theorem completed_lt (books : Books c pool order n) (hw : w < n) (has : order w = .fault i) :
    pool.completedFaults < c.count := by
  have open' := books.pending w hw i has
  have some : 0 < (List.range c.count).countP fun i => !(pool.results i).ready :=
    List.countP_pos_iff.mpr ⟨i, List.mem_range.mpr (books.lt hw has), by simp [open']⟩
  have both := List.length_eq_countP_add_countP (fun i => (pool.results i).ready) (l := List.range c.count)
  simp only [List.length_range, Bool.not_eq_true, Bool.decide_eq_false] at both
  rw [books.completed]
  omega

theorem all_ready (books : Books c pool order n) (all : pool.completedFaults = c.count) :
    ∀ i < c.count, (pool.results i).ready = true := by
  intro i hi
  have full : (List.range c.count).countP (fun i => (pool.results i).ready) =
      (List.range c.count).length := by
    rw [← books.completed, all, List.length_range]
  exact List.countP_eq_length.mp full i (List.mem_range.mpr hi)

theorem no_fault (books : Books c pool order n) (all : pool.completedFaults = c.count) (hw : w < n)
    (i : Nat) :
    order w ≠ .fault i := by
  intro has
  have less := books.completed_lt hw has
  omega

/-- When all results have arrived and none is left to write, all have been written. -/
theorem output_eq (books : Books c pool order n) (all : pool.completedFaults = c.count)
    (drained : ¬ (pool.nextOutput < c.count ∧ (pool.results pool.nextOutput).ready = true)) :
    pool.nextOutput = c.count := by
  have le := books.output_le
  by_contra ne
  have lt : pool.nextOutput < c.count := by omega
  exact drained ⟨lt, books.all_ready all _ lt⟩

/-- While a fault has not been completed some worker has one. -/
theorem outstanding (books : Books c pool order n) (some : 0 < n)
    (idle : ∀ w < n, (∀ i, order w ≠ .fault i) → pool.nextFault = c.count)
    (less : pool.completedFaults < c.count) : ∃ w < n, ∃ i, order w = .fault i := by
  by_contra nobody
  push Not at nobody
  have all := idle 0 some (nobody 0 some)
  have full : (List.range c.count).countP (fun i => (pool.results i).ready) =
      (List.range c.count).length := by
    apply List.countP_eq_length.mpr
    intro i hi
    rcases (books.given i).mp (all ▸ List.mem_range.mp hi) with ready | ⟨w, hw, has⟩
    · exact ready
    · exact absurd has (nobody w hw i)
  rw [← books.completed, List.length_range] at full
  omega

theorem congr (books : Books c pool order n) (order' : Nat → Order)
    (same : ∀ w < n, ∀ i, order' w = .fault i ↔ order w = .fault i) : Books c pool order' n :=
  { books with
    given := by
      intro i
      rw [books.given i]
      exact or_congr_right (exists_congr fun w => and_congr_right fun hw => (same w hw i).symm)
    pending := fun w hw i has => books.pending w hw i ((same w hw i).mp has)
    alone := fun v hv w hw i one two => books.alone v hv w hw i ((same v hv i).mp one)
      ((same w hw i).mp two) }

/-- The books do not depend on the workers' records. -/
theorem of_pool {pool' : FaultPool} (books : Books c pool order n) (next : pool'.nextFault = pool.nextFault)
    (results : pool'.results = pool.results) (completed : pool'.completedFaults = pool.completedFaults)
    (output : pool'.nextOutput = pool.nextOutput) : Books c pool' order n := by
  constructor
  · exact next ▸ books.next_le
  · rw [next, results]
    exact books.given
  · rw [results]
    exact books.pending
  · exact books.alone
  · rw [completed, results, books.completed]
  · rw [results]
    exact books.succeeded
  · rw [results, output]
    exact books.contents
  · rw [results, output]
    exact books.flushed

/-- One more worker is watched. -/
theorem grow (books : Books c pool order n) (none : ∀ i, order n ≠ .fault i) :
    Books c pool order (n + 1) :=
  { books with
    given := by
      intro i
      rw [books.given i]
      refine or_congr_right ⟨?_, ?_⟩
      · rintro ⟨w, hw, has⟩
        exact ⟨w, Nat.lt_succ_of_lt hw, has⟩
      · rintro ⟨w, hw, has⟩
        rcases Nat.lt_succ_iff_lt_or_eq.mp hw with lt | rfl
        · exact ⟨w, lt, has⟩
        · exact absurd has (none i)
    pending := by
      intro w hw i has
      rcases Nat.lt_succ_iff_lt_or_eq.mp hw with lt | rfl
      · exact books.pending w lt i has
      · exact absurd has (none i)
    alone := by
      intro v hv w hw i one two
      rcases Nat.lt_succ_iff_lt_or_eq.mp hv with lt | rfl
      · rcases Nat.lt_succ_iff_lt_or_eq.mp hw with lt' | rfl
        · exact books.alone v lt w lt' i one two
        · exact absurd two (none i)
      · exact absurd one (none i) }

/-- `assign_next_fault` gives the next fault to a worker without one. -/
theorem assign {pool' : FaultPool} {order' : Nat → Order} (books : Books c pool order n) (hw : w < n)
    (free : ∀ i, order w ≠ .fault i) (left : pool.nextFault < c.count)
    (next : pool'.nextFault = pool.nextFault + 1) (results : pool'.results = pool.results)
    (completed : pool'.completedFaults = pool.completedFaults) (output : pool'.nextOutput = pool.nextOutput)
    (gets : order' w = .fault pool.nextFault) (others : ∀ v ≠ w, order' v = order v) :
    Books c pool' order' n := by
  have fresh : (pool.results pool.nextFault).ready ≠ true := fun ready =>
    absurd ((books.given _).mpr (.inl ready)) (Nat.lt_irrefl _)
  have unassigned : ∀ v < n, order v ≠ .fault pool.nextFault := fun v hv has =>
    absurd ((books.given _).mpr (.inr ⟨v, hv, has⟩)) (Nat.lt_irrefl _)
  have has_iff : ∀ v i, order' v = .fault i → v = w ∧ i = pool.nextFault ∨ v ≠ w ∧ order v = .fault i := by
    intro v i has
    by_cases here : v = w
    · subst here
      rw [gets, Order.fault.injEq] at has
      exact .inl ⟨rfl, has.symm⟩
    · exact .inr ⟨here, others v here ▸ has⟩
  refine ⟨by omega, ?_, ?_, ?_, ?_, ?_, ?_, ?_⟩
  · intro i
    rw [next, results]
    refine ⟨fun lt => ?_, ?_⟩
    · rcases Nat.lt_succ_iff_lt_or_eq.mp lt with lt | rfl
      · rcases (books.given i).mp lt with ready | ⟨v, hv, has⟩
        · exact .inl ready
        · have ne : v ≠ w := fun here => free i (here ▸ has)
          exact .inr ⟨v, hv, (others v ne).trans has⟩
      · exact .inr ⟨w, hw, gets⟩
    · rintro (ready | ⟨v, hv, has⟩)
      · exact Nat.lt_succ_of_lt ((books.given i).mpr (.inl ready))
      · rcases has_iff v i has with ⟨-, rfl⟩ | ⟨-, has⟩
        · exact Nat.lt_succ_self _
        · exact Nat.lt_succ_of_lt ((books.given i).mpr (.inr ⟨v, hv, has⟩))
  · intro v hv i has
    rw [results]
    rcases has_iff v i has with ⟨-, rfl⟩ | ⟨-, has⟩
    · exact Bool.eq_false_iff.mpr fresh
    · exact books.pending v hv i has
  · intro u hu v hv i one two
    rcases has_iff u i one with ⟨rfl, rfl⟩ | ⟨-, one⟩
    · rcases has_iff v _ two with ⟨rfl, -⟩ | ⟨-, two⟩
      · rfl
      · exact absurd two (unassigned v hv)
    · rcases has_iff v i two with ⟨rfl, rfl⟩ | ⟨-, two⟩
      · exact absurd one (unassigned u hu)
      · exact books.alone u hu v hv i one two
  · rw [completed, results, books.completed]
  · rw [results]
    exact books.succeeded
  · rw [results, output]
    exact books.contents
  · rw [results, output]
    exact books.flushed

/-- `receive_fault_result` buffers the result of a worker's fault. -/
theorem store {pool' : FaultPool} {order' : Nat → Order} (books : Books c pool order n) (hw : w < n)
    (has : order w = .fault i) (succeeded : (c.task i).succeeded = true)
    (next : pool'.nextFault = pool.nextFault)
    (results : pool'.results = Function.update pool.results i ⟨(c.task i).csv, c.cubes i, true⟩)
    (completed : pool'.completedFaults = pool.completedFaults + 1)
    (output : pool'.nextOutput = pool.nextOutput) (frees : ∀ j, order' w ≠ .fault j)
    (others : ∀ v ≠ w, order' v = order v) : Books c pool' order' n := by
  have here : pool'.results i = ⟨(c.task i).csv, c.cubes i, true⟩ := by rw [results, Function.update_self]
  have there : ∀ j ≠ i, pool'.results j = pool.results j := fun j ne => by
    rw [results, Function.update_of_ne ne]
  have ready_iff : ∀ j, (pool'.results j).ready = true ↔ j = i ∨ (pool.results j).ready = true := by
    intro j
    by_cases same : j = i
    · subst same
      rw [here]
      simp
    · rw [there j same]
      simp [same]
  have has_iff : ∀ v j, order' v = .fault j → v ≠ w ∧ order v = .fault j := by
    intro v j mine
    have ne : v ≠ w := fun same => frees j (same ▸ mine)
    exact ⟨ne, others v ne ▸ mine⟩
  refine ⟨next ▸ books.next_le, ?_, ?_, ?_, ?_, ?_, ?_, ?_⟩
  · intro j
    rw [next, books.given j, ready_iff]
    constructor
    · rintro (ready | ⟨v, hv, mine⟩)
      · exact .inl (.inr ready)
      · by_cases same : v = w
        · subst same
          rw [has, Order.fault.injEq] at mine
          exact .inl (.inl mine.symm)
        · exact .inr ⟨v, hv, (others v same).trans mine⟩
    · rintro ((rfl | ready) | ⟨v, hv, mine⟩)
      · exact .inr ⟨w, hw, has⟩
      · exact .inl ready
      · exact .inr ⟨v, hv, (has_iff v j mine).2⟩
  · intro v hv j mine
    obtain ⟨ne, mine⟩ := has_iff v j mine
    have other : j ≠ i := fun same => ne (books.alone v hv w hw i (same ▸ mine) has)
    rw [there j other]
    exact books.pending v hv j mine
  · intro u hu v hv j one two
    exact books.alone u hu v hv j (has_iff u j one).2 (has_iff v j two).2
  · rw [completed, books.completed]
    refine (countP_update List.nodup_range (List.mem_range.mpr (books.lt hw has))
      (books.pending w hw i has) (by rw [here]) fun j ne => by rw [there j ne]).symm
  · intro j ready
    rcases (ready_iff j).mp ready with rfl | ready
    · exact succeeded
    · exact books.succeeded j ready
  · intro j ready le
    by_cases same : j = i
    · subst same
      rw [here]
      exact ⟨rfl, rfl⟩
    · rw [there j same] at ready ⊢
      exact books.contents j ready (output ▸ le)
  · intro j lt
    exact (ready_iff j).mpr (.inr (books.flushed j (output ▸ lt)))

/-- `write_ready_results` goes on to the next result. -/
theorem wrote {pool' : FaultPool} (books : Books c pool order n)
    (ready : (pool.results pool.nextOutput).ready = true) (next : pool'.nextFault = pool.nextFault)
    (results : pool'.results = pool.results) (completed : pool'.completedFaults = pool.completedFaults)
    (output : pool'.nextOutput = pool.nextOutput + 1) : Books c pool' order n := by
  refine ⟨next ▸ books.next_le, ?_, ?_, books.alone, ?_, ?_, ?_, ?_⟩
  · rw [next, results]
    exact books.given
  · rw [results]
    exact books.pending
  · rw [completed, results, books.completed]
  · rw [results]
    exact books.succeeded
  · rw [results, output]
    exact fun i ready le => books.contents i ready (by omega)
  · rw [results, output]
    intro i lt
    rcases Nat.lt_succ_iff_lt_or_eq.mp lt with lt | rfl
    · exact books.flushed i lt
    · exact ready

/-- The buffers of a result that has been written are freed. -/
theorem freed {pool' : FaultPool} {result : PendingFaultOutput} (books : Books c pool order n)
    (written : i < pool.nextOutput) (kept : result.ready = (pool.results i).ready)
    (next : pool'.nextFault = pool.nextFault)
    (results : pool'.results = Function.update pool.results i result)
    (completed : pool'.completedFaults = pool.completedFaults)
    (output : pool'.nextOutput = pool.nextOutput) : Books c pool' order n := by
  have ready_eq : ∀ j, (pool'.results j).ready = (pool.results j).ready := by
    intro j
    by_cases same : j = i
    · subst same
      rw [results, Function.update_self, kept]
    · rw [results, Function.update_of_ne same]
  refine ⟨next ▸ books.next_le, ?_, ?_, books.alone, ?_, ?_, ?_, ?_⟩
  · intro j
    rw [next, ready_eq]
    exact books.given j
  · intro v hv j has
    rw [ready_eq]
    exact books.pending v hv j has
  · rw [completed, books.completed]
    exact List.countP_congr fun j _ => by rw [ready_eq]
  · intro j ready
    exact books.succeeded j (ready_eq j ▸ ready)
  · intro j ready le
    rw [output] at le
    have ne : j ≠ i := by omega
    rw [results, Function.update_of_ne ne]
    exact books.contents j (ready_eq j ▸ ready) le
  · intro j lt
    rw [ready_eq]
    exact books.flushed j (output ▸ lt)

end Books

end Pool

end SafRprGen
