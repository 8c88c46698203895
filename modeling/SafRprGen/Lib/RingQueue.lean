/-
Module: SafRprGen.Lib.RingQueue
Layer: Lib
Purpose: A ring buffer of `cap` cells with its two cursors and its count. Cells outside the live window
  keep whatever was stored last. `contents` is the queue it stands for; enqueueing below capacity appends
  and dequeueing takes the head.
Main exports: RingQueue, contents, Valid, contents_enqueue, contents_dequeue
-/
import Mathlib.Data.List.Basic
import Mathlib.Data.Nat.ModEq
import Mathlib.Logic.Function.Basic
import Mathlib.Tactic.Common

/-- The cells, where the next item leaves, where the next one is stored, and how many are live. -/
structure RingQueue (α : Type*) where
  items : Nat → α
  front : Nat
  rear : Nat
  count : Nat

namespace RingQueue

variable {α : Type*}

/-- Back to the empty queue; the cells keep their old items. -/
def reset (q : RingQueue α) : RingQueue α := { q with front := 0, rear := 0, count := 0 }

/-- Store at the rear cursor. -/
def enqueue (cap : Nat) (q : RingQueue α) (x : α) : RingQueue α :=
  { q with
    items := Function.update q.items q.rear x
    rear := (q.rear + 1) % cap
    count := q.count + 1 }

/-- The item at the front cursor and the queue without it. -/
def dequeue (cap : Nat) (q : RingQueue α) : α × RingQueue α :=
  (q.items q.front, { q with front := (q.front + 1) % cap, count := q.count - 1 })

/-- The live items, oldest first. -/
def contents (cap : Nat) (q : RingQueue α) : List α :=
  (List.range q.count).map fun i => q.items ((q.front + i) % cap)

/-- The cursors agree with the count. -/
structure Valid (cap : Nat) (q : RingQueue α) : Prop where
  front_lt : q.front < cap
  rear_eq : q.rear = (q.front + q.count) % cap
  count_le : q.count ≤ cap

variable {cap : Nat} {q : RingQueue α}

@[simp] theorem length_contents (cap : Nat) (q : RingQueue α) : (q.contents cap).length = q.count := by
  simp [contents]

theorem contents_eq_nil (cap : Nat) (q : RingQueue α) : q.contents cap = [] ↔ q.count = 0 := by
  rw [← List.length_eq_zero_iff, length_contents]

theorem valid_reset (hcap : 0 < cap) (q : RingQueue α) : q.reset.Valid cap :=
  ⟨hcap, by simp [reset], Nat.zero_le _⟩

@[simp] theorem contents_reset (cap : Nat) (q : RingQueue α) : q.reset.contents cap = [] := rfl

/-- Two live positions share a cell only when they are equal. -/
private theorem cell_inj {cap front i j : Nat} (hi : i < cap) (hj : j < cap)
    (same : (front + i) % cap = (front + j) % cap) : i = j := by
  have h : i % cap = j % cap := Nat.ModEq.add_left_cancel' front same
  rwa [Nat.mod_eq_of_lt hi, Nat.mod_eq_of_lt hj] at h

theorem Valid.enqueue (valid : q.Valid cap) (space : q.count < cap) (x : α) :
    (q.enqueue cap x).Valid cap where
  front_lt := valid.front_lt
  rear_eq := by
    change (q.rear + 1) % cap = (q.front + (q.count + 1)) % cap
    rw [valid.rear_eq, Nat.mod_add_mod, Nat.add_assoc]
  count_le := space

/-- Below capacity enqueueing appends. -/
theorem contents_enqueue (valid : q.Valid cap) (space : q.count < cap) (x : α) :
    (q.enqueue cap x).contents cap = q.contents cap ++ [x] := by
  have live : ∀ i < q.count, Function.update q.items q.rear x ((q.front + i) % cap) =
      q.items ((q.front + i) % cap) := by
    intro i hi
    refine Function.update_of_ne ?_ _ _
    rw [valid.rear_eq]
    intro same
    have := cell_inj (by omega) space same
    omega
  simp only [contents, RingQueue.enqueue, List.range_succ, List.map_append, List.map_singleton]
  congr 1
  · apply List.map_congr_left
    intro i hi
    exact live i (List.mem_range.mp hi)
  · rw [← valid.rear_eq, Function.update_self]

theorem Valid.dequeue (valid : q.Valid cap) (some : 0 < q.count) : (q.dequeue cap).2.Valid cap where
  front_lt := Nat.mod_lt _ (Nat.zero_lt_of_lt valid.front_lt)
  rear_eq := by
    change q.rear = ((q.front + 1) % cap + (q.count - 1)) % cap
    rw [Nat.mod_add_mod, valid.rear_eq]
    congr 1
    omega
  count_le := by
    have := valid.count_le
    change q.count - 1 ≤ cap
    omega

/-- Dequeueing takes the head. -/
theorem contents_dequeue (valid : q.Valid cap) (some : 0 < q.count) :
    q.contents cap = (q.dequeue cap).1 :: (q.dequeue cap).2.contents cap := by
  obtain ⟨k, hk⟩ := Nat.exists_eq_add_one_of_ne_zero some.ne'
  simp only [contents, RingQueue.dequeue, hk, Nat.add_sub_cancel, List.range_succ_eq_map,
    List.map_cons, List.map_map, Nat.add_zero, Nat.mod_eq_of_lt valid.front_lt]
  congr 1
  apply List.map_congr_left
  intro i _
  simp only [Function.comp, Nat.mod_add_mod]
  congr 2
  omega

/-- A queue whose cursors have not wrapped is a slice of its cells. -/
theorem contents_linear (linear : q.front + q.count = q.rear) (fits : q.rear ≤ cap) :
    q.contents cap = (List.range' q.front q.count).map q.items := by
  rw [contents, List.range'_eq_map_range, List.map_map]
  apply List.map_congr_left
  intro i hi
  have hi := List.mem_range.mp hi
  rw [Function.comp, Nat.mod_eq_of_lt (by omega)]

theorem Valid.of_linear (linear : q.front + q.count = q.rear) (fits : q.rear < cap) : q.Valid cap :=
  ⟨by omega, by rw [linear, Nat.mod_eq_of_lt fits], by omega⟩

/-! ### Two queues with the same contents -/

/-- Equal but for the cells that are not live. -/
structure Alike (cap : Nat) (q q' : RingQueue α) : Prop where
  valid : q.Valid cap
  valid' : q'.Valid cap
  front : q'.front = q.front
  contents : q'.contents cap = q.contents cap

variable {q' : RingQueue α}

theorem Alike.count (alike : Alike cap q q') : q'.count = q.count := by
  rw [← length_contents cap q', alike.contents, length_contents]

theorem alike_reset (hcap : 0 < cap) (q q' : RingQueue α) : Alike cap q.reset q'.reset :=
  ⟨valid_reset hcap q, valid_reset hcap q', rfl, rfl⟩

theorem Alike.enqueue (alike : Alike cap q q') (space : q.count < cap) (x : α) :
    Alike cap (q.enqueue cap x) (q'.enqueue cap x) := by
  have space' : q'.count < cap := alike.count ▸ space
  refine ⟨alike.valid.enqueue space x, alike.valid'.enqueue space' x, alike.front, ?_⟩
  rw [contents_enqueue alike.valid' space', contents_enqueue alike.valid space, alike.contents]

/-- The same item leaves. -/
theorem Alike.dequeue (alike : Alike cap q q') (some : 0 < q.count) :
    (q'.dequeue cap).1 = (q.dequeue cap).1 ∧ Alike cap (q.dequeue cap).2 (q'.dequeue cap).2 := by
  have some' : 0 < q'.count := alike.count ▸ some
  have taken := alike.contents
  rw [contents_dequeue alike.valid' some', contents_dequeue alike.valid some] at taken
  obtain ⟨same, rest⟩ := List.cons.inj taken
  refine ⟨same, alike.valid.dequeue some, alike.valid'.dequeue some', ?_, rest⟩
  simp only [RingQueue.dequeue, alike.front]

end RingQueue
