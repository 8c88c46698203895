/-
Module: SafRprGen.Lib.Dag
Layer: Lib
Purpose: Networks of operators over a finite acyclic graph. Node `n < size` has the value
  `op n (values of deps n)`. On an acyclic network the recursion bounded by the number of nodes satisfies
  this equation at every node (`eval_eq`) and is its only solution (`eval_unique`).
Main exports: Acyclic, Acyclic.induction, acyclic_of_grounded, eval, eval_eq, eval_unique, eval_congr
-/
import Mathlib.Data.Finset.Card
import Mathlib.Data.Finset.Range
import Mathlib.Data.List.Basic
import Mathlib.Data.Nat.Find
import Mathlib.Tactic.Common

namespace Dag

/-- Every dependency of a node is a node of lower rank. -/
def Acyclic (size : Nat) (deps : Nat → List Nat) : Prop :=
  ∃ rank : Nat → Nat, ∀ n < size, ∀ m ∈ deps n, m < size ∧ rank m < rank n

variable {size : Nat} {deps : Nat → List Nat}

/-- Ranks can be taken below the number of nodes: count the nodes of smaller rank. -/
theorem Acyclic.boundedRank (acyclic : Acyclic size deps) :
    ∃ rank : Nat → Nat, (∀ n < size, rank n < size) ∧
      ∀ n < size, ∀ m ∈ deps n, m < size ∧ rank m < rank n := by
  classical
  obtain ⟨rank, lower⟩ := acyclic
  let below : Nat → Finset Nat := fun n => (Finset.range size).filter (fun m => rank m < rank n)
  refine ⟨fun n => (below n).card, ?_, ?_⟩
  · intro n hn
    have proper : below n ⊂ Finset.range size := by
      refine Finset.filter_ssubset.mpr ⟨n, Finset.mem_range.mpr hn, ?_⟩
      exact lt_irrefl _
    simpa using Finset.card_lt_card proper
  · intro n hn m hm
    obtain ⟨hlt, hrank⟩ := lower n hn m hm
    refine ⟨hlt, Finset.card_lt_card ?_⟩
    refine Finset.ssubset_iff_subset_ne.mpr ⟨?_, ?_⟩
    · intro k hk
      simp only [below, Finset.mem_filter] at hk ⊢
      exact ⟨hk.1, hk.2.trans hrank⟩
    · intro same
      have mem : m ∈ below n := by simp [below, hlt, hrank]
      rw [← same] at mem
      simp [below] at mem

/-- Induction along the dependencies. -/
theorem Acyclic.induction (acyclic : Acyclic size deps) {P : Nat → Prop}
    (step : ∀ n < size, (∀ m ∈ deps n, P m) → P n) : ∀ n < size, P n := by
  obtain ⟨rank, lower⟩ := acyclic
  have byRank : ∀ r n, rank n = r → n < size → P n := by
    intro r
    induction r using Nat.strong_induction_on with
    | _ r ih =>
        intro n hr hn
        apply step n hn
        intro m hm
        obtain ⟨hlt, hrank⟩ := lower n hn m hm
        exact ih (rank m) (hr ▸ hrank) m rfl hlt
  exact fun n hn => byRank (rank n) n rfl hn

theorem Acyclic.mono {deps' : Nat → List Nat} (acyclic : Acyclic size deps)
    (sub : ∀ n < size, deps' n ⊆ deps n) : Acyclic size deps' := by
  obtain ⟨rank, lower⟩ := acyclic
  exact ⟨rank, fun n hn m hm => lower n hn m (sub n hn hm)⟩

/-- All paths into the dependencies of a node end within `k` steps. -/
def GroundedIn (deps : Nat → List Nat) : Nat → Nat → Prop
  | 0, _ => False
  | k + 1, n => ∀ m ∈ deps n, GroundedIn deps k m

/-- When the paths from every node end, the network is acyclic. -/
theorem acyclic_of_grounded (closed : ∀ n < size, ∀ m ∈ deps n, m < size)
    (grounded : ∀ n < size, ∃ k, GroundedIn deps k n) : Acyclic size deps := by
  classical
  refine ⟨fun n => if h : ∃ k, GroundedIn deps k n then Nat.find h else 0, ?_⟩
  intro n hn m hm
  have hm' := closed n hn m hm
  refine ⟨hm', ?_⟩
  dsimp only
  rw [dif_pos (grounded n hn), dif_pos (grounded m hm')]
  have here := Nat.find_spec (grounded n hn)
  cases least : Nat.find (grounded n hn) with
  | zero =>
      rw [least] at here
      exact here.elim
  | succ k =>
      rw [least] at here
      exact Nat.lt_succ_of_le (Nat.find_min' _ (here m hm))

theorem GroundedIn.mono {k k' n : Nat} (h : GroundedIn deps k n) (le : k ≤ k') :
    GroundedIn deps k' n := by
  induction k generalizing k' n with
  | zero => exact h.elim
  | succ k ih =>
      cases k' with
      | zero => omega
      | succ k' => exact fun m hm => ih (h m hm) (by omega)

/-- A node whose dependencies' paths end has paths that end. -/
theorem grounded_node {n : Nat} (all : ∀ m ∈ deps n, ∃ k, GroundedIn deps k m) :
    ∃ k, GroundedIn deps k n := by
  have bound : ∀ ms : List Nat, (∀ m ∈ ms, ∃ k, GroundedIn deps k m) →
      ∃ k, ∀ m ∈ ms, GroundedIn deps k m := by
    intro ms
    induction ms with
    | nil => exact fun _ => ⟨0, fun m hm => absurd hm List.not_mem_nil⟩
    | cons m ms ih =>
        intro each
        obtain ⟨k, first⟩ := each m List.mem_cons_self
        obtain ⟨k', rest⟩ := ih fun m hm => each m (List.mem_cons_of_mem _ hm)
        refine ⟨k + k', fun m' hm => ?_⟩
        rcases List.mem_cons.mp hm with rfl | hm
        · exact first.mono (Nat.le_add_right k k')
        · exact (rest m' hm).mono (Nat.le_add_left k' k)
  obtain ⟨k, h⟩ := bound (deps n) all
  exact ⟨k + 1, h⟩

variable {V : Type*} {op : Nat → List V → V}

/-- The value of a node by recursion of depth at most `depth`. -/
def evalUpTo (deps : Nat → List Nat) (op : Nat → List V → V) : Nat → Nat → V
  | 0, n => op n []
  | depth + 1, n => op n ((deps n).map (evalUpTo deps op depth))

/-- The value of a node of a network of `size` nodes. -/
def eval (size : Nat) (deps : Nat → List Nat) (op : Nat → List V → V) (n : Nat) : V :=
  evalUpTo deps op size n

/-- Any depth above the rank of a node gives the same value. -/
theorem evalUpTo_stable {rank : Nat → Nat}
    (lower : ∀ n < size, ∀ m ∈ deps n, m < size ∧ rank m < rank n) :
    ∀ (depth depth' n : Nat), n < size → rank n < depth → rank n < depth' →
      evalUpTo deps op depth n = evalUpTo deps op depth' n := by
  intro depth
  induction depth with
  | zero => intro depth' n _ h; omega
  | succ depth ih =>
      intro depth' n hn h h'
      cases depth' with
      | zero => omega
      | succ depth' =>
          simp only [evalUpTo]
          congr 1
          apply List.map_congr_left
          intro m hm
          obtain ⟨hlt, hrank⟩ := lower n hn m hm
          exact ih depth' m hlt (by omega) (by omega)

/-- On an acyclic network the value of a node is its operator applied to its dependencies' values. -/
theorem eval_eq (acyclic : Acyclic size deps) {n : Nat} (hn : n < size) :
    eval size deps op n = op n ((deps n).map (eval size deps op)) := by
  obtain ⟨rank, bounded, lower⟩ := acyclic.boundedRank
  have one : eval size deps op n = evalUpTo deps op (size + 1) n :=
    evalUpTo_stable lower size (size + 1) n hn (bounded n hn) (by have := bounded n hn; omega)
  rw [one]
  rfl

/-- The node equations have no other solution. -/
theorem eval_unique (acyclic : Acyclic size deps) {v : Nat → V}
    (solves : ∀ n < size, v n = op n ((deps n).map v)) :
    ∀ n < size, v n = eval size deps op n := by
  refine acyclic.induction ?_
  intro n hn same
  rw [solves n hn, eval_eq acyclic hn]
  congr 1
  exact List.map_congr_left same

/-- Networks with the same edges and operators that agree at every node evaluate alike. -/
theorem eval_congr (acyclic : Acyclic size deps) {op' : Nat → List V → V}
    (same : ∀ n < size, ∀ values, op n values = op' n values) :
    ∀ n < size, eval size deps op n = eval size deps op' n := by
  refine acyclic.induction ?_
  intro n hn below
  rw [eval_eq acyclic hn, eval_eq acyclic hn, same n hn]
  congr 1
  exact List.map_congr_left below

end Dag
