/-
Module: SafRprGen.Lib.Search
Layer: Lib
Purpose: Worklist search in a graph given by successor lists. `Frontier` is the invariant all orders of
  search share: roots and successors of visited nodes are visited or pending, and only reachable nodes
  are. When nothing is pending the visited nodes are exactly the reachable ones.
Main exports: Reach, Frontier, Frontier.visit, Frontier.skip, Frontier.done
-/
import Mathlib.Logic.Relation
import Mathlib.Tactic.Common

namespace Search

variable {α : Type*} {next : α → List α} {roots : α → Prop}

/-- Reachable from a root along successor edges. -/
def Reach (next : α → List α) (roots : α → Prop) (n : α) : Prop :=
  ∃ r, roots r ∧ Relation.ReflTransGen (fun a b => b ∈ next a) r n

theorem Reach.root {r : α} (h : roots r) : Reach next roots r := ⟨r, h, .refl⟩

theorem Reach.edge {a b : α} (h : Reach next roots a) (e : b ∈ next a) : Reach next roots b := by
  obtain ⟨r, hr, path⟩ := h
  exact ⟨r, hr, path.tail e⟩

theorem Reach.mono {roots' : α → Prop} (sub : ∀ r, roots r → roots' r) {n : α}
    (h : Reach next roots n) : Reach next roots' n := by
  obtain ⟨r, hr, path⟩ := h
  exact ⟨r, sub r hr, path⟩

/-- What holds of the roots and passes along edges holds of every reachable node. -/
theorem Reach.induction {P : α → Prop} (start : ∀ r, roots r → P r)
    (step : ∀ a b, Reach next roots a → P a → b ∈ next a → P b) {n : α} (h : Reach next roots n) :
    P n := by
  obtain ⟨r, hr, path⟩ := h
  induction path with
  | refl => exact start r hr
  | tail before e ih => exact step _ _ ⟨r, hr, before⟩ ih e

/-- The search invariant: `visited` nodes have been expanded, `pending` ones not yet. -/
structure Frontier (next : α → List α) (roots visited : α → Prop) (pending : List α) : Prop where
  start : ∀ r, roots r → visited r ∨ r ∈ pending
  expanded : ∀ n, visited n → ∀ k ∈ next n, visited k ∨ k ∈ pending
  sound : ∀ n, visited n ∨ n ∈ pending → Reach next roots n

theorem Frontier.init {pending : List α} (all : ∀ n, roots n ↔ n ∈ pending) :
    Frontier next roots (fun _ => False) pending where
  start := fun r hr => .inr ((all r).mp hr)
  expanded := fun _ h => h.elim
  sound := fun n h => .root ((all n).mpr (h.resolve_left id))

/-- One round expands the pending node `n`. -/
theorem Frontier.visit {visited visited' : α → Prop} {n : α} {rest pending : List α}
    (f : Frontier next roots visited (n :: rest))
    (keep : ∀ k, visited k ∨ k = n ∨ k ∈ rest → visited' k ∨ k ∈ pending)
    (old : ∀ k, visited' k → visited k ∨ k = n)
    (succ : ∀ k ∈ next n, visited' k ∨ k ∈ pending)
    (new : ∀ k ∈ pending, k = n ∨ k ∈ rest ∨ k ∈ next n) :
    Frontier next roots visited' pending where
  start := by
    intro r hr
    apply keep r
    rcases f.start r hr with h | h
    · exact .inl h
    · exact .inr (List.mem_cons.mp h)
  expanded := by
    intro k hk j hj
    rcases old k hk with h | rfl
    · apply keep j
      rcases f.expanded k h j hj with h | h
      · exact .inl h
      · exact .inr (List.mem_cons.mp h)
    · exact succ j hj
  sound := by
    have hn : Reach next roots n := f.sound n (.inr List.mem_cons_self)
    rintro k (hk | hk)
    · rcases old k hk with h | rfl
      · exact f.sound k (.inl h)
      · exact hn
    · rcases new k hk with rfl | h | h
      · exact hn
      · exact f.sound k (.inr (List.mem_cons_of_mem _ h))
      · exact hn.edge h

/-- A pending node that is visited already is dropped. -/
theorem Frontier.skip {visited : α → Prop} {n : α} {rest : List α}
    (f : Frontier next roots visited (n :: rest)) (hn : visited n) :
    Frontier next roots visited rest := by
  have drop : ∀ k, visited k ∨ k ∈ n :: rest → visited k ∨ k ∈ rest := by
    rintro k (h | h)
    · exact .inl h
    · rcases List.mem_cons.mp h with rfl | h
      · exact .inl hn
      · exact .inr h
  exact ⟨fun r hr => drop r (f.start r hr), fun k hk j hj => drop j (f.expanded k hk j hj),
    fun k hk => f.sound k (hk.imp_right (List.mem_cons_of_mem _))⟩

/-- With nothing pending the visited nodes are the reachable ones. -/
theorem Frontier.done {visited : α → Prop} (f : Frontier next roots visited []) (n : α) :
    visited n ↔ Reach next roots n := by
  constructor
  · exact fun h => f.sound n (.inl h)
  · apply Reach.induction (fun r hr => (f.start r hr).resolve_right List.not_mem_nil)
    intro a b _ ha e
    exact (f.expanded a ha b e).resolve_right List.not_mem_nil

end Search
