/-
Module: SafRprGen.Lib.NameTable
Layer: Lib
Purpose: A table that numbers names in the order in which they are entered, with chained hashing for the
  search. A name that is searched before it is entered gets one number only, whatever the hash function.
Main exports: NameTable, search, insert, Valid, search_eq_some, search_eq_none
-/
import Mathlib.Data.List.Nodup
import Mathlib.Logic.Function.Basic
import Mathlib.Order.Basic
import Mathlib.Algebra.Order.Group.Nat

/-- The names in the order of their numbers, and for every hash value the chain of its numbers. -/
structure NameTable (α : Type*) where
  names : List α
  chain : Nat → List Nat

namespace NameTable

variable {α : Type*} (hash : α → Nat)

/-- The table without names. -/
def empty : NameTable α := ⟨[], fun _ => []⟩

/-- The number of a name, found in the chain of its hash value. -/
def search [DecidableEq α] (t : NameTable α) (w : α) : Option Nat :=
  (t.chain (hash w)).find? fun id => t.names[id]? = some w

/-- A new name in front of its chain. -/
def insert (t : NameTable α) (w : α) : NameTable α where
  names := t.names ++ [w]
  chain := Function.update t.chain (hash w) (t.names.length :: t.chain (hash w))

/-- The names are distinct and every number stands in the chain of its name. -/
structure Valid (t : NameTable α) : Prop where
  nodup : t.names.Nodup
  chained : ∀ h id, id ∈ t.chain h ↔ ∃ w, t.names[id]? = some w ∧ hash w = h

variable {hash}

theorem valid_empty : Valid hash (empty : NameTable α) := ⟨List.nodup_nil, by simp [empty]⟩

theorem search_eq_some [DecidableEq α] {t : NameTable α} (valid : Valid hash t) {w : α} {id : Nat} :
    t.search hash w = some id ↔ t.names[id]? = some w := by
  constructor
  · intro found
    have named := List.find?_some found
    exact of_decide_eq_true named
  · intro named
    have mem : id ∈ t.chain (hash w) := (valid.chained _ _).mpr ⟨w, named, rfl⟩
    cases found : t.search hash w with
    | none =>
        have missing := List.find?_eq_none.mp found id mem
        exact absurd (decide_eq_true named) missing
    | some id' =>
        have found' := List.find?_some found
        have named' : t.names[id']? = some w := of_decide_eq_true found'
        have low := (List.getElem?_eq_some_iff.mp named').1
        rw [(List.getElem?_inj low valid.nodup).mp (named'.trans named.symm)]

theorem search_eq_none [DecidableEq α] {t : NameTable α} (valid : Valid hash t) {w : α} :
    t.search hash w = none ↔ w ∉ t.names := by
  constructor
  · intro missing mem
    obtain ⟨id, named⟩ := List.mem_iff_getElem?.mp mem
    rw [(search_eq_some valid).mpr named] at missing
    cases missing
  · intro fresh
    cases found : t.search hash w with
    | none => rfl
    | some id => exact absurd (List.mem_of_getElem? ((search_eq_some valid).mp found)) fresh

/-- A name that is not there is entered under the next number. -/
theorem Valid.insert {t : NameTable α} (valid : Valid hash t) {w : α} (fresh : w ∉ t.names) :
    Valid hash (t.insert hash w) := by
  constructor
  · change (t.names ++ [w]).Nodup
    rw [List.nodup_append]
    refine ⟨valid.nodup, List.nodup_singleton w, fun a mem b here same => ?_⟩
    rw [List.mem_singleton] at here
    exact fresh (here ▸ same ▸ mem)
  · intro h id
    have old : ∀ w', t.names[id]? = some w' → id < t.names.length := fun w' named =>
      (List.getElem?_eq_some_iff.mp named).1
    change id ∈ Function.update t.chain (hash w) (t.names.length :: t.chain (hash w)) h ↔
      ∃ w', (t.names ++ [w])[id]? = some w' ∧ hash w' = h
    by_cases here : h = hash w
    · subst here
      rw [Function.update_self, List.mem_cons, valid.chained]
      constructor
      · rintro (rfl | ⟨w', named, same⟩)
        · exact ⟨w, by simp, rfl⟩
        · exact ⟨w', by rw [List.getElem?_append_left (old w' named), named], same⟩
      · rintro ⟨w', named, same⟩
        rcases lt_trichotomy id t.names.length with low | rfl | high
        · rw [List.getElem?_append_left low] at named
          exact .inr ⟨w', named, same⟩
        · exact .inl rfl
        · rw [List.getElem?_eq_none (by simp; omega)] at named
          cases named
    · rw [Function.update_of_ne here, valid.chained]
      refine exists_congr fun w' => and_congr_left fun same => ?_
      rcases lt_trichotomy id t.names.length with low | rfl | high
      · rw [List.getElem?_append_left low]
      · have other : w ≠ w' := fun h' => here (h' ▸ same.symm)
        simp [other]
      · rw [List.getElem?_eq_none (by omega), List.getElem?_eq_none (by simp; omega)]

end NameTable
