/-
Module: SafRprGen.Lib.Related
Layer: Lib
Purpose: Lists whose entries are related one by one: what an entry of one list says about the other list,
  lists that are related through a third one, and a function that may fail on every entry.
Main exports: forall₂_through, forall₂_exists_left, forall₂_exists_right, mapM_eq_some
-/
import Mathlib.Data.List.Forall2
import Mathlib.Tactic.Common

namespace Related

/-- Lists related to the same list are related through it. -/
theorem forall₂_through {α β γ : Type} {R : α → β → Prop} {S : α → γ → Prop} {l : List α} {l₁ : List β}
    {l₂ : List γ} (h₁ : List.Forall₂ R l l₁) (h₂ : List.Forall₂ S l l₂) :
    List.Forall₂ (fun b c => ∃ a ∈ l, R a b ∧ S a c) l₁ l₂ := by
  induction h₁ generalizing l₂ with
  | nil =>
      rw [List.forall₂_nil_left_iff.mp h₂]
      exact .nil
  | @cons a b l l₁ one _ ih =>
      obtain ⟨c, l₂', two, rest, rfl⟩ := List.forall₂_cons_left_iff.mp h₂
      refine .cons ⟨a, List.mem_cons_self, one, two⟩ ((ih rest).imp ?_)
      rintro b c ⟨a, mem, both⟩
      exact ⟨a, List.mem_cons_of_mem _ mem, both⟩

theorem forall₂_mem_right {α β : Type} {R : α → β → Prop} {l : List α} {l₁ : List β}
    (h : List.Forall₂ R l l₁) : List.Forall₂ (fun a b => R a b ∧ b ∈ l₁) l l₁ := by
  induction h with
  | nil => exact .nil
  | cons one _ ih =>
      refine .cons ⟨one, List.mem_cons_self⟩ (ih.imp ?_)
      rintro a b ⟨related, mem⟩
      exact ⟨related, List.mem_cons_of_mem _ mem⟩

/-- An element on the right has one on the left. -/
theorem forall₂_exists_left {α β : Type} {R : α → β → Prop} {l : List α} {l₁ : List β}
    (h : List.Forall₂ R l l₁) {b : β} (mem : b ∈ l₁) : ∃ a ∈ l, R a b := by
  induction h with
  | nil => cases mem
  | cons one _ ih =>
      rcases List.mem_cons.mp mem with rfl | mem
      · exact ⟨_, List.mem_cons_self, one⟩
      · obtain ⟨a, mem', related⟩ := ih mem
        exact ⟨a, List.mem_cons_of_mem _ mem', related⟩

theorem forall₂_exists_right {α β : Type} {R : α → β → Prop} {l : List α} {l₁ : List β}
    (h : List.Forall₂ R l l₁) {a : α} (mem : a ∈ l) : ∃ b ∈ l₁, R a b := by
  induction h with
  | nil => cases mem
  | cons one _ ih =>
      rcases List.mem_cons.mp mem with rfl | mem
      · exact ⟨_, List.mem_cons_self, one⟩
      · obtain ⟨b, mem', related⟩ := ih mem
        exact ⟨b, List.mem_cons_of_mem _ mem', related⟩

/-- A function succeeds on a list when it does on every entry. -/
theorem mapM_eq_some {α β : Type} {f : α → Option β} {l : List α} {l₁ : List β} :
    l.mapM f = some l₁ ↔ List.Forall₂ (fun a b => f a = some b) l l₁ := by
  induction l generalizing l₁ with
  | nil =>
      rw [List.mapM_nil, List.forall₂_nil_left_iff]
      exact ⟨fun h => (Option.some.inj h).symm, fun h => congrArg some h.symm⟩
  | cons a l ih =>
      rw [List.mapM_cons]
      constructor
      · intro run
        obtain ⟨b, one, run⟩ := Option.bind_eq_some_iff.mp run
        obtain ⟨rest, others, run⟩ := Option.bind_eq_some_iff.mp run
        cases run
        exact .cons one (ih.mp others)
      · intro run
        obtain ⟨b, rest, one, others, rfl⟩ := List.forall₂_cons_left_iff.mp run
        rw [one, ih.mpr others]
        rfl

end Related
