/-
Module: SafRprGen.Lib.Transition
Layer: Lib
Purpose: Labelled transition systems given by a step relation: runs with the list of their events, the
  invariant rules for whole runs, and what a rank that no step raises says about termination. A run that
  never ends is a sequence of states and events; where every step is quiet or lowers the rank, such a run
  is quiet from some point on.
Main exports: Run, Run.invariant, Run.stable, Run.of_sub, eventually_quiet, Run.completes
-/
import Mathlib.Data.Prod.Lex
import Mathlib.Order.WellFounded
import Mathlib.Tactic.Common

namespace Transition

variable {S E : Type*} (Step : S → E → S → Prop)

/-- From the first state the system can go to the last one with these events, the latest one last. -/
inductive Run : S → List E → S → Prop where
  | refl (s : S) : Run s [] s
  | step {s t u : S} {es : List E} {e : E} (run : Run s es t) (last : Step t e u) : Run s (es ++ [e]) u

namespace Run

variable {Step} {s t u : S} {es es' : List E}

/-- What holds at the start and is kept by every step of a run holds at its end. -/
theorem invariant (inv : List E → S → Prop) (init : inv [] s)
    (step : ∀ es t e u, Run Step s es t → inv es t → Step t e u → inv (es ++ [e]) u)
    (run : Run Step s es t) : inv es t := by
  induction run with
  | refl => exact init
  | step run last ih => exact step _ _ _ _ run ih last

/-- What every step keeps holds to the end of a run from where it holds. -/
theorem stable {P : S → Prop} (keep : ∀ t e u, P t → Step t e u → P u) (holds : P s)
    (run : Run Step s es t) : P t :=
  run.invariant (fun _ => P) holds fun _ _ _ _ _ => keep _ _ _

theorem trans (run : Run Step s es t) (more : Run Step t es' u) : Run Step s (es ++ es') u := by
  induction more with
  | refl =>
      rw [List.append_nil]
      exact run
  | step _ last ih =>
      rw [← List.append_assoc]
      exact .step ih last

/-- A run of a system with fewer steps is a run, and what holds of the events of these steps holds of its
events. -/
theorem of_sub {Step' : S → E → S → Prop} {P : E → Prop}
    (sub : ∀ s e t, Step' s e t → Step s e t ∧ P e) (run : Run Step' s es t) :
    Run Step s es t ∧ ∀ e ∈ es, P e := by
  induction run with
  | refl => exact ⟨.refl _, fun _ mem => by cases mem⟩
  | step _ last ih =>
      obtain ⟨step, holds⟩ := sub _ _ _ last
      exact ⟨.step ih.1 step, List.forall_mem_append.mpr ⟨ih.2, List.forall_mem_singleton.mpr holds⟩⟩

end Run

variable {Step} {M : Type*} [Preorder M] [WellFoundedLT M] (rank : S → M) {quiet : E → Prop}

/-- Where every step lowers the rank, or is quiet and does not raise it, a run that never ends is quiet
from some point on. -/
theorem eventually_quiet {state : Nat → S} {event : Nat → E}
    (lowers : ∀ k, rank (state (k + 1)) < rank (state k) ∨
      quiet (event k) ∧ rank (state (k + 1)) ≤ rank (state k)) :
    ∃ N, ∀ k ≥ N, quiet (event k) := by
  have below : ∀ n k, rank (state (n + k)) ≤ rank (state n) := by
    intro n k
    induction k with
    | zero => exact le_refl _
    | succ k ih =>
        rcases lowers (n + k) with less | ⟨_, same⟩
        · exact less.le.trans ih
        · exact le_trans same ih
  have from_rank : ∀ r : M, ∀ n, rank (state n) = r → ∃ N, ∀ k ≥ N, quiet (event k) := by
    intro r
    induction r using WellFoundedLT.induction with
    | ind r ih =>
        intro n here
        by_cases silent : ∀ k ≥ n, quiet (event k)
        · exact ⟨n, silent⟩
        · push Not at silent
          obtain ⟨k, late, loud⟩ := silent
          obtain ⟨d, rfl⟩ := Nat.exists_eq_add_of_le late
          rcases lowers (n + d) with less | ⟨still, _⟩
          · exact ih _ (lt_of_lt_of_le less (here ▸ below n d)) (n + d + 1) rfl
          · exact absurd still loud
  exact from_rank _ 0 rfl

/-- Where a state that is not final has a step that lowers the rank, every state has a run to a final
one. -/
theorem Run.completes (inv final : S → Prop)
    (progress : ∀ s, inv s → ¬ final s → ∃ e t, Step s e t ∧ inv t ∧ rank t < rank s) {s : S}
    (start : inv s) : ∃ es t, Run Step s es t ∧ inv t ∧ final t := by
  have from_rank : ∀ r : M, ∀ s, inv s → rank s = r → ∃ es t, Run Step s es t ∧ inv t ∧ final t := by
    intro r
    induction r using WellFoundedLT.induction with
    | ind r ih =>
        intro s holds here
        by_cases done : final s
        · exact ⟨[], s, .refl s, holds, done⟩
        · obtain ⟨e, t, next, holds', less⟩ := progress s holds done
          obtain ⟨es, u, run, holds'', done'⟩ := ih _ (here ▸ less) t holds' rfl
          exact ⟨[e] ++ es, u, (Run.step (.refl s) next).trans run, holds'', done'⟩
  exact from_rank _ s start rfl

end Transition
