/-
Module: SafRprGen.Xid.Moves
Layer: Xid
Purpose: Every handler of the X-filling is a sequence of three operations: it fills a net, enqueues one,
  or puts one on the X-path. `Moves` are such sequences. Whatever the handler, a net that has both its
  values is not put on the X-path again.
Main exports: Moves, Moves.flagged, and one rule per handler
-/
import SafRprGen.Xid.BackwardImp
import SafRprGen.Xid.FaultPath
import SafRprGen.Xid.ForwardImp

namespace SafRprGen

namespace Netlist

/-- A state reached from `s` by the operations of the handlers. -/
inductive Moves (c : Netlist) (s : XidState) : XidState → Prop where
  | refl : Moves c s s
  | fill {t : XidState} (n : Nat) (v : SideValues) (moves : Moves c s t) : Moves c s (t.fill n v)
  | enqueue {t : XidState} (q : XidQueue) (n : Nat) (moves : Moves c s t) : Moves c s (c.enqueue q n t)
  | edPushXpath {t : XidState} (n : Nat) (moves : Moves c s t) : Moves c s (c.edPushXpath n t)

theorem queue_edPushXpath (c : Netlist) (n : Nat) (t : XidState) :
    (c.edPushXpath n t).queue = t.queue := by
  unfold edPushXpath
  split <;> rfl

theorem exited_edPushXpath (c : Netlist) (n : Nat) (t : XidState) :
    (c.edPushXpath n t).exited = t.exited := by
  unfold edPushXpath
  split <;> rfl

namespace Moves

variable {c : Netlist} {s t : XidState} (moves : Moves c s t)

include moves

/-- A net with both its values keeps its places on the X-path. -/
theorem flagged {n : Nat} (both : s.flagBoth n = true) :
    t.flagBoth n = true ∧ ∀ l, (t.xidLev.lev l).count n = (s.xidLev.lev l).count n := by
  induction moves with
  | refl => exact ⟨both, fun _ => rfl⟩
  | @fill t k v moves ih =>
      refine ⟨?_, ih.2⟩
      rw [XidState.flagBoth_iff] at ih ⊢
      exact fun σ => t.flag_fill_mono k v (ih.1 σ)
  | @enqueue t q k moves ih =>
      obtain ⟨ih, same⟩ := ih
      refine ⟨?_, fun l => by rw [xidLev_enqueue, same]⟩
      rw [XidState.flagBoth_iff] at ih ⊢
      intro σ
      rw [flag_enqueue]
      exact ih σ
  | @edPushXpath t k moves ih =>
      obtain ⟨ih, same⟩ := ih
      unfold Netlist.edPushXpath
      by_cases done : t.flagBoth k = true
      · rw [if_pos done]
        exact ⟨ih, same⟩
      · rw [if_neg done]
        have other : k ≠ n := by
          rintro rfl
          exact done ih
        constructor
        · rw [XidState.flagBoth_iff] at ih ⊢
          exact fun σ => (c.pushLevNet k t).flag_fill_mono k _ (ih σ)
        · intro l
          rw [← same l, XidState.xidLev_fill]
          exact (t.xidLev.count_push l (c.level k) k n).trans
            (by rw [if_neg fun h => other h.2, Nat.add_zero])

/-! ### The handlers -/

theorem fillPush (q : XidQueue) (n : Nat) (v : SideValues) : Moves c s (c.fillPush q n v t) := by
  unfold Netlist.fillPush
  split
  · exact (moves.fill n v).enqueue q n
  · exact moves

theorem foldl {α : Type*} (op : XidState → α → XidState) (items : List α)
    (step : ∀ item t, Moves c s t → Moves c s (op t item)) : Moves c s (items.foldl op t) :=
  Loop.foldl_inv op (fun _ t => Moves c s t) items moves fun _ item _ t _ before => step item t before

theorem xidForwardImp (g : Globals) (n : Nat) : Moves c s (c.xidForwardImp g n t) := by
  have handler : ∀ o v t, Moves c s t → Moves c s (c.xidFimp o v t) := by
    intro o v t before
    unfold xidFimp
    cases c.type o with
    | BUF | FOUT | INV | AND | NAND | OR | NOR | EXOR | EXNOR => exact before.fillPush .fwd o _
    | _ => exact before
  unfold Netlist.xidForwardImp
  dsimp only
  split
  · exact moves
  · apply moves.foldl
    intro o t before
    split
    · exact before
    · split
      · exact before
      · exact handler o _ t before

theorem xidCommit (cVal : Bool) (cands : Side → Option Nat) : Moves c s (c.xidCommit cVal cands t) := by
  unfold Netlist.xidCommit
  cases cands .normal with
  | none =>
      dsimp only
      cases cands .fault with
      | none => exact moves
      | some n =>
          dsimp only
          split
          · exact moves.fill _ _
          · exact moves.fillPush .bwd n _
  | some k =>
      have first := moves.fillPush .bwd k (onlySide .normal cVal)
      dsimp only
      cases cands .fault with
      | none => exact first
      | some n =>
          dsimp only
          generalize (if t.flag k .normal = true then none else some k) = last
          split
          · exact first.fill _ _
          · exact first.fillPush .bwd n _

theorem bimpTriggered (n : Nat) (v : SideValues) (cVal triggerForce triggerSearch : Bool) :
    Moves c s (c.bimpTriggered n v cVal triggerForce triggerSearch t) := by
  have loop := Loop.foldl_inv (c.bimpInput v cVal triggerForce triggerSearch)
    (fun _ p => Moves c s p.1) (c.ins n) (s := (t, fun σ => ⟨none, 0, v σ != some triggerSearch⟩)) moves
    fun _ i _ _ _ before => before.fillPush .bwd i _
  unfold Netlist.bimpTriggered
  dsimp only
  split
  · exact (loop.xidCommit cVal _).enqueue .jus n
  · exact loop.xidCommit cVal _

theorem xidBackwardImp (f : FNODE) (n : Nat) : Moves c s (c.xidBackwardImp f n t) := by
  unfold Netlist.xidBackwardImp xidBimp
  dsimp only
  split
  · exact moves
  · cases c.type n with
    | BUF | FOUT | INV => exact moves.fillPush .bwd _ _
    | AND | NAND | OR | NOR => exact moves.bimpTriggered n _ _ _ _
    | EXOR | EXNOR =>
        apply moves.foldl
        exact fun i t before => before.fillPush .bwd i _
    | _ => exact moves

theorem xidBackwardImpLimited (f : FNODE) (n : Nat) : Moves c s (c.xidBackwardImpLimited f n t) := by
  have targeted : ∀ v cVal oVal, Moves c s (c.limitedTargeted n v cVal oVal t) := by
    intro v cVal oVal
    unfold limitedTargeted
    dsimp only
    split
    · exact moves
    · exact moves.xidCommit cVal _
  unfold Netlist.xidBackwardImpLimited xidBimpLimited
  dsimp only
  split
  · exact moves
  · cases c.type n with
    | AND | NAND | OR | NOR => exact targeted _ _ _
    | _ => exact moves

/-- The X-path goes on to inputs. -/
theorem xidFpath (n : Nat) : Moves c s (c.xidFpath n t) := by
  have common : ∀ ctrlValue invertOutput,
      Moves c s (c.gateCommonAndOrLike n ctrlValue invertOutput t) := by
    intro ctrlValue invertOutput
    apply moves.foldl
    intro p u before
    split
    · exact before.edPushXpath _
    · exact before.fillPush .bwd _ _
  unfold Netlist.xidFpath
  cases c.type n with
  | BUF | FOUT | INV => exact moves.edPushXpath _
  | AND | NAND | OR | NOR => exact common _ _
  | EXOR | EXNOR =>
      apply moves.foldl
      intro i u before
      split
      · exact before.fillPush .bwd i _
      · exact before.edPushXpath _
  | _ => exact moves

end Moves

end Netlist

end SafRprGen
