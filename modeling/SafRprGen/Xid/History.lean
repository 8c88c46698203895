/-
Module: SafRprGen.Xid.History
Layer: Xid
Purpose: The cube of a model does not depend on what the scratch of XID was used for before. After
  `NormalScopeModelValues` the entries are those of the model and the level stacks are empty; the queues
  differ in dead cells only once `Xfilling` has reset them. From then on two runs stay alike.
Main exports: XidState.Same, XidState.Alike, inlineXID_alike
-/
import SafRprGen.Xid.Xfilling

namespace SafRprGen

namespace XidState

/-- Equal but for the queues. -/
structure Same (s s' : XidState) : Prop where
  varInfo : s'.varInfo = s.varInfo
  xidLev : s'.xidLev = s.xidLev
  exited : s'.exited = s.exited

/-- Equal but for the dead cells of the queues. -/
structure Alike (c : Netlist) (s s' : XidState) : Prop extends Same s s' where
  queue : ∀ q, RingQueue.Alike c.nNet (s.queue q) (s'.queue q)

namespace Same

variable {s s' : XidState} (same : Same s s')

include same

theorem flag : s'.flag = s.flag := by
  funext n σ
  rw [XidState.flag, same.varInfo]
  rfl

theorem known : s'.known = s.known := by
  funext n σ
  rw [XidState.known, same.varInfo]
  rfl

theorem value2 : s'.value2 = s.value2 := by
  funext n σ
  rw [XidState.value2, same.varInfo]
  rfl

theorem value3 : s'.value3 = s.value3 := by
  funext n σ
  rw [XidState.value3, same.varInfo]
  rfl

theorem edTag : s'.edTag = s.edTag := by
  funext n
  rw [XidState.edTag, same.varInfo]
  rfl

theorem flagBoth : s'.flagBoth = s.flagBoth := by
  funext n
  rw [XidState.flagBoth, same.flag]
  rfl

theorem updated : s'.updated = s.updated := by
  funext n v
  rw [XidState.updated, same.flag]
  rfl

theorem inVal : s'.inVal = s.inVal := by
  funext n
  rw [XidState.inVal, same.edTag, same.value2]
  rfl

theorem fill (n : Nat) (v : SideValues) : Same (s.fill n v) (s'.fill n v) :=
  ⟨by rw [XidState.fill, XidState.fill, same.varInfo], same.xidLev, same.exited⟩

theorem setFault (n : Nat) (value : Bool) (tag : XidEdTag) :
    Same (s.setFault n value tag) (s'.setFault n value tag) :=
  ⟨by rw [XidState.setFault, XidState.setFault, same.varInfo], same.xidLev, same.exited⟩

theorem setEdTag (n : Nat) (tag : XidEdTag) : Same (s.setEdTag n tag) (s'.setEdTag n tag) :=
  ⟨by rw [XidState.setEdTag, XidState.setEdTag, same.varInfo], same.xidLev, same.exited⟩

end Same

end XidState

namespace Netlist

open XidState

variable {c : Netlist} {f : FNODE} {g g' : Globals} {s s' : XidState}

theorem pushLevNet_same (same : Same s s') (n : Nat) : Same (c.pushLevNet n s) (c.pushLevNet n s') :=
  ⟨same.varInfo, congrArg (LevelStack.push · (c.level n) n) same.xidLev, same.exited⟩

/-! ### The fault simulation -/

section Fsim

variable (scope : g'.normalScopeRequiredNet = g.normalScopeRequiredNet) (tpo : g'.tpo = g.tpo)

include scope

theorem edPushOut_same (same : Same s s') (net : Nat) :
    Same (c.edPushOut g net s) (c.edPushOut g' net s') := by
  apply List.foldl_rel same
  intro out _ t t' related
  rw [scope, related.edTag]
  split
  · exact related
  · split
    · exact pushLevNet_same (related.setEdTag _ _) _
    · exact related

/-- Two states of the event loop. -/
structure FsimSame (st st' : FsimState) : Prop where
  xid : Same st.xid st'.xid
  detectPo : st'.detectPo = st.detectPo
  eventLev : st'.eventLev = st.eventLev

include tpo

theorem fsimPass_same {o o' : Option FsimState} (related : Option.Rel FsimSame o o') :
    Option.Rel (Option.Rel FsimSame) (c.fsimPass g o) (c.fsimPass g' o') := by
  cases related with
  | none => exact .none
  | @some st st' related =>
      obtain ⟨s, detectPo, eventLev⟩ := st
      obtain ⟨s', detectPo', eventLev'⟩ := st'
      obtain ⟨same, rfl, rfl⟩ := related
      dsimp only at same
      unfold fsimPass
      dsimp only
      rw [same.xidLev, tpo]
      split
      · exact .none
      · cases s.xidLev.pop (s.xidLev.checkLev c.xidMaxLevel eventLev') with
        | none => exact .some .none
        | some popped =>
            obtain ⟨net, xidLev⟩ := popped
            have popped : Same { s with xidLev } { s' with xidLev } :=
              ⟨same.varInfo, rfl, same.exited⟩
            have taken := popped.setEdTag net .COMPUTED
            have valued := taken.setFault net
              ((c.type net).fn ((c.ins net).map ({ s with xidLev }.setEdTag net .COMPUTED).inVal))
              .COMPUTED
            dsimp only
            rw [taken.inVal, valued.value2]
            split
            · exact .some (.some ⟨valued, rfl, rfl⟩)
            · exact .some (.some ⟨edPushOut_same scope valued net, rfl, rfl⟩)

theorem xidFsim_same (same : Same s s') (fsigID : Nat) :
    Option.Rel (Option.Rel FsimSame) (c.xidFsim g fsigID s) (c.xidFsim g' fsigID s') := by
  unfold xidFsim
  dsimp only
  rw [same.value2, tpo]
  apply Loop.whileLoop_lockstep (Option.Rel FsimSame)
  · exact fun _ _ related => fsimPass_same scope tpo related
  · exact .some ⟨edPushOut_same scope (same.setFault _ _ _) _, rfl, rfl⟩

end Fsim

end Netlist

/-! ### The operations of the X-filling -/

namespace XidState.Alike

open Netlist

variable {c : Netlist} {f : FNODE} {g g' : Globals} {s s' : XidState} (alike : Alike c s s')

include alike

theorem enqueue (q : XidQueue) (n : Nat) :
    Alike c (c.enqueue q n s) (c.enqueue q n s') := by
  unfold Netlist.enqueue
  rw [(alike.queue q).count]
  split
  · exact ⟨⟨alike.varInfo, alike.xidLev, rfl⟩, alike.queue⟩
  · rename_i space
    refine ⟨⟨alike.varInfo, alike.xidLev, alike.exited⟩, fun p => ?_⟩
    by_cases here : p = q
    · subst here
      simpa using (alike.queue p).enqueue (Nat.lt_of_not_le space) n
    · simpa [here] using alike.queue p

theorem dequeue {q : XidQueue} (some : (s.queue q).count ≠ 0) :
    (c.dequeue q s').1 = (c.dequeue q s).1 ∧ Alike c (c.dequeue q s).2 (c.dequeue q s').2 := by
  obtain ⟨item, rest⟩ := (alike.queue q).dequeue (Nat.pos_of_ne_zero some)
  refine ⟨item, ⟨alike.varInfo, alike.xidLev, alike.exited⟩, fun p => ?_⟩
  unfold Netlist.dequeue
  by_cases here : p = q
  · subst here
    simpa using rest
  · simpa [here] using alike.queue p

theorem fill (n : Nat) (v : SideValues) :
    Alike c (s.fill n v) (s'.fill n v) :=
  ⟨alike.toSame.fill n v, alike.queue⟩

theorem fillPush (q : XidQueue) (n : Nat) (v : SideValues) :
    Alike c (c.fillPush q n v s) (c.fillPush q n v s') := by
  unfold Netlist.fillPush
  rw [alike.updated]
  split
  · exact (alike.fill n v).enqueue q n
  · exact alike

theorem edPushXpath (n : Nat) :
    Alike c (c.edPushXpath n s) (c.edPushXpath n s') := by
  unfold Netlist.edPushXpath
  rw [alike.flagBoth, alike.value2]
  split
  · exact alike
  · exact ⟨(Netlist.pushLevNet_same alike.toSame n).fill n _, alike.queue⟩

/-! ### Forward implication -/

theorem xidFimpUniversal (node : Nat) (cVal isInv : Bool) :
    Alike c (c.xidFimpUniversal node cVal isInv s) (c.xidFimpUniversal node cVal isInv s') := by
  have control : c.controlFound s' node cVal = c.controlFound s node cVal := by
    funext σ
    rw [controlFound, alike.flag, alike.value3]
    rfl
  have unknown : c.unknownFound s' node = c.unknownFound s node := by
    funext σ
    rw [unknownFound, alike.flag]
    rfl
  unfold Netlist.xidFimpUniversal
  rw [control, unknown]
  exact alike.fillPush _ _ _

theorem xidFimpUnivExor (node : Nat) (isInv : Bool) :
    Alike c (c.xidFimpUnivExor node isInv s) (c.xidFimpUnivExor node isInv s') := by
  have unknown : c.unknownFound s' node = c.unknownFound s node := by
    funext σ
    rw [unknownFound, alike.flag]
    rfl
  have ones : c.oneCount s' node = c.oneCount s node := by
    funext σ
    rw [oneCount, alike.flag, alike.value3]
    rfl
  unfold Netlist.xidFimpUnivExor
  rw [unknown, ones]
  exact alike.fillPush _ _ _

theorem xidFimp (node : Nat) (v : SideValues) : Alike c (c.xidFimp node v s) (c.xidFimp node v s') := by
  unfold Netlist.xidFimp
  cases c.type node with
  | BUF | FOUT | INV => exact alike.fillPush _ _ _
  | AND | NAND | OR | NOR => exact alike.xidFimpUniversal _ _ _
  | EXOR | EXNOR => exact alike.xidFimpUnivExor _ _
  | _ => exact alike

theorem xidForwardImp (scope : g'.normalScopeRequiredNet = g.normalScopeRequiredNet) (t : Nat) :
    Alike c (c.xidForwardImp g t s) (c.xidForwardImp g' t s') := by
  unfold Netlist.xidForwardImp
  dsimp only
  rw [alike.known]
  split
  · exact alike
  · apply List.foldl_rel alike
    intro out _ u u' related
    rw [scope, related.flagBoth]
    split
    · exact related
    · split
      · exact related
      · exact related.xidFimp _ _

/-! ### Backward implication -/

theorem xidCommit (cVal : Bool) (cands : Side → Option Nat) :
    Alike c (c.xidCommit cVal cands s) (c.xidCommit cVal cands s') := by
  unfold Netlist.xidCommit
  rw [alike.flag]
  cases cands .normal with
  | none =>
      dsimp only
      cases cands .fault with
      | none => exact alike
      | some n =>
          dsimp only
          split
          · exact alike.fill _ _
          · exact alike.fillPush _ _ _
  | some k =>
      have first := alike.fillPush .bwd k (onlySide .normal cVal)
      dsimp only
      cases cands .fault with
      | none => exact first
      | some n =>
          dsimp only
          generalize (if s.flag k .normal = true then none else some k) = last
          split
          · exact first.fill _ _
          · exact first.fillPush _ _ _

theorem bimpTriggered (t : Nat) (v : SideValues) (cVal triggerForce triggerSearch : Bool) :
    Alike c (c.bimpTriggered t v cVal triggerForce triggerSearch s)
      (c.bimpTriggered t v cVal triggerForce triggerSearch s') := by
  have loop : ∀ r : Side → SideSearch,
      Alike c ((c.ins t).foldl (c.bimpInput v cVal triggerForce triggerSearch) (s, r)).1
        ((c.ins t).foldl (c.bimpInput v cVal triggerForce triggerSearch) (s', r)).1 ∧
      ((c.ins t).foldl (c.bimpInput v cVal triggerForce triggerSearch) (s', r)).2 =
        ((c.ins t).foldl (c.bimpInput v cVal triggerForce triggerSearch) (s, r)).2 := by
    intro r
    refine List.foldl_rel (l := c.ins t) (a := (s, r)) (b := (s', r))
      (r := fun p p' => Alike c p.1 p'.1 ∧ p'.2 = p.2) ⟨alike, rfl⟩ ?_
    rintro i _ ⟨u, r⟩ ⟨u', r'⟩ ⟨related, same⟩
    dsimp only at related same
    subst same
    refine ⟨related.fillPush _ _ _, ?_⟩
    funext σ
    simp only [bimpInput, searchInput, related.flag, related.value3, related.value2]
  unfold Netlist.bimpTriggered
  dsimp only
  obtain ⟨state, search⟩ := loop fun σ => ⟨none, 0, v σ != some triggerSearch⟩
  rw [search]
  split
  · exact (state.xidCommit _ _).enqueue _ _
  · exact state.xidCommit _ _

theorem xidBimpExor (t : Nat) : Alike c (c.xidBimpExor t s) (c.xidBimpExor t s') := by
  apply List.foldl_rel alike
  intro i _ u u' related
  rw [related.value2]
  exact related.fillPush _ _ _

theorem xidBimp (t : Nat) (v : SideValues) : Alike c (c.xidBimp t v s) (c.xidBimp t v s') := by
  unfold Netlist.xidBimp
  cases c.type t with
  | BUF | FOUT | INV => exact alike.fillPush _ _ _
  | AND | NAND | OR | NOR => exact alike.bimpTriggered _ _ _ _ _
  | EXOR | EXNOR => exact alike.xidBimpExor _
  | _ => exact alike

theorem demanded (t : Nat) : Netlist.demanded f t s' = Netlist.demanded f t s := by
  funext σ
  rw [Netlist.demanded, alike.known]
  rfl

theorem xidBackwardImp (t : Nat) : Alike c (c.xidBackwardImp f t s) (c.xidBackwardImp f t s') := by
  unfold Netlist.xidBackwardImp
  rw [alike.demanded]
  dsimp only
  split
  · exact alike
  · exact alike.xidBimp _ _

theorem limitedTargeted (t : Nat) (v : SideValues) (cVal oVal : Bool) :
    Alike c (c.limitedTargeted t v cVal oVal s) (c.limitedTargeted t v cVal oVal s') := by
  have input : c.limitedInput s' = c.limitedInput s := by
    funext b σ r i
    simp only [limitedInput, alike.flag, alike.value3, alike.value2]
  unfold Netlist.limitedTargeted
  rw [input]
  dsimp only
  split
  · exact alike
  · exact alike.xidCommit _ _

theorem xidBackwardImpLimited (t : Nat) :
    Alike c (c.xidBackwardImpLimited f t s) (c.xidBackwardImpLimited f t s') := by
  unfold Netlist.xidBackwardImpLimited Netlist.xidBimpLimited
  rw [alike.demanded]
  dsimp only
  split
  · exact alike
  · cases c.type t with
    | AND | NAND | OR | NOR => exact alike.limitedTargeted _ _ _ _
    | _ => exact alike

/-! ### The X-path -/

theorem gateCommonAndOrLike (node : Nat) (ctrlValue invertOutput : Bool) :
    Alike c (c.gateCommonAndOrLike node ctrlValue invertOutput s)
      (c.gateCommonAndOrLike node ctrlValue invertOutput s') := by
  have select : c.selectInput s' = c.selectInput s := by
    funext r p
    simp only [selectInput, alike.flag, alike.value2]
  unfold Netlist.gateCommonAndOrLike
  rw [select, alike.value2]
  apply List.foldl_rel alike
  intro p _ u u' related
  split
  · exact related.edPushXpath _
  · exact related.fillPush _ _ _

theorem xidFpathExor (node : Nat) : Alike c (c.xidFpathExor node s) (c.xidFpathExor node s') := by
  apply List.foldl_rel alike
  intro i _ u u' related
  rw [related.value2]
  split
  · exact related.fillPush _ _ _
  · exact related.edPushXpath _

theorem xidFpath (node : Nat) : Alike c (c.xidFpath node s) (c.xidFpath node s') := by
  unfold Netlist.xidFpath
  cases c.type node with
  | BUF | FOUT | INV => exact alike.edPushXpath _
  | AND | NAND | OR | NOR => exact alike.gateCommonAndOrLike _ _ _
  | EXOR | EXNOR => exact alike.xidFpathExor _
  | _ => exact alike

/-- Two states of the loop of `Xfilling`. -/
structure Xfill (c : Netlist) (st st' : XfillState) : Prop where
  xid : Alike c st.xid st'.xid
  eventLev : st'.eventLev = st.eventLev
  stopXpath : st'.stopXpath = st.stopXpath

theorem xpathNet (net eventLev : Nat) :
    Option.Rel (Xfill c) (c.xpathNet f net eventLev s) (c.xpathNet f net eventLev s') := by
  have forward : Alike c (if 2 ≤ (c.outs net).length then c.enqueue .fwd net s else s)
      (if 2 ≤ (c.outs net).length then c.enqueue .fwd net s' else s') := by
    split
    · exact alike.enqueue _ _
    · exact alike
  unfold Netlist.xpathNet
  dsimp only
  generalize (if 2 ≤ (c.outs net).length then c.enqueue .fwd net s else s) = u at forward ⊢
  generalize (if 2 ≤ (c.outs net).length then c.enqueue .fwd net s' else s') = u' at forward ⊢
  split
  · have back := forward.enqueue .bwd net
    rw [back.xidLev]
    cases (Loop.whileLoop drainPass ((c.enqueue .bwd net u).xidLev.total + 1)
        (some ((c.enqueue .bwd net u).xidLev, eventLev))).join with
    | none => exact .none
    | some drained => exact .some ⟨⟨⟨back.varInfo, rfl, back.exited⟩, back.queue⟩, rfl, rfl⟩
  · exact .some ⟨forward.xidFpath net, rfl, rfl⟩

omit alike in
theorem xfillingPass (scope : g'.normalScopeRequiredNet = g.normalScopeRequiredNet)
    {o o' : Option XfillState} (related : Option.Rel (Xfill c) o o') :
    Option.Rel (Option.Rel (Xfill c)) (c.xfillingPass g f o) (c.xfillingPass g' f o') := by
  cases related with
  | none => exact .none
  | @some st st' related =>
      obtain ⟨s, eventLev, stopXpath⟩ := st
      obtain ⟨s', eventLev', stopXpath'⟩ := st'
      obtain ⟨alike, rfl, rfl⟩ := related
      dsimp only at alike
      unfold Netlist.xfillingPass
      dsimp only
      rw [(alike.queue .fwd).count, (alike.queue .bwd).count, (alike.queue .jus).count, alike.xidLev]
      split
      · rename_i some
        obtain ⟨same, rest⟩ := alike.dequeue some
        rw [same]
        exact .some (.some ⟨rest.xidForwardImp scope _, rfl, rfl⟩)
      · split
        · rename_i some
          obtain ⟨same, rest⟩ := alike.dequeue some
          rw [same]
          refine .some (.some ⟨?_, rfl, rfl⟩)
          dsimp only
          split
          · exact (rest.xidBackwardImp _).xidForwardImp scope _
          · exact rest.xidBackwardImp _
        · split
          · cases s.xidLev.pop (s.xidLev.checkLevReverse eventLev') with
            | none => exact .some .none
            | some popped =>
                have popped : Alike c { s with xidLev := popped.2 } { s' with xidLev := popped.2 } :=
                  ⟨⟨alike.varInfo, rfl, alike.exited⟩, alike.queue⟩
                exact .some (popped.xpathNet _ _)
          · split
            · rename_i some
              obtain ⟨same, rest⟩ := alike.dequeue some
              rw [same]
              exact .some (.some ⟨rest.xidBackwardImpLimited _, rfl, rfl⟩)
            · exact .none

end XidState.Alike

namespace Netlist

open XidState

variable {c : Netlist} {f : FNODE} {g g' : Globals} {s s' : XidState}

theorem edPushXpath_same (same : Same s s') (n : Nat) :
    Same (c.edPushXpath n s) (c.edPushXpath n s') := by
  unfold edPushXpath
  rw [same.flagBoth, same.value2]
  split
  · exact same
  · exact (pushLevNet_same same n).fill n _

/-- The stale queues are reset before they are used. -/
theorem xfilling_alike (scope : g'.normalScopeRequiredNet = g.normalScopeRequiredNet)
    (hn : 0 < c.nNet) (same : Same s s') (poId : Nat) :
    Option.Rel Same (c.xfilling g f poId s) (c.xfilling g' f poId s') := by
  have pushed := edPushXpath_same (c := c) (edPushXpath_same (c := c) same poId) f.netptr
  have reset : Alike c (resetQueues (c.edPushXpath f.netptr (c.edPushXpath poId s)))
      (resetQueues (c.edPushXpath f.netptr (c.edPushXpath poId s'))) :=
    ⟨⟨pushed.varInfo, pushed.xidLev, pushed.exited⟩, fun _ => RingQueue.alike_reset hn _ _⟩
  have excited : Alike c
      (c.pushExcitation f (resetQueues (c.edPushXpath f.netptr (c.edPushXpath poId s))))
      (c.pushExcitation f (resetQueues (c.edPushXpath f.netptr (c.edPushXpath poId s')))) := by
    unfold pushExcitation
    cases f.excNetptr with
    | none => exact reset
    | some e =>
        dsimp only
        rw [reset.value2]
        exact reset.fillPush _ _ _
  unfold xfilling
  dsimp only
  generalize c.pushExcitation f (resetQueues (c.edPushXpath f.netptr (c.edPushXpath poId s))) = u
    at excited ⊢
  generalize c.pushExcitation f (resetQueues (c.edPushXpath f.netptr (c.edPushXpath poId s'))) = u'
    at excited ⊢
  have start : Option.Rel (Alike.Xfill c) (some ⟨u, c.level poId, false⟩)
      (some ⟨u', c.level poId, false⟩) := .some ⟨excited, rfl, rfl⟩
  have loop := Loop.whileLoop_lockstep (Option.Rel (Alike.Xfill c))
    (fun _ _ related => Alike.xfillingPass (f := f) scope related) (8 * c.nNet + 1) _ _ start
  generalize Loop.whileLoop (c.xfillingPass g f) (8 * c.nNet + 1)
    (some ⟨u, c.level poId, false⟩) = r at loop ⊢
  generalize Loop.whileLoop (c.xfillingPass g' f) (8 * c.nNet + 1)
    (some ⟨u', c.level poId, false⟩) = r' at loop ⊢
  cases loop with
  | none => exact .none
  | some inner =>
      cases inner with
      | none => exact .none
      | some related =>
          apply Option.Rel.some
          apply List.foldl_rel related.xid.toSame
          intro i _ u u' same
          exact ⟨by simp only [xidCorrect, same.varInfo], same.xidLev, same.exited⟩

/-- What a caller sees of a call of `InlineXID`: the cube and whether the program ended. -/
theorem inlineXID_alike (scope : g'.normalScopeRequiredNet = g.normalScopeRequiredNet)
    (tpo : g'.tpo = g.tpo) (hn : 0 < c.nNet) {val val' : Nat → Bool} {st st' : XidStatics}
    (same : Same (c.normalScopeModelValues g val st).xid (c.normalScopeModelValues g' val' st').xid) :
    Option.Rel (fun r r' => r'.1 = r.1 ∧ r'.2.xid.exited = r.2.xid.exited)
      (c.inlineXID g f val st) (c.inlineXID g' f val' st') := by
  have fsim := xidFsim_same (c := c) scope tpo same f.netptr
  unfold inlineXID
  dsimp only
  generalize c.xidFsim g f.netptr (c.normalScopeModelValues g val st).xid = r at fsim ⊢
  generalize c.xidFsim g' f.netptr (c.normalScopeModelValues g' val' st').xid = r' at fsim ⊢
  cases fsim with
  | none => exact .none
  | some inner =>
      cases inner with
      | none => exact .none
      | @some t t' related =>
          simp only [Option.join_some, Option.bind_some]
          rw [related.detectPo]
          cases t.detectPo with
          | nil => exact .some ⟨rfl, related.xid.exited⟩
          | cons poId rest =>
              have filled := xfilling_alike (f := f) scope hn related.xid poId
              dsimp only
              generalize c.xfilling g f poId t.xid = u at filled ⊢
              generalize c.xfilling g' f poId t'.xid = u' at filled ⊢
              cases filled with
              | none => exact .none
              | @some u u' same =>
                  have char : cubeChar g' u' = cubeChar g u := by
                    funext n
                    unfold cubeChar
                    rw [scope, same.known]
                  exact .some ⟨congrArg (fun chars => some (c.pi.map chars)) char, same.exited⟩

end Netlist

end SafRprGen
