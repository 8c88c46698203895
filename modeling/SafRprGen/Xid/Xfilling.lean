/-
Module: SafRprGen.Xid.Xfilling
Layer: Xid
Purpose: The X-filling loop and `InlineXID` (`XID.c`). Four worklists are served in a fixed order:
  forward implication, backward implication, the X-path by falling level, and the J-frontier. When all
  are empty every flagged value follows from flagged values of its inputs, so every assignment that
  agrees with the cube gives the chosen observed net its two different values again.
Main exports: xfilling, inlineXID, CubeAgrees, inlineXID_spec
-/
import SafRprGen.Xid.BackwardImp
import SafRprGen.Xid.FaultPath
import SafRprGen.Xid.ForwardImp
import SafRprGen.Xid.Fsim

namespace SafRprGen

/-- The variables of the loop of `Xfilling`. -/
structure XfillState where
  xid : XidState
  eventLev : Nat
  stopXpath : Bool

namespace Netlist

variable (c : Netlist)

/-- The loop that empties the level stacks; the inner `none` is a read from an empty level. -/
def drainPass (state : Option (LevelStack Nat × Nat)) : Option (Option (LevelStack Nat × Nat)) :=
  match state with
  | none => none
  | some (q, eventLev) =>
      if q.total = 0 then none
      else
        let eventLev := q.checkLevReverse eventLev
        some ((q.pop eventLev).map fun (_, q) => (q, eventLev))

/-- The X-path branch of the loop, for the net that was popped. -/
def xpathNet (f : FNODE) (net eventLev : Nat) (s : XidState) : Option XfillState :=
  let s := if 2 ≤ (c.outs net).length then c.enqueue .fwd net s else s
  if net = f.netptr then
    let s := c.enqueue .bwd net s
    (Loop.whileLoop drainPass (s.xidLev.total + 1) (some (s.xidLev, eventLev))).join.map
      fun (xidLev, eventLev) => ⟨{ s with xidLev }, eventLev, true⟩
  else some ⟨c.xidFpath net s, eventLev, false⟩

/-- One pass of the loop of `Xfilling`; the inner `none` is a null dereference. -/
def xfillingPass (g : Globals) (f : FNODE) (state : Option XfillState) : Option (Option XfillState) :=
  match state with
  | none => none
  | some ⟨s, eventLev, stopXpath⟩ =>
      if (s.queue .fwd).count ≠ 0 then
        let (net, s) := c.dequeue .fwd s
        some (some ⟨c.xidForwardImp g net s, eventLev, stopXpath⟩)
      else if (s.queue .bwd).count ≠ 0 then
        let (net, s) := c.dequeue .bwd s
        let s := c.xidBackwardImp f net s
        let s := if 2 ≤ (c.outs net).length then c.xidForwardImp g net s else s
        some (some ⟨s, eventLev, stopXpath⟩)
      else if !stopXpath && s.xidLev.total != 0 then
        let eventLev := s.xidLev.checkLevReverse eventLev
        match s.xidLev.pop eventLev with
        | none => some none
        | some (net, xidLev) => some (c.xpathNet f net eventLev { s with xidLev })
      else if (s.queue .jus).count ≠ 0 then
        let (net, s) := c.dequeue .jus s
        some (some ⟨c.xidBackwardImpLimited f net s, eventLev, stopXpath⟩)
      else none

/-- `resetQueue` for the three queues. -/
def resetQueues (s : XidState) : XidState := { s with queue := fun q => (s.queue q).reset }

/-- The entry of a net after the final loop of `Xfilling`: outside the fanout the good value is the
faulty one. -/
def correctInfo (v : XidVarInfo) : XidVarInfo :=
  if (v.side .fault).known.isSome && (v.side .normal).known.isNone && v.edTag == .UNTAGGED then
    { v with
      side := fun σ =>
        match σ with
        | .normal => { v.side .normal with value3 := some (v.side .normal).value2, flag := true }
        | .fault => v.side .fault }
  else v

/-- The final loop of `Xfilling` at one net. -/
def xidCorrect (s : XidState) (i : Nat) : XidState :=
  { s with varInfo := Function.update s.varInfo i (correctInfo (s.varInfo i)) }

/-- The excitation net of a transition fault is to be justified as well. -/
def pushExcitation (f : FNODE) (s : XidState) : XidState :=
  match f.excNetptr with
  | none => s
  | some e => c.fillPush .bwd e (onlySide .normal (s.value2 e .normal)) s

/-- `Xfilling`; `none` is a null dereference. -/
def xfilling (g : Globals) (f : FNODE) (poId : Nat) (s : XidState) : Option XidState :=
  let s := c.edPushXpath poId s
  let s := c.edPushXpath f.netptr s
  let s := resetQueues s
  let s := c.pushExcitation f s
  (Loop.whileLoop (c.xfillingPass g f) (8 * c.nNet + 1) (some ⟨s, c.level poId, false⟩)).join.map
    fun st => (List.range c.nNet).foldl xidCorrect st.xid

/-- The state in which `Xfilling` enters its loop. -/
def xfillingStart (f : FNODE) (poId : Nat) (s : XidState) : XfillState :=
  ⟨c.pushExcitation f (resetQueues (c.edPushXpath f.netptr (c.edPushXpath poId s))), c.level poId,
    false⟩

/-- The character of one input net. -/
def cubeChar (g : Globals) (s : XidState) (n : Nat) : Char :=
  if !g.normalScopeRequiredNet n then 'X'
  else
    match s.known n .normal with
    | some false => '0'
    | some true => '1'
    | none => 'X'

/-- `InlineXID`, with `val` for `ccadical_val(..) > 0`. The outer `none` is a null dereference, the inner
one the null pointer it returns when no observed net differs. -/
def inlineXID (g : Globals) (f : FNODE) (val : Nat → Bool) (st : XidStatics) :
    Option (Option CStr × XidStatics) :=
  let st := c.normalScopeModelValues g val st
  (c.xidFsim g f.netptr st.xid).join.bind fun r =>
    match r.detectPo with
    | [] => some (none, { st with xid := r.xid })
    | poId :: _ =>
        (c.xfilling g f poId r.xid).map fun s =>
          (some (c.pi.map (cubeChar g s)), { st with xid := s })

/-- `InlineXID` enters the loop of `Xfilling` in this state. -/
def Enters (g : Globals) (f : FNODE) (val : Nat → Bool) (st : XidStatics) (start : XfillState) :
    Prop :=
  ∃ r poId rest, (c.xidFsim g f.netptr (c.normalScopeModelValues g val st).xid).join = some r ∧
    r.detectPo = poId :: rest ∧ start = c.xfillingStart f poId r.xid

/-- The assignment has the value of every '0' and '1' of the cube. -/
def CubeAgrees (cube : CStr) (y : c.Assignment) : Prop :=
  ∀ k : Fin c.nPi, (cube[(k : Nat)]? = some '0' → y k = false) ∧
    (cube[(k : Nat)]? = some '1' → y k = true)

variable {c} {m : FaultModel} {f : FNODE} {x : c.Assignment} {required : Nat → Bool}
  {path : Nat → Prop} {busy : Nat → Side → Prop} {s : XidState}

/-! ### The X-path -/

/-- Emptying the level stacks. -/
private theorem drain_spec {q : LevelStack Nat} (valid : q.Valid c.xidMaxLevel) {eventLev : Nat}
    (low : ∀ l, q.lev l ≠ [] → l ≤ eventLev) :
    ∃ q' eventLev', Loop.whileLoop drainPass (q.total + 1) (some (q, eventLev)) =
        some (some (q', eventLev')) ∧
      q'.Valid c.xidMaxLevel ∧ q'.total = 0 ∧ eventLev' ≤ eventLev := by
  have one : ∀ {q : LevelStack Nat} {eventLev : Nat}, q.Valid c.xidMaxLevel →
      (∀ l, q.lev l ≠ [] → l ≤ eventLev) → q.total ≠ 0 →
      ∃ q' eventLev', drainPass (some (q, eventLev)) = some (some (q', eventLev')) ∧
        q'.Valid c.xidMaxLevel ∧ (∀ l, q'.lev l ≠ [] → l ≤ eventLev') ∧
        q'.total < q.total ∧ eventLev' ≤ eventLev := by
    intro q eventLev valid low more
    obtain ⟨k, -, found⟩ := valid.exists_ne_nil more
    obtain ⟨le, nonempty, above⟩ := q.checkLevReverse_spec eventLev k (low k found) found
    obtain ⟨net, q', pop, -, valid', total, fewer, -⟩ := valid.pop nonempty
    refine ⟨q', q.checkLevReverse eventLev, ?_, valid', ?_, by omega, le⟩
    · simp only [drainPass, if_neg more, pop, Option.map_some]
    · intro l used
      obtain ⟨n, hn⟩ := List.exists_mem_of_ne_nil _ used
      have old : q.lev l ≠ [] := List.ne_nil_of_mem (fewer l n hn)
      by_contra high
      exact old (above l (Nat.lt_of_not_le high) (low l old))
  obtain ⟨t, run, final, exit⟩ := @Loop.whileLoop_total _ drainPass
    (fun state => ∃ q' eventLev', state = some (q', eventLev') ∧ q'.Valid c.xidMaxLevel ∧
      (∀ l, q'.lev l ≠ [] → l ≤ eventLev') ∧ eventLev' ≤ eventLev)
    (fun state => match state with
      | none => 0
      | some p => p.1.total)
    (by
      rintro state state' ⟨q', eventLev', rfl, valid', low', le⟩ next
      by_cases zero : q'.total = 0
      · simp [drainPass, zero] at next
      · obtain ⟨q'', eventLev'', run, valid'', low'', less, le'⟩ := one valid' low' zero
        rw [run] at next
        cases next
        exact ⟨⟨q'', eventLev'', rfl, valid'', low'', le'.trans le⟩, less⟩)
    (q.total + 1) (some (q, eventLev)) ⟨q, eventLev, rfl, valid, low, le_refl _⟩
    (Nat.lt_succ_self _)
  obtain ⟨q', eventLev', rfl, valid', low', le⟩ := final
  refine ⟨q', eventLev', run, valid', ?_, le⟩
  by_contra more
  obtain ⟨_, _, next, -⟩ := one valid' low' more
  rw [next] at exit
  cases exit

/-- The nets that may still be on the X-path: none once the site has been reached. -/
def OnXpath (c : Netlist) (st : XfillState) (n : Nat) : Prop :=
  st.stopXpath = false ∧ c.level n ≤ st.eventLev

/-- The invariant between two passes; the fault side of the site has its value from the start. -/
structure XfillInv (c : Netlist) (f : FNODE) (x : c.Assignment) (required : Nat → Bool)
    (st : XfillState) : Prop where
  inv : XInv c f x required (c.OnXpath st) (fun _ _ => False) st.xid
  site : st.xid.flag f.netptr .fault = true

section Passes

variable (wf : c.WellFormed m) (hsite : f.netptr < c.nNet)
  (closed : ∀ n i, required n = true → i ∈ c.ins n → required i = true)

include wf hsite closed

/-- The net popped from the X-path: the site ends the path, any other net passes it on. -/
private theorem xpathNet_spec {net : Nat} (inv : XInv c f x required (fun n => c.level n ≤ c.level net)
    (fun n _ => n = net) s) (site : s.flag f.netptr .fault = true) (hn : net < c.nNet)
    (hr : required net = true) (differs : c.Differs f x net) :
    ∃ st, c.xpathNet f net (c.level net) s = some st ∧ XfillInv c f x required st ∧
      Ext c required 3 s st.xid := by
  unfold xpathNet
  dsimp only
  -- a net with several outputs is also implied forward
  have forward : ∃ s₁, (if 2 ≤ (c.outs net).length then c.enqueue .fwd net s else s) = s₁ ∧
      XInv c f x required (fun n => c.level n ≤ c.level net) (fun n _ => n = net) s₁ ∧
      Ext c required 1 s s₁ := by
    split
    · obtain ⟨kept, ext⟩ := enqueue_spec inv .fwd hn hr
      exact ⟨_, rfl, kept, ext⟩
    · exact ⟨s, rfl, inv, (Ext.refl s).weaken (Nat.zero_le _)⟩
  obtain ⟨s₁, eq, inv₁, ext₁⟩ := forward
  rw [eq]
  by_cases here : net = f.netptr
  · rw [if_pos here]
    obtain ⟨inv₂, ext₂⟩ := enqueue_spec inv₁ .bwd hn hr
    have queued := (inv₁.mem_enqueue .bwd .bwd net net).2.2
    generalize c.enqueue .bwd net s₁ = s₂ at inv₂ ext₂ queued ⊢
    have low : ∀ l, s₂.xidLev.lev l ≠ [] → l ≤ c.level net := by
      intro l used
      obtain ⟨n, h⟩ := List.exists_mem_of_ne_nil _ used
      obtain ⟨same, -, -, -, le⟩ := inv₂.stacked l n h
      rwa [same]
    obtain ⟨q, eventLev, drained, valid, zero, -⟩ := drain_spec inv₂.levels low
    rw [drained]
    refine ⟨⟨{ s₂ with xidLev := q }, eventLev, true⟩, rfl, ⟨?_, ?_⟩, ?_⟩
    · have none := valid.eq_nil zero
      refine ⟨inv₂.queues, inv₂.queued, inv₂.value2, inv₂.flagged, valid, ?_, ?_⟩
      · intro l n h
        rw [none l] at h
        exact absurd h List.not_mem_nil
      · intro running n σ flag _ free
        by_cases same : n = net
        · exact .inr (.inl (same ▸ queued running))
        · rcases inv₂.justified running n σ flag same free with just | bwd | jus | stacked
          · exact .inl just
          · exact .inr (.inl bwd)
          · exact .inr (.inr (.inl jus))
          · -- a net still on the path would be above the site
            obtain ⟨-, hlt, -, differs', le⟩ := inv₂.stacked _ n stacked
            rcases level_site_lt wf hsite hlt differs' with h | h
            · exact absurd (h.trans here.symm) same
            · rw [← here] at h
              exact absurd le (Nat.not_le.mpr h)
    · exact ext₂.flag _ _ (ext₁.flag _ _ site)
    · have ext := ext₁.trans ext₂
      refine ⟨ext.flag, ext.value2, ext.edTag, ext.outside, ext.exited, le_trans ?_ ext.potential⟩
      have unset : c.unset { s₂ with xidLev := q } = c.unset s₂ := rfl
      unfold potential
      simp only [unset, zero]
      omega
  · rw [if_neg here]
    obtain ⟨kept, ext, just⟩ := xidFpath_spec wf inv₁ hn hr closed differs here fun i h => h.le
    refine ⟨⟨c.xidFpath net s₁, c.level net, false⟩, rfl, ⟨?_, ?_⟩,
      (ext₁.trans ext).weaken (by omega)⟩
    · apply (kept.settle ?_).mono_path _
      · exact fun n low => ⟨rfl, low⟩
      · rintro - n σ rfl -
        exact .inl (just σ)
    · exact ext.flag _ _ (ext₁.flag _ _ site)

end Passes

/-- The net popped from the X-path is being handled, and its place is paid back. -/
theorem popXpath_spec {eventLev : Nat}
    (inv : XInv c f x required (fun n => c.level n ≤ eventLev) (fun _ _ => False) s)
    (more : s.xidLev.total ≠ 0) :
    ∃ net q, s.xidLev.checkLevReverse eventLev = c.level net ∧
      s.xidLev.pop (c.level net) = some (net, q) ∧ net < c.nNet ∧ required net = true ∧
      c.Differs f x net ∧
      XInv c f x required (fun n => c.level n ≤ c.level net) (fun n _ => n = net)
        { s with xidLev := q } ∧
      c.potential { s with xidLev := q } + 4 = c.potential s := by
  obtain ⟨k, -, found⟩ := inv.levels.exists_ne_nil more
  have low : ∀ l, s.xidLev.lev l ≠ [] → l ≤ eventLev := by
    intro l used
    obtain ⟨n, h⟩ := List.exists_mem_of_ne_nil _ used
    obtain ⟨same, -, -, -, le⟩ := inv.stacked l n h
    rwa [same]
  obtain ⟨-, nonempty, above⟩ := s.xidLev.checkLevReverse_spec eventLev k (low k found) found
  obtain ⟨net, q, pop, top, valid, total, fewer, kept⟩ := inv.levels.pop nonempty
  obtain ⟨same, hn, hr, differs, -⟩ := inv.stacked _ net top
  rw [same] at pop above kept
  refine ⟨net, q, same, pop, hn, hr, differs, ⟨inv.queues, inv.queued, inv.value2, inv.flagged, valid,
    ?_, ?_⟩, ?_⟩
  · intro l n h
    have old := fewer l n h
    obtain ⟨at_, hlt, hreq, differs', le⟩ := inv.stacked l n old
    refine ⟨at_, hlt, hreq, differs', ?_⟩
    by_contra high
    have empty := above _ (Nat.lt_of_not_le high) le
    rw [← at_] at empty
    rw [empty] at old
    exact List.not_mem_nil old
  · intro running n σ flag idle free
    rcases inv.justified running n σ flag (fun h => h) free with just | bwd | jus | stacked
    · exact .inl just
    · exact .inr (.inl bwd)
    · exact .inr (.inr (.inl jus))
    · rcases kept _ n stacked with still | ⟨-, popped⟩
      · exact .inr (.inr (.inr still))
      · exact absurd popped idle
  · have unset : c.unset { s with xidLev := q } = c.unset s := rfl
    unfold potential
    rw [unset]
    dsimp only
    omega

/-- One pass keeps the invariant, never forgets a flag and lowers the measure; the loop ends with all
worklists empty. -/
theorem xfillingPass_spec {g : Globals} (wf : c.WellFormed m) (hsite : f.netptr < c.nNet)
    (closed : ∀ n i, g.normalScopeRequiredNet n = true → i ∈ c.ins n →
      g.normalScopeRequiredNet i = true)
    {st : XfillState} (inv : XfillInv c f x g.normalScopeRequiredNet st) :
    (∃ st', c.xfillingPass g f (some st) = some (some st') ∧
      XfillInv c f x g.normalScopeRequiredNet st' ∧
      Ext c g.normalScopeRequiredNet 0 st.xid st'.xid ∧
      c.potential st'.xid < c.potential st.xid) ∨
    (c.xfillingPass g f (some st) = none ∧ (∀ q, (st.xid.queue q).count = 0) ∧
      st.xid.xidLev.total = 0) := by
  obtain ⟨s, eventLev, stopXpath⟩ := st
  obtain ⟨inv, site⟩ := inv
  simp only at inv site
  -- a step after a net has left a worklist
  have step : ∀ {paid cost : Nat} (s₁ : XidState) {s₂ : XidState}, s₁.varInfo = s.varInfo →
      s₁.exited = s.exited → c.potential s₁ + paid = c.potential s →
      Ext c g.normalScopeRequiredNet cost s₁ s₂ → cost < paid →
      Ext c g.normalScopeRequiredNet 0 s s₂ ∧ c.potential s₂ < c.potential s := by
    intro paid cost s₁ s₂ info exited pay ext less
    have bound := ext.potential
    refine ⟨⟨?_, ?_, ?_, ?_, ?_, by omega⟩, by omega⟩
    · intro n σ h
      apply ext.flag
      rwa [XidState.flag, info]
    · intro n σ
      rw [ext.value2, XidState.value2, info]
      rfl
    · intro n
      rw [ext.edTag, XidState.edTag, info]
      rfl
    · intro n h
      rw [ext.outside n h, info]
    · intro h
      exact ext.exited (exited.trans h)
  have flagOf : ∀ {s₁ : XidState}, s₁.varInfo = s.varInfo → s₁.flag f.netptr .fault = true := by
    intro s₁ info
    rw [XidState.flag, info]
    exact site
  unfold xfillingPass
  dsimp only
  by_cases fwd : (s.queue .fwd).count ≠ 0
  · obtain ⟨t, s₁, deq, ht, hr, inv₁, info, -, exited, paid⟩ := dequeue_spec inv fwd
    obtain ⟨kept, ext⟩ := xidForwardImp_spec wf inv₁ (flagOf info) ht
    obtain ⟨ext, less⟩ := step s₁ info exited paid ext (by decide)
    rw [if_pos fwd, deq]
    refine .inl ⟨_, rfl, ⟨kept.settle ?_, ext.flag _ _ site⟩, ext, less⟩
    rintro - n σ ⟨-, -, bwd | ⟨jus, -⟩⟩ -
    · cases bwd
    · cases jus
  rw [if_neg fwd]
  by_cases bwd : (s.queue .bwd).count ≠ 0
  · obtain ⟨t, s₁, deq, ht, hr, inv₁, info, -, exited, paid⟩ := dequeue_spec inv bwd
    obtain ⟨inv₂, ext₂⟩ := xidBackwardImp_spec wf inv₁ ht hr closed
    rw [if_pos bwd, deq]
    dsimp only
    have forward : ∃ s₃, (if 2 ≤ (c.outs t).length then
          c.xidForwardImp g t (c.xidBackwardImp f t s₁) else c.xidBackwardImp f t s₁) = s₃ ∧
        XInv c f x g.normalScopeRequiredNet (c.OnXpath ⟨s, eventLev, stopXpath⟩) (fun _ _ => False)
          s₃ ∧ Ext c g.normalScopeRequiredNet 1 s₁ s₃ := by
      split
      · obtain ⟨kept, ext⟩ := xidForwardImp_spec wf inv₂ (ext₂.flag _ _ (flagOf info)) ht
        exact ⟨_, rfl, kept, ext₂.trans ext⟩
      · exact ⟨_, rfl, inv₂, ext₂⟩
    obtain ⟨s₃, eq, kept, ext⟩ := forward
    obtain ⟨ext, less⟩ := step s₁ info exited paid ext (by decide)
    rw [eq]
    exact .inl ⟨_, rfl, ⟨kept, ext.flag _ _ site⟩, ext, less⟩
  rw [if_neg bwd]
  by_cases path : (!stopXpath && s.xidLev.total != 0) = true
  · simp only [Bool.and_eq_true, Bool.not_eq_true', bne_iff_ne, ne_eq] at path
    obtain ⟨open_, more⟩ := path
    obtain ⟨net, q, found, pop, hn, hr, differs, inv₁, paid⟩ :=
      popXpath_spec (inv.mono_path (fun n => c.level n ≤ eventLev) fun _ h => h.2) more
    obtain ⟨st', run, kept, ext⟩ := xpathNet_spec wf hsite closed inv₁ (flagOf rfl) hn hr differs
    obtain ⟨ext, less⟩ := step { s with xidLev := q } rfl rfl paid ext (by decide)
    rw [if_pos (by simp [open_, more]), found, pop]
    exact .inl ⟨st', by simp only [run], kept, ext, less⟩
  rw [if_neg path]
  by_cases jus : (s.queue .jus).count ≠ 0
  · obtain ⟨t, s₁, deq, ht, hr, inv₁, info, -, exited, paid⟩ := dequeue_spec inv jus
    obtain ⟨kept, ext⟩ := xidBackwardImpLimited_spec wf inv₁ ht hr closed
    obtain ⟨ext, less⟩ := step s₁ info exited paid ext (by decide)
    rw [if_pos jus, deq]
    exact .inl ⟨_, rfl, ⟨kept, ext.flag _ _ site⟩, ext, less⟩
  rw [if_neg jus]
  refine .inr ⟨rfl, ?_, ?_⟩
  · intro q
    cases q with
    | fwd => exact not_not.mp fwd
    | bwd => exact not_not.mp bwd
    | jus => exact not_not.mp jus
  · by_contra more
    cases stopXpath with
    | true => exact more (inv.total_eq_zero fun n h => by cases h.1)
    | false => exact path (by simp [more])

/-! ### The loop -/

/-- The loop ends with every flagged value justified. -/
theorem xfillingLoop_spec {g : Globals} (wf : c.WellFormed m) (hsite : f.netptr < c.nNet)
    (closed : ∀ n i, g.normalScopeRequiredNet n = true → i ∈ c.ins n →
      g.normalScopeRequiredNet i = true)
    {st : XfillState} (inv : XfillInv c f x g.normalScopeRequiredNet st) {fuel : Nat}
    (enough : c.potential st.xid < fuel) :
    ∃ t, Loop.whileLoop (c.xfillingPass g f) fuel (some st) = some (some t) ∧
      XfillInv c f x g.normalScopeRequiredNet t ∧ Ext c g.normalScopeRequiredNet 0 st.xid t.xid ∧
      t.xid.xidLev.total = 0 ∧
      (t.xid.exited = false → ∀ n σ, t.xid.flag n σ = true → ¬ Forced f n σ →
        c.Justified f x t.xid n σ) := by
  obtain ⟨t, run, final, exit⟩ := @Loop.whileLoop_total _ (c.xfillingPass g f)
    (fun state => ∃ t, state = some t ∧ XfillInv c f x g.normalScopeRequiredNet t ∧
      Ext c g.normalScopeRequiredNet 0 st.xid t.xid)
    (fun state => match state with
      | none => 0
      | some t => c.potential t.xid)
    (by
      rintro state state' ⟨t, rfl, inv, ext⟩ next
      rcases xfillingPass_spec wf hsite closed inv with ⟨t', run, kept, ext', less⟩ | ⟨exit, -⟩
      · rw [run] at next
        cases next
        exact ⟨⟨t', rfl, kept, ext.trans ext'⟩, less⟩
      · rw [exit] at next
        cases next)
    fuel (some st) ⟨st, rfl, inv, Ext.refl _⟩ enough
  obtain ⟨t, rfl, inv, ext⟩ := final
  rcases xfillingPass_spec wf hsite closed inv with ⟨t', next, -⟩ | ⟨-, queues, zero⟩
  · rw [next] at exit
    cases exit
  · refine ⟨t, run, inv, ext, zero, ?_⟩
    intro running n σ flag free
    have empty : ∀ q, (t.xid.queue q).contents c.nNet = [] := fun q =>
      (RingQueue.contents_eq_nil _ _).mpr (queues q)
    rcases inv.inv.justified running n σ flag (fun h => h) free with just | bwd | ⟨jus, -⟩ | stacked
    · exact just
    · rw [empty] at bwd
      exact absurd bwd List.not_mem_nil
    · rw [empty] at jus
      exact absurd jus List.not_mem_nil
    · rw [inv.inv.levels.eq_nil zero] at stacked
      exact absurd stacked List.not_mem_nil

/-- The final loop corrects every net once. -/
private theorem foldl_xidCorrect (s : XidState) (k : Nat) :
    (List.range k).foldl xidCorrect s =
      { s with varInfo := fun n => if n < k then correctInfo (s.varInfo n) else s.varInfo n } := by
  induction k with
  | zero => simp
  | succ k ih =>
      rw [List.range_succ, List.foldl_append, ih]
      simp only [List.foldl_cons, List.foldl_nil, xidCorrect, lt_irrefl, if_false]
      congr 1
      funext n
      by_cases here : n = k
      · subst here
        simp
      · have bound : n < k + 1 ↔ n < k := by omega
        simp [here, bound]

theorem potential_le (s : XidState) (idle : s.xidLev.total = 0) (empty : ∀ q, (s.queue q).count = 0) :
    c.potential s ≤ 8 * c.nNet := by
  have each : c.unset s ≤ ∑ _n ∈ Finset.range c.nNet, 2 := by
    apply Finset.sum_le_sum
    intro n _
    split <;> split <;> decide
  rw [Finset.sum_const, Finset.card_range, nsmul_eq_mul, Nat.cast_id] at each
  unfold potential
  rw [idle, empty, empty, empty]
  omega

/-- `Xfilling` on what the fault simulation of a detecting assignment leaves. -/
private structure Filled (c : Netlist) (f : FNODE) (x : c.Assignment) (g : Globals) (poId : Nat)
    (s t : XidState) : Prop where
  flagged : ∀ n σ, t.flag n σ = true →
    n < c.nNet ∧ g.normalScopeRequiredNet n = true ∧ t.value3 n σ = some (c.sideValue f x σ n)
  value2 : ∀ n < c.nNet, g.normalScopeRequiredNet n = true → ∀ σ,
    t.value2 n σ = c.sideValue f x σ n
  edTag : ∀ n, t.edTag n = s.edTag n
  outside : ∀ n, g.normalScopeRequiredNet n = false → t.varInfo n = s.varInfo n
  idle : t.xidLev = .empty
  observed : ∀ σ, t.flag poId σ = true
  site : ∀ σ, t.flag f.netptr σ = true
  excitation : ∀ e ∈ f.excNetptr, t.flag e .normal = true
  justified : t.exited = false → ∀ n σ, t.flag n σ = true → ¬ Forced f n σ →
    c.Justified f x t n σ

theorem resetQueues_edPushXpath (n : Nat) (s : XidState) :
    resetQueues (c.edPushXpath n s) = c.edPushXpath n (resetQueues s) := by
  have same : (resetQueues s).flagBoth n = s.flagBoth n := rfl
  unfold edPushXpath
  rw [same]
  split <;> rfl

/-- The state after the last loop of `Xfilling`. -/
def correctedAll (c : Netlist) (t : XidState) : XidState :=
  { t with varInfo := fun n => if n < c.nNet then correctInfo (t.varInfo n) else t.varInfo n }

theorem known_correctedAll {t : XidState} {n : Nat} (low : n < c.nNet) (σ : Side) :
    (c.correctedAll t).known n σ = ((correctInfo (t.varInfo n)).side σ).known := by
  rw [XidState.known, correctedAll]
  dsimp only
  rw [if_pos low]

/-- What is known when the loop is entered, the observed net differing and no net being flagged. -/
structure Started (c : Netlist) (f : FNODE) (x : c.Assignment) (g : Globals) (poId : Nat) (s : XidState)
    (start : XfillState) : Prop where
  inv : XfillInv c f x g.normalScopeRequiredNet start
  ext : Ext c g.normalScopeRequiredNet 0 (resetQueues s) start.xid
  low : c.potential start.xid ≤ 8 * c.nNet
  observed : ∀ σ, start.xid.flag poId σ = true
  site : ∀ σ, start.xid.flag f.netptr σ = true
  excitation : ∀ e ∈ f.excNetptr, start.xid.flag e .normal = true

theorem xfillingStart_spec {g : Globals} (wf : c.WellFormed m) (fault : c.IsFault m f)
    (base : TpgBase c m f g) {poId : Nat} (tpo : g.tpo poId = true) (differs : c.Differs f x poId)
    (clean : ∀ n σ, s.flag n σ = false) (idle : s.xidLev = .empty)
    (value2 : ∀ n < c.nNet, g.normalScopeRequiredNet n = true → ∀ σ,
      s.value2 n σ = c.sideValue f x σ n) :
    Started c f x g poId s (c.xfillingStart f poId s) := by
  have hpo : poId < c.nNet := wf.observedLt poId ((base.tpo poId).mp tpo).1
  obtain ⟨atSite, chain⟩ := wf.dchain poId hpo differs
  have scopePo : g.normalScopeRequiredNet poId = true := (base.needed poId).mpr (.root (.inl tpo))
  have scopeSite : g.normalScopeRequiredNet f.netptr = true :=
    base.required_of_detection (OnChain.inCone wf base fault.netLt ⟨atSite, poId, tpo, chain⟩)
  have lowSite : c.level f.netptr ≤ c.level poId := by
    rcases level_site_lt wf fault.netLt hpo differs with same | less
    · rw [same]
    · exact less.le
  -- nothing is flagged, queued or stacked at the start
  have inv : XInv c f x g.normalScopeRequiredNet (fun n => c.level n ≤ c.level poId)
      (fun _ _ => False) (resetQueues s) := by
    refine ⟨?_, ?_, value2, ?_, ?_, ?_, ?_⟩
    · exact fun q => RingQueue.valid_reset (Nat.zero_lt_of_lt hpo) _
    · intro q n h
      exact absurd h List.not_mem_nil
    · intro n σ flag
      exact absurd flag (by rw [show (resetQueues s).flag n σ = s.flag n σ from rfl, clean]; decide)
    · change s.xidLev.Valid c.xidMaxLevel
      rw [idle]
      exact LevelStack.valid_empty
    · intro l n h
      change n ∈ s.xidLev.lev l at h
      rw [idle] at h
      exact absurd h List.not_mem_nil
    · intro _ n σ flag
      exact absurd flag (by rw [show (resetQueues s).flag n σ = s.flag n σ from rfl, clean]; decide)
  have low : c.potential (resetQueues s) ≤ 8 * c.nNet := by
    apply potential_le
    · change s.xidLev.total = 0
      rw [idle]
      rfl
    · exact fun _ => rfl
  obtain ⟨inv₁, ext₁, flags₁⟩ := edPushXpath_spec inv hpo scopePo differs (le_refl _)
  obtain ⟨inv₂, ext₂, flags₂⟩ := edPushXpath_spec inv₁ fault.netLt scopeSite atSite lowSite
  have excited : ∃ s₃, c.pushExcitation f (c.edPushXpath f.netptr (c.edPushXpath poId (resetQueues s)))
        = s₃ ∧
      XInv c f x g.normalScopeRequiredNet (fun n => c.level n ≤ c.level poId) (fun _ _ => False) s₃ ∧
      Ext c g.normalScopeRequiredNet 0 (c.edPushXpath f.netptr (c.edPushXpath poId (resetQueues s)))
        s₃ ∧ ∀ e ∈ f.excNetptr, s₃.flag e .normal = true := by
    refine ⟨_, rfl, ?_⟩
    unfold pushExcitation
    cases exc : f.excNetptr with
    | none => exact ⟨inv₂, Ext.refl _, fun e he => by cases he⟩
    | some e =>
        have he : e < c.nNet := exc_lt wf fault e exc
        have scope : g.normalScopeRequiredNet e = true := (base.needed e).mpr (.root (.inr exc))
        obtain ⟨inv₃, ext₃, flags₃⟩ := fillBwd_spec inv₂ he scope
          (v := onlySide .normal
            ((c.edPushXpath f.netptr (c.edPushXpath poId (resetQueues s))).value2 e .normal)) (by
          intro σ b given
          obtain ⟨rfl, rfl⟩ := onlySide_eq_some.mp given
          exact inv₂.value2 e he scope .normal)
        refine ⟨inv₃, ext₃, ?_⟩
        intro e' same
        cases same
        exact flags₃ .normal rfl
  obtain ⟨s₃, eq, inv₃, ext₃, excFlag⟩ := excited
  have ext := (ext₁.trans ext₂).trans ext₃
  have start : c.xfillingStart f poId s = ⟨s₃, c.level poId, false⟩ := by
    rw [xfillingStart, resetQueues_edPushXpath, resetQueues_edPushXpath, eq]
  rw [start]
  exact ⟨⟨inv₃.mono_path _ fun n h => ⟨rfl, h⟩, ext₃.flag _ _ (flags₂ .fault)⟩, ext,
    ext.potential.trans low, fun σ => ext₃.flag _ _ (ext₂.flag _ _ (flags₁ σ)),
    fun σ => ext₃.flag _ _ (flags₂ σ), excFlag⟩

private theorem xfilling_spec {g : Globals} (wf : c.WellFormed m) (fault : c.IsFault m f)
    (base : TpgBase c m f g) {poId : Nat} (tpo : g.tpo poId = true) (differs : c.Differs f x poId)
    (clean : ∀ n σ, s.flag n σ = false) (idle : s.xidLev = .empty)
    (value2 : ∀ n < c.nNet, g.normalScopeRequiredNet n = true → ∀ σ,
      s.value2 n σ = c.sideValue f x σ n) :
    ∃ t, c.xfilling g f poId s = some (c.correctedAll t) ∧ Filled c f x g poId s t := by
  have closed : ∀ n i, g.normalScopeRequiredNet n = true → i ∈ c.ins n →
      g.normalScopeRequiredNet i = true := fun n i => base.required_ins
  have start := xfillingStart_spec wf fault base tpo differs clean idle value2
  obtain ⟨t, run, final, extT, zero, just⟩ := xfillingLoop_spec wf fault.netLt closed start.inv
    (Nat.lt_succ_of_le start.low)
  have all := start.ext.trans extT
  refine ⟨t.xid, ?_, final.inv.flagged, final.inv.value2, all.edTag, all.outside, ?_, ?_, ?_, ?_, just⟩
  · unfold xfillingStart at run
    unfold xfilling
    dsimp only
    rw [run]
    simp only [Option.join_some, Option.map_some, foldl_xidCorrect]
    rfl
  · apply LevelStack.ext
    · funext l
      rw [final.inv.levels.eq_nil zero]
      rfl
    · exact zero
  · exact fun σ => extT.flag _ _ (start.observed σ)
  · exact fun σ => extT.flag _ _ (start.site σ)
  · exact fun e he => extT.flag _ _ (start.excitation e he)

/-! ### The cube -/

/-- A flagged value is forced: every assignment that gives the flagged inputs their values gives the
net its value, on the side it is flagged for. -/
private theorem Filled.forced {g : Globals} {poId : Nat} {t : XidState} {y : c.Assignment}
    (wf : c.WellFormed m) (fault : c.IsFault m f) (filled : Filled c f x g poId s t)
    (running : t.exited = false)
    (inputs : ∀ n ∈ c.pi, ∀ σ, t.flag n σ = true → ¬ Forced f n σ → c.piValue y n = c.piValue x n) :
    ∀ n < c.nNet, ∀ σ, t.flag n σ = true → c.sideValue f y σ n = c.sideValue f x σ n := by
  refine wf.induction ?_
  intro n hn ih σ flag
  by_cases forced : Forced f n σ
  · obtain ⟨rfl, rfl⟩ := forced
    exact (wf.faulty_site fault.netLt).trans (wf.faulty_site fault.netLt).symm
  · by_cases isIN : c.type n = .IN
    · have same := inputs n ((wf.piMem n).mpr ⟨hn, isIN⟩) σ flag forced
      have read : ∀ z : c.Assignment, c.sideValue f z σ n = c.piValue z n := by
        intro z
        cases σ with
        | normal => exact wf.good_IN hn isIN
        | fault => exact wf.faulty_IN hn (fun here => forced ⟨here, rfl⟩) isIN
      rw [read, read, same]
    · rw [sideValue_gate wf hn isIN forced]
      apply filled.justified running n σ flag forced isIN
      exact fun i hi flag => ih i hi σ flag

/-- What `InlineXID` says about a cube of a fault, for the assignment it was taken from. -/
structure XidCube (c : Netlist) (g : Globals) (x : c.Assignment) (cube : CStr) : Prop where
  length : cube.length = c.nPi
  chars : ∀ ch ∈ cube, ch = '0' ∨ ch = '1' ∨ ch = 'X'
  agrees : CubeAgrees c cube x
  /-- An input outside the scope is left open. -/
  outside : ∀ k (h : k < c.nPi), g.normalScopeRequiredNet c.pi[k] = false → cube[k]? = some 'X'

private theorem cubeChar_cases (g : Globals) (s : XidState) (n : Nat) :
    (cubeChar g s n = '0' ↔ g.normalScopeRequiredNet n = true ∧ s.known n .normal = some false) ∧
    (cubeChar g s n = '1' ↔ g.normalScopeRequiredNet n = true ∧ s.known n .normal = some true) ∧
    (cubeChar g s n = '0' ∨ cubeChar g s n = '1' ∨ cubeChar g s n = 'X') ∧
    (g.normalScopeRequiredNet n = false → cubeChar g s n = 'X') := by
  unfold cubeChar
  cases g.normalScopeRequiredNet n with
  | false => simp
  | true =>
      cases s.known n .normal with
      | none => simp
      | some b => cases b <;> simp

/-- After the final loop a known good value is the model's, and the good value of a net that is flagged
away from the fanout is known. -/
private theorem Filled.corrected {g : Globals} {poId : Nat} {t : XidState}
    (filled : Filled c f x g poId s t) (n : Nat) :
    (∀ b, ((correctInfo (t.varInfo n)).side .normal).known = some b →
      g.normalScopeRequiredNet n = true ∧ b = c.good x n) ∧
    (t.flag n .normal = true ∨ (t.flag n .fault = true ∧ t.edTag n = .UNTAGGED) →
      ((correctInfo (t.varInfo n)).side .normal).known = some (c.good x n)) := by
  have known : ∀ σ, t.flag n σ = true → t.known n σ = some (c.sideValue f x σ n) := by
    intro σ flag
    rw [t.known_of_flag flag, (filled.flagged n σ flag).2.2]
  have unknown : ∀ σ, t.flag n σ = false → t.known n σ = none := fun σ => t.known_of_not_flag
  have value2 : t.flag n .fault = true →
      g.normalScopeRequiredNet n = true ∧ t.value2 n .normal = c.good x n := by
    intro flag
    obtain ⟨hn, hr, -⟩ := filled.flagged n .fault flag
    exact ⟨hr, filled.value2 n hn hr .normal⟩
  have read : ∀ σ, ((t.varInfo n).side σ).known = t.known n σ := fun _ => rfl
  have tag : (t.varInfo n).edTag = t.edTag n := rfl
  have good2 : ((t.varInfo n).side .normal).value2 = t.value2 n .normal := rfl
  unfold correctInfo
  rw [read, read, tag]
  cases normal : t.flag n .normal with
  | true =>
      have scope := (filled.flagged n .normal normal).2.1
      rw [known .normal normal]
      simp only [Option.isNone_some, Bool.and_false, Bool.false_and, Bool.false_eq_true, if_false,
        read, known .normal normal, sideValue]
      exact ⟨fun b h => ⟨scope, (Option.some.inj h).symm⟩, fun _ => trivial⟩
  | false =>
      cases faulty : t.flag n .fault with
      | false =>
          rw [unknown .fault faulty]
          simp [read, unknown .normal normal]
      | true =>
          obtain ⟨scope, same⟩ := value2 faulty
          rw [unknown .normal normal, known .fault faulty]
          by_cases untagged : t.edTag n = .UNTAGGED
          · simp [untagged, XidSide.known, good2, same, scope]
          · simp [untagged, read, unknown .normal normal]

/-- What the fault simulation of `InlineXID` finds for a detecting assignment, the first observed net that
differs being `poId`. -/
structure Simulation (c : Netlist) (f : FNODE) (x : c.Assignment) (g : Globals) (st st₁ : XidStatics)
    (r : FsimState) (poId : Nat) : Prop where
  ready : XidReady c g st₁
  info : st₁.xid.varInfo = c.scopeInfo g x
  exited : r.xid.exited = st.xid.exited
  sim : Simulated c f x g st₁.xid r
  detectPo : ∃ rest, r.detectPo = poId :: rest
  tpo : g.tpo poId = true
  differs : c.Differs f x poId
  clean : ∀ n σ, r.xid.flag n σ = false
  value2 : ∀ n < c.nNet, g.normalScopeRequiredNet n = true → ∀ σ,
    r.xid.value2 n σ = c.sideValue f x σ n

theorem simulation_spec {g : Globals} (wf : c.WellFormed m) (fault : c.IsFault m f)
    (base : TpgBase c m f g) (built : g.instances ≠ 0) (det : c.Detects m f x) {val : Nat → Bool}
    (agree : Extends c val x) {st : XidStatics} (ready : XidReady c g st) :
    ∃ r poId, c.xidFsim g f.netptr (c.normalScopeModelValues g val st).xid = some (some r) ∧
      Simulation c f x g st (c.normalScopeModelValues g val st) r poId := by
  have closed : ∀ n i, g.normalScopeRequiredNet n = true → i ∈ c.ins n →
      g.normalScopeRequiredNet i = true := fun n i => base.required_ins
  obtain ⟨o, ho, differs, -⟩ := wf.detects_end fault det
  have ho' := wf.observedLt o ho
  have tpo : g.tpo o = true := by
    refine (base.tpo o).mpr ⟨ho, (base.tfo o).mpr ?_⟩
    by_contra out
    exact differs (wf.good_eq_faulty o ho' out)
  obtain ⟨atSite, chain⟩ := wf.dchain o ho' differs
  have scopeSite : g.normalScopeRequiredNet f.netptr = true :=
    base.required_of_detection (OnChain.inCone wf base fault.netLt ⟨atSite, o, tpo, chain⟩)
  obtain ⟨st₁, rfl, ready₁, info, -, exited, -⟩ := normalScopeModelValues_spec wf closed agree built ready
  obtain ⟨r, fsim, sim⟩ := xidFsim_spec wf closed fault.netLt scopeSite atSite info ready₁.idle
  have found := sim.complete o ho' ((base.needed o).mpr (.root (.inl tpo))) tpo differs
  cases po : r.detectPo with
  | nil =>
      rw [po] at found
      exact absurd found List.not_mem_nil
  | cons poId rest =>
      obtain ⟨tpoP, differsP⟩ := sim.sound poId (by rw [po]; exact List.mem_cons_self)
      refine ⟨r, poId, fsim, ready₁, info, sim.frame.exited.trans exited, sim, ⟨rest, po⟩, tpoP, differsP,
        ?_, ?_⟩
      · intro n σ
        rw [sim.frame.flag, XidState.flag, info]
        rfl
      · intro n hn hr σ
        cases σ with
        | normal => exact sim.normal n hn hr
        | fault => exact sim.fault n hn hr

/-- The loop is entered in the state that the fault simulation leads to, and in no other. -/
theorem enters_spec {g : Globals} (wf : c.WellFormed m) (fault : c.IsFault m f)
    (base : TpgBase c m f g) (built : g.instances ≠ 0) (det : c.Detects m f x) {val : Nat → Bool}
    (agree : Extends c val x) {st : XidStatics} (ready : XidReady c g st) :
    ∃ (r : FsimState) (poId : Nat), (∀ start, c.Enters g f val st start ↔
      start = c.xfillingStart f poId r.xid) ∧
      Started c f x g poId r.xid (c.xfillingStart f poId r.xid) ∧ poId < c.nNet ∧
      (∀ n σ, r.xid.flag n σ = false) ∧ r.xid.xidLev = .empty ∧ r.xid.exited = st.xid.exited := by
  obtain ⟨r, poId, fsim, known⟩ := simulation_spec wf fault base built det agree ready
  obtain ⟨rest, po⟩ := known.detectPo
  refine ⟨r, poId, ?_, xfillingStart_spec wf fault base known.tpo known.differs known.clean known.sim.idle
    known.value2, wf.observedLt poId ((base.tpo poId).mp known.tpo).1, known.clean, known.sim.idle,
    known.exited⟩
  intro start
  constructor
  · rintro ⟨r', poId', rest', fsim', po', rfl⟩
    rw [fsim, Option.join_some, Option.some.injEq] at fsim'
    subst fsim'
    rw [po, List.cons.injEq] at po'
    rw [po'.1]
  · rintro rfl
    exact ⟨r, poId, rest, by rw [fsim, Option.join_some], po, rfl⟩

theorem getElem?_cube (g : Globals) (s : XidState) {k : Nat} (h : k < c.nPi) :
    (c.pi.map (cubeChar g s))[k]? = some (cubeChar g s c.pi[k]) := by
  rw [List.getElem?_map, List.getElem?_eq_getElem h, Option.map_some]

section Cube

variable {g : Globals} {poId : Nat} {t : XidState} (wf : c.WellFormed m)
  (filled : Filled c f x g poId s t)

include wf filled

/-- The work areas keep what the next call relies on: outside the scope nothing has changed. -/
private theorem Filled.ready (fault : c.IsFault m f) (base : TpgBase c m f g) {st : XidStatics}
    (ready : XidReady c g st)
    (outside : ∀ n, g.normalScopeRequiredNet n = false → s.varInfo n = resetInfo false) :
    XidReady c g { st with xid := c.correctedAll t } := by
  have unscoped : ∀ n, g.normalScopeRequiredNet n = false →
      (c.correctedAll t).varInfo n = resetInfo false := by
    intro n out
    have start := (filled.outside n out).trans (outside n out)
    simp only [correctedAll, start]
    split <;> rfl
  refine ⟨ready.gates, ready.generation, fun same nonzero => ?_, fun n hn => unscoped n ?_, filled.idle⟩
  · obtain ⟨gates, scopeGates, scopeNets, -⟩ := ready.current same nonzero
    exact ⟨gates, scopeGates, scopeNets, fun n _ out => unscoped n out⟩
  · by_contra inside
    rw [Bool.not_eq_false] at inside
    exact absurd (base.required_lt wf fault inside) (Nat.not_lt.mpr hn)

/-- A known value of an input is that of the assignment, and the input is in the scope. -/
private theorem Filled.input_known {k : Nat} (h : k < c.nPi) {b : Bool}
    (known : (c.correctedAll t).known c.pi[k] .normal = some b) :
    g.normalScopeRequiredNet c.pi[k] = true ∧ x ⟨k, h⟩ = b := by
  obtain ⟨hn, isIN⟩ := (wf.piMem _).mp (List.getElem_mem h)
  rw [known_correctedAll hn] at known
  obtain ⟨scope, same⟩ := (filled.corrected c.pi[k]).1 b known
  rw [wf.good_IN hn isIN, wf.piValue_pi x h] at same
  exact ⟨scope, same.symm⟩

private theorem Filled.xidCube : XidCube c g x (c.pi.map (cubeChar g (c.correctedAll t))) where
  length := List.length_map _
  chars := by
    intro ch hch
    obtain ⟨n, -, rfl⟩ := List.mem_map.mp hch
    exact (cubeChar_cases g (c.correctedAll t) n).2.2.1
  agrees := by
    rintro ⟨k, h⟩
    obtain ⟨zero, one, -⟩ := cubeChar_cases g (c.correctedAll t) c.pi[k]
    simp only [getElem?_cube g _ h, Option.some.injEq]
    exact ⟨fun is0 => (filled.input_known wf h (zero.mp is0).2).2,
      fun is1 => (filled.input_known wf h (one.mp is1).2).2⟩
  outside := fun k h out =>
    (getElem?_cube g _ h).trans (congrArg some ((cubeChar_cases g (c.correctedAll t) c.pi[k]).2.2.2 out))

/-- The value of a flagged input that is not the site is in the cube. -/
private theorem Filled.input_shown (fault : c.IsFault m f)
    (reached : ∀ n, s.edTag n ≠ .UNTAGGED → c.InFanout f n) {k : Nat} (h : k < c.nPi) {σ : Side}
    (flag : t.flag c.pi[k] σ = true) (free : ¬ Forced f c.pi[k] σ) :
    (c.correctedAll t).known c.pi[k] .normal = some (x ⟨k, h⟩) := by
  obtain ⟨hn, isIN⟩ := (wf.piMem _).mp (List.getElem_mem h)
  have chosen : t.flag c.pi[k] .normal = true ∨
      (t.flag c.pi[k] .fault = true ∧ t.edTag c.pi[k] = .UNTAGGED) := by
    cases σ with
    | normal => exact .inl flag
    | fault =>
        refine .inr ⟨flag, ?_⟩
        by_contra tagged
        rw [filled.edTag] at tagged
        exact free ⟨wf.inFanout_IN fault.netLt (reached _ tagged) isIN, rfl⟩
  rw [known_correctedAll hn, (filled.corrected _).2 chosen, wf.good_IN hn isIN, wf.piValue_pi x h]

/-- An assignment that agrees with the cube has the flagged inputs' values. -/
private theorem Filled.cube_inputs (fault : c.IsFault m f)
    (reached : ∀ n, s.edTag n ≠ .UNTAGGED → c.InFanout f n) {y : c.Assignment}
    (agrees : CubeAgrees c (c.pi.map (cubeChar g (c.correctedAll t))) y) :
    ∀ n ∈ c.pi, ∀ σ, t.flag n σ = true → ¬ Forced f n σ → c.piValue y n = c.piValue x n := by
  intro n mem σ flag free
  obtain ⟨k, h, rfl⟩ := List.getElem_of_mem mem
  have shown := filled.input_shown wf fault reached h flag free
  have scope := (filled.input_known wf h shown).1
  obtain ⟨zero, one, -⟩ := cubeChar_cases g (c.correctedAll t) c.pi[k]
  have agreed := agrees ⟨k, h⟩
  simp only [getElem?_cube g _ h, Option.some.injEq] at agreed
  rw [wf.piValue_pi x h, wf.piValue_pi y h]
  cases value : x ⟨k, h⟩ with
  | false => exact agreed.1 (zero.mpr ⟨scope, value ▸ shown⟩)
  | true => exact agreed.2 (one.mpr ⟨scope, value ▸ shown⟩)

/-- The flagged values detect the fault, and the cube has the inputs that they follow from. -/
private theorem Filled.cube_detects (fault : c.IsFault m f) (po : poId ∈ c.observed m)
    (differs : c.Differs f x poId) (det : c.Detects m f x)
    (reached : ∀ n, s.edTag n ≠ .UNTAGGED → c.InFanout f n) (running : t.exited = false) {y : c.Assignment}
    (agrees : CubeAgrees c (c.pi.map (cubeChar g (c.correctedAll t))) y) : c.Detects m f y := by
  have same := filled.forced wf fault running (filled.cube_inputs wf fault reached agrees)
  have hpo := (filled.flagged poId .normal (filled.observed .normal)).1
  refine ⟨⟨poId, po, ?_⟩, fun e he => ?_⟩
  · change c.sideValue f y .normal poId ≠ c.sideValue f y .fault poId
    rw [same poId hpo .normal (filled.observed .normal), same poId hpo .fault (filled.observed .fault)]
    exact differs
  · obtain ⟨first, second⟩ := det.2 e he
    constructor
    · rw [← first]
      exact same e (exc_lt wf fault e he) .normal (filled.excitation e he)
    · rw [← second]
      exact same f.netptr fault.netLt .normal (filled.site .normal)

end Cube

/-- `InlineXID` on a detecting assignment: it returns a cube that the assignment agrees with, it leaves
the statics ready for the next call, and unless a queue overflowed every assignment that agrees with the
cube detects the fault. -/
theorem inlineXID_spec {g : Globals} (wf : c.WellFormed m) (fault : c.IsFault m f)
    (base : TpgBase c m f g) (built : g.instances ≠ 0) (det : c.Detects m f x) {val : Nat → Bool}
    (agree : Extends c val x) {st : XidStatics} (ready : XidReady c g st) :
    ∃ cube st', c.inlineXID g f val st = some (some cube, st') ∧ XidReady c g st' ∧
      XidCube c g x cube ∧
      (st'.xid.exited = false → ∀ y, CubeAgrees c cube y → c.Detects m f y) := by
  obtain ⟨r, poId, fsim, known⟩ := simulation_spec wf fault base built det agree ready
  obtain ⟨ready₁, info, -, sim, ⟨rest, po⟩, tpoP, differsP, clean, value2⟩ := known
  generalize values : c.normalScopeModelValues g val st = st₁ at ready₁ info fsim sim
  obtain ⟨t, run, filled⟩ := xfilling_spec wf fault base tpoP differsP clean sim.idle value2
  have outside : ∀ n, g.normalScopeRequiredNet n = false → r.xid.varInfo n = resetInfo false := by
    intro n out
    rw [sim.frame.outside n out, info, scopeInfo, out, Bool.and_false, Bool.false_and]
  refine ⟨c.pi.map (cubeChar g (c.correctedAll t)), { st₁ with xid := c.correctedAll t }, ?_,
    filled.ready wf fault base ready₁ outside, filled.xidCube wf, fun running y agrees =>
      filled.cube_detects wf fault ((base.tpo poId).mp tpoP).1 differsP det sim.reached running agrees⟩
  unfold inlineXID
  dsimp only
  rw [values, fsim]
  simp only [Option.join_some, Option.bind_some, po, run, Option.map_some]

end Netlist

end SafRprGen
