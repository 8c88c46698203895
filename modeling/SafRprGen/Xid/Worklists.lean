/-
Module: SafRprGen.Xid.Worklists
Layer: Xid
Purpose: The runs of the loop of `Xfilling` and its four worklists. The level cursor only falls and stays
  at or above every level in use, the fault site leaves the X-path once and as the last net, and the loop
  ends with nothing waiting.
Main exports: Served, served_of_pass, XfillRun, PathInv, PathInv.pass, XfillRun.ends, inlineXID_exited
-/
import SafRprGen.Xid.Moves
import SafRprGen.Xid.Xfilling

namespace SafRprGen

namespace Netlist

/-- The net that the next pass takes from the X-path, and what stays on it. -/
def poppedXpath (st : XfillState) : Option (Nat × LevelStack Nat) :=
  if (st.xid.queue .fwd).count ≠ 0 ∨ (st.xid.queue .bwd).count ≠ 0 ∨ st.stopXpath = true ∨
      st.xid.xidLev.total = 0 then none
  else st.xid.xidLev.pop (st.xid.xidLev.checkLevReverse st.eventLev)

/-- The runs of the loop from `start` whose passes begin in states with `ok`, with the nets taken from the
X-path in order. -/
inductive XfillRun (c : Netlist) (g : Globals) (f : FNODE) (ok : XfillState → Prop)
    (start : XfillState) : List Nat → XfillState → Prop where
  | start : XfillRun c g f ok start [] start
  | pass {popped : List Nat} {st st' : XfillState} (run : XfillRun c g f ok start popped st)
      (begin_ : ok st) (next : c.xfillingPass g f (some st) = some (some st')) :
      XfillRun c g f ok start (popped ++ ((poppedXpath st).map Prod.fst).toList) st'

/-- What a pass does, by the worklist it serves. -/
inductive Served (c : Netlist) (g : Globals) (f : FNODE) : XfillState → XfillState → Prop where
  | fwd {s s₁ : XidState} {eventLev t : Nat} {stopXpath : Bool} (more : (s.queue .fwd).count ≠ 0)
      (taken : c.dequeue .fwd s = (t, s₁)) :
      Served c g f ⟨s, eventLev, stopXpath⟩ ⟨c.xidForwardImp g t s₁, eventLev, stopXpath⟩
  | bwd {s s₁ : XidState} {eventLev t : Nat} {stopXpath : Bool} (noFwd : (s.queue .fwd).count = 0)
      (more : (s.queue .bwd).count ≠ 0) (taken : c.dequeue .bwd s = (t, s₁)) :
      Served c g f ⟨s, eventLev, stopXpath⟩
        ⟨if 2 ≤ (c.outs t).length then c.xidForwardImp g t (c.xidBackwardImp f t s₁)
          else c.xidBackwardImp f t s₁, eventLev, stopXpath⟩
  | xpath {s : XidState} {eventLev net : Nat} {xidLev : LevelStack Nat} {st' : XfillState}
      (noFwd : (s.queue .fwd).count = 0) (noBwd : (s.queue .bwd).count = 0)
      (more : s.xidLev.total ≠ 0)
      (taken : s.xidLev.pop (s.xidLev.checkLevReverse eventLev) = some (net, xidLev))
      (run : c.xpathNet f net (s.xidLev.checkLevReverse eventLev) { s with xidLev } = some st') :
      Served c g f ⟨s, eventLev, false⟩ st'
  | jus {s s₁ : XidState} {eventLev t : Nat} {stopXpath : Bool} (noFwd : (s.queue .fwd).count = 0)
      (noBwd : (s.queue .bwd).count = 0) (path : stopXpath = true ∨ s.xidLev.total = 0)
      (more : (s.queue .jus).count ≠ 0) (taken : c.dequeue .jus s = (t, s₁)) :
      Served c g f ⟨s, eventLev, stopXpath⟩ ⟨c.xidBackwardImpLimited f t s₁, eventLev, stopXpath⟩

variable {c : Netlist} {m : FaultModel} {g : Globals} {f : FNODE} {x : c.Assignment}
  {st st' start : XfillState} {popped : List Nat} {ok : XfillState → Prop}

theorem served_of_pass (next : c.xfillingPass g f (some st) = some (some st')) :
    Served c g f st st' := by
  obtain ⟨s, eventLev, stopXpath⟩ := st
  unfold xfillingPass at next
  dsimp only at next
  by_cases fwd : (s.queue .fwd).count ≠ 0
  · rw [if_pos fwd, Option.some.injEq, Option.some.injEq] at next
    exact next ▸ .fwd fwd rfl
  rw [if_neg fwd] at next
  have noFwd := not_not.mp fwd
  by_cases bwd : (s.queue .bwd).count ≠ 0
  · rw [if_pos bwd, Option.some.injEq, Option.some.injEq] at next
    exact next ▸ .bwd noFwd bwd rfl
  rw [if_neg bwd] at next
  have noBwd := not_not.mp bwd
  by_cases path : (!stopXpath && s.xidLev.total != 0) = true
  · rw [if_pos path] at next
    simp only [Bool.and_eq_true, Bool.not_eq_true', bne_iff_ne, ne_eq] at path
    obtain ⟨rfl, more⟩ := path
    cases taken : s.xidLev.pop (s.xidLev.checkLevReverse eventLev) with
    | none =>
        rw [taken] at next
        cases next
    | some item =>
        obtain ⟨net, xidLev⟩ := item
        rw [taken] at next
        exact .xpath noFwd noBwd more taken (Option.some.inj next)
  rw [if_neg path] at next
  by_cases jus : (s.queue .jus).count ≠ 0
  · rw [if_pos jus, Option.some.injEq, Option.some.injEq] at next
    refine next ▸ .jus noFwd noBwd ?_ jus rfl
    simp only [Bool.and_eq_true, Bool.not_eq_true', bne_iff_ne, ne_eq, not_and, not_not] at path
    cases stopXpath with
    | true => exact .inl rfl
    | false => exact .inr (path rfl)
  · rw [if_neg jus] at next
    cases next

/-- A run depends on the globals through the passes only. -/
theorem XfillRun.congr {g' : Globals} (same : c.xfillingPass g' f = c.xfillingPass g f)
    (run : XfillRun c g f ok start popped st) : XfillRun c g' f ok start popped st := by
  induction run with
  | start => exact .start
  | pass run begin_ next ih => exact ih.pass begin_ (same ▸ next)

/-! ### The X-path -/

/-- The fault site has its values, and it is on the X-path until it is taken from there. -/
structure PathInv (c : Netlist) (f : FNODE) (popped : List Nat) (st : XfillState) : Prop where
  both : st.xid.flagBoth f.netptr = true
  once : popped.count f.netptr + (st.xid.xidLev.lev (c.level f.netptr)).count f.netptr = 1

/-- The cursor is at or above every level in use. -/
theorem XfillInv.cursor {required : Nat → Bool} (inv : XfillInv c f x required st) {l : Nat}
    (used : st.xid.xidLev.lev l ≠ []) : l ≤ st.eventLev := by
  obtain ⟨n, h⟩ := List.exists_mem_of_ne_nil _ used
  obtain ⟨rfl, -, -, -, -, low⟩ := inv.inv.stacked l n h
  exact low

/-- Handling a net that was taken from the X-path, other than the fault site. -/
theorem xpathNet_of_ne {net eventLev : Nat} {s : XidState} (other : net ≠ f.netptr) :
    c.xpathNet f net eventLev s =
      some ⟨c.xidFpath net (if 2 ≤ (c.outs net).length then c.enqueue .fwd net s else s), eventLev,
        false⟩ := by
  unfold xpathNet
  dsimp only
  rw [if_neg other]

/-- At the fault site there is nothing to drain when it is the last net. -/
theorem xpathNet_site {eventLev : Nat} {s : XidState} (last : s.xidLev.total = 0) :
    c.xpathNet f f.netptr eventLev s =
      some ⟨c.enqueue .bwd f.netptr
        (if 2 ≤ (c.outs f.netptr).length then c.enqueue .fwd f.netptr s else s), eventLev, true⟩ := by
  have stem : ∀ t : XidState, t.xidLev.total = 0 → ∀ fuel,
      Loop.whileLoop drainPass (fuel + 1) (some (t.xidLev, eventLev)) =
        some (some (t.xidLev, eventLev)) :=
    fun t zero fuel => Loop.whileLoop_exit (by simp [drainPass, zero]) fuel
  have same : (if 2 ≤ (c.outs f.netptr).length then c.enqueue .fwd f.netptr s else s).xidLev =
      s.xidLev := by
    split
    · exact xidLev_enqueue _ _
    · rfl
  unfold xpathNet
  dsimp only
  rw [if_pos rfl, stem _ (by rw [xidLev_enqueue, same, last])]
  rfl

section Pass

variable (wf : c.WellFormed m) (hsite : f.netptr < c.nNet)
  (inv : XfillInv c f x g.normalScopeRequiredNet st)

include wf hsite inv

/-- The nets on the X-path other than the fault site are above it, so the site is taken last. -/
theorem site_last (path : PathInv c f popped st) {xidLev : LevelStack Nat}
    (more : st.xid.xidLev.total ≠ 0)
    (taken : st.xid.xidLev.pop (st.xid.xidLev.checkLevReverse st.eventLev) =
      some (f.netptr, xidLev)) : xidLev.total = 0 := by
  obtain ⟨net, q, level, pop, -, -, -, inv', -⟩ :=
    popXpath_spec (inv.inv.mono_path (fun n => c.level n ≤ st.eventLev) fun _ h => h.2) more
  rw [level, pop, Option.some.injEq, Prod.mk.injEq] at taken
  obtain ⟨rfl, rfl⟩ := taken
  have counted := LevelStack.count_pop pop (c.level f.netptr) f.netptr
  have once := path.once
  rw [if_pos ⟨rfl, rfl⟩] at counted
  by_contra some
  obtain ⟨l, -, used⟩ := inv'.levels.exists_ne_nil some
  obtain ⟨n, h⟩ := List.exists_mem_of_ne_nil _ used
  obtain ⟨rfl, hn, -, differs, low⟩ := inv'.stacked l n h
  rcases level_site_lt wf hsite hn differs with rfl | above
  · have here := List.count_pos_iff.mpr h
    dsimp only at here
    omega
  · omega

/-- A pass keeps the place of the site, and the cursor only falls. -/
theorem PathInv.pass (path : PathInv c f popped st)
    (next : c.xfillingPass g f (some st) = some (some st')) :
    PathInv c f (popped ++ ((poppedXpath st).map Prod.fst).toList) st' ∧ st'.eventLev ≤ st.eventLev := by
  -- serving a queue leaves the X-path to the handler
  have queue : ∀ {s s₁ : XidState} {q : XidQueue} {t : Nat} {s' : XidState}
      {e e' : Nat} {b b' : Bool}, st = ⟨s, e, b⟩ → poppedXpath ⟨s, e, b⟩ = none →
      c.dequeue q s = (t, s₁) → Moves c s₁ s' →
      PathInv c f (popped ++ ((poppedXpath st).map Prod.fst).toList) ⟨s', e', b'⟩ := by
    rintro s s₁ q t s' e e' b b' rfl none taken moves
    obtain rfl : s₁ = (c.dequeue q s).2 := (congrArg Prod.snd taken).symm
    obtain ⟨both, same⟩ := moves.flagged (n := f.netptr) path.both
    rw [none]
    exact ⟨both, by
      rw [Option.map_none, Option.toList_none, List.append_nil, same]
      exact path.once⟩
  cases served_of_pass next with
  | @fwd s s₁ eventLev t stopXpath more taken =>
      exact ⟨queue rfl (by simp [poppedXpath, more]) taken (Moves.refl.xidForwardImp g t), le_refl _⟩
  | @bwd s s₁ eventLev t stopXpath noFwd more taken =>
      have moves := (@Moves.refl c s₁).xidBackwardImp f t
      refine ⟨queue rfl (by simp [poppedXpath, more]) taken (show Moves c s₁ _ from ?_), le_refl _⟩
      split
      · exact moves.xidForwardImp g t
      · exact moves
  | @jus s s₁ eventLev t stopXpath noFwd noBwd shut more taken =>
      refine ⟨queue rfl ?_ taken (Moves.refl.xidBackwardImpLimited f t), le_refl _⟩
      rw [poppedXpath, if_pos (.inr (.inr shut))]
  | @xpath s eventLev net xidLev _ noFwd noBwd more taken run =>
      have popped_ : poppedXpath ⟨s, eventLev, false⟩ = some (net, xidLev) := by
        simp [poppedXpath, noFwd, noBwd, more, taken]
      have low : s.xidLev.checkLevReverse eventLev ≤ eventLev := by
        obtain ⟨k, -, found⟩ := inv.inv.levels.exists_ne_nil more
        exact (s.xidLev.checkLevReverse_spec eventLev k (inv.cursor found) found).1
      have counted := LevelStack.count_pop taken (c.level f.netptr) f.netptr
      have once := path.once
      rw [popped_, Option.map_some, Option.toList_some]
      -- a stem is implied forwards as well
      have stem : Moves c { s with xidLev }
          (if 2 ≤ (c.outs net).length then c.enqueue .fwd net { s with xidLev } else { s with xidLev }) := by
        split
        · exact Moves.refl.enqueue .fwd net
        · exact .refl
      by_cases here : net = f.netptr
      · subst here
        have last := site_last wf hsite inv path more taken
        obtain ⟨net, q, level, pop, -⟩ :=
          popXpath_spec (inv.inv.mono_path (fun n => c.level n ≤ eventLev) fun _ h => h.2) more
        rw [level, pop, Option.some.injEq, Prod.mk.injEq] at taken
        obtain ⟨rfl, rfl⟩ := taken
        rw [xpathNet_site last, Option.some.injEq] at run
        subst run
        obtain ⟨both, same⟩ := (stem.enqueue .bwd f.netptr).flagged (n := f.netptr) path.both
        refine ⟨⟨both, ?_⟩, low⟩
        rw [level, if_pos ⟨rfl, rfl⟩] at counted
        rw [same, List.count_append, List.count_singleton_self]
        dsimp only at once ⊢
        omega
      · rw [xpathNet_of_ne here, Option.some.injEq] at run
        subst run
        obtain ⟨both, same⟩ := (stem.xidFpath net).flagged (n := f.netptr) path.both
        refine ⟨⟨both, ?_⟩, low⟩
        rw [if_neg fun h => here h.2] at counted
        rw [same, List.count_append, List.count_singleton, if_neg (by simpa using here)]
        dsimp only at once ⊢
        omega

end Pass

/-- The first two nets of the X-path: the observed net and the site, which may be the same. -/
theorem pathInv_start (f : FNODE) {poId : Nat} {s : XidState} (clean : ∀ n σ, s.flag n σ = false)
    (idle : s.xidLev = .empty) : PathInv c f [] (c.xfillingStart f poId s) := by
  have pushed : ∀ {t : XidState} {n : Nat}, t.flagBoth n = false →
      (c.edPushXpath n t).flagBoth n = true ∧
        (c.edPushXpath n t).xidLev = t.xidLev.push (c.level n) n := by
    intro t n new
    unfold edPushXpath
    rw [if_neg (by rw [new]; decide)]
    refine ⟨(XidState.flagBoth_iff _ _).mpr fun σ => ?_, rfl⟩
    rw [XidState.flag_fill_self]
    simp
  have unset : ∀ n, s.flagBoth n = false := fun n => by rw [XidState.flagBoth, clean, Bool.false_and]
  obtain ⟨both, observed⟩ := pushed (unset poId)
  rw [idle] at observed
  have site : (c.edPushXpath f.netptr (c.edPushXpath poId s)).flagBoth f.netptr = true ∧
      ((c.edPushXpath f.netptr (c.edPushXpath poId s)).xidLev.lev (c.level f.netptr)).count f.netptr =
        1 := by
    by_cases here : poId = f.netptr
    · subst here
      obtain ⟨kept, same⟩ := ((@Moves.refl c (c.edPushXpath f.netptr s)).edPushXpath
        f.netptr).flagged both
      refine ⟨kept, ?_⟩
      rw [same, observed, LevelStack.count_push, if_pos ⟨rfl, rfl⟩]
      rfl
    · have new : (c.edPushXpath poId s).flagBoth f.netptr = false := by
        unfold edPushXpath
        rw [if_neg (by rw [unset]; decide), XidState.flagBoth,
          XidState.flag_fill_of_ne _ _ _ _ (Ne.symm here)]
        exact (congrArg (· && _) (clean f.netptr .normal)).trans (Bool.false_and _)
      obtain ⟨kept, second⟩ := pushed new
      refine ⟨kept, ?_⟩
      rw [second, observed, LevelStack.count_push, LevelStack.count_push, if_neg fun h => here h.2,
        if_pos ⟨rfl, rfl⟩]
      rfl
  have excited : Moves c
      (resetQueues (c.edPushXpath f.netptr (c.edPushXpath poId s)))
      (c.pushExcitation f (resetQueues (c.edPushXpath f.netptr (c.edPushXpath poId s)))) := by
    unfold pushExcitation
    cases f.excNetptr with
    | none => exact .refl
    | some e => exact Moves.refl.fillPush .bwd e _
  obtain ⟨kept, same⟩ := excited.flagged site.1
  refine ⟨kept, ?_⟩
  rw [List.count_nil, Nat.zero_add]
  exact (same _).trans site.2

/-! ### The runs -/

section Runs

variable (wf : c.WellFormed m) (hsite : f.netptr < c.nNet)
  (closed : ∀ n i, g.normalScopeRequiredNet n = true → i ∈ c.ins n → g.normalScopeRequiredNet i = true)
  (inv : XfillInv c f x g.normalScopeRequiredNet start) (path : PathInv c f [] start)

include wf hsite closed inv path

/-- What holds in every state of a run. -/
theorem XfillRun.spec (run : XfillRun c g f ok start popped st) :
    XfillInv c f x g.normalScopeRequiredNet st ∧ PathInv c f popped st := by
  induction run with
  | start => exact ⟨inv, path⟩
  | @pass popped st st' run begin_ next ih =>
      obtain ⟨inv, path⟩ := ih
      refine ⟨?_, (PathInv.pass wf hsite inv path next).1⟩
      rcases xfillingPass_spec wf hsite closed inv with ⟨st'', next', inv', -⟩ | ⟨exit, -⟩
      · rw [next] at next'
        cases next'
        exact inv'
      · rw [next] at exit
        cases exit

/-- The loop ends, in a state of the run. -/
theorem XfillRun.ends {fuel : Nat} (enough : c.potential start.xid < fuel) :
    ∃ t popped, Loop.whileLoop (c.xfillingPass g f) fuel (some start) = some (some t) ∧
      XfillRun c g f (fun _ => True) start popped t ∧ c.xfillingPass g f (some t) = none := by
  obtain ⟨t, run, ⟨st, popped, rfl, reached⟩, exit⟩ := @Loop.whileLoop_total _ (c.xfillingPass g f)
    (fun state => ∃ st popped, state = some st ∧ XfillRun c g f (fun _ => True) start popped st)
    (fun state => match state with
      | none => 0
      | some st => c.potential st.xid)
    (by
      rintro state state' ⟨st, popped, rfl, reached⟩ next
      have inv₁ := (reached.spec wf hsite closed inv path).1
      rcases xfillingPass_spec wf hsite closed inv₁ with ⟨st', run, -, -, less⟩ | ⟨exit, -⟩
      · rw [run] at next
        cases next
        exact ⟨⟨st', _, rfl, reached.pass trivial run⟩, less⟩
      · rw [exit] at next
        cases next)
    fuel (some start) ⟨start, [], rfl, .start⟩ enough
  exact ⟨st, popped, run, reached, exit⟩

end Runs

/-- `InlineXID` ends the program exactly when a queue overflows in its run. -/
theorem inlineXID_exited (wf : c.WellFormed m) (fault : c.IsFault m f) (base : TpgBase c m f g)
    (built : g.instances ≠ 0) (det : c.Detects m f x) {val : Nat → Bool} (agree : Extends c val x)
    {st : XidStatics} (ready : XidReady c g st) {r : Option CStr × XidStatics}
    (call : c.inlineXID g f val st = some r) :
    ∃ start popped t, c.Enters g f val st start ∧ XfillRun c g f (fun _ => True) start popped t ∧
      c.xfillingPass g f (some t) = none ∧ r.2.xid.exited = t.xid.exited := by
  have closed : ∀ n i, g.normalScopeRequiredNet n = true → i ∈ c.ins n →
      g.normalScopeRequiredNet i = true := fun n i => base.required_ins
  obtain ⟨r', poId, fsim, known⟩ := simulation_spec wf fault base built det agree ready
  obtain ⟨rest, po⟩ := known.detectPo
  have started := xfillingStart_spec wf fault base known.tpo known.differs known.clean known.sim.idle
    known.value2
  have path : PathInv c f [] (c.xfillingStart f poId r'.xid) :=
    pathInv_start f known.clean known.sim.idle
  obtain ⟨t, popped, loop, run, exit⟩ := XfillRun.ends wf fault.netLt closed started.inv path
    (Nat.lt_succ_of_le started.low)
  refine ⟨_, popped, t, ⟨r', poId, rest, by rw [fsim, Option.join_some], po, rfl⟩, run, exit, ?_⟩
  have corrected : ∀ (nets : List Nat) (s : XidState), (nets.foldl xidCorrect s).exited = s.exited := by
    intro nets s
    exact Loop.foldl_inv xidCorrect (fun _ u => u.exited = s.exited) nets rfl fun _ _ _ _ _ h => h
  unfold xfillingStart at loop
  unfold inlineXID xfilling at call
  dsimp only at call
  rw [fsim, Option.join_some, Option.bind_some, po] at call
  dsimp only at call
  rw [loop, Option.join_some, Option.map_some, Option.map_some, Option.some.injEq] at call
  subst call
  exact corrected _ _

end Netlist

end SafRprGen
