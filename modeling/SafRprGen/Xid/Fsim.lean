/-
Module: SafRprGen.Xid.Fsim
Layer: Xid
Purpose: Event-driven fault simulation of one model (`xid_fsim.c`). The site takes the opposite of its
  good value; nets of the scope are evaluated level by level as long as the effect spreads. Afterwards
  every net of the scope has its faulty value and the observed nets that differ are listed.
Main exports: xidFsim, FsimInv, xidFsim_spec
-/
import SafRprGen.Netlist.Detect
import SafRprGen.Xid.ModelValues

namespace SafRprGen

/-- The state of the simulation: the scratch, `detect_po` and `event_lev`. -/
structure FsimState where
  xid : XidState
  detectPo : List Nat
  eventLev : Nat

namespace XidState

/-- `fault_2value` of a net, with its new event state. -/
def setFault (s : XidState) (n : Nat) (value : Bool) (tag : XidEdTag) : XidState :=
  { s with
    varInfo := Function.update s.varInfo n
      { side := fun σ =>
          match σ with
          | .normal => (s.varInfo n).side .normal
          | .fault => { (s.varInfo n).side .fault with value2 := value }
        edTag := tag } }

def setEdTag (s : XidState) (n : Nat) (tag : XidEdTag) : XidState :=
  { s with varInfo := Function.update s.varInfo n { s.varInfo n with edTag := tag } }

/-- `in_val`: the fault value of an evaluated net, else the normal one. -/
def inVal (s : XidState) (n : Nat) : Bool :=
  if s.edTag n = .COMPUTED then s.value2 n .fault else s.value2 n .normal

end XidState

namespace Netlist

variable (c : Netlist)

/-- `ED_push_out`. -/
def edPushOut (g : Globals) (net : Nat) (s : XidState) : XidState :=
  (c.outs net).foldl
    (fun s out =>
      if !g.normalScopeRequiredNet out then s
      else if s.edTag out ≠ .COMPUTED ∧ s.edTag out ≠ .STACKED then
        c.pushLevNet out (s.setEdTag out .STACKED)
      else s)
    s

/-- One pass of the event loop; the inner `none` is a read from an empty level. -/
def fsimPass (g : Globals) (state : Option FsimState) : Option (Option FsimState) :=
  match state with
  | none => none
  | some ⟨s, detectPo, eventLev⟩ =>
      if s.xidLev.total = 0 then none
      else
        let eventLev := s.xidLev.checkLev c.xidMaxLevel eventLev
        match s.xidLev.pop eventLev with
        | none => some none
        | some (net, xidLev) =>
            let s := { s with xidLev }
            let s := s.setEdTag net .COMPUTED
            let value := (c.type net).fn ((c.ins net).map s.inVal)
            let s := s.setFault net value .COMPUTED
            if s.value2 net .fault = s.value2 net .normal then some (some ⟨s, detectPo, eventLev⟩)
            else
              let detectPo := if g.tpo net then detectPo ++ [net] else detectPo
              some (some ⟨c.edPushOut g net s, detectPo, eventLev⟩)

/-- `xid_fsim`; the result is the scratch with `detect_po`. The inner `none` is a null dereference. -/
def xidFsim (g : Globals) (fsigID : Nat) (s : XidState) : Option (Option FsimState) :=
  let s := s.setFault fsigID (!s.value2 fsigID .normal) .COMPUTED
  let detectPo := if g.tpo fsigID then [fsigID] else []
  Loop.whileLoop (c.fsimPass g) (2 * c.nNet + 2)
    (some ⟨c.edPushOut g fsigID s, detectPo, c.level fsigID⟩)

end Netlist

/-! ### Reading a net after a step -/

namespace XidState

variable (s : XidState) (n k : Nat) (value : Bool) (tag : XidEdTag) (σ : Side)

theorem edTag_setFault : (s.setFault n value tag).edTag k = if k = n then tag else s.edTag k := by
  by_cases here : k = n
  · simp [edTag, setFault, here]
  · simp [edTag, setFault, here]

theorem value2_setFault : (s.setFault n value tag).value2 k σ =
    if k = n ∧ σ = .fault then value else s.value2 k σ := by
  by_cases here : k = n
  · subst here
    cases σ <;> simp [value2, setFault]
  · simp [value2, setFault, here]

theorem edTag_setEdTag : (s.setEdTag n tag).edTag k = if k = n then tag else s.edTag k := by
  by_cases here : k = n
  · simp [edTag, setEdTag, here]
  · simp [edTag, setEdTag, here]

theorem value2_setEdTag : (s.setEdTag n tag).value2 k σ = s.value2 k σ := by
  by_cases here : k = n
  · subst here
    simp [value2, setEdTag]
  · simp [value2, setEdTag, here]

end XidState

/-- What event processing leaves of the scratch: only two-valued fault values, event states and the
level stacks change, and nothing outside the scope. -/
structure FsimFrame (g : Globals) (s s' : XidState) : Prop where
  queue : s'.queue = s.queue
  exited : s'.exited = s.exited
  flag : ∀ n σ, s'.flag n σ = s.flag n σ
  value3 : ∀ n σ, s'.value3 n σ = s.value3 n σ
  outside : ∀ n, g.normalScopeRequiredNet n = false → s'.varInfo n = s.varInfo n

theorem FsimFrame.refl (g : Globals) (s : XidState) : FsimFrame g s s :=
  ⟨rfl, rfl, fun _ _ => rfl, fun _ _ => rfl, fun _ _ => rfl⟩

theorem FsimFrame.trans {g : Globals} {s s' s'' : XidState} (first : FsimFrame g s s')
    (second : FsimFrame g s' s'') : FsimFrame g s s'' where
  queue := second.queue.trans first.queue
  exited := second.exited.trans first.exited
  flag := fun n σ => (second.flag n σ).trans (first.flag n σ)
  value3 := fun n σ => (second.value3 n σ).trans (first.value3 n σ)
  outside := fun n h => (second.outside n h).trans (first.outside n h)

theorem FsimFrame.setFault {g : Globals} (s : XidState) {n : Nat}
    (scope : g.normalScopeRequiredNet n = true) (value : Bool) (tag : XidEdTag) :
    FsimFrame g s (s.setFault n value tag) := by
  refine ⟨rfl, rfl, ?_, ?_, ?_⟩
  · intro k σ
    by_cases here : k = n
    · subst here
      cases σ <;> simp [XidState.flag, XidState.setFault]
    · simp [XidState.flag, XidState.setFault, here]
  · intro k σ
    by_cases here : k = n
    · subst here
      cases σ <;> simp [XidState.value3, XidState.setFault]
    · simp [XidState.value3, XidState.setFault, here]
  · intro k out
    apply Function.update_of_ne
    rintro rfl
    rw [scope] at out
    cases out

theorem FsimFrame.setEdTag {g : Globals} (s : XidState) {n : Nat}
    (scope : g.normalScopeRequiredNet n = true) (tag : XidEdTag) :
    FsimFrame g s (s.setEdTag n tag) := by
  refine ⟨rfl, rfl, ?_, ?_, ?_⟩
  · intro k σ
    by_cases here : k = n
    · subst here
      simp [XidState.flag, XidState.setEdTag]
    · simp [XidState.flag, XidState.setEdTag, here]
  · intro k σ
    by_cases here : k = n
    · subst here
      simp [XidState.value3, XidState.setEdTag]
    · simp [XidState.value3, XidState.setEdTag, here]
  · intro k out
    apply Function.update_of_ne
    rintro rfl
    rw [scope] at out
    cases out

namespace Netlist

variable {c : Netlist} {m : FaultModel} {f : FNODE} {x : c.Assignment} {g : Globals}

/-- The invariant of event processing. `low` is the cursor: everything still stacked is at or above it.
Evaluated nets have their faulty value, and the nets that a differing one drives have been reached,
unless it is the one just being expanded. -/
structure FsimInv (c : Netlist) (f : FNODE) (x : c.Assignment) (g : Globals) (low : Nat)
    (busy : Nat → Prop) (detectPo : List Nat) (s : XidState) : Prop where
  levels : s.xidLev.Valid c.xidMaxLevel
  stacked : ∀ l, ∀ n ∈ s.xidLev.lev l, l = c.level n ∧ low ≤ l ∧ n ≠ f.netptr ∧ c.type n ≠ .IN ∧
    s.edTag n = .STACKED
  once : ∀ l, (s.xidLev.lev l).Nodup
  onStack : ∀ n, s.edTag n = .STACKED → n ∈ s.xidLev.lev (c.level n)
  reached : ∀ n, s.edTag n ≠ .UNTAGGED →
    n < c.nNet ∧ g.normalScopeRequiredNet n = true ∧ c.InFanout f n
  normal : ∀ n < c.nNet, g.normalScopeRequiredNet n = true → s.value2 n .normal = c.good x n
  computed : ∀ n, s.edTag n = .COMPUTED → s.value2 n .fault = c.faulty f x n
  untouched : ∀ n < c.nNet, g.normalScopeRequiredNet n = true → s.edTag n ≠ .COMPUTED →
    s.value2 n .fault = c.good x n
  site : s.edTag f.netptr = .COMPUTED
  spread : ∀ a, s.edTag a = .COMPUTED → ¬ busy a → c.Differs f x a → ∀ b ∈ c.outs a,
    g.normalScopeRequiredNet b = true → s.edTag b ≠ .UNTAGGED
  sound : ∀ o ∈ detectPo, g.tpo o = true ∧ s.edTag o = .COMPUTED ∧ c.Differs f x o
  complete : ∀ o, g.tpo o = true → s.edTag o = .COMPUTED → ¬ busy o → c.Differs f x o → o ∈ detectPo
  nodup : detectPo.Nodup

/-- The nets not reached yet. -/
def untagged (c : Netlist) (s : XidState) : Nat :=
  ((Finset.range c.nNet).filter fun n => s.edTag n = .UNTAGGED).card

/-- Every pass lowers this: a net is stacked once and popped once. -/
def fsimVariant (c : Netlist) (s : XidState) : Nat := 2 * c.untagged s + s.xidLev.total

/-- A net that is popped was reached before. -/
theorem fsimVariant_computed {s : XidState} {xidLev : LevelStack Nat} (total : xidLev.total + 1 = s.xidLev.total)
    (net : Nat) (value : Bool) :
    c.fsimVariant (({ s with xidLev } : XidState).setEdTag net .COMPUTED |>.setFault net value .COMPUTED) <
      c.fsimVariant s := by
  have same : c.untagged (({ s with xidLev } : XidState).setEdTag net .COMPUTED |>.setFault net value
      .COMPUTED) ≤ c.untagged s := by
    apply Finset.card_le_card
    intro n hn
    obtain ⟨range, tag⟩ := Finset.mem_filter.mp hn
    refine Finset.mem_filter.mpr ⟨range, ?_⟩
    rw [XidState.edTag_setFault, XidState.edTag_setEdTag] at tag
    split at tag
    · cases tag
    · exact tag
  have left : (({ s with xidLev } : XidState).setEdTag net .COMPUTED |>.setFault net value
      .COMPUTED).xidLev.total + 1 = s.xidLev.total := total
  unfold fsimVariant
  omega

theorem fsimVariant_idle {s : XidState} (idle : s.xidLev.total = 0) : c.fsimVariant s ≤ 2 * c.nNet := by
  have all : c.untagged s ≤ c.nNet := (Finset.card_filter_le _ _).trans (by simp)
  unfold fsimVariant
  omega

/-- Reaching a net for the first time. -/
theorem untagged_lt {s s' : XidState} {n : Nat} (hn : n < c.nNet) (new : s.edTag n = .UNTAGGED)
    (now : s'.edTag n ≠ .UNTAGGED) (others : ∀ k, k ≠ n → s'.edTag k = s.edTag k) :
    c.untagged s' < c.untagged s := by
  apply Finset.card_lt_card
  refine Finset.ssubset_iff_of_subset ?_ |>.mpr ⟨n, ?_, ?_⟩
  · intro k hk
    obtain ⟨low, tag⟩ := Finset.mem_filter.mp hk
    have ne : k ≠ n := by
      rintro rfl
      exact now tag
    exact Finset.mem_filter.mpr ⟨low, (others k ne).symm.trans tag⟩
  · exact Finset.mem_filter.mpr ⟨Finset.mem_range.mpr hn, new⟩
  · exact fun h => now (Finset.mem_filter.mp h).2

/-- The expanded net is done. -/
theorem FsimInv.expanded {low : Nat} {detectPo : List Nat} {s : XidState} {net : Nat}
    (inv : FsimInv c f x g low (· = net) detectPo s)
    (spread : c.Differs f x net → ∀ b ∈ c.outs net, g.normalScopeRequiredNet b = true →
      s.edTag b ≠ .UNTAGGED)
    (complete : g.tpo net = true → c.Differs f x net → net ∈ detectPo) :
    FsimInv c f x g low (fun _ => False) detectPo s :=
  { inv with
    spread := by
      intro a computed _ differs
      by_cases here : a = net
      · exact here ▸ spread (here ▸ differs)
      · exact inv.spread a computed here differs
    complete := by
      intro o tpo computed _ differs
      by_cases here : o = net
      · exact here ▸ complete (here ▸ tpo) (here ▸ differs)
      · exact inv.complete o tpo computed here differs }

section Events

variable (wf : c.WellFormed m)

include wf

/-- A net of the fanout is stacked. -/
private theorem FsimInv.push {low : Nat} {detectPo : List Nat} {s : XidState} {net b : Nat}
    (inv : FsimInv c f x g low (· = net) detectPo s) (hnet : net < c.nNet)
    (computed : s.edTag net = .COMPUTED) (edge : b ∈ c.outs net) (above : low ≤ c.level net)
    (scope : g.normalScopeRequiredNet b = true) (new : s.edTag b = .UNTAGGED) :
    FsimInv c f x g low (· = net) detectPo (c.pushLevNet b (s.setEdTag b .STACKED)) := by
  have hb := wf.outsLt net hnet b edge
  have input := (wf.mem_outs_iff hnet hb).mp edge
  have up := wf.level_lt hb input
  have tag : ∀ n, (c.pushLevNet b (s.setEdTag b .STACKED)).edTag n =
      if n = b then .STACKED else s.edTag n := fun n => s.edTag_setEdTag b n .STACKED
  have value2 : ∀ n σ, (c.pushLevNet b (s.setEdTag b .STACKED)).value2 n σ = s.value2 n σ :=
    fun n σ => s.value2_setEdTag b n .STACKED σ
  have old : ∀ n, (c.pushLevNet b (s.setEdTag b .STACKED)).edTag n = .COMPUTED ↔
      s.edTag n = .COMPUTED := by
    intro n
    rw [tag n]
    by_cases here : n = b
    · simp [here, new]
    · simp [here]
  have grow : ∀ n, s.edTag n ≠ .UNTAGGED →
      (c.pushLevNet b (s.setEdTag b .STACKED)).edTag n ≠ .UNTAGGED := by
    intro n h
    rw [tag n]
    split
    · simp
    · exact h
  have fresh : ∀ l, b ∉ s.xidLev.lev l := by
    intro l hb
    cases new.symm.trans (inv.stacked l b hb).2.2.2.2
  refine ⟨inv.levels.push (c.level_le_xidMaxLevel hb) b, ?_, ?_, ?_, ?_, ?_, ?_, ?_, (old _).mpr inv.site,
    ?_, ?_, ?_, inv.nodup⟩
  · intro l n hn
    rcases LevelStack.mem_push.mp hn with earlier | ⟨rfl, rfl⟩
    · obtain ⟨h1, h2, h3, h4, h5⟩ := inv.stacked l n earlier
      refine ⟨h1, h2, h3, h4, ?_⟩
      rw [tag n]
      split
      · rfl
      · exact h5
    · refine ⟨rfl, above.trans up.le, ?_, ?_, ?_⟩
      · rintro rfl
        rw [inv.site] at new
        cases new
      · intro isIN
        rw [wf.ins_of_IN hb isIN] at input
        exact absurd input List.not_mem_nil
      · rw [tag n, if_pos rfl]
  · intro l
    change ((s.xidLev.push (c.level b) b).lev l).Nodup
    by_cases here : l = c.level b
    · subst here
      simpa [LevelStack.push] using ⟨fresh _, inv.once _⟩
    · simpa [LevelStack.push, here] using inv.once l
  · intro n hn
    rw [tag n] at hn
    by_cases here : n = b
    · exact LevelStack.mem_push.mpr (.inr ⟨by rw [here], here⟩)
    · rw [if_neg here] at hn
      exact LevelStack.mem_push.mpr (.inl (inv.onStack n hn))
  · intro n hn
    by_cases here : n = b
    · rw [here]
      exact ⟨hb, scope, (inv.reached net (by rw [computed]; simp)).2.2.edge edge⟩
    · rw [tag n, if_neg here] at hn
      exact inv.reached n hn
  · simpa only [value2] using inv.normal
  · intro n hn
    rw [value2]
    exact inv.computed n ((old n).mp hn)
  · intro n hn hr hc
    rw [value2]
    exact inv.untouched n hn hr fun h => hc ((old n).mpr h)
  · intro a ha idle differs k hk hr
    exact grow k (inv.spread a ((old a).mp ha) idle differs k hk hr)
  · intro o ho
    obtain ⟨tpo, done, differs⟩ := inv.sound o ho
    exact ⟨tpo, (old o).mpr done, differs⟩
  · exact fun o tpo done idle differs => inv.complete o tpo ((old o).mp done) idle differs

/-- `ED_push_out` reaches the whole fanout of a net within the scope. -/
theorem edPushOut_spec {low : Nat} {detectPo : List Nat} {s : XidState} {net : Nat}
    (inv : FsimInv c f x g low (· = net) detectPo s) (hnet : net < c.nNet)
    (computed : s.edTag net = .COMPUTED) (above : low ≤ c.level net)
    (listed : g.tpo net = true → c.Differs f x net → net ∈ detectPo) :
    FsimInv c f x g low (fun _ => False) detectPo (c.edPushOut g net s) ∧
      FsimFrame g s (c.edPushOut g net s) ∧
      c.fsimVariant (c.edPushOut g net s) ≤ c.fsimVariant s := by
  have loop := Loop.foldl_inv
    (fun s out =>
      if !g.normalScopeRequiredNet out then s
      else if s.edTag out ≠ .COMPUTED ∧ s.edTag out ≠ .STACKED then
        c.pushLevNet out (s.setEdTag out .STACKED)
      else s)
    (fun seen s' => FsimInv c f x g low (· = net) detectPo s' ∧ FsimFrame g s s' ∧
      c.fsimVariant s' ≤ c.fsimVariant s ∧ s'.edTag net = .COMPUTED ∧
      ∀ b ∈ seen, g.normalScopeRequiredNet b = true → s'.edTag b ≠ .UNTAGGED)
    (c.outs net) (s := s) ⟨inv, FsimFrame.refl g s, le_refl _, computed, by simp⟩ (by
      rintro seen out rest s' split ⟨inv', frame, cost, done, reached⟩
      have edge : out ∈ c.outs net := by
        rw [split]
        exact List.mem_append_right _ List.mem_cons_self
      have hout := wf.outsLt net hnet out edge
      by_cases scope : g.normalScopeRequiredNet out = true
      · simp only [scope, Bool.not_true, Bool.false_eq_true, if_false]
        by_cases fresh : s'.edTag out ≠ .COMPUTED ∧ s'.edTag out ≠ .STACKED
        · rw [if_pos fresh]
          have new : s'.edTag out = .UNTAGGED := by
            cases h : s'.edTag out with
            | UNTAGGED => rfl
            | STACKED => exact absurd h fresh.2
            | COMPUTED => exact absurd h fresh.1
          have tag : ∀ n, (c.pushLevNet out (s'.setEdTag out .STACKED)).edTag n =
              if n = out then .STACKED else s'.edTag n := fun n => s'.edTag_setEdTag out n .STACKED
          have fewer : c.untagged (c.pushLevNet out (s'.setEdTag out .STACKED)) < c.untagged s' := by
            apply untagged_lt hout new
            · rw [tag, if_pos rfl]
              simp
            · exact fun k ne => by rw [tag, if_neg ne]
          have total : (c.pushLevNet out (s'.setEdTag out .STACKED)).xidLev.total =
              s'.xidLev.total + 1 := rfl
          have stacked : FsimFrame g s' (c.pushLevNet out (s'.setEdTag out .STACKED)) := by
            have h := FsimFrame.setEdTag s' scope .STACKED
            exact ⟨h.queue, h.exited, h.flag, h.value3, h.outside⟩
          refine ⟨inv'.push wf hnet done edge above scope new, frame.trans stacked, ?_, ?_, ?_⟩
          · unfold fsimVariant at cost ⊢
            omega
          · rw [tag, if_neg fun same : net = out => fresh.1 (same ▸ done)]
            exact done
          · intro b hb hr
            rw [tag b]
            split
            · simp
            · rename_i ne
              rcases List.mem_append.mp hb with hb | hb
              · exact reached b hb hr
              · exact absurd (List.mem_singleton.mp hb) ne
        · rw [if_neg fresh]
          refine ⟨inv', frame, cost, done, ?_⟩
          intro b hb hr
          rcases List.mem_append.mp hb with hb | hb
          · exact reached b hb hr
          · rw [List.mem_singleton.mp hb]
            intro untagged
            exact fresh ⟨by simp [untagged], by simp [untagged]⟩
      · simp only [Bool.not_eq_true] at scope
        simp only [scope, Bool.not_false, if_true]
        refine ⟨inv', frame, cost, done, ?_⟩
        intro b hb hr
        rcases List.mem_append.mp hb with hb | hb
        · exact reached b hb hr
        · rw [List.mem_singleton.mp hb, scope] at hr
          cases hr)
  obtain ⟨kept, frame, cost, -, reached⟩ := loop
  exact ⟨kept.expanded (fun _ => reached) listed, frame, cost⟩

/-- Below the cursor nothing is stacked, so every net there reads as its faulty value. -/
theorem FsimInv.inVal_eq {low : Nat} {detectPo : List Nat} {s : XidState}
    (inv : FsimInv c f x g low (fun _ => False) detectPo s)
    (closed : ∀ n i, g.normalScopeRequiredNet n = true → i ∈ c.ins n →
      g.normalScopeRequiredNet i = true) {top : Nat}
    (below : ∀ n, c.level n < top → s.edTag n ≠ .STACKED) :
    ∀ n < c.nNet, g.normalScopeRequiredNet n = true → c.level n < top →
      s.inVal n = c.faulty f x n := by
  refine wf.induction ?_
  intro n hn ih scope lower
  unfold XidState.inVal
  split
  · rename_i computed
    exact inv.computed n computed
  · rename_i notComputed
    rw [inv.normal n hn scope]
    have untagged : s.edTag n = .UNTAGGED := by
      cases h : s.edTag n with
      | UNTAGGED => rfl
      | STACKED => exact absurd h (below n lower)
      | COMPUTED => exact absurd h notComputed
    have other : n ≠ f.netptr := by
      rintro rfl
      exact notComputed inv.site
    by_cases isIN : c.type n = .IN
    · rw [wf.good_IN hn isIN, wf.faulty_IN hn other isIN]
    · rw [wf.good_gate hn isIN, wf.faulty_gate hn other isIN]
      congr 1
      apply List.map_congr_left
      intro i hi
      have hlt := wf.insLt n hn i hi
      have scopeI := closed n i scope hi
      have value := ih i hi scopeI ((wf.level_lt hn hi).trans lower)
      -- an input that differs would have reached this net
      by_contra differs
      by_cases computed : s.edTag i = .COMPUTED
      · exact inv.spread i computed id differs n ((wf.mem_outs_iff hlt hn).mpr hi) scope untagged
      · rw [XidState.inVal, if_neg computed, inv.normal i hlt scopeI] at value
        exact differs value

omit wf in
/-- Evaluating the popped net. -/
private theorem FsimInv.evaluate {low : Nat} {detectPo : List Nat} {s : XidState} {net : Nat}
    {xidLev : LevelStack Nat} (inv : FsimInv c f x g low (fun _ => False) detectPo s)
    (top : net ∈ s.xidLev.lev (c.level net))
    (levels : xidLev.Valid c.xidMaxLevel)
    (fewer : ∀ k y, y ∈ xidLev.lev k → y ∈ s.xidLev.lev k)
    (rest : ∀ k y, y ∈ s.xidLev.lev k → y ∈ xidLev.lev k ∨ (k = c.level net ∧ y = net))
    (lowest : ∀ k, k < c.level net → s.xidLev.lev k = []) (once : ∀ k, (xidLev.lev k).Nodup)
    (gone : net ∉ xidLev.lev (c.level net)) :
    FsimInv c f x g (c.level net) (· = net) detectPo
      (({ s with xidLev } : XidState).setEdTag net .COMPUTED |>.setFault net (c.faulty f x net)
        .COMPUTED) := by
  obtain ⟨-, -, other, -, tagNet⟩ := inv.stacked _ net top
  have reachedNet : s.edTag net ≠ .UNTAGGED := by
    rw [tagNet]
    simp
  have tag : ∀ n, (({ s with xidLev } : XidState).setEdTag net .COMPUTED |>.setFault net
      (c.faulty f x net) .COMPUTED).edTag n = if n = net then .COMPUTED else s.edTag n := by
    intro n
    rw [XidState.edTag_setFault, XidState.edTag_setEdTag]
    split
    · rfl
    · rfl
  have value2 : ∀ n σ, (({ s with xidLev } : XidState).setEdTag net .COMPUTED |>.setFault net
      (c.faulty f x net) .COMPUTED).value2 n σ =
        if n = net ∧ σ = .fault then c.faulty f x net else s.value2 n σ := by
    intro n σ
    rw [XidState.value2_setFault, XidState.value2_setEdTag]
    rfl
  refine ⟨levels, ?_, once, ?_, ?_, ?_, ?_, ?_, ?_, ?_, ?_, ?_, inv.nodup⟩
  · intro l n left
    have hn := fewer l n left
    obtain ⟨h1, -, h3, h4, h5⟩ := inv.stacked l n hn
    refine ⟨h1, ?_, h3, h4, ?_⟩
    · by_contra under
      rw [lowest l (Nat.lt_of_not_le under)] at hn
      exact absurd hn List.not_mem_nil
    · have ne : n ≠ net := by
        rintro rfl
        exact gone (h1 ▸ left)
      rw [tag n, if_neg ne]
      exact h5
  · intro n hn
    rw [tag n] at hn
    split at hn
    · cases hn
    · rename_i ne
      exact (rest _ n (inv.onStack n hn)).resolve_right fun h => ne h.2
  · intro n hn
    rw [tag n] at hn
    split at hn
    · rename_i here
      rw [here]
      exact inv.reached net reachedNet
    · exact inv.reached n hn
  · intro n hn hr
    rw [value2 n, if_neg (by simp)]
    exact inv.normal n hn hr
  · intro n hn
    rw [tag n] at hn
    rw [value2 n]
    by_cases here : n = net
    · rw [if_pos ⟨here, rfl⟩, here]
    · rw [if_neg here] at hn
      rw [if_neg fun h => here h.1]
      exact inv.computed n hn
  · intro n hn hr hc
    rw [tag n] at hc
    have ne : n ≠ net := by
      rintro rfl
      exact hc (if_pos rfl)
    rw [if_neg ne] at hc
    rw [value2 n, if_neg fun h => ne h.1]
    exact inv.untouched n hn hr hc
  · rw [tag, if_neg (Ne.symm other)]
    exact inv.site
  · intro a ha idle differs b hb hr
    rw [tag a, if_neg idle] at ha
    rw [tag b]
    split
    · simp
    · exact inv.spread a ha id differs b hb hr
  · intro o ho
    obtain ⟨tpo, done, differs⟩ := inv.sound o ho
    refine ⟨tpo, ?_, differs⟩
    rw [tag o]
    split
    · rfl
    · exact done
  · intro o tpo done idle differs
    rw [tag o, if_neg idle] at done
    exact inv.complete o tpo done id differs

omit wf in
/-- A net that differs and is observed is listed. -/
private theorem FsimInv.listed {low : Nat} {detectPo : List Nat} {s : XidState} {net : Nat}
    (evaluated : FsimInv c f x g low (· = net) detectPo s) (done : s.edTag net = .COMPUTED)
    (differs : c.Differs f x net) (unlisted : net ∉ detectPo) :
    FsimInv c f x g low (· = net) (if g.tpo net then detectPo ++ [net] else detectPo) s := by
  split
  · rename_i tpo
    refine { evaluated with sound := ?_, complete := ?_, nodup := ?_ }
    · intro o ho
      rcases List.mem_append.mp ho with ho | ho
      · exact evaluated.sound o ho
      · rw [List.mem_singleton.mp ho]
        exact ⟨tpo, done, differs⟩
    · intro o h1 h2 h3 h4
      exact List.mem_append_left _ (evaluated.complete o h1 h2 h3 h4)
    · refine List.nodup_append.mpr ⟨evaluated.nodup, List.nodup_singleton net, ?_⟩
      intro a ha b hb
      rw [List.mem_singleton.mp hb]
      rintro rfl
      exact unlisted ha
  · exact evaluated

/-- One pass of the event loop. -/
private theorem fsimPass_spec
    (closed : ∀ n i, g.normalScopeRequiredNet n = true → i ∈ c.ins n →
      g.normalScopeRequiredNet i = true) {st : FsimState}
    (inv : FsimInv c f x g st.eventLev (fun _ => False) st.detectPo st.xid)
    (more : st.xid.xidLev.total ≠ 0) :
    ∃ st', c.fsimPass g (some st) = some (some st') ∧
      FsimInv c f x g st'.eventLev (fun _ => False) st'.detectPo st'.xid ∧
      FsimFrame g st.xid st'.xid ∧ c.fsimVariant st'.xid < c.fsimVariant st.xid := by
  obtain ⟨s, detectPo, eventLev⟩ := st
  simp only at inv more ⊢
  obtain ⟨l, hl, found⟩ := inv.levels.exists_ne_nil more
  have low : eventLev ≤ l := by
    obtain ⟨n, hn⟩ := List.exists_mem_of_ne_nil _ found
    exact (inv.stacked l n hn).2.1
  obtain ⟨le, nonempty, lowest⟩ := LevelStack.checkLev_spec low hl found
  have check : ∃ l', s.xidLev.checkLev c.xidMaxLevel eventLev = l' := ⟨_, rfl⟩
  obtain ⟨l', hl'⟩ := check
  rw [hl'] at le nonempty lowest
  obtain ⟨net, xidLev, pop, top, levels, total, fewer, rest⟩ := inv.levels.pop nonempty
  obtain ⟨rfl, -, other, gate, tagNet⟩ := inv.stacked l' net top
  have reachedNet : s.edTag net ≠ .UNTAGGED := by
    rw [tagNet]
    simp
  obtain ⟨once, gone⟩ := LevelStack.pop_nodup pop inv.once
  obtain ⟨hnet, scope, fanout⟩ := inv.reached net reachedNet
  have lowest' : ∀ k, k < c.level net → s.xidLev.lev k = [] := by
    intro k hk
    by_cases cursor : eventLev ≤ k
    · exact lowest k cursor hk
    · by_contra used
      obtain ⟨n, hn⟩ := List.exists_mem_of_ne_nil _ used
      exact cursor (inv.stacked k n hn).2.1
  -- all inputs are below the net, so they have their faulty values
  have below : ∀ n, c.level n < c.level net → s.edTag n ≠ .STACKED := by
    intro n hn stacked
    have := inv.onStack n stacked
    rw [lowest' _ hn] at this
    exact absurd this List.not_mem_nil
  have inputs : (c.ins net).map (({ s with xidLev } : XidState).setEdTag net .COMPUTED).inVal =
      (c.ins net).map (c.faulty f x) := by
    apply List.map_congr_left
    intro i hi
    have lower := wf.level_lt hnet hi
    have ne : i ≠ net := by
      rintro rfl
      exact absurd lower (lt_irrefl _)
    rw [← inv.inVal_eq wf closed below i (wf.insLt net hnet i hi) (closed net i scope hi) lower]
    simp only [XidState.inVal, XidState.edTag_setEdTag, if_neg ne, XidState.value2_setEdTag]
    rfl
  have evaluated := inv.evaluate top levels fewer rest lowest' once gone
  have value : (c.type net).fn ((c.ins net).map
      (({ s with xidLev } : XidState).setEdTag net .COMPUTED).inVal) = c.faulty f x net := by
    rw [inputs, wf.faulty_gate hnet other gate]
  have frame : FsimFrame g s (({ s with xidLev } : XidState).setEdTag net .COMPUTED |>.setFault net
      (c.faulty f x net) .COMPUTED) := by
    have h := (FsimFrame.setEdTag ({ s with xidLev } : XidState) scope .COMPUTED).trans
      (FsimFrame.setFault _ scope (c.faulty f x net) .COMPUTED)
    exact ⟨h.queue, h.exited, h.flag, h.value3, h.outside⟩
  have cost := fsimVariant_computed (c := c) total net (c.faulty f x net)
  generalize hs₁ : (({ s with xidLev } : XidState).setEdTag net .COMPUTED |>.setFault net
    (c.faulty f x net) .COMPUTED) = s₁ at evaluated frame cost
  have done : s₁.edTag net = .COMPUTED := by
    rw [← hs₁, XidState.edTag_setFault, if_pos rfl]
  have compare : s₁.value2 net .fault = s₁.value2 net .normal ↔ ¬ c.Differs f x net := by
    rw [evaluated.computed net done, evaluated.normal net hnet scope, Differs, not_not]
    exact eq_comm
  have run : c.fsimPass g (some ⟨s, detectPo, eventLev⟩) =
      if s₁.value2 net .fault = s₁.value2 net .normal then
        some (some ⟨s₁, detectPo, c.level net⟩)
      else some (some ⟨c.edPushOut g net s₁, if g.tpo net then detectPo ++ [net] else detectPo,
        c.level net⟩) := by
    simp only [fsimPass, if_neg more, hl', pop, value, hs₁]
  rw [run]
  by_cases differs : c.Differs f x net
  · rw [if_neg fun h => (compare.mp h) differs]
    have unlisted : net ∉ detectPo := by
      intro listed
      cases tagNet.symm.trans (inv.sound net listed).2.1
    have listed := evaluated.listed done differs unlisted
    obtain ⟨kept, pushed, less⟩ := edPushOut_spec wf listed hnet done (le_refl _) (by
      intro tpo _
      rw [if_pos tpo]
      exact List.mem_append_right _ (List.mem_singleton.mpr rfl))
    exact ⟨_, rfl, kept, frame.trans pushed, less.trans_lt cost⟩
  · rw [if_pos (compare.mpr differs)]
    exact ⟨_, rfl, evaluated.expanded (fun h => absurd h differs) (fun _ h => absurd h differs), frame,
      cost⟩

/-- What the fault simulation of a detecting assignment leaves. -/
structure Simulated (c : Netlist) (f : FNODE) (x : c.Assignment) (g : Globals) (s : XidState)
    (st : FsimState) : Prop where
  frame : FsimFrame g s st.xid
  idle : st.xid.xidLev = .empty
  normal : ∀ n < c.nNet, g.normalScopeRequiredNet n = true → st.xid.value2 n .normal = c.good x n
  fault : ∀ n < c.nNet, g.normalScopeRequiredNet n = true → st.xid.value2 n .fault = c.faulty f x n
  reached : ∀ n, st.xid.edTag n ≠ .UNTAGGED → c.InFanout f n
  sound : ∀ o ∈ st.detectPo, g.tpo o = true ∧ c.Differs f x o
  complete : ∀ o < c.nNet, g.normalScopeRequiredNet o = true → g.tpo o = true → c.Differs f x o →
    o ∈ st.detectPo
  nodup : st.detectPo.Nodup
  inVal : ∀ n < c.nNet, g.normalScopeRequiredNet n = true → st.xid.inVal n = c.faulty f x n

omit wf in
/-- Before its fanout is stacked, the site alone is evaluated. -/
private theorem FsimInv.start (site : f.netptr < c.nNet) (scope : g.normalScopeRequiredNet f.netptr = true)
    (active : c.Differs f x f.netptr) {s : XidState} (info : s.varInfo = c.scopeInfo g x)
    (idle : s.xidLev = .empty) :
    FsimInv c f x g (c.level f.netptr) (· = f.netptr) (if g.tpo f.netptr then [f.netptr] else [])
      (s.setFault f.netptr (!s.value2 f.netptr .normal) .COMPUTED) := by
  have value2 : ∀ n σ, s.value2 n σ =
      (decide (n < c.nNet) && g.normalScopeRequiredNet n && c.good x n) := by
    intro n σ
    rw [XidState.value2, info]
    rfl
  have stuck : (!s.value2 f.netptr .normal) = c.faulty f x f.netptr := by
    rw [value2, scope]
    simp only [site, decide_true, Bool.true_and]
    exact (Bool.eq_not.mpr (Ne.symm active)).symm
  have tag : ∀ n, (s.setFault f.netptr (!s.value2 f.netptr .normal) .COMPUTED).edTag n =
      if n = f.netptr then .COMPUTED else .UNTAGGED := by
    intro n
    rw [XidState.edTag_setFault, XidState.edTag, info]
    rfl
  have only : ∀ n, (s.setFault f.netptr (!s.value2 f.netptr .normal) .COMPUTED).edTag n ≠ .UNTAGGED →
      n = f.netptr := by
    intro n hn
    by_contra ne
    rw [tag n, if_neg ne] at hn
    exact hn rfl
  have noLev : ∀ l, (s.setFault f.netptr (!s.value2 f.netptr .normal) .COMPUTED).xidLev.lev l = [] := by
    intro l
    change s.xidLev.lev l = []
    rw [idle]
    rfl
  refine ⟨?_, ?_, ?_, ?_, ?_, ?_, ?_, ?_, ?_, ?_, ?_, ?_, ?_⟩
  · change s.xidLev.Valid _
    rw [idle]
    exact LevelStack.valid_empty
  · intro l n hn
    rw [noLev l] at hn
    exact absurd hn List.not_mem_nil
  · intro l
    rw [noLev l]
    exact List.nodup_nil
  · intro n hn
    rw [tag n] at hn
    split at hn <;> cases hn
  · intro n hn
    rw [only n hn]
    exact ⟨site, scope, .root rfl⟩
  · intro n hn hr
    rw [XidState.value2_setFault, if_neg (by simp), value2]
    simp [hn, hr]
  · intro n hn
    rw [only n (by rw [hn]; simp), XidState.value2_setFault, if_pos ⟨rfl, rfl⟩, stuck]
  · intro n hn hr hc
    rw [tag n] at hc
    have ne : n ≠ f.netptr := by
      rintro rfl
      exact hc (if_pos rfl)
    rw [XidState.value2_setFault, if_neg fun h => ne h.1, value2]
    simp [hn, hr]
  · rw [tag, if_pos rfl]
  · intro a ha idle
    exact absurd (only a (by rw [ha]; simp)) idle
  · intro o ho
    split at ho
    · rename_i tpo
      rw [List.mem_singleton.mp ho]
      exact ⟨tpo, by rw [tag, if_pos rfl], active⟩
    · exact absurd ho List.not_mem_nil
  · intro o tpo done idle
    exact absurd (only o (by rw [done]; simp)) idle
  · split
    · exact List.nodup_singleton _
    · exact List.nodup_nil

/-- When nothing is stacked any more, every net of the scope has its faulty value. -/
private theorem FsimInv.simulated
    (closed : ∀ n i, g.normalScopeRequiredNet n = true → i ∈ c.ins n →
      g.normalScopeRequiredNet i = true) {s : XidState} {st : FsimState}
    (inv : FsimInv c f x g st.eventLev (fun _ => False) st.detectPo st.xid) (frame : FsimFrame g s st.xid)
    (zero : st.xid.xidLev.total = 0) : Simulated c f x g s st := by
  have noLev := inv.levels.eq_nil zero
  have settled : ∀ n, st.xid.edTag n ≠ .STACKED := by
    intro n stacked
    have listed := inv.onStack n stacked
    rw [noLev] at listed
    exact absurd listed List.not_mem_nil
  have inVal : ∀ n < c.nNet, g.normalScopeRequiredNet n = true → st.xid.inVal n = c.faulty f x n :=
    fun n hn hr => inv.inVal_eq wf closed (fun k (_ : c.level k < c.level n + 1) => settled k) n hn hr
      (Nat.lt_succ_self _)
  refine ⟨frame, ?_, inv.normal, ?_, fun n hn => (inv.reached n hn).2.2, ?_, ?_, inv.nodup, inVal⟩
  · apply LevelStack.ext
    · exact funext noLev
    · exact zero
  · intro n hn hr
    by_cases computed : st.xid.edTag n = .COMPUTED
    · exact inv.computed n computed
    · rw [← inVal n hn hr, XidState.inVal, if_neg computed, inv.normal n hn hr]
      exact inv.untouched n hn hr computed
  · exact fun o ho => ⟨(inv.sound o ho).1, (inv.sound o ho).2.2⟩
  · intro o ho hr tpo differs
    apply inv.complete o tpo _ id differs
    by_contra notComputed
    have value := inVal o ho hr
    rw [XidState.inVal, if_neg notComputed, inv.normal o ho hr] at value
    exact differs value

/-- The event loop ends with the faulty value of every net of the scope. -/
theorem xidFsim_spec
    (closed : ∀ n i, g.normalScopeRequiredNet n = true → i ∈ c.ins n →
      g.normalScopeRequiredNet i = true) (site : f.netptr < c.nNet)
    (scope : g.normalScopeRequiredNet f.netptr = true) (active : c.Differs f x f.netptr)
    {s : XidState} (info : s.varInfo = c.scopeInfo g x) (idle : s.xidLev = .empty) :
    ∃ st, c.xidFsim g f.netptr s = some (some st) ∧ Simulated c f x g s st := by
  have start := FsimInv.start site scope active info idle
  obtain ⟨inv, frame, cost⟩ := edPushOut_spec wf start site (by rw [XidState.edTag_setFault, if_pos rfl])
    (le_refl _) (by
      intro tpo _
      rw [if_pos tpo]
      exact List.mem_singleton.mpr rfl)
  have frame := (FsimFrame.setFault s scope (!s.value2 f.netptr .normal) .COMPUTED).trans frame
  have noLev : (s.setFault f.netptr (!s.value2 f.netptr .normal) .COMPUTED).xidLev.total = 0 := by
    change s.xidLev.total = 0
    rw [idle]
    rfl
  have small := cost.trans (fsimVariant_idle noLev)
  obtain ⟨t, run, final, exit⟩ := @Loop.whileLoop_total _ (c.fsimPass g)
    (fun state => ∃ st, state = some st ∧
      FsimInv c f x g st.eventLev (fun _ => False) st.detectPo st.xid ∧ FsimFrame g s st.xid)
    (fun state => state.elim 0 fun st => c.fsimVariant st.xid)
    (by
      rintro state state' ⟨st, rfl, inv, frame⟩ next
      by_cases zero : st.xid.xidLev.total = 0
      · simp [fsimPass, zero] at next
      · obtain ⟨st', run, inv', frame', less⟩ := fsimPass_spec wf closed inv zero
        rw [run] at next
        cases next
        exact ⟨⟨st', rfl, inv', frame.trans frame'⟩, less⟩)
    (2 * c.nNet + 2) (some ⟨_, _, _⟩) ⟨_, rfl, inv, frame⟩
    (Nat.lt_of_le_of_lt small (by omega))
  obtain ⟨st, rfl, inv, frame⟩ := final
  have zero : st.xid.xidLev.total = 0 := by
    by_contra more
    obtain ⟨st', next, -⟩ := fsimPass_spec wf closed inv more
    rw [next] at exit
    cases exit
  exact ⟨st, run, inv.simulated wf closed frame zero⟩

end Events

end Netlist

end SafRprGen
