/-
Module: SafRprGen.Xid.Invariant
Layer: Xid
Purpose: What every step of the X-filling keeps. A flagged value is the value the model gives to that
  side of the net, and it is justified by the flagged values of the net's inputs or the net is still on
  a worklist. Every handler of `XID.c` is made of three operations: `fillPush`, `edPushXpath` and
  `enqueue`; this module says what each of them does to the invariant and to the termination measure.
Main exports: sideValue, Justified, Pending, XInv, Ext, fillPush_spec, edPushXpath_spec, enqueue_spec
-/
import SafRprGen.Netlist.Detect
import SafRprGen.Xid.State

namespace SafRprGen

namespace Netlist

/-- The values an assignment gives to the two circuits. -/
def sideValue (c : Netlist) (f : FNODE) (x : c.Assignment) : Side → Nat → Bool
  | .normal => c.good x
  | .fault => c.faulty f x

/-- The fault side of the site is forced and follows from no input. -/
def Forced (f : FNODE) (n : Nat) (σ : Side) : Prop := n = f.netptr ∧ σ = .fault

/-- The flagged inputs alone decide the value of the net: inputs of every other value give it too. -/
def Justified (c : Netlist) (f : FNODE) (x : c.Assignment) (s : XidState) (n : Nat) (σ : Side) : Prop :=
  c.type n ≠ .IN → ∀ v : Nat → Bool,
    (∀ i ∈ c.ins n, s.flag i σ = true → v i = c.sideValue f x σ i) →
      (c.type n).fn ((c.ins n).map v) = c.sideValue f x σ n

/-- The output of an AND-like or OR-like gate that one controlling input explains. -/
def Searched (c : Netlist) (f : FNODE) (x : c.Assignment) (n : Nat) (σ : Side) : Prop :=
  ∃ b, (c.type n).ctrl = some b ∧ c.sideValue f x σ n = xor (c.type n).inverts b

/-- The net waits for its justification. -/
def Pending (c : Netlist) (f : FNODE) (x : c.Assignment) (s : XidState) (n : Nat) (σ : Side) : Prop :=
  n ∈ (s.queue .bwd).contents c.nNet ∨
    (n ∈ (s.queue .jus).contents c.nNet ∧ c.Searched f x n σ) ∨ n ∈ s.xidLev.lev (c.level n)

/-- The invariant of X-filling. `required` is the scope, `path` bounds the nets on the level stacks, and the
sides of `busy` are just being handled. After an overflow nothing is claimed about justification. -/
structure XInv (c : Netlist) (f : FNODE) (x : c.Assignment) (required : Nat → Bool) (path : Nat → Prop)
    (busy : Nat → Side → Prop) (s : XidState) : Prop where
  queues : ∀ q, (s.queue q).Valid c.nNet
  queued : ∀ q, ∀ n ∈ (s.queue q).contents c.nNet, n < c.nNet ∧ required n = true
  value2 : ∀ n < c.nNet, required n = true → ∀ σ, s.value2 n σ = c.sideValue f x σ n
  flagged : ∀ n σ, s.flag n σ = true →
    n < c.nNet ∧ required n = true ∧ s.value3 n σ = some (c.sideValue f x σ n)
  levels : s.xidLev.Valid c.xidMaxLevel
  stacked : ∀ l, ∀ n ∈ s.xidLev.lev l,
    l = c.level n ∧ n < c.nNet ∧ required n = true ∧ c.Differs f x n ∧ path n
  justified : s.exited = false → ∀ n σ, s.flag n σ = true → ¬ busy n σ → ¬ Forced f n σ →
    c.Justified f x s n σ ∨ c.Pending f x s n σ

/-- The sides of nets without a value yet. -/
def unset (c : Netlist) (s : XidState) : Nat :=
  ∑ n ∈ Finset.range c.nNet, ((if s.flag n .normal then 0 else 1) + if s.flag n .fault then 0 else 1)

/-- The termination measure: a filled side pays for the place it takes on a worklist. -/
def potential (c : Netlist) (s : XidState) : Nat :=
  4 * c.unset s + 4 * s.xidLev.total + 2 * (s.queue .bwd).count + (s.queue .fwd).count +
    (s.queue .jus).count

/-- What every step leaves as it was, and what it costs at most. -/
structure Ext (c : Netlist) (required : Nat → Bool) (cost : Nat) (s s' : XidState) : Prop where
  flag : ∀ n σ, s.flag n σ = true → s'.flag n σ = true
  value2 : ∀ n σ, s'.value2 n σ = s.value2 n σ
  edTag : ∀ n, s'.edTag n = s.edTag n
  outside : ∀ n, required n = false → s'.varInfo n = s.varInfo n
  exited : s.exited = true → s'.exited = true
  potential : c.potential s' ≤ c.potential s + cost

variable {c : Netlist} {m : FaultModel} {f : FNODE} {x : c.Assignment} {required : Nat → Bool}
  {path : Nat → Prop} {busy : Nat → Side → Prop} {s s' : XidState}

theorem Ext.refl (s : XidState) : Ext c required 0 s s :=
  ⟨fun _ _ h => h, fun _ _ => rfl, fun _ => rfl, fun _ _ => rfl, fun h => h, le_refl _⟩

theorem Ext.trans {s'' : XidState} {cost cost' : Nat} (first : Ext c required cost s s')
    (second : Ext c required cost' s' s'') : Ext c required (cost + cost') s s'' where
  flag := fun n σ h => second.flag n σ (first.flag n σ h)
  value2 := fun n σ => (second.value2 n σ).trans (first.value2 n σ)
  edTag := fun n => (second.edTag n).trans (first.edTag n)
  outside := fun n h => (second.outside n h).trans (first.outside n h)
  exited := fun h => second.exited (first.exited h)
  potential := by
    have h := first.potential
    have h' := second.potential
    omega

theorem Ext.weaken {cost cost' : Nat} (h : Ext c required cost s s') (le : cost ≤ cost') :
    Ext c required cost' s s' :=
  { h with potential := h.potential.trans (Nat.add_le_add_left le _) }

/-! ### The values of a gate on one side -/

section Values

variable (wf : c.WellFormed m)

include wf

theorem sideValue_gate {n : Nat} (hn : n < c.nNet) (gate : c.type n ≠ .IN) {σ : Side}
    (free : ¬ Forced f n σ) :
    c.sideValue f x σ n = (c.type n).fn ((c.ins n).map (c.sideValue f x σ)) := by
  cases σ with
  | normal => exact wf.good_gate hn gate
  | fault => exact wf.faulty_gate hn (fun same => free ⟨same, rfl⟩) gate

/-- The value that no controlling input gives: every input has the other value. -/
theorem sideValue_force {n : Nat} (hn : n < c.nNet) {b : Bool} (ctrl : (c.type n).ctrl = some b)
    {σ : Side} (free : ¬ Forced f n σ)
    (value : c.sideValue f x σ n = xor (c.type n).inverts (!b)) :
    ∀ i ∈ c.ins n, c.sideValue f x σ i = !b := by
  intro i hi
  have gate : c.type n ≠ .IN := by
    intro h
    rw [h] at ctrl
    cases ctrl
  rw [sideValue_gate wf hn gate free, GateType.fn_eq_ctrl ctrl] at value
  have none : b ∉ (c.ins n).map (c.sideValue f x σ) := by
    intro some
    rw [if_pos some] at value
    cases b <;> simp at value
  apply Bool.eq_not.mpr
  intro same
  exact none (List.mem_map.mpr ⟨i, hi, same⟩)

/-- The value that a controlling input gives: some input is controlling. -/
theorem sideValue_search {n : Nat} (hn : n < c.nNet) {σ : Side} (free : ¬ Forced f n σ) {b : Bool}
    (ctrl : (c.type n).ctrl = some b)
    (value : c.sideValue f x σ n = xor (c.type n).inverts b) :
    ∃ i ∈ c.ins n, c.sideValue f x σ i = b := by
  have gate : c.type n ≠ .IN := by
    intro h
    rw [h] at ctrl
    cases ctrl
  rw [sideValue_gate wf hn gate free, GateType.fn_eq_ctrl ctrl] at value
  have some : b ∈ (c.ins n).map (c.sideValue f x σ) := by
    by_contra none
    rw [if_neg none] at value
    cases b <;> simp at value
  exact List.mem_map.mp some

omit wf in
/-- An output has one of the two values. -/
theorem force_or_search (n : Nat) (σ : Side) (b : Bool) :
    c.sideValue f x σ n = xor (c.type n).inverts (!b) ∨
      c.sideValue f x σ n = xor (c.type n).inverts b := by
  cases c.sideValue f x σ n <;> cases (c.type n).inverts <;> cases b <;> simp

/-- Outside the fault site a net that differs is above it. -/
theorem level_site_lt (site : f.netptr < c.nNet) {n : Nat} (hn : n < c.nNet)
    (differs : c.Differs f x n) : n = f.netptr ∨ c.level f.netptr < c.level n := by
  obtain ⟨-, path⟩ := wf.dchain n hn differs
  clear differs
  have both : n < c.nNet ∧ (n = f.netptr ∨ c.level f.netptr < c.level n) := by
    induction path with
    | refl => exact ⟨site, .inl rfl⟩
    | @tail a b before step ih =>
        obtain ⟨edge, -⟩ := step
        have ha : a < c.nNet := by
          by_contra high
          rw [outs_of_le (Nat.le_of_not_lt high)] at edge
          exact absurd edge List.not_mem_nil
        have up := wf.level_lt (wf.outsLt a ha b edge)
          ((wf.mem_outs_iff ha (wf.outsLt a ha b edge)).mp edge)
        refine ⟨wf.outsLt a ha b edge, .inr ?_⟩
        rcases (ih ha).2 with rfl | h
        · exact up
        · exact h.trans up
  exact both.2

/-! ### Justification -/

theorem justified_all {n : Nat} (hn : n < c.nNet) {σ : Side} (free : ¬ Forced f n σ)
    (all : ∀ i ∈ c.ins n, s.flag i σ = true) : c.Justified f x s n σ := by
  intro gate v agree
  rw [sideValue_gate wf hn gate free]
  congr 1
  exact List.map_congr_left fun i hi => agree i hi (all i hi)

theorem justified_ctrl {n : Nat} (hn : n < c.nNet) {σ : Side} (free : ¬ Forced f n σ) {b : Bool}
    (ctrl : (c.type n).ctrl = some b) {i : Nat} (hi : i ∈ c.ins n) (flag : s.flag i σ = true)
    (value : c.sideValue f x σ i = b) : c.Justified f x s n σ := by
  intro gate v agree
  rw [sideValue_gate wf hn gate free]
  apply GateType.fn_ctrl ctrl
  · exact List.mem_map.mpr ⟨i, hi, (agree i hi flag).trans value⟩
  · exact List.mem_map.mpr ⟨i, hi, value⟩

end Values

theorem Justified.mono {n : Nat} {σ : Side} (h : c.Justified f x s n σ)
    (grow : ∀ i, s.flag i σ = true → s'.flag i σ = true) : c.Justified f x s' n σ :=
  fun gate v agree => h gate v fun i hi flag => agree i hi (grow i flag)

theorem XInv.known (inv : XInv c f x required path busy s) {n : Nat} {σ : Side} {b : Bool}
    (h : s.known n σ = some b) : s.flag n σ = true ∧ b = c.sideValue f x σ n := by
  cases flag : s.flag n σ with
  | false =>
      rw [s.known_of_not_flag flag] at h
      cases h
  | true =>
      rw [s.known_of_flag flag, (inv.flagged n σ flag).2.2] at h
      exact ⟨rfl, (Option.some.inj h).symm⟩

theorem XInv.known_of_flag (inv : XInv c f x required path busy s) {n : Nat} {σ : Side}
    (h : s.flag n σ = true) : s.known n σ = some (c.sideValue f x σ n) := by
  rw [s.known_of_flag h, (inv.flagged n σ h).2.2]

/-- What was being handled is settled. -/
theorem XInv.settle (inv : XInv c f x required path busy s)
    (done : s.exited = false → ∀ n σ, busy n σ → ¬ Forced f n σ →
      c.Justified f x s n σ ∨ c.Pending f x s n σ) :
    XInv c f x required path (fun _ _ => False) s :=
  { inv with
    justified := by
      intro running n σ flag _ free
      by_cases handled : busy n σ
      · exact done running n σ handled free
      · exact inv.justified running n σ flag handled free }

theorem XInv.mono_busy (inv : XInv c f x required path busy s) (busy' : Nat → Side → Prop)
    (sub : ∀ n σ, busy n σ → busy' n σ) : XInv c f x required path busy' s :=
  { inv with
    justified := fun running n σ flag idle free =>
      inv.justified running n σ flag (fun h => idle (sub n σ h)) free }

theorem XInv.mono_path (inv : XInv c f x required path busy s) (path' : Nat → Prop)
    (sub : ∀ n, path n → path' n) : XInv c f x required path' busy s :=
  { inv with
    stacked := by
      intro l n h
      obtain ⟨same, hn, hr, differs, low⟩ := inv.stacked l n h
      exact ⟨same, hn, hr, differs, sub n low⟩ }

/-- When no net may be on the X-path the level stacks are empty. -/
theorem XInv.total_eq_zero (inv : XInv c f x required path busy s) (none : ∀ n, ¬ path n) :
    s.xidLev.total = 0 := by
  by_contra more
  obtain ⟨l, -, used⟩ := inv.levels.exists_ne_nil more
  obtain ⟨n, h⟩ := List.exists_mem_of_ne_nil _ used
  exact none n (inv.stacked l n h).2.2.2.2

/-! ### The operations -/

section Operations

/-- A net whose sides are filled has fewer sides left. -/
theorem unset_fill {n : Nat} (hn : n < c.nNet) (v : SideValues) :
    c.unset (s.fill n v) ≤ c.unset s ∧
      (s.updated n v = true → c.unset (s.fill n v) + 1 ≤ c.unset s) := by
  have others : ∀ k ∈ (Finset.range c.nNet).erase n,
      ((if (s.fill n v).flag k .normal then 0 else 1) + if (s.fill n v).flag k .fault then 0 else 1) =
        (if s.flag k .normal then 0 else 1) + if s.flag k .fault then 0 else 1 := by
    intro k hk
    have ne := Finset.ne_of_mem_erase hk
    rw [s.flag_fill_of_ne n v .normal ne, s.flag_fill_of_ne n v .fault ne]
  have here : ∀ t : XidState, c.unset t =
      ((if t.flag n .normal then 0 else 1) + if t.flag n .fault then 0 else 1) +
        ∑ k ∈ (Finset.range c.nNet).erase n,
          ((if t.flag k .normal then 0 else 1) + if t.flag k .fault then 0 else 1) :=
    fun t => (Finset.add_sum_erase _ _ (Finset.mem_range.mpr hn)).symm
  rw [here (s.fill n v), here s, Finset.sum_congr rfl others, s.flag_fill_self n v .normal,
    s.flag_fill_self n v .fault]
  simp only [XidState.updated]
  cases s.flag n .normal <;> cases s.flag n .fault <;> cases (v .normal).isSome <;>
    cases (v .fault).isSome <;> simp

theorem enqueue_count (q : XidQueue) (n : Nat) (s : XidState) (p : XidQueue) :
    ((c.enqueue q n s).queue p).count ≤ (s.queue p).count + if p = q then 1 else 0 := by
  by_cases here : p = q
  · subst here
    by_cases full : c.nNet ≤ (s.queue p).count
    · rw [enqueue_full full, if_pos rfl]
      exact Nat.le_succ _
    · rw [queue_enqueue_self (Nat.lt_of_not_le full), if_pos rfl]
      exact le_refl _
  · rw [queue_enqueue_ne here, if_neg here]
    exact le_refl _

/-- The place of a net on a queue in the measure. -/
def queueCost : XidQueue → Nat
  | .bwd => 2
  | .fwd => 1
  | .jus => 1

theorem potential_enqueue (q : XidQueue) (n : Nat) (s : XidState) :
    c.potential (c.enqueue q n s) ≤ c.potential s + queueCost q := by
  have bwd := enqueue_count (c := c) q n s .bwd
  have fwd := enqueue_count (c := c) q n s .fwd
  have jus := enqueue_count (c := c) q n s .jus
  have unset : c.unset (c.enqueue q n s) = c.unset s := by simp only [unset, flag_enqueue]
  unfold potential
  rw [unset, xidLev_enqueue]
  cases q <;> simp only [reduceCtorEq, if_true, if_false] at bwd fwd jus <;>
    simp only [queueCost] <;> omega

/-- Queued nets stay queued, and the new one is queued unless the queue was full. -/
theorem XInv.mem_enqueue (inv : XInv c f x required path busy s) (q p : XidQueue) (n k : Nat) :
    (k ∈ ((c.enqueue q n s).queue p).contents c.nNet →
      k ∈ (s.queue p).contents c.nNet ∨ k = n) ∧
    (k ∈ (s.queue p).contents c.nNet → k ∈ ((c.enqueue q n s).queue p).contents c.nNet) ∧
    ((c.enqueue q n s).exited = false → n ∈ ((c.enqueue q n s).queue q).contents c.nNet) := by
  by_cases full : c.nNet ≤ (s.queue q).count
  · rw [enqueue_full full]
    exact ⟨.inl, id, fun h => absurd h (by simp)⟩
  · have space := Nat.lt_of_not_le full
    have appended := RingQueue.contents_enqueue (inv.queues q) space n
    by_cases here : p = q
    · subst here
      rw [queue_enqueue_self space, appended]
      refine ⟨?_, List.mem_append_left _, fun _ => List.mem_append_right _ (List.mem_singleton.mpr rfl)⟩
      rw [List.mem_append, List.mem_singleton]
      exact id
    · rw [queue_enqueue_ne here, queue_enqueue_self space, appended]
      exact ⟨.inl, id, fun _ => List.mem_append_right _ (List.mem_singleton.mpr rfl)⟩

theorem XInv.valid_enqueue (inv : XInv c f x required path busy s) (q p : XidQueue) (n : Nat) :
    ((c.enqueue q n s).queue p).Valid c.nNet := by
  by_cases full : c.nNet ≤ (s.queue q).count
  · rw [enqueue_full full]
    exact inv.queues p
  · by_cases here : p = q
    · subst here
      rw [queue_enqueue_self (Nat.lt_of_not_le full)]
      exact (inv.queues p).enqueue (Nat.lt_of_not_le full) n
    · rw [queue_enqueue_ne here]
      exact inv.queues p

/-- Enqueueing a net of the scope. -/
theorem enqueue_spec (inv : XInv c f x required path busy s) (q : XidQueue) {n : Nat}
    (hn : n < c.nNet) (hr : required n = true) :
    XInv c f x required path busy (c.enqueue q n s) ∧
      Ext c required (queueCost q) s (c.enqueue q n s) := by
  constructor
  · refine ⟨fun p => inv.valid_enqueue q p n, ?_, ?_, ?_, ?_, ?_, ?_⟩
    · intro p k hk
      rcases (inv.mem_enqueue q p n k).1 hk with old | rfl
      · exact inv.queued p k old
      · exact ⟨hn, hr⟩
    · simpa using inv.value2
    · simpa using inv.flagged
    · simpa using inv.levels
    · simpa using inv.stacked
    · intro running k σ hk idle free
      rw [flag_enqueue] at hk
      rcases inv.justified (exited_of_enqueue running) k σ hk idle free with
        just | bwd | ⟨jus, searched⟩ | stacked
      · exact .inl (just.mono fun i h => by rwa [flag_enqueue])
      · exact .inr (.inl ((inv.mem_enqueue q .bwd n k).2.1 bwd))
      · exact .inr (.inr (.inl ⟨(inv.mem_enqueue q .jus n k).2.1 jus, searched⟩))
      · exact .inr (.inr (.inr (by rwa [xidLev_enqueue])))
  · refine ⟨?_, ?_, ?_, ?_, ?_, potential_enqueue q n s⟩
    · intro k σ h
      rwa [flag_enqueue]
    · exact fun k σ => value2_enqueue q n k σ
    · exact fun k => edTag_enqueue q n k
    · intro k _
      rw [varInfo_enqueue]
    · intro h
      by_contra running
      rw [Bool.not_eq_true] at running
      rw [exited_of_enqueue running] at h
      cases h

/-- What the net that leaves a queue waited for there. -/
def Left (c : Netlist) (f : FNODE) (x : c.Assignment) (s : XidState) (q : XidQueue) (t n : Nat)
    (σ : Side) : Prop :=
  n = t ∧ s.flag n σ = true ∧ (q = .bwd ∨ q = .jus ∧ c.Searched f x n σ)

/-- Taking a net from a queue: the net is being handled, and its place is paid back. -/
theorem dequeue_spec (inv : XInv c f x required path (fun _ _ => False) s) {q : XidQueue}
    (some : (s.queue q).count ≠ 0) :
    ∃ t s', c.dequeue q s = (t, s') ∧ t < c.nNet ∧ required t = true ∧
      XInv c f x required path (c.Left f x s' q t) s' ∧ s'.varInfo = s.varInfo ∧
      s'.xidLev = s.xidLev ∧ s'.exited = s.exited ∧
      c.potential s' + queueCost q = c.potential s := by
  have pos := Nat.pos_of_ne_zero some
  have taken := RingQueue.contents_dequeue (inv.queues q) pos
  have valid := (inv.queues q).dequeue pos
  have less : ((s.queue q).dequeue c.nNet).2.count + 1 = (s.queue q).count :=
    Nat.sub_add_cancel pos
  cases h : (s.queue q).dequeue c.nNet with
  | mk t queue =>
      rw [h] at taken valid less
      simp only at taken valid less
      have others : ∀ p n, n ∈ (Function.update s.queue q queue p).contents c.nNet →
          n ∈ (s.queue p).contents c.nNet := by
        intro p n
        by_cases here : p = q
        · subst here
          rw [Function.update_self, taken]
          exact List.mem_cons_of_mem _
        · rw [Function.update_of_ne here]
          exact id
      have kept : ∀ p n, n ∈ (s.queue p).contents c.nNet →
          n ∈ (Function.update s.queue q queue p).contents c.nNet ∨ (p = q ∧ n = t) := by
        intro p n
        by_cases here : p = q
        · subst here
          rw [Function.update_self, taken, List.mem_cons]
          exact fun h => h.symm.imp_right fun same => ⟨rfl, same⟩
        · rw [Function.update_of_ne here]
          exact .inl
      have member : t ∈ (s.queue q).contents c.nNet := by
        rw [taken]
        exact List.mem_cons_self
      obtain ⟨ht, hr⟩ := inv.queued q t member
      refine ⟨t, { s with queue := Function.update s.queue q queue }, by simp [dequeue, h], ht, hr,
        ⟨?_, ?_, inv.value2, inv.flagged, inv.levels, inv.stacked, ?_⟩, rfl, rfl, rfl, ?_⟩
      · intro p
        by_cases here : p = q
        · subst here
          simpa using valid
        · simpa [here] using inv.queues p
      · exact fun p n hn => inv.queued p n (others p n hn)
      · intro running n σ flag idle free
        rcases inv.justified running n σ flag (fun h => h) free with
          just | bwd | ⟨jus, searched⟩ | stacked
        · exact .inl just
        · rcases kept .bwd n bwd with queued | ⟨rfl, rfl⟩
          · exact .inr (.inl queued)
          · exact absurd ⟨rfl, flag, .inl rfl⟩ idle
        · rcases kept .jus n jus with queued | ⟨rfl, rfl⟩
          · exact .inr (.inr (.inl ⟨queued, searched⟩))
          · exact absurd ⟨rfl, flag, .inr ⟨rfl, searched⟩⟩ idle
        · exact .inr (.inr (.inr stacked))
      · have unset : c.unset { s with queue := Function.update s.queue q queue } = c.unset s := rfl
        unfold potential
        rw [unset]
        cases q <;> simp [queueCost] <;> omega

/-- Filling alone: the invariant with the filled net busy. -/
theorem fill_spec (inv : XInv c f x required path busy s) {n : Nat} (hn : n < c.nNet)
    (hr : required n = true) {v : SideValues}
    (agree : ∀ σ b, v σ = some b → s.flag n σ = false → b = c.sideValue f x σ n)
    (just : ∀ σ, (v σ).isSome = true → s.flag n σ = false → ¬ busy n σ → c.Justified f x s n σ) :
    XInv c f x required path busy (s.fill n v) := by
  have grow : ∀ k σ, s.flag k σ = true → (s.fill n v).flag k σ = true :=
    fun k σ h => s.flag_fill_mono n v h
  refine ⟨inv.queues, inv.queued, ?_, ?_, inv.levels, inv.stacked, ?_⟩
  · intro k hk hr σ
    rw [s.value2_fill]
    exact inv.value2 k hk hr σ
  · intro k σ hk
    cases old : s.flag k σ with
    | true =>
        rw [s.value3_fill_mono n v old]
        exact inv.flagged k σ old
    | false =>
        have here : k = n := by
          by_contra ne
          rw [s.flag_fill_of_ne n v σ ne, old] at hk
          cases hk
        subst here
        rw [s.flag_fill_self, old, Bool.false_or] at hk
        obtain ⟨b, given⟩ := Option.isSome_iff_exists.mp hk
        rw [s.value3_fill_new k v σ old given, agree σ b given old]
        exact ⟨hn, hr, rfl⟩
  · intro running k σ hk idle free
    cases old : s.flag k σ with
    | true =>
        exact (inv.justified running k σ old idle free).imp_left fun h => h.mono fun i => grow i σ
    | false =>
        have here : k = n := by
          by_contra ne
          rw [s.flag_fill_of_ne n v σ ne, old] at hk
          cases hk
        subst here
        rw [s.flag_fill_self, old, Bool.false_or] at hk
        exact .inl ((just σ hk old idle).mono fun i => grow i σ)

theorem fill_ext {n : Nat} (hn : n < c.nNet) (hr : required n = true) (v : SideValues) :
    Ext c required 0 s (s.fill n v) := by
  refine ⟨fun k σ h => s.flag_fill_mono n v h, fun k σ => s.value2_fill n k v σ,
    fun k => s.edTag_fill n k v, ?_, id, ?_⟩
  · intro k out
    have ne : k ≠ n := by
      rintro rfl
      rw [hr] at out
      cases out
    simp [XidState.fill, ne]
  · have fewer := (unset_fill (s := s) hn v).1
    unfold potential
    simp only [XidState.xidLev_fill, XidState.queue_fill]
    omega

/-- Filling and enqueueing a net, forwards when the new values are justified and backwards otherwise. -/
theorem fillPush_spec (inv : XInv c f x required path busy s) {q : XidQueue} {n : Nat}
    (hn : n < c.nNet) (hr : required n = true) {v : SideValues}
    (agree : ∀ σ b, v σ = some b → s.flag n σ = false → b = c.sideValue f x σ n)
    (just : q = .bwd ∨ q = .fwd ∧
      ∀ σ, (v σ).isSome = true → s.flag n σ = false → c.Justified f x s n σ) :
    XInv c f x required path busy (c.fillPush q n v s) ∧ Ext c required 0 s (c.fillPush q n v s) ∧
      ∀ σ, (v σ).isSome = true → (c.fillPush q n v s).flag n σ = true := by
  unfold fillPush
  by_cases changed : s.updated n v = true
  · rw [if_pos changed]
    have ext := fill_ext (c := c) (s := s) hn hr v
    have flags : ∀ σ, (v σ).isSome = true → (c.enqueue q n (s.fill n v)).flag n σ = true := by
      intro σ given
      rw [flag_enqueue, s.flag_fill_self, given, Bool.or_true]
    have cost : c.potential (c.enqueue q n (s.fill n v)) ≤ c.potential s := by
      have less := (unset_fill (s := s) hn v).2 changed
      have queue := potential_enqueue (c := c) q n (s.fill n v)
      have small : queueCost q ≤ 2 := by cases q <;> decide
      simp only [potential, XidState.xidLev_fill, XidState.queue_fill] at queue ⊢
      omega
    rcases just with rfl | ⟨rfl, just⟩
    · -- the net is busy while it is filled, and pending from then on
      have filled := fill_spec (inv.mono_busy (fun k σ => busy k σ ∨ k = n) fun _ _ => .inl) hn hr
        agree (fun _ _ _ idle => absurd (Or.inr rfl) idle)
      obtain ⟨queued, ext'⟩ := enqueue_spec filled .bwd hn hr
      refine ⟨{ queued with justified := ?_ }, { ext.trans ext' with potential := cost }, flags⟩
      intro running k σ hk idle free
      by_cases here : k = n
      · subst here
        exact .inr (.inl ((filled.mem_enqueue .bwd .bwd k k).2.2 running))
      · exact queued.justified running k σ hk (fun h => h.elim idle here) free
    · have filled := fill_spec inv hn hr agree fun σ given new _ => just σ given new
      obtain ⟨queued, ext'⟩ := enqueue_spec filled .fwd hn hr
      exact ⟨queued, { ext.trans ext' with potential := cost }, flags⟩
  · rw [if_neg changed]
    rw [Bool.not_eq_true, s.updated_eq_false_iff] at changed
    exact ⟨inv, Ext.refl s, changed⟩

/-- Backwards any value of the model may be filled in. -/
theorem fillBwd_spec (inv : XInv c f x required path busy s) {n : Nat} (hn : n < c.nNet)
    (hr : required n = true) {v : SideValues}
    (agree : ∀ σ b, v σ = some b → b = c.sideValue f x σ n) :
    XInv c f x required path busy (c.fillPush .bwd n v s) ∧
      Ext c required 0 s (c.fillPush .bwd n v s) ∧
      ∀ σ, (v σ).isSome = true → (c.fillPush .bwd n v s).flag n σ = true :=
  fillPush_spec inv hn hr (fun σ b given _ => agree σ b given) (.inl rfl)

/-- Putting a net that differs on the X-path. -/
theorem edPushXpath_spec (inv : XInv c f x required path busy s) {n : Nat} (hn : n < c.nNet)
    (hr : required n = true) (differs : c.Differs f x n) (low : path n) :
    XInv c f x required path busy (c.edPushXpath n s) ∧ Ext c required 0 s (c.edPushXpath n s) ∧
      ∀ σ, (c.edPushXpath n s).flag n σ = true := by
  unfold edPushXpath
  by_cases both : s.flagBoth n = true
  · rw [if_pos both]
    exact ⟨inv, Ext.refl s, (s.flagBoth_iff n).mp both⟩
  · rw [if_neg both]
    have max := c.level_le_xidMaxLevel hn
    have pushed : XInv c f x required path busy (c.pushLevNet n s) := by
      refine ⟨inv.queues, inv.queued, inv.value2, inv.flagged, inv.levels.push max n, ?_, ?_⟩
      · intro l k hk
        rcases LevelStack.mem_push.mp hk with old | ⟨rfl, rfl⟩
        · exact inv.stacked l k old
        · exact ⟨rfl, hn, hr, differs, low⟩
      · intro running k σ hk idle free
        apply (inv.justified running k σ hk idle free).imp_right
        rintro (bwd | jus | stacked)
        · exact .inl bwd
        · exact .inr (.inl jus)
        · exact .inr (.inr (LevelStack.mem_push.mpr (.inl stacked)))
    have onStack : n ∈ (c.pushLevNet n s).xidLev.lev (c.level n) :=
      LevelStack.mem_push.mpr (.inr ⟨rfl, rfl⟩)
    have filled := fill_spec (n := n) (v := fun σ => some (s.value2 n σ))
      (pushed.mono_busy (fun k σ => busy k σ ∨ k = n) fun _ _ => .inl) hn hr
      (fun σ b given _ => by rw [← Option.some.inj given]; exact inv.value2 n hn hr σ)
      (fun _ _ _ idle => absurd (Or.inr rfl) idle)
    refine ⟨{ filled with justified := ?_ }, ?_, ?_⟩
    · intro running k σ hk idle free
      by_cases here : k = n
      · subst here
        exact .inr (.inr (.inr onStack))
      · exact filled.justified running k σ hk (fun h => h.elim idle here) free
    · have ext := fill_ext (c := c) (s := c.pushLevNet n s) hn hr fun σ => some (s.value2 n σ)
      refine ⟨ext.flag, ext.value2, ext.edTag, ext.outside, ext.exited, ?_⟩
      have changed : (c.pushLevNet n s).updated n (fun σ => some (s.value2 n σ)) = true := by
        by_contra unchanged
        rw [Bool.not_eq_true, XidState.updated_eq_false_iff] at unchanged
        exact both ((s.flagBoth_iff n).mpr fun σ => unchanged σ rfl)
      have less := (unset_fill (s := c.pushLevNet n s) hn fun σ => some (s.value2 n σ)).2 changed
      have same : c.unset (c.pushLevNet n s) = c.unset s := rfl
      have total : (c.pushLevNet n s).xidLev.total = s.xidLev.total + 1 := rfl
      have queue : (c.pushLevNet n s).queue = s.queue := rfl
      simp only [potential, XidState.xidLev_fill, XidState.queue_fill, total, queue]
      omega
    · intro σ
      rw [XidState.flag_fill_self]
      simp

end Operations

end Netlist

end SafRprGen
