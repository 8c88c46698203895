/-
Module: SafRprGen.Fdp.NormalScope
Layer: Fdp
Purpose: The scope of the good-circuit clauses (`normal_scope.c`): the observed outputs in the fanout of
  the fault become `TPO`, `detection` is their fan-in cone and `needed` also has the cone of the
  excitation net. Nets are marked when they enter the stack.
Main exports: normalScopeBuild, ScopeBuilt, normalScopeBuild_spec
-/
import SafRprGen.Fdp.FaultyCircuit

namespace SafRprGen

open Search

/-- The bitmap `needed` and the stack of `normal_scope.c`, top first. -/
abbrev ScopeState := (Nat → Bool) × List Nat

/-- `mark`. -/
def scopeMark (s : ScopeState) (gate : Nat) : ScopeState :=
  if s.1 gate then s else (Function.update s.1 gate true, gate :: s.2)

namespace Netlist

variable (c : Netlist)

/-- One pass of the loop of `close_inputs`. -/
def closeInputsPass (s : ScopeState) : Option ScopeState :=
  match s.2 with
  | [] => none
  | gate :: rest =>
      if c.type gate = .IN then some (s.1, rest)
      else some ((c.ins gate).foldl scopeMark (s.1, rest))

/-- `close_inputs`. -/
def closeInputs (s : ScopeState) : Option ScopeState :=
  Loop.whileLoop c.closeInputsPass (c.nNet + s.2.length + 1) s

/-- The output loop of `NormalScopeBuild`. -/
def scopeOutput (s : Globals × ScopeState) (o : Nat) : Globals × ScopeState :=
  if !s.1.tfo o || s.1.tpo o then s
  else
    ({ s.1 with tpo := Function.update s.1.tpo o true, numtranpo := s.1.numtranpo + 1 },
      scopeMark s.2 o)

/-- `NormalScopeBuild`. -/
def normalScopeBuild (m : FaultModel) (f : FNODE) (g : Globals) : Option Globals :=
  let g := { g with tpo := fun _ => false, numtranpo := 0 }
  let (g, s) := (c.observed m).foldl scopeOutput (g, (fun _ => false, []))
  (c.closeInputs s).bind fun s =>
    let detection := s.1
    let needed := match f.excNetptr with
      | none => some s
      | some exc => c.closeInputs (scopeMark s exc)
    needed.map fun s =>
      { g with detection := some detection, needed := some s.1, instances := g.instances + 1 }

variable {c}

/-! ### Closing under fan-in -/

/-- The stack has distinct marked nets of the netlist, and the marked nets off the stack are expanded. -/
structure ScopeInv (c : Netlist) (roots : Nat → Prop) (s : ScopeState) : Prop where
  frontier : Frontier c.ins roots (fun n => s.1 n = true ∧ n ∉ s.2) s.2
  onStack : ∀ n ∈ s.2, s.1 n = true
  nodup : s.2.Nodup
  low : ∀ n, s.1 n = true → n < c.nNet

/-- The nets not marked yet. -/
def unmarked (c : Netlist) (needed : Nat → Bool) : Nat :=
  ((Finset.range c.nNet).filter fun n => needed n = false).card

theorem unmarked_update (needed : Nat → Bool) {n : Nat} (hn : n < c.nNet) (new : needed n = false) :
    c.unmarked needed = c.unmarked (Function.update needed n true) + 1 := by
  have split : (Finset.range c.nNet).filter (fun k => needed k = false) =
      insert n ((Finset.range c.nNet).filter fun k => Function.update needed n true k = false) := by
    ext k
    by_cases h : k = n
    · simp [h, hn, new]
    · simp [h]
  unfold unmarked
  rw [split, Finset.card_insert_of_notMem (by simp)]

/-- Marking a list of nets: which are marked and which are on the stack afterwards. -/
theorem foldl_scopeMark :
    ∀ (ns : List Nat) (s : ScopeState), (∀ n ∈ s.2, s.1 n = true) → s.2.Nodup →
      (∀ n ∈ ns, n < c.nNet) →
      let s' := ns.foldl scopeMark s
      (∀ n, s'.1 n = true ↔ s.1 n = true ∨ n ∈ ns) ∧
        (∀ n, n ∈ s'.2 ↔ n ∈ s.2 ∨ n ∈ ns ∧ s.1 n = false) ∧ s'.2.Nodup ∧
        s'.2.length + c.unmarked s'.1 = s.2.length + c.unmarked s.1 := by
  intro ns
  induction ns with
  | nil => intro s _ nodup _; simp [nodup]
  | cons n ns ih =>
      intro s onStack nodup low
      have hn : n < c.nNet := low n List.mem_cons_self
      have lowRest : ∀ k ∈ ns, k < c.nNet := fun k hk => low k (List.mem_cons_of_mem _ hk)
      rw [List.foldl_cons]
      cases marked : s.1 n with
      | true =>
          have here : scopeMark s n = s := by simp [scopeMark, marked]
          rw [here]
          obtain ⟨h1, h2, h3, h4⟩ := ih s onStack nodup lowRest
          refine ⟨fun k => ?_, fun k => ?_, h3, h4⟩
          · rw [h1 k, List.mem_cons]
            by_cases h : k = n
            · simp [h, marked]
            · simp [h]
          · rw [h2 k, List.mem_cons]
            by_cases h : k = n
            · simp [h, marked]
            · simp [h]
      | false =>
          have here : scopeMark s n = (Function.update s.1 n true, n :: s.2) := by
            simp [scopeMark, marked]
          have fresh : n ∉ s.2 := fun h => by
            rw [onStack n h] at marked
            cases marked
          have onStack' : ∀ k ∈ n :: s.2, Function.update s.1 n true k = true := by
            intro k hk
            by_cases h : k = n
            · simp [h]
            · rw [Function.update_of_ne h]
              exact onStack k ((List.mem_cons.mp hk).resolve_left h)
          rw [here]
          obtain ⟨h1, h2, h3, h4⟩ := ih (Function.update s.1 n true, n :: s.2) onStack'
            (List.nodup_cons.mpr ⟨fresh, nodup⟩) lowRest
          refine ⟨fun k => ?_, fun k => ?_, h3, ?_⟩
          · rw [h1 k, List.mem_cons]
            by_cases h : k = n
            · simp [h]
            · simp [h]
          · rw [h2 k, List.mem_cons, List.mem_cons]
            by_cases h : k = n
            · simp [h, marked]
            · simp [h]
          · simp only [List.length_cons] at h4
            have := unmarked_update s.1 hn marked
            omega

theorem ScopeInv.pass {m : FaultModel} (graph : c.Searchable m) {roots : Nat → Prop} {s s' : ScopeState}
    (inv : ScopeInv c roots s) (next : c.closeInputsPass s = some s') :
    ScopeInv c roots s' ∧ s'.2.length + c.unmarked s'.1 < s.2.length + c.unmarked s.1 := by
  obtain ⟨needed, stack⟩ := s
  obtain ⟨frontier, onStack, nodup, low⟩ := inv
  cases stack with
  | nil => simp [closeInputsPass] at next
  | cons gate rest =>
      simp only at frontier onStack nodup low
      have marked : needed gate = true := onStack gate List.mem_cons_self
      have hgate : gate < c.nNet := low gate marked
      have insLow : ∀ i ∈ c.ins gate, i < c.nNet := graph.insLt gate hgate
      obtain ⟨offRest, nodupRest⟩ := List.nodup_cons.mp nodup
      have onRest : ∀ n ∈ rest, needed n = true := fun n hn => onStack n (List.mem_cons_of_mem _ hn)
      -- an input net has no fan-in, so skipping it is the same as marking its inputs
      have both : s' = (c.ins gate).foldl scopeMark (needed, rest) := by
        simp only [closeInputsPass] at next
        split at next
        · rename_i isIn
          rw [graph.inputs gate hgate isIn]
          exact (Option.some.inj next).symm
        · exact (Option.some.inj next).symm
      obtain ⟨h1, h2, h3, h4⟩ := foldl_scopeMark (c := c) (c.ins gate) (needed, rest) onRest nodupRest
        insLow
      rw [← both] at h1 h2 h3 h4
      simp only at h1 h2 h4
      refine ⟨⟨frontier.visit ?_ ?_ ?_ ?_, ?_, h3, ?_⟩, ?_⟩
      · intro k hk
        by_cases pending : k ∈ s'.2
        · exact .inr pending
        · refine .inl ⟨(h1 k).mpr (.inl ?_), pending⟩
          rcases hk with hk | rfl | hk
          · exact hk.1
          · exact marked
          · exact onRest k hk
      · rintro k ⟨hk, notPending⟩
        rw [h2 k] at notPending
        push Not at notPending
        by_cases h : k = gate
        · exact .inr h
        · refine .inl ⟨?_, ?_⟩
          · rcases (h1 k).mp hk with hk | hk
            · exact hk
            · simpa using notPending.2 hk
          · simp [h, notPending.1]
      · intro k hk
        by_cases pending : k ∈ s'.2
        · exact .inr pending
        · exact .inl ⟨(h1 k).mpr (.inr hk), pending⟩
      · intro k hk
        rcases (h2 k).mp hk with hk | hk
        · exact .inr (.inl hk)
        · exact .inr (.inr hk.1)
      · intro k hk
        rcases (h2 k).mp hk with hk | hk
        · exact (h1 k).mpr (.inl (onRest k hk))
        · exact (h1 k).mpr (.inr hk.1)
      · intro k hk
        rcases (h1 k).mp hk with hk | hk
        · exact low k hk
        · exact insLow k hk
      · rw [h4]
        simp

theorem closeInputs_spec {m : FaultModel} (graph : c.Searchable m) {roots : Nat → Prop} {s : ScopeState}
    (inv : ScopeInv c roots s) :
    ∃ needed, c.closeInputs s = some (needed, []) ∧ ∀ n, needed n = true ↔ Reach c.ins roots n := by
  have bound : c.unmarked s.1 ≤ c.nNet := by
    simpa [unmarked] using Finset.card_filter_le (Finset.range c.nNet) (fun n => s.1 n = false)
  obtain ⟨⟨needed, stack⟩, run, inv', exit⟩ := Loop.whileLoop_total (ScopeInv c roots)
    (fun s => s.2.length + c.unmarked s.1) (fun _ _ inv next => inv.pass graph next)
    (c.nNet + s.2.length + 1) s inv (by omega)
  have empty : stack = [] := by
    cases stack with
    | nil => rfl
    | cons gate rest =>
        simp only [closeInputsPass] at exit
        split at exit <;> cases exit
  subst empty
  refine ⟨needed, run, fun n => ?_⟩
  have := inv'.frontier.done n
  simpa using this

/-- Marking one more root. -/
theorem ScopeInv.mark {roots roots' : Nat → Prop} {s : ScopeState} (inv : ScopeInv c roots s) {o : Nat}
    (ho : o < c.nNet) (more : ∀ n, roots' n ↔ roots n ∨ n = o) :
    ScopeInv c roots' (scopeMark s o) := by
  obtain ⟨needed, stack⟩ := s
  obtain ⟨frontier, onStack, nodup, low⟩ := inv
  simp only at frontier onStack nodup low
  have wider : ∀ n, Reach c.ins roots n → Reach c.ins roots' n :=
    fun n => Reach.mono fun r hr => (more r).mpr (.inl hr)
  cases marked : needed o with
  | true =>
      have here : scopeMark (needed, stack) o = (needed, stack) := by simp [scopeMark, marked]
      rw [here]
      refine ⟨⟨?_, frontier.expanded, fun n hn => wider n (frontier.sound n hn)⟩, onStack, nodup, low⟩
      intro r hr
      rcases (more r).mp hr with hr | rfl
      · exact frontier.start r hr
      · by_cases pending : r ∈ stack
        · exact .inr pending
        · exact .inl ⟨marked, pending⟩
  | false =>
      have here : scopeMark (needed, stack) o = (Function.update needed o true, o :: stack) := by
        simp [scopeMark, marked]
      have fresh : o ∉ stack := fun h => by
        rw [onStack o h] at marked
        cases marked
      have later : ∀ n, (needed n = true ∧ n ∉ stack) ∨ n ∈ stack →
          (Function.update needed o true n = true ∧ n ∉ o :: stack) ∨ n ∈ o :: stack := by
        intro n hn
        by_cases h : n = o
        · exact .inr (by simp [h])
        · simpa [h] using hn
      have earlier : ∀ n, Function.update needed o true n = true ∧ n ∉ o :: stack →
          needed n = true ∧ n ∉ stack := by
        rintro n ⟨hn, off⟩
        simp only [List.mem_cons, not_or] at off
        rw [Function.update_of_ne off.1] at hn
        exact ⟨hn, off.2⟩
      rw [here]
      refine ⟨⟨?_, ?_, ?_⟩, ?_, List.nodup_cons.mpr ⟨fresh, nodup⟩, ?_⟩
      · intro r hr
        rcases (more r).mp hr with hr | rfl
        · exact later r (frontier.start r hr)
        · exact .inr List.mem_cons_self
      · intro n hn k hk
        exact later k (frontier.expanded n (earlier n hn) k hk)
      · rintro n (hn | hn)
        · exact wider n (frontier.sound n (.inl (earlier n hn)))
        · rcases List.mem_cons.mp hn with rfl | hn
          · exact .root ((more n).mpr (.inr rfl))
          · exact wider n (frontier.sound n (.inr hn))
      · intro n hn
        by_cases h : n = o
        · simp [h]
        · simp only [Function.update_of_ne h]
          exact onStack n ((List.mem_cons.mp hn).resolve_left h)
      · intro n hn
        by_cases h : n = o
        · exact h ▸ ho
        · simp only [Function.update_of_ne h] at hn
          exact low n hn

/-! ### The scope of a fault -/

/-- What `NormalScopeBuild` leaves. -/
structure ScopeBuilt (c : Netlist) (m : FaultModel) (f : FNODE) (g₀ g : Globals) : Prop where
  frame : g = { g₀ with
    tpo := g.tpo, numtranpo := g.numtranpo, detection := g.detection, needed := g.needed
    instances := g₀.instances + 1 }
  tpo : ∀ n, g.tpo n = true ↔ n ∈ c.observed m ∧ g₀.tfo n = true
  count : g.numtranpo = ((List.range c.nNet).filter g.tpo).length
  detection : ∀ n, g.normalScopeInDetectionCone n = true ↔
    Reach c.ins (fun o => g.tpo o = true) n
  needed : ∀ n, g.normalScopeRequiredNet n = true ↔
    Reach c.ins (fun o => g.tpo o = true ∨ f.excNetptr = some o) n

/-- The output loop after the outputs `seen`. -/
private structure OutputInv (c : Netlist) (g₀ : Globals) (seen : List Nat)
    (s : Globals × ScopeState) : Prop where
  frame : s.1 = { g₀ with tpo := s.1.tpo, numtranpo := s.1.numtranpo }
  tpo : ∀ n, s.1.tpo n = true ↔ n ∈ seen ∧ g₀.tfo n = true
  count : ∃ marked : List Nat, marked.Nodup ∧ (∀ n, n ∈ marked ↔ s.1.tpo n = true) ∧
    s.1.numtranpo = marked.length
  scope : ScopeInv c (fun o => s.1.tpo o = true) s.2

private theorem OutputInv.step {g₀ : Globals} {seen : List Nat} {o : Nat} {s : Globals × ScopeState}
    (inv : OutputInv c g₀ seen s) (ho : o < c.nNet) :
    OutputInv c g₀ (seen ++ [o]) (scopeOutput s o) := by
  obtain ⟨frame, tpo, ⟨marked, nodup, mem, count⟩, scope⟩ := inv
  have tfo : s.1.tfo = g₀.tfo := by rw [frame]
  by_cases stays : (!s.1.tfo o || s.1.tpo o) = true
  · have here : scopeOutput s o = s := by simp only [scopeOutput, stays, if_true]
    rw [here]
    refine ⟨frame, fun n => ?_, ⟨marked, nodup, mem, count⟩, scope⟩
    rw [tpo n, List.mem_append, List.mem_singleton]
    constructor
    · exact fun h => ⟨.inl h.1, h.2⟩
    · rintro ⟨h | rfl, hn⟩
      · exact ⟨h, hn⟩
      · rw [tfo, hn] at stays
        exact (tpo n).mp (by simpa using stays)
  · have here : scopeOutput s o =
        ({ s.1 with tpo := Function.update s.1.tpo o true, numtranpo := s.1.numtranpo + 1 },
          scopeMark s.2 o) := by
      simp only [scopeOutput, stays]
      rfl
    simp only [Bool.or_eq_true, Bool.not_eq_true', not_or, Bool.not_eq_false, Bool.not_eq_true,
      tfo] at stays
    have entry : ∀ n, Function.update s.1.tpo o true n = true ↔ s.1.tpo n = true ∨ n = o := by
      intro n
      by_cases h : n = o
      · simp [h]
      · simp [h]
    rw [here]
    refine ⟨?_, fun n => ?_, ⟨o :: marked, ?_, fun n => ?_, ?_⟩, scope.mark ho entry⟩
    · simp only
      rw [frame]
    · simp only [entry n, tpo n, List.mem_append, List.mem_singleton]
      constructor
      · rintro (h | rfl)
        · exact ⟨.inl h.1, h.2⟩
        · exact ⟨.inr rfl, stays.1⟩
      · rintro ⟨h | rfl, hn⟩
        · exact .inl ⟨h, hn⟩
        · exact .inr rfl
    · refine List.nodup_cons.mpr ⟨fun h => ?_, nodup⟩
      rw [(mem o).mp h] at stays
      exact absurd stays.2 (by simp)
    · simp only [entry n, List.mem_cons, mem n]
      exact or_comm
    · simp [count]

theorem normalScopeBuild_spec {m : FaultModel} (graph : c.Searchable m) {f : FNODE}
    (exc : ∀ e ∈ f.excNetptr, e < c.nNet) (g : Globals) :
    ∃ g', c.normalScopeBuild m f g = some g' ∧ ScopeBuilt c m f g g' := by
  let g₁ : Globals := { g with tpo := fun _ => false, numtranpo := 0 }
  have start : OutputInv c g₁ [] (g₁, (fun _ => false, [])) := by
    refine ⟨rfl, by simp [g₁], ⟨[], by simp, by simp [g₁], rfl⟩, ⟨⟨?_, ?_, ?_⟩, ?_, ?_, ?_⟩⟩ <;>
      simp [g₁]
  have loop := Loop.foldl_inv scopeOutput (OutputInv c g₁) (c.observed m) start
    (fun seen o rest s split inv =>
      inv.step (graph.observedLt o (by rw [split]; simp)))
  generalize hloop : (c.observed m).foldl scopeOutput (g₁, (fun _ => false, [])) = s at loop
  obtain ⟨g₂, scope⟩ := s
  obtain ⟨frame, tpo, ⟨marked, nodup, mem, count⟩, scopeInv⟩ := loop
  simp only at frame tpo mem count scopeInv
  obtain ⟨detection, closed, inCone⟩ := closeInputs_spec graph scopeInv
  have counted : g₂.numtranpo = ((List.range c.nNet).filter g₂.tpo).length := by
    rw [count]
    refine (List.perm_of_nodup_nodup_toFinset_eq nodup (List.nodup_range.filter _) ?_).length_eq
    ext n
    have low : g₂.tpo n = true → n < c.nNet := fun h => graph.observedLt n ((tpo n).mp h).1
    simp only [List.mem_toFinset, mem n, List.mem_filter, List.mem_range]
    exact ⟨fun h => ⟨low h, h⟩, fun h => h.2⟩
  have second : ∃ needed, (match f.excNetptr with
        | none => some (detection, [])
        | some exc => c.closeInputs (scopeMark (detection, []) exc)) = some (needed, []) ∧
      ∀ n, needed n = true ↔ Reach c.ins (fun o => g₂.tpo o = true ∨ f.excNetptr = some o) n := by
    cases hexc : f.excNetptr with
    | none => exact ⟨detection, rfl, fun n => by simpa using inCone n⟩
    | some e =>
        have done : ScopeInv c (fun o => g₂.tpo o = true) (detection, []) := by
          refine ⟨⟨fun r hr => .inl ⟨(inCone r).mpr (.root hr), by simp⟩, ?_, ?_⟩, by simp, by simp, ?_⟩
          · rintro n ⟨hn, -⟩ k hk
            exact .inl ⟨(inCone k).mpr (((inCone n).mp hn).edge hk), by simp⟩
          · rintro n (⟨hn, -⟩ | hn)
            · exact (inCone n).mp hn
            · exact absurd hn List.not_mem_nil
          · intro n hn
            refine Reach.induction (P := (· < c.nNet)) ?_ ?_ ((inCone n).mp hn)
            · exact fun r hr => graph.observedLt r ((tpo r).mp hr).1
            · exact fun a b _ ha hb => graph.insLt a ha b hb
        exact closeInputs_spec graph
          (done.mark (exc e hexc)
            (fun n => or_congr_right (by rw [Option.some.injEq]; exact eq_comm)))
  obtain ⟨needed, closed', inScope⟩ := second
  refine ⟨{ g₂ with
    detection := some detection, needed := some needed, instances := g₂.instances + 1 }, ?_, ?_⟩
  · simp only [normalScopeBuild]
    rw [show (c.observed m).foldl scopeOutput
        ({ g with tpo := fun _ => false, numtranpo := 0 }, (fun _ => false, [])) = (g₂, scope) from hloop]
    simp only [closed, Option.bind_some, closed', Option.map_some]
  · refine ⟨?_, ?_, counted, inCone, inScope⟩
    · simp only
      rw [frame]
    · exact tpo

end Netlist

end SafRprGen
