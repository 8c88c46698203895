/-
Module: SafRprGen.Fault.Collapse
Layer: Fault
Purpose: Structural collapsing is exact. A gate input has the gate as its only fanout and is not observed,
  so a value at the input that decides the gate and the value it gives at the output have the same effect
  everywhere else. Nothing here needs an acyclic netlist: detection is said of consistent values of all
  nets, which are unique when there are no cycles.
Main exports: Valuation, DetectsFrom, detectsFrom_iff, CollapseGraph, structuralClasses_exact
-/
import SafRprGen.Fault.Equivalence
import SafRprGen.Netlist.Detect
import SafRprGen.Netlist.ReadGraph

namespace SafRprGen

namespace Netlist

/-- Consistent values of all nets, from those of the inputs and flip-flops and with some nets forced. -/
def Valuation (c : Netlist) (source : Nat → Bool) (forced : Nat → Option Bool) (u : Nat → Bool) : Prop :=
  ∀ n < c.nNet, u n = c.op source forced n ((c.deps n).map u)

/-- The fault is detected at these inputs: consistent values of the good and of the faulty circuit differ
at an observed net, and the good ones excite the fault. -/
def DetectsFrom (c : Netlist) (m : FaultModel) (f : FNODE) (source : Nat → Bool) : Prop :=
  ∃ u w, c.Valuation source (fun _ => none) u ∧
    c.Valuation source (forcedAt f.netptr f.type.stuck) w ∧ (∃ o ∈ c.observed m, u o ≠ w o) ∧
    ∀ e ∈ f.excNetptr, u e = f.type.stuck ∧ u f.netptr = !f.type.stuck

/-- The excitation net that `CreateFaultNode` sets. -/
def excitation (c : Netlist) (m : FaultModel) (n : Nat) : Option Nat :=
  match m with
  | .SAF => none
  | .TDF => c.peer1t n

/-- The fault of an entry. -/
def entryFault (c : Netlist) (m : FaultModel) (a : Nat × FaultType) : FNODE :=
  ⟨[], c.name a.1, a.2, a.1, c.excitation m a.1⟩

variable {c : Netlist} {m : FaultModel} {source : Nat → Bool} {i o : Nat} {b b' : Bool}

/-- Without cycles this is detection by the assignment. -/
theorem detectsFrom_iff (acyclic : Dag.Acyclic c.nNet c.deps) (observed : ∀ o ∈ c.observed m, o < c.nNet)
    {f : FNODE} (site : f.netptr < c.nNet) (exc : ∀ e ∈ f.excNetptr, e < c.nNet) (x : c.Assignment) :
    c.DetectsFrom m f (c.piValue x) ↔ c.Detects m f x := by
  have only : ∀ {forced u}, c.Valuation (c.piValue x) forced u →
      ∀ n < c.nNet, u n = c.value (c.piValue x) forced n :=
    fun valuation => Dag.eval_unique acyclic valuation
  have solves : ∀ forced, c.Valuation (c.piValue x) forced (c.value (c.piValue x) forced) :=
    fun forced n hn => Dag.eval_eq acyclic hn
  constructor
  · rintro ⟨u, w, good, faulty, ⟨p, mem, differ⟩, excited⟩
    refine ⟨⟨p, mem, ?_⟩, fun e he => ?_⟩
    · rw [only good p (observed p mem), only faulty p (observed p mem)] at differ
      exact differ
    · obtain ⟨first, second⟩ := excited e he
      rw [only good e (exc e he)] at first
      rw [only good f.netptr site] at second
      exact ⟨first, second⟩
  · rintro ⟨differ, excited⟩
    exact ⟨_, _, solves _, solves _, differ, excited⟩

/-! ### The input and the output of a gate -/

section Swap

variable (reader : ∀ n < c.nNet, i ∈ c.ins n → n = o) (comb : (c.type o).isSource = false)
  (decides : ∀ u : Nat → Bool, u i = b → (c.type o).fn ((c.ins o).map u) = b')

include reader

/-- Only the gate sees a change of its input. -/
theorem deps_update {n : Nat} (hn : n < c.nNet) (other : n ≠ o) (u : Nat → Bool) (v : Bool) :
    (c.deps n).map (Function.update u i v) = (c.deps n).map u := by
  refine List.map_congr_left fun k hk => Function.update_of_ne ?_ _ _
  rintro rfl
  apply other
  unfold deps at hk
  split at hk
  · exact absurd hk List.not_mem_nil
  · exact reader n hn hk

include comb decides

/-- The input stuck at the deciding value looks like the output stuck at what it gives. -/
theorem Valuation.toOutput (low : i < c.nNet) {w : Nat → Bool}
    (faulty : c.Valuation source (forcedAt i b) w) (ho : o < c.nNet) :
    ∃ w', c.Valuation source (forcedAt o b') w' ∧ ∀ p ≠ i, w' p = w p := by
  have stuck : w i = b := by
    have at_i := faulty i low
    rwa [op, forcedAt, if_pos rfl] at at_i
  by_cases loop : i = o
  · subst loop
    refine ⟨Function.update w i b', fun n hn => ?_, fun p other => Function.update_of_ne other _ _⟩
    by_cases here : n = i
    · subst here
      rw [Function.update_self, op, forcedAt, if_pos rfl]
    · rw [Function.update_of_ne here, deps_update reader hn here, faulty n hn, op, op, forcedAt, forcedAt,
        if_neg here, if_neg here]
  · have out : w o = b' := by
      have at_o := faulty o ho
      rw [op, forcedAt, if_neg (Ne.symm loop)] at at_o
      dsimp only at at_o
      rw [if_neg (by rw [comb]; decide), deps, if_neg (by rw [comb]; decide), decides w stuck] at at_o
      exact at_o
    refine ⟨Function.update w i (c.op source (fun _ => none) i ((c.deps i).map w)), fun n hn => ?_,
      fun p other => Function.update_of_ne other _ _⟩
    by_cases here : n = i
    · subst here
      rw [Function.update_self, deps_update reader hn loop, op, op, forcedAt, if_neg loop]
    · rw [Function.update_of_ne here]
      by_cases atOut : n = o
      · subst atOut
        rw [out, op, forcedAt, if_pos rfl]
      · rw [deps_update reader hn atOut, faulty n hn, op, op, forcedAt, forcedAt, if_neg here, if_neg atOut]

/-- And the other way round. -/
theorem Valuation.toInput {w : Nat → Bool} (faulty : c.Valuation source (forcedAt o b') w)
    (ho : o < c.nNet) :
    ∃ w', c.Valuation source (forcedAt i b) w' ∧ ∀ p ≠ i, w' p = w p := by
  have stuck : w o = b' := by
    have at_o := faulty o ho
    rwa [op, forcedAt, if_pos rfl] at at_o
  refine ⟨Function.update w i b, fun n hn => ?_, fun p other => Function.update_of_ne other _ _⟩
  by_cases here : n = i
  · subst here
    rw [Function.update_self, op, forcedAt, if_pos rfl]
  · rw [Function.update_of_ne here]
    by_cases atOut : n = o
    · subst atOut
      rw [stuck, op, forcedAt, if_neg here]
      dsimp only
      rw [if_neg (by rw [comb]; decide), deps, if_neg (by rw [comb]; decide),
        decides _ (Function.update_self _ _ _)]
    · rw [deps_update reader hn atOut, faulty n hn, op, op, forcedAt, forcedAt, if_neg here, if_neg atOut]

end Swap

/-- A pair of faults at the only reader of a net that is not observed has one detection set, when both are
excited by the same values. -/
theorem detectsFrom_pair {t t' : FaultType} (low : i < c.nNet) (ho : o < c.nNet)
    (reader : ∀ n < c.nNet, i ∈ c.ins n → n = o) (unobserved : i ∉ c.observed m)
    (comb : (c.type o).isSource = false)
    (decides : ∀ u : Nat → Bool, u i = t.stuck → (c.type o).fn ((c.ins o).map u) = t'.stuck)
    (excite : ∀ u, c.Valuation source (fun _ => none) u →
      ((∀ e ∈ c.excitation m i, u e = t.stuck ∧ u i = !t.stuck) ↔
        ∀ e ∈ c.excitation m o, u e = t'.stuck ∧ u o = !t'.stuck)) :
    c.DetectsFrom m (c.entryFault m (i, t)) source ↔ c.DetectsFrom m (c.entryFault m (o, t')) source := by
  have elsewhere : ∀ {p}, p ∈ c.observed m → p ≠ i := by
    rintro p mem rfl
    exact unobserved mem
  constructor
  · rintro ⟨u, w, good, faulty, ⟨p, mem, differ⟩, excited⟩
    obtain ⟨w', faulty', same⟩ := faulty.toOutput reader comb decides low ho
    refine ⟨u, w', good, faulty', ⟨p, mem, ?_⟩, (excite u good).mp excited⟩
    rw [same p (elsewhere mem)]
    exact differ
  · rintro ⟨u, w, good, faulty, ⟨p, mem, differ⟩, excited⟩
    obtain ⟨w', faulty', same⟩ := faulty.toInput reader comb decides ho
    refine ⟨u, w', good, faulty', ⟨p, mem, ?_⟩, (excite u good).mpr excited⟩
    rw [same p (elsewhere mem)]
    exact differ

/-- The input's stuck value of a structural pair gives the output's. -/
theorem structuralPairs_decide {pair : Nat × FaultType × FaultType} (mem : pair ∈ c.structuralPairs m o)
    (single : c.type o = .BUF ∨ c.type o = .INV → c.ins o ≠ []) :
    (c.type o).isSource = false ∧
      ∀ u : Nat → Bool, u pair.1 = pair.2.1.stuck → (c.type o).fn ((c.ins o).map u) = pair.2.2.stuck := by
  unfold structuralPairs at mem
  split at mem
  · exact absurd mem List.not_mem_nil
  · cases type : c.type o with
    | BUF | INV =>
        obtain ⟨i, rest, ins⟩ := List.exists_cons_of_ne_nil (single (by simp [type]))
        simp only [type, ins, List.getD_cons_zero, List.mem_cons, List.not_mem_nil, or_false] at mem
        rw [ins]
        rcases mem with rfl | rfl <;>
          exact ⟨rfl, fun u value => by simp [GateType.fn, value, FaultType.stuck]⟩
    | AND | NAND | OR | NOR =>
        simp only [type, List.mem_map] at mem
        obtain ⟨i, hi, rfl⟩ := mem
        refine ⟨rfl, fun u value => ?_⟩
        have here : u i ∈ (c.ins o).map u := List.mem_map_of_mem hi
        rw [value] at here
        dsimp only [FaultType.stuck] at here
        rw [GateType.fn_eq_ctrl rfl, if_pos here]
        rfl
    | _ =>
        simp only [type] at mem
        exact absurd mem List.not_mem_nil

/-! ### The classes -/

/-- What makes every structural pair exact. -/
structure CollapseGraph (c : Netlist) (m : FaultModel) : Prop extends PairGraph c where
  pairs : ∀ o < c.nNet, ∀ pair ∈ c.structuralPairs m o, ∀ source,
    c.DetectsFrom m (c.entryFault m (pair.1, pair.2.1)) source ↔
      c.DetectsFrom m (c.entryFault m (o, pair.2.2)) source

/-- Faults of one class are detected by the same inputs. -/
theorem CollapseGraph.closure (graph : CollapseGraph c m) {a b : Nat}
    (joined : UnionFind.Closure ((c.structuralFaults m).map pairIds) a b) (source : Nat → Bool) :
    c.DetectsFrom m (c.entryFault m (memberNet a, memberType a)) source ↔
      c.DetectsFrom m (c.entryFault m (memberNet b, memberType b)) source := by
  induction joined with
  | rel a b pair =>
      obtain ⟨⟨⟨i, t⟩, ⟨o, t'⟩⟩, mem, same⟩ := List.mem_map.mp pair
      obtain ⟨ho, mem⟩ := mem_structuralFaults.mp mem
      rw [pairIds, Prod.mk.injEq] at same
      obtain ⟨rfl, rfl⟩ := same
      simp only [memberNet_faultId, memberType_faultId]
      exact graph.pairs o ho _ mem source
  | refl a => exact Iff.rfl
  | symm a b _ ih => exact ih.symm
  | trans a b c _ _ ih ih' => exact ih.trans ih'

theorem IsFault.excNetptr_eq {f : FNODE} (fault : c.IsFault m f) :
    f.excNetptr = c.excitation m f.netptr := by
  cases m with
  | SAF => exact fault.saf rfl
  | TDF => exact (fault.tdf rfl).1

theorem detectsFrom_entry {f : FNODE} (fault : c.IsFault m f) (source : Nat → Bool) :
    c.DetectsFrom m f source ↔ c.DetectsFrom m (c.entryFault m (f.netptr, f.type)) source := by
  unfold DetectsFrom
  rw [fault.excNetptr_eq]
  exact Iff.rfl

end Netlist

/-! ### The netlists that are built -/

section Built

open Netlist

variable {records : List GateRecord} {ports : List (Bool × CStr)} {s : Signals} {gates : List Wires}
  {w : Wiring}

/-- A stuck-at fault needs no excitation, and what a gate reads has one fanout and is no port. -/
theorem Loaded.collapseGraph (loaded : Loaded records ports s gates)
    (refines : Refines s.nNet (allocNIn gates) (allocNOut s) w (wired s gates)) :
    CollapseGraph (w.netlist s.pi) .SAF := by
  have parsed := loaded.parsed
  have linked := parsed.shape.linked
  have nNet : (w.netlist s.pi).nNet = (wired s gates).nNet := by
    rw [Wiring.netlist_nNet, refines.nNet]
  have ins := refines.netlist_ins linked s.pi
  have cases := fun n (low : n < (w.netlist s.pi).nNet) =>
    loaded.netlist_cases refines ((w.netlist_nNet s.pi) ▸ low)
  have graph : PairGraph (w.netlist s.pi) := by
    refine ⟨fun n low i edge => ?_, fun n low type => ?_⟩
    · rw [ins] at edge
      exact nNet ▸ (linked.lt (linked.mem_iff.mpr edge)).1
    · rcases cases n low with ⟨-, -, some⟩ | ⟨-, r, -, -, some, -⟩ | ⟨-, free⟩
      · exact some
      · exact some
      · rcases type with type | type <;> rcases free with free | free <;> rw [type] at free <;> cases free
  refine ⟨graph, fun o ho pair mem source => ?_⟩
  have edge := mem_structuralPairs_ins graph ho mem
  obtain ⟨comb, decides⟩ := structuralPairs_decide mem (graph.single o ho)
  -- the gate is a signal, not a branch
  have signal : o < s.nNet := by
    rcases cases o ho with ⟨-, type, -⟩ | ⟨signal, -⟩ | ⟨none, -⟩
    · simp [structuralPairs, type] at mem
    · exact signal
    · rw [none] at edge
      exact absurd edge List.not_mem_nil
  rw [ins] at edge
  obtain ⟨outs, free⟩ := parsed.gate_input signal edge
  refine detectsFrom_pair (graph.insLt o ho _ (by rw [ins]; exact edge)) ho ?_ ?_ comb decides ?_
  · intro n hn reads
    rw [ins] at reads
    have fanout := linked.mem_iff.mpr reads
    rw [outs] at fanout
    exact List.mem_singleton.mp fanout
  · change pair.1 ∉ w.po
    rw [refines.po]
    exact free
  · intro u _
    exact ⟨fun _ e he => (by cases he), fun _ e he => by cases he⟩

/-- A buffer or an inverter and what it reads. -/
structure Passes (o : Netlist) (n i : Nat) : Prop where
  low : n < o.nNet
  type : o.type n = .BUF ∨ o.type n = .INV
  reads : ∃ rest, o.ins n = i :: rest

namespace Passes

variable {o : Netlist} {n i : Nat} (passes : Passes o n i)

include passes

theorem type_ne {type : GateType} (ne : type ≠ .BUF) (ne' : type ≠ .INV) : o.type n ≠ type := by
  rcases passes.type with isType | isType
  · rw [isType]
    exact ne.symm
  · rw [isType]
    exact ne'.symm

theorem mem_ins : i ∈ o.ins n := by
  obtain ⟨rest, reads⟩ := passes.reads
  rw [reads]
  exact List.mem_cons_self

theorem expanded_type (frame : Frame) : o.expanded.type (netId o.type frame n) = o.type n := by
  rw [Netlist.expanded_type passes.low, if_neg (passes.type_ne (by decide) (by decide))]

theorem expanded_ins (frame : Frame) :
    o.expanded.ins (netId o.type frame n) = (o.ins n).map (netId o.type frame) := by
  rw [Netlist.expanded_ins passes.low, if_neg (passes.type_ne (by decide) (by decide)),
    if_neg (passes.type_ne (by decide) (by decide))]

/-- Both frames compute the same function of the input. -/
theorem value {source u : Nat → Bool} (good : o.expanded.Valuation source (fun _ => none) u)
    (frame : Frame) :
    u (netId o.type frame n) = xor (o.type n).inverts (u (netId o.type frame i)) := by
  have comb : (o.type n).isSource = false := by
    rcases passes.type with type | type <;> rw [type] <;> rfl
  obtain ⟨rest, reads⟩ := passes.reads
  have here := good _ (netId_lt_nNet passes.low frame)
  rw [op, deps, passes.expanded_ins, reads, passes.expanded_type] at here
  dsimp only at here
  rw [if_neg (by rw [comb]; decide), if_neg (by rw [comb]; decide)] at here
  rw [here]
  rcases passes.type with type | type <;> simp [type, GateType.fn, GateType.inverts]

end Passes

theorem expanded_excitation {o : Netlist} {n : Nat} (low : n < o.nNet) :
    o.expanded.excitation .TDF (netId o.type .two n) = some (netId o.type .one n) :=
  (expanded_peer1t low .two).trans (if_pos (.inr rfl))

/-- A transition at the input of a buffer or an inverter is one at its output. -/
theorem Passes.excite {o : Netlist} {n i : Nat} (passes : Passes o n i) (iLt : i < o.nNet) {t t' : FaultType}
    (stuck : t'.stuck = xor (o.type n).inverts t.stuck) {source u : Nat → Bool}
    (good : o.expanded.Valuation source (fun _ => none) u) :
    (∀ e ∈ o.expanded.excitation .TDF (netId o.type .two i), u e = t.stuck ∧
      u (netId o.type .two i) = !t.stuck) ↔
      ∀ e ∈ o.expanded.excitation .TDF (netId o.type .two n), u e = t'.stuck ∧
      u (netId o.type .two n) = !t'.stuck := by
  rw [expanded_excitation iLt, expanded_excitation passes.low, stuck]
  simp only [Option.mem_def, Option.some.injEq, forall_eq', passes.value good]
  generalize (o.type n).inverts = inverts
  generalize u (netId o.type .one i) = before
  generalize u (netId o.type .two i) = after
  generalize t.stuck = t
  cases inverts <;> cases before <;> cases after <;> cases t <;> decide

/-- The two frames of a shared input are one net, which has no transition. -/
theorem not_excited_shared {o : Netlist} {i : Nat} (iLt : i < o.nNet) (shared : o.type i = .IN)
    (t : FaultType) (u : Nat → Bool) : ¬ ∀ e ∈ o.expanded.excitation .TDF (netId o.type .two i),
      u e = t.stuck ∧ u (netId o.type .two i) = !t.stuck := by
  intro excited
  rw [expanded_excitation iLt] at excited
  obtain ⟨before, after⟩ := excited _ rfl
  rw [netId_IN shared .two, before] at after
  generalize t.stuck = t at after
  cases t <;> cases after

section Frames

variable {o : Netlist} (g : SequentialGraph o)

include g

theorem SequentialGraph.pairGraph : PairGraph o.expanded := by
  refine ⟨fun n low => g.expanded_insLt low, fun n low type => g.expanded_gates.2 n low ?_ ?_⟩
  · rcases type with type | type <;> rw [type] <;> decide
  · rcases type with type | type <;> rw [type] <;> decide

/-- A structural pair of transition faults is at the copy in frame 2 of a buffer or an inverter. -/
theorem SequentialGraph.passes_of_pair {k : Nat} {pair : Nat × FaultType × FaultType}
    (mem : pair ∈ o.expanded.structuralPairs .TDF k) :
    ∃ n i, Passes o n i ∧ k = netId o.type .two n ∧ pair.1 = netId o.type .two i ∧
      pair.2.2.stuck = xor (o.type n).inverts pair.2.1.stuck := by
  have crosses : o.expanded.transitionCrosses k = true := by
    by_contra barred
    rw [Bool.not_eq_true] at barred
    simp [structuralPairs, barred] at mem
  unfold transitionCrosses at crosses
  simp only [Bool.and_eq_true, Bool.or_eq_true, beq_iff_eq] at crosses
  obtain ⟨⟨type, peer⟩, -⟩ := crosses
  cases isPeer : o.expanded.peer1t k with
  | none =>
      rw [isPeer] at peer
      cases peer
  | some e =>
      rw [isPeer] at peer
      simp only [bne_iff_ne, ne_eq] at peer
      have hk : k < o.expanded.nNet := by
        by_contra high
        have net := net_of_le (Nat.le_of_not_lt high)
        rw [Netlist.type, net] at type
        rcases type with type | type <;> cases type
      obtain ⟨n, low, rfl, rfl⟩ := (SequentialGraph.expanded_peer hk e).mp isPeer
      -- the copy of a flip-flop is an input of the expansion
      have dff : o.type n ≠ .DFF := by
        intro dff
        rw [Netlist.expanded_type low, if_pos dff, if_pos rfl] at peer
        exact peer rfl
      rw [Netlist.expanded_type low, if_neg dff] at type
      have input : o.type n ≠ .IN := by rcases type with type | type <;> rw [type] <;> decide
      obtain ⟨i, rest, reads⟩ := List.exists_cons_of_ne_nil (g.gates n low input (by
        rcases type with type | type <;> rw [type] <;> decide))
      have passes : Passes o n i := ⟨low, type, rest, reads⟩
      refine ⟨n, i, passes, rfl, ?_⟩
      rcases type with type | type <;>
        simp only [structuralPairs, passes.expanded_type, type, passes.expanded_ins, reads, List.map_cons,
          List.getD_cons_zero] at mem ⊢ <;>
        split at mem <;> simp at mem <;> rcases mem with rfl | rfl <;> exact ⟨rfl, rfl⟩

/-- The only reader of a net that is no shared input. -/
theorem Passes.expanded_outs {n i : Nat} (passes : Passes o n i) (plain : o.type i ≠ .IN) :
    o.expanded.outs (netId o.type .two i) = [netId o.type .two n] := by
  have only := g.fanout n passes.low (passes.type_ne (by decide) (by decide)) i passes.mem_ins
  rw [Netlist.expanded_outs (g.insLt n passes.low i passes.mem_ins), if_neg plain,
    SequentialGraph.frameOuts_single only, if_neg (passes.type_ne (by decide) (by decide))]

/-- A transition fault crosses a buffer or an inverter of frame 2: both frames compute the same function,
so the input and the output are excited together. A shared input is never excited, nor is what reads it. -/
theorem SequentialGraph.collapseGraph : CollapseGraph o.expanded .TDF := by
  refine ⟨g.pairGraph, fun k hk pair mem source => ?_⟩
  have edge := mem_structuralPairs_ins g.pairGraph hk mem
  obtain ⟨comb, decides⟩ := structuralPairs_decide mem (g.pairGraph.single k hk)
  obtain ⟨n, i, passes, rfl, first, stuck⟩ := g.passes_of_pair mem
  have iLt := g.insLt n passes.low i passes.mem_ins
  have inLt := g.pairGraph.insLt _ hk _ edge
  rw [first] at edge decides inLt ⊢
  by_cases shared : o.type i = .IN
  · have never := not_excited_shared iLt shared pair.2.1
    constructor
    · rintro ⟨u, w, good, -, -, excited⟩
      exact absurd excited (never u)
    · rintro ⟨u, w, good, -, -, excited⟩
      exact absurd ((passes.excite iLt stuck good).mpr excited) (never u)
  · have outs := passes.expanded_outs g shared
    refine detectsFrom_pair inLt hk ?_ ?_ comb decides fun u good => passes.excite iLt stuck good
    · intro n' hn' isIn
      have fanout : n' ∈ o.expanded.outs (netId o.type .two i) := by
        rw [← List.count_pos_iff, g.expanded_inverse inLt hn', List.count_pos_iff]
        exact isIn
      rw [outs] at fanout
      exact List.mem_singleton.mp fanout
    · intro captured
      rcases g.expanded_ppo captured with ⟨p, -, input, isShared⟩ | none
      · exact shared ((netId_inj isShared).1 ▸ input)
      · rw [outs] at none
        cases none

end Frames

/-- Structural collapsing is exact. For every text that `read_nl` accepts, on the netlist it builds for
stuck-at faults and on its expansion for transition faults, `AddStructuralEquivalences` succeeds, and two
faults that it leaves with one root have one detection set: the same consistent values of inputs and states
detect them and, when there are no cycles, the same assignments. -/
theorem structuralClasses_exact (m : FaultModel) (text : List Char) (net : ReadNet) (c : Netlist)
    (read : readNl text = .ok net)
    (built : match m with
      | .SAF => c = net.wiring.netlist net.pi
      | .TDF => prepareCircuit .TDF net = some c)
    (s : FaultState) (fresh : s.forest = UnionFind.singletons) :
    ∃ s', c.addStructuralEquivalences m s = some s' ∧
      ∀ f f', c.IsFault m f → c.IsFault m f' → ∀ root,
        c.groupRoot s' (faultId f.netptr f.type) = some root →
        c.groupRoot s' (faultId f'.netptr f'.type) = some root →
        (∀ source, c.DetectsFrom m f source ↔ c.DetectsFrom m f' source) ∧
          (Dag.Acyclic c.nNet c.deps → ∀ x, c.Detects m f x ↔ c.Detects m f' x) := by
  obtain ⟨a, accepted⟩ : ∃ a, readFile text = .ok a := by
    unfold readNl at read
    cases accepted : readFile text with
    | error e =>
        rw [accepted] at read
        cases read
    | ok a => exact ⟨a, rfl⟩
  obtain ⟨-, -, -, -, ports, -, loaded⟩ := readFile_spec accepted
  obtain ⟨pi, count, refines⟩ := readNl_spec accepted read
  have facts : CollapseGraph c m ∧ (∀ p ∈ c.observed m, p < c.nNet) ∧
      ∀ f, c.IsFault m f → ∀ e ∈ f.excNetptr, e < c.nNet := by
    cases m with
    | SAF =>
        dsimp only at built
        rw [built, pi]
        refine ⟨loaded.collapseGraph refines, fun p mem => ?_, fun f fault e he => ?_⟩
        · rw [Wiring.netlist_nNet]
          exact loaded.poLt refines p mem
        · rw [fault.saf rfl] at he
          cases he
    | TDF =>
        obtain ⟨plain, expanded⟩ := prepareCircuit_spec count built
        rw [pi] at expanded
        obtain ⟨graph, exc⟩ := prepareCircuit_searchable accepted read built
        refine ⟨?_, graph.observedLt, exc⟩
        rw [((loaded.expandTdfNetlist_eq_some refines).mp expanded).2]
        exact (loaded.sequentialGraph refines (readFile_records accepted) plain).collapseGraph
  obtain ⟨graph, observed, exc⟩ := facts
  obtain ⟨s', run, inv⟩ := addStructuralEquivalences_spec (m := m) graph.toPairGraph fresh
  refine ⟨s', run, fun f f' fault fault' root isRoot isRoot' => ?_⟩
  have rootOf : ∀ {id}, id < c.faultCount → c.groupRoot s' id = some root →
      UnionFind.RootOf s'.forest.parent id root := by
    intro id low walked
    obtain ⟨r, walked', above⟩ := UnionFind.walk_spec inv.classes.valid.acyclic low
    rw [groupRoot, walked', Option.some.injEq] at walked
    exact walked ▸ above
  have low := faultId_lt fault.netLt f.type
  have low' := faultId_lt fault'.netLt f'.type
  have joined := (inv.classes.classes _ low _ low').mp ⟨root, rootOf low isRoot, rootOf low' isRoot'⟩
  have same : ∀ source, c.DetectsFrom m f source ↔ c.DetectsFrom m f' source := by
    intro source
    have closed := graph.closure joined source
    simp only [memberNet_faultId, memberType_faultId] at closed
    rw [detectsFrom_entry fault, closed, detectsFrom_entry fault']
  refine ⟨same, fun acyclic x => ?_⟩
  rw [← detectsFrom_iff acyclic observed fault.netLt (exc f fault), same,
    detectsFrom_iff acyclic observed fault'.netLt (exc f' fault')]

/-- The input `a` and the output `z` of an AND gate, stuck at 0. -/
theorem structuralClasses_exact_and : ∃ net s' root, readNl declaredText = .ok net ∧
    (net.wiring.netlist net.pi).addStructuralEquivalences .SAF emptyFaultState = some s' ∧
    (net.wiring.netlist net.pi).groupRoot s' (faultId 0 .SF0) = some root ∧
    (net.wiring.netlist net.pi).groupRoot s' (faultId 2 .SF0) = some root ∧
    ∀ source, (net.wiring.netlist net.pi).DetectsFrom .SAF ⟨[], [], .SF0, 0, none⟩ source ↔
      (net.wiring.netlist net.pi).DetectsFrom .SAF ⟨[], [], .SF0, 2, none⟩ source := by
  have computed : (readNl declaredText).toOption.map (fun net =>
      ((net.wiring.netlist net.pi).nNet,
        ((net.wiring.netlist net.pi).addStructuralEquivalences .SAF emptyFaultState).map fun s =>
          ((net.wiring.netlist net.pi).groupRoot s (faultId 0 .SF0),
            (net.wiring.netlist net.pi).groupRoot s (faultId 2 .SF0)))) =
        some (3, some (some 0, some 0)) := by
    decide +kernel
  cases read : readNl declaredText with
  | error e =>
      rw [read] at computed
      cases computed
  | ok net =>
      rw [read] at computed
      change some _ = some _ at computed
      rw [Option.some.injEq, Prod.mk.injEq] at computed
      obtain ⟨size, roots⟩ := computed
      obtain ⟨s', run, same⟩ := structuralClasses_exact .SAF declaredText net _ read rfl emptyFaultState rfl
      rw [run, Option.map_some, Option.some.injEq, Prod.mk.injEq] at roots
      have isFault : ∀ n < 3, (net.wiring.netlist net.pi).IsFault .SAF ⟨[], [], .SF0, n, none⟩ :=
        fun n low => ⟨size ▸ low, fun _ => rfl, fun h => by cases h⟩
      exact ⟨net, s', 0, rfl, run, roots.1, roots.2, (same _ _ (isFault 0 (by decide))
        (isFault 2 (by decide)) 0 roots.1 roots.2).1⟩

end Built

end SafRprGen
