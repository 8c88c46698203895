/-
Module: SafRprGen.Netlist.Branched
Layer: Netlist
Purpose: The branches that `read_nl` puts on a signal with several fanouts keep the fanouts of a net apart:
  no gate reads a net twice, and no gate reads a net together with another fanout of that net. The expansion
  for transition faults keeps this, although a shared input drives gates of both frames.
Main exports: Netlist.Branched, ReadyText.branched
-/
import SafRprGen.Netlist.Ready

namespace SafRprGen

open Related

/-- The fanouts of a net do not read each other, and no net reads another twice. -/
structure Netlist.Branched (c : Netlist) : Prop where
  nodup : ∀ n < c.nNet, (c.ins n).Nodup
  apart : ∀ n < c.nNet, ∀ o ∈ c.outs n, ∀ o' ∈ c.outs n, o' ∉ c.ins o

section Graphs

variable {m : FaultModel} {c o : Netlist}

/-- No net reads itself. -/
theorem Netlist.WellFormed.not_mem_ins (wf : c.WellFormed m) {n : Nat} (low : n < c.nNet) : n ∉ c.ins n := by
  intro reads
  obtain ⟨rank, lower⟩ := wf.acyclic
  exact absurd (lower n low n reads).2 (lt_irrefl _)

/-- Distinct nets below `n_net`. -/
theorem Netlist.length_le_nNet {nets : List Nat} (distinct : nets.Nodup) (low : ∀ n ∈ nets, n < c.nNet) :
    nets.length ≤ c.nNet := by
  have within := List.subperm_of_subset distinct fun n mem => List.mem_range.mpr (low n mem)
  exact within.length_le.trans_eq List.length_range

theorem Netlist.Branched.outs_nodup (branched : c.Branched) (wf : c.WellFormed m) {n : Nat}
    (low : n < c.nNet) : (c.outs n).Nodup := by
  rw [List.nodup_iff_count_le_one]
  intro o
  by_cases edge : o ∈ c.outs n
  · have high := wf.outsLt n low o edge
    rw [wf.inverse n low o high]
    exact List.nodup_iff_count_le_one.mp (branched.nodup o high) n
  · rw [List.count_eq_zero.mpr edge]
    exact Nat.zero_le 1

/-- The only input of a net is the net that it shares with the other fanouts. -/
theorem Netlist.WellFormed.apart_of_single (wf : c.WellFormed m) {n k k' : Nat} (low : n < c.nNet)
    (edge : k ∈ c.outs n) (edge' : k' ∈ c.outs n) (single : (c.ins k).length ≤ 1) : k' ∉ c.ins k := by
  intro reads
  have back := (wf.mem_outs_iff low (wf.outsLt n low k edge)).mp edge
  have one : (c.ins k).length = 1 := le_antisymm single (List.length_pos_of_mem back)
  obtain ⟨i, only⟩ := List.length_eq_one_iff.mp one
  rw [only, List.mem_singleton] at reads back
  subst reads back
  exact wf.not_mem_ins low ((wf.mem_outs_iff low low).mp edge')

theorem SequentialGraph.ins_nodup (g : SequentialGraph o) {n : Nat} (low : n < o.nNet)
    (gate : o.type n ≠ .FOUT) : (o.ins n).Nodup := by
  rw [List.nodup_iff_count_le_one]
  intro x
  by_cases edge : x ∈ o.ins n
  · rw [← g.inverse x (g.insLt n low x edge) n low, g.fanout n low gate x edge, List.count_singleton_self]
  · rw [List.count_eq_zero.mpr edge]
    exact Nat.zero_le 1

/-- A net with several inputs is a gate, and each of them drives nothing else. -/
theorem SequentialGraph.branched (g : SequentialGraph o) (wf : o.WellFormed .SAF) : o.Branched := by
  have gate : ∀ {n : Nat}, n < o.nNet → ¬ (o.ins n).length ≤ 1 → o.type n ≠ .FOUT := by
    intro n low many branch
    have arity := wf.arity n low
    rw [branch] at arity
    exact many (le_of_eq arity)
  constructor
  · intro n low
    by_cases single : (o.ins n).length ≤ 1
    · exact List.nodup_iff_count_le_one.mpr fun x => List.count_le_length.trans single
    · exact g.ins_nodup low (gate low single)
  · intro n low k edge k' edge' reads
    by_cases single : (o.ins k).length ≤ 1
    · exact wf.apart_of_single low edge edge' single reads
    · have high := wf.outsLt n low k edge
      have only := g.fanout k high (gate high single) n ((wf.mem_outs_iff low high).mp edge)
      rw [only, List.mem_singleton] at edge'
      subst edge'
      exact wf.not_mem_ins high reads

/-- A net of the expansion with several inputs is the copy of a gate in one frame. -/
theorem SequentialGraph.copy_of_many (wf : o.expanded.WellFormed .TDF) {k : Nat}
    (low : k < o.expanded.nNet) (many : ¬ (o.expanded.ins k).length ≤ 1) :
    ∃ n < o.nNet, ∃ frame, k = netId o.type frame n ∧ o.type n ≠ .FOUT ∧ o.type n ≠ .DFF ∧
      o.expanded.ins k = (o.ins n).map (netId o.type frame) := by
  obtain ⟨n, hn, frame, rfl, -⟩ := Netlist.exists_copy low
  have arity := wf.arity _ low
  rw [Netlist.expanded_type hn] at arity
  have ins := Netlist.expanded_ins hn frame
  by_cases input : o.type n = .IN
  · rw [ins, if_pos input] at many
    exact absurd (Nat.zero_le 1) many
  rw [if_neg input] at ins
  by_cases dff : o.type n = .DFF
  · rw [ins, if_pos dff] at many
    split at many
    · exact absurd (Nat.zero_le 1) many
    · exact absurd le_rfl many
  rw [if_neg dff] at arity ins
  refine ⟨n, hn, frame, rfl, fun branch => ?_, dff, ins⟩
  rw [branch] at arity
  exact many (le_of_eq arity)

/-- The expansion keeps fanouts apart: the fanouts of a shared input are in different frames. -/
theorem SequentialGraph.expanded_branched (g : SequentialGraph o) (wf : o.expanded.WellFormed .TDF) :
    o.expanded.Branched := by
  constructor
  · intro k low
    by_cases single : (o.expanded.ins k).length ≤ 1
    · exact List.nodup_iff_count_le_one.mpr fun x => List.count_le_length.trans single
    · obtain ⟨n, hn, frame, -, gate, -, ins⟩ := copy_of_many wf low single
      rw [ins]
      exact (g.ins_nodup hn gate).map fun _ _ same => (netId_inj same).1
  · intro j low k edge k' edge' reads
    by_cases single : (o.expanded.ins k).length ≤ 1
    · exact wf.apart_of_single low edge edge' single reads
    have high := wf.outsLt j low k edge
    have high' := wf.outsLt j low k' edge'
    obtain ⟨n, hn, frame, rfl, gate, comb, ins⟩ := copy_of_many wf high single
    have back := (wf.mem_outs_iff low high).mp edge
    have back' := (wf.mem_outs_iff low high').mp edge'
    rw [ins] at back
    have reads_ := reads
    rw [ins] at reads_
    obtain ⟨q, isIn, rfl⟩ := List.mem_map.mp back
    obtain ⟨p, isIn', rfl⟩ := List.mem_map.mp reads_
    have only := g.fanout n hn gate q isIn
    have hp := g.insLt n hn p isIn'
    have hq := g.insLt n hn q isIn
    -- the original of the second fanout reads the original of the shared net as well
    have original : p ∈ o.outs q := by
      rw [Netlist.expanded_ins hp] at back'
      split at back'
      · cases back'
      · split at back'
        · rename_i dff
          split at back'
          · cases back'
          · obtain rfl := (netId_inj (List.mem_singleton.mp back')).1
            rw [g.outs_dataOf (mem_dffs.mpr ⟨hp, dff⟩)]
            exact List.mem_singleton_self p
        · obtain ⟨q', isIn'', same⟩ := List.mem_map.mp back'
          obtain rfl := (netId_inj same).1
          exact (g.mem_outs_iff hq hp).mpr isIn''
    rw [only, List.mem_singleton] at original
    subst original
    exact wf.not_mem_ins high reads

end Graphs

/-- Every netlist that is read and ready for the analysis keeps the fanouts of a net apart. -/
theorem ReadyText.branched {m : FaultModel} {text : List Char} {a : Accepted} {net : ReadNet}
    {c : Netlist} {ports : List (Bool × CStr)} (sane : ReadyText m a.records ports)
    (accepted : readFile text = .ok a) (declared : declaredPorts text = .ok ports)
    (read : readNl text = .ok net) (prepared : prepareCircuit m net = some c) : c.Branched := by
  have wf := sane.wellFormed accepted declared read prepared
  obtain ⟨-, -, -, -, ports', declared', loaded⟩ := readFile_spec accepted
  obtain ⟨pi, count, refines⟩ := readNl_spec accepted read
  have formed := readFile_records accepted
  obtain ⟨plain, ready⟩ := prepareCircuit_spec count prepared
  have graph := (loaded.pinnedGraph refines formed plain).toSequentialGraph
  rw [pi] at ready
  cases m with
  | SAF =>
      obtain ⟨-, rfl⟩ := ready
      exact graph.branched wf
  | TDF =>
      obtain ⟨-, rfl⟩ := (loaded.expandTdfNetlist_eq_some refines).mp ready
      exact graph.expanded_branched wf

end SafRprGen
