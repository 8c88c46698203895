/-
Module: SafRprGen.Netlist.Expanded
Layer: Netlist
Purpose: The graph that `expand_tdf_netlist` builds from a netlist without NULL slots, net by net: the two
  copies of a net, their types and edges, and the graph facts the analysis relies on.
Main exports: Netlist.expanded, expandTdfNetlist_eq, SequentialGraph, ExpandsWell,
  SequentialGraph.expandsWell
-/
import SafRprGen.Lib.Blocks
import SafRprGen.Lib.Related
import SafRprGen.Netlist.ExpandTdf
import SafRprGen.Netlist.Records
import Mathlib.Data.List.ReduceOption

namespace SafRprGen

open Related

/-! ### Numbers of the copies -/

section Ids

variable {type type' : Nat → GateType} {size : Nat}

theorem frame1NetId_congr {n : Nat} (same : ∀ k < n, type k = type' k) :
    frame1NetId type n = frame1NetId type' n := by
  induction n with
  | zero => rfl
  | succ n ih =>
      rw [frame1NetId, frame1NetId, ih fun k low => same k (by omega), same n (by omega)]

theorem netId_congr (same : ∀ k < size, type k = type' k) (frame : Frame) {n : Nat} (low : n < size) :
    netId type frame n = netId type' frame n := by
  have first : frame1NetId type n = frame1NetId type' n :=
    frame1NetId_congr fun k less => same k (by omega)
  cases frame with
  | one => exact first
  | two => rw [netId, netId, first, same n low]

theorem connectFrameOutputs_congr (same : ∀ k < size, type k = type' k) (frame : Frame)
    {outs : List Nat} (low : ∀ o ∈ outs, o < size) :
    connectFrameOutputs type outs frame = connectFrameOutputs type' outs frame := by
  unfold connectFrameOutputs
  apply List.filterMap_congr
  intro o mem
  rw [same o (low o mem), netId_congr same .two (low o mem), netId_congr same frame (low o mem)]

/-- Connecting fills what was counted. -/
theorem length_connectFrameOutputs (type : Nat → GateType) (outs : List Nat) (frame : Frame) :
    (connectFrameOutputs type outs frame).length = countFrameOutputs type outs frame := by
  unfold connectFrameOutputs countFrameOutputs
  rw [List.length_filterMap_eq_countP]
  apply List.countP_congr
  intro o _
  by_cases dff : type o = .DFF <;> cases frame <;> simp [dff]

/-- The copies of one net, and those of different nets, have different numbers. -/
theorem netId_lt {n n' : Nat} (less : n < n') (frame frame' : Frame) :
    netId type frame n < netId type frame' n' := by
  have firsts : ∀ m, n < m → netId type .two n < frame1NetId type m := by
    intro m
    induction m with
    | zero => intro h; omega
    | succ m ih =>
        intro h
        rw [frame1NetId]
        by_cases last : n = m
        · subst last
          rw [netId]
          split <;> omega
        · have before := ih (by omega)
          split <;> omega
  have bounds : netId type frame n ≤ netId type .two n := by
    cases frame with
    | one => rw [netId, netId]; split <;> omega
    | two => exact le_rfl
  have starts : frame1NetId type n' ≤ netId type frame' n' := by
    cases frame' with
    | one => exact le_rfl
    | two => rw [netId]; split <;> omega
  exact lt_of_le_of_lt bounds (lt_of_lt_of_le (firsts n' less) starts)

theorem netId_inj {n n' : Nat} {frame frame' : Frame}
    (same : netId type frame n = netId type frame' n') : n = n' ∧ (frame = frame' ∨ type n = .IN) := by
  rcases Nat.lt_trichotomy n n' with less | rfl | more
  · exact absurd same (Nat.ne_of_lt (netId_lt less frame frame'))
  · refine ⟨rfl, ?_⟩
    by_cases input : type n = .IN
    · exact .inr input
    · left
      cases frame <;> cases frame' <;> simp [netId, input] at same ⊢
  · exact absurd same.symm (Nat.ne_of_lt (netId_lt more frame' frame))

theorem netId_IN {n : Nat} (input : type n = .IN) (frame : Frame) :
    netId type frame n = netId type .one n := by
  cases frame with
  | one => rfl
  | two => simp [netId, input]

end Ids

/-! ### The expansion of a netlist without NULL slots -/

namespace Netlist

variable (o : Netlist)

/-- The fanouts of a copy. -/
def frameOuts (frame : Frame) (n : Nat) : List Nat := connectFrameOutputs o.type (o.outs n) frame

/-- The net that a flip-flop captures. -/
def dataOf (n : Nat) : Nat := (o.ins n).headD 0

/-- The copy of a net in a frame; both are the same for an input. -/
def copy (frame : Frame) (n : Nat) : NLIST where
  name := if o.type n = .IN then o.name n else duplicateFrameName (o.name n) frame
  type := if o.type n = .DFF then if frame = .one then .IN else .BUF else o.type n
  ins :=
    if o.type n = .IN then []
    else if o.type n = .DFF then if frame = .one then [] else [netId o.type .one (o.dataOf n)]
    else (o.ins n).map (netId o.type frame)
  outs :=
    if o.type n = .IN then o.frameOuts .one n ++ o.frameOuts .two n else o.frameOuts frame n
  peer1t := if o.type n = .IN ∨ frame = .two then some (netId o.type .one n) else none

/-- The copies of a net. -/
def copies (n : Nat) : List NLIST :=
  if o.type n = .IN then [o.copy .one n] else [o.copy .one n, o.copy .two n]

/-- The flip-flops. -/
def dffs : List Nat := (List.range o.nNet).filter fun n => o.type n = .DFF

/-- What `expand_tdf_netlist` makes of a netlist without NULL slots. -/
def expanded : Netlist where
  nl := (List.range o.nNet).flatMap o.copies
  pi := o.pi.map (netId o.type .one) ++ o.dffs.map (netId o.type .one)
  po := o.po.map (netId o.type .two)
  ppo := o.dffs.map fun n => netId o.type .two (o.dataOf n)

end Netlist

/-! ### `expand_tdf_netlist` -/

section Slots

variable {w : Wiring} {pi : List Nat}

/-- No slot of a net is NULL, and slots hold nets. -/
structure Wiring.Full (w : Wiring) : Prop where
  ins : ∀ n < w.nNet, ∃ ins : List Nat, (w.nl n).ins = ins.map some ∧ ∀ i ∈ ins, i < w.nNet
  outs : ∀ n < w.nNet, ∃ outs : List Nat, (w.nl n).outs = outs.map some ∧ ∀ o ∈ outs, o < w.nNet
  dff : ∀ n < w.nNet, (w.nl n).type = .DFF → (w.nl n).ins ≠ []

theorem Wiring.netlist_nNet (w : Wiring) (pi : List Nat) : (w.netlist pi).nNet = w.nNet := by
  simp [Wiring.netlist, Netlist.nNet]

theorem Wiring.netlist_net (w : Wiring) (pi : List Nat) {n : Nat} (low : n < w.nNet) :
    (w.netlist pi).net n =
      ⟨(w.nl n).name, (w.nl n).type, (w.nl n).ins.reduceOption, (w.nl n).outs.reduceOption, none⟩ := by
  have low' : n < (w.netlist pi).nl.length := by simpa [Wiring.netlist] using low
  rw [Netlist.net, List.getD_eq_getElem?_getD, List.getElem?_eq_getElem low']
  simp [Wiring.netlist]

theorem reduceOption_map_some (entries : List Nat) : (entries.map some).reduceOption = entries := by
  induction entries with
  | nil => rfl
  | cons n entries ih => rw [List.map_cons, List.reduceOption_cons_of_some, ih]

theorem Wiring.type_eq (w : Wiring) (pi : List Nat) :
    ∀ k < w.nNet, w.type k = (w.netlist pi).type k := by
  intro k low
  rw [Netlist.type, w.netlist_net pi low]
  rfl

theorem Wiring.frameOutputs_eq {n : Nat} {outs : List Nat} (full : (w.nl n).outs = outs.map some)
    (low : ∀ o ∈ outs, o < w.nNet) (pi : List Nat) (frame : Frame) :
    w.frameOutputs n frame = some (connectFrameOutputs (w.netlist pi).type outs frame) := by
  rw [frameOutputs, mapM_id_eq.mpr full, ← connectFrameOutputs_congr (w.type_eq pi) frame low]
  exact if_pos (length_connectFrameOutputs w.type outs frame)

theorem Wiring.Full.expandNet_eq (full : w.Full) (pi : List Nat) {n : Nat} (low : n < w.nNet) :
    w.expandNet n = some ((w.netlist pi).copies n) := by
  obtain ⟨ins, isIns, insLow⟩ := full.ins n low
  obtain ⟨outs, isOuts, outsLow⟩ := full.outs n low
  have net := w.netlist_net pi low
  have outsEq : (w.netlist pi).outs n = outs := by
    rw [Netlist.outs, net, isOuts, reduceOption_map_some]
  have insEq : (w.netlist pi).ins n = ins := by
    rw [Netlist.ins, net, isIns, reduceOption_map_some]
  have nameEq : (w.netlist pi).name n = (w.nl n).name := by rw [Netlist.name, net]
  have ids : ∀ (frame : Frame) k, k < w.nNet → netId w.type frame k = netId (w.netlist pi).type frame k :=
    fun frame k => netId_congr (w.type_eq pi) frame
  have mapped : ∀ frame : Frame, ins.map (netId w.type frame) =
      ins.map (netId (w.netlist pi).type frame) := fun frame =>
    List.map_congr_left fun i mem => ids frame i (insLow i mem)
  rw [expandNet, frameOutputs_eq isOuts outsLow pi, frameOutputs_eq isOuts outsLow pi]
  unfold Netlist.copies Netlist.copy Netlist.frameOuts Netlist.dataOf
  rw [outsEq, insEq, nameEq, ← w.type_eq pi n low, ids .one n low]
  change (if w.type n = .IN then _ else if w.type n = .DFF then _ else _) = _
  by_cases input : w.type n = .IN
  · simp only [input, reduceCtorEq, if_false, if_true, true_or]
    rfl
  · by_cases dff : w.type n = .DFF
    · cases ins with
      | nil => exact absurd isIns (full.dff n low dff)
      | cons data ins =>
          simp only [dff, reduceCtorEq, if_false, if_true, false_or, isIns]
          change some [_, (⟨_, _, [netId w.type .one data], _, _⟩ : NLIST)] = _
          rw [ids .one data (insLow data List.mem_cons_self)]
          rfl
    · simp only [if_neg input, if_neg dff, mapM_id_eq.mpr isIns]
      change some [(⟨_, _, ins.map (netId w.type .one), _, _⟩ : NLIST),
        ⟨_, _, ins.map (netId w.type .two), _, _⟩] = _
      rw [mapped, mapped]
      simp only [input, false_or, reduceCtorEq, if_false, if_true]

theorem Wiring.Full.buildScanPorts_eq (full : w.Full) (pi : List Nat) :
    w.buildScanPorts = some ((w.netlist pi).dffs.map (netId (w.netlist pi).type .one),
      (w.netlist pi).dffs.map fun n => netId (w.netlist pi).type .two ((w.netlist pi).dataOf n)) := by
  have dffs : ((List.range w.nNet).filter fun n => w.type n = .DFF) = (w.netlist pi).dffs := by
    rw [Netlist.dffs, w.netlist_nNet]
    apply List.filter_congr
    intro n mem
    rw [w.type_eq pi n (List.mem_range.mp mem)]
  have isDff : ∀ n ∈ (w.netlist pi).dffs, n < w.nNet ∧ (w.nl n).type = .DFF := by
    intro n mem
    rw [← dffs, List.mem_filter, List.mem_range] at mem
    exact ⟨mem.1, of_decide_eq_true mem.2⟩
  have datas : (w.netlist pi).dffs.mapM (fun n => (w.nl n).ins.head?.join) =
      some ((w.netlist pi).dffs.map (w.netlist pi).dataOf) := by
    rw [mapM_eq_some, List.forall₂_map_right_iff, List.forall₂_same]
    intro n mem
    obtain ⟨low, dff⟩ := isDff n mem
    obtain ⟨ins, isIns, -⟩ := full.ins n low
    rw [Netlist.dataOf, Netlist.ins, w.netlist_net pi low, isIns, reduceOption_map_some]
    cases ins with
    | nil => exact absurd isIns (full.dff n low dff)
    | cons data ins => rfl
  have dataLow : ∀ n ∈ (w.netlist pi).dffs, (w.netlist pi).dataOf n < w.nNet := by
    intro n mem
    obtain ⟨low, dff⟩ := isDff n mem
    obtain ⟨ins, isIns, insLow⟩ := full.ins n low
    rw [Netlist.dataOf, Netlist.ins, w.netlist_net pi low, isIns, reduceOption_map_some]
    cases ins with
    | nil => exact absurd isIns (full.dff n low dff)
    | cons data ins => exact insLow data List.mem_cons_self
  rw [buildScanPorts, dffs, datas]
  change some (_, _) = _
  rw [List.map_map]
  congr 2
  · exact List.map_congr_left fun n mem => netId_congr (w.type_eq pi) .one (isDff n mem).1
  · exact List.map_congr_left fun n mem => netId_congr (w.type_eq pi) .two (dataLow n mem)

/-- Without NULL slots the expansion succeeds. -/
theorem Wiring.Full.expandTdfNetlist_eq (full : w.Full) (piLow : ∀ p ∈ pi, p < w.nNet)
    (poLow : ∀ p ∈ w.po, p < w.nNet) :
    w.expandTdfNetlist pi = some (w.netlist pi).expanded := by
  have copies : (List.range w.nNet).mapM w.expandNet =
      some ((List.range w.nNet).map (w.netlist pi).copies) := by
    rw [mapM_eq_some, List.forall₂_map_right_iff, List.forall₂_same]
    exact fun n mem => full.expandNet_eq pi (List.mem_range.mp mem)
  rw [expandTdfNetlist, copies, full.buildScanPorts_eq pi]
  change some (Netlist.mk _ _ _ _) = _
  rw [Netlist.expanded, w.netlist_nNet, List.flatMap_def]
  congr 2
  · exact congrArg (· ++ _)
      (List.map_congr_left fun p mem => netId_congr (w.type_eq pi) .one (piLow p mem))
  · exact List.map_congr_left fun p mem => netId_congr (w.type_eq pi) .two (poLow p mem)

/-- A NULL slot of `out` is dereferenced. -/
theorem Wiring.expandTdfNetlist_null {n : Nat} (low : n < w.nNet) (null : none ∈ (w.nl n).outs) :
    w.expandTdfNetlist pi = none := by
  have noOutputs : w.frameOutputs n .one = none := by
    rw [frameOutputs]
    cases all : (w.nl n).outs.mapM id with
    | none => rfl
    | some outs =>
        rw [mapM_id_eq.mp all] at null
        obtain ⟨_, -, isNone⟩ := List.mem_map.mp null
        cases isNone
  have noCopies : w.expandNet n = none := by
    rw [expandNet, noOutputs]
    rfl
  rw [expandTdfNetlist]
  cases all : (List.range w.nNet).mapM w.expandNet with
  | none => rfl
  | some copies =>
      obtain ⟨c, -, isCopy⟩ := forall₂_exists_right (mapM_eq_some.mp all) (List.mem_range.mpr low)
      rw [noCopies] at isCopy
      cases isCopy

end Slots

/-! ### The nets of the expansion -/

namespace Netlist

variable {o : Netlist}

theorem numbering (o : Netlist) : Blocks.Numbering o.copies (frame1NetId o.type) where
  zero := rfl
  succ := fun n => by
    rw [frame1NetId, copies]
    split <;> rfl

theorem expanded_nNet (o : Netlist) : o.expanded.nNet = frame1NetId o.type o.nNet :=
  Blocks.length_flatMap o.numbering o.nNet

theorem copy_IN {n : Nat} (input : o.type n = .IN) (frame : Frame) :
    o.copy frame n = o.copy .one n := by
  simp [copy, input]

/-- Both copies of a net stand at their numbers. -/
theorem expanded_net {n : Nat} (low : n < o.nNet) (frame : Frame) :
    o.expanded.net (netId o.type frame n) = o.copy frame n := by
  have entry : ∀ k < (o.copies n).length,
      o.expanded.net (frame1NetId o.type n + k) = (o.copies n).getD k default := by
    intro k inBlock
    have stands := Blocks.getElem?_flatMap o.numbering low inBlock
    rw [net, List.getD_eq_getElem?_getD, List.getD_eq_getElem?_getD, ← stands]
    rfl
  by_cases input : o.type n = .IN
  · rw [netId_IN input, copy_IN input]
    have first := entry 0 (by rw [copies, if_pos input]; exact Nat.one_pos)
    rw [copies, if_pos input] at first
    exact first
  · have both : o.copies n = [o.copy .one n, o.copy .two n] := if_neg input
    rw [both] at entry
    cases frame with
    | one => exact entry 0 Nat.zero_lt_two
    | two =>
        rw [netId, if_neg input]
        exact entry 1 Nat.one_lt_two

theorem netId_lt_nNet {n : Nat} (low : n < o.nNet) (frame : Frame) :
    netId o.type frame n < o.expanded.nNet := by
  rw [expanded_nNet]
  exact netId_lt low frame .one

/-- Every net of the expansion is a copy. -/
theorem exists_copy {k : Nat} (low : k < o.expanded.nNet) :
    ∃ n < o.nNet, ∃ frame, k = netId o.type frame n ∧ (o.type n = .IN → frame = .one) := by
  rw [expanded_nNet] at low
  obtain ⟨n, hn, j, inBlock, rfl⟩ := Blocks.exists_block o.numbering low
  refine ⟨n, hn, ?_⟩
  rw [copies] at inBlock
  by_cases input : o.type n = .IN
  · rw [if_pos input] at inBlock
    have zero : j = 0 := Nat.lt_one_iff.mp inBlock
    exact ⟨.one, by rw [zero]; rfl, fun _ => rfl⟩
  · rw [if_neg input] at inBlock
    have two : j < 2 := inBlock
    rcases (show j = 0 ∨ j = 1 by omega) with rfl | rfl
    · exact ⟨.one, rfl, fun isIn => absurd isIn input⟩
    · exact ⟨.two, by rw [netId, if_neg input], fun isIn => absurd isIn input⟩

variable {n : Nat}

theorem expanded_type (low : n < o.nNet) (frame : Frame) :
    o.expanded.type (netId o.type frame n) =
      if o.type n = .DFF then if frame = .one then .IN else .BUF else o.type n := by
  rw [type, expanded_net low]
  rfl

theorem expanded_ins (low : n < o.nNet) (frame : Frame) :
    o.expanded.ins (netId o.type frame n) =
      if o.type n = .IN then []
      else if o.type n = .DFF then if frame = .one then [] else [netId o.type .one (o.dataOf n)]
      else (o.ins n).map (netId o.type frame) := by
  rw [ins, expanded_net low]
  rfl

theorem expanded_outs (low : n < o.nNet) (frame : Frame) :
    o.expanded.outs (netId o.type frame n) =
      if o.type n = .IN then o.frameOuts .one n ++ o.frameOuts .two n else o.frameOuts frame n := by
  rw [outs, expanded_net low]
  rfl

theorem expanded_peer1t (low : n < o.nNet) (frame : Frame) :
    o.expanded.peer1t (netId o.type frame n) =
      if o.type n = .IN ∨ frame = .two then some (netId o.type .one n) else none := by
  rw [peer1t, expanded_net low]
  rfl

end Netlist

/-! ### Graphs of sequential circuits -/

/-- A graph as `read_nl` builds it from a circuit with plain flip-flops. -/
structure SequentialGraph (o : Netlist) : Prop where
  insLt : ∀ n < o.nNet, ∀ i ∈ o.ins n, i < o.nNet
  outsLt : ∀ n < o.nNet, ∀ k ∈ o.outs n, k < o.nNet
  inverse : ∀ a < o.nNet, ∀ b < o.nNet, (o.outs a).count b = (o.ins b).count a
  inputs : ∀ n < o.nNet, o.type n = .IN → o.ins n = []
  dff : ∀ n < o.nNet, o.type n = .DFF → (o.ins n).length = 1
  plain : ∀ n < o.nNet, (o.type n).isFF = true → o.type n = .DFF
  gates : ∀ n < o.nNet, o.type n ≠ .IN → o.type n ≠ .UNSET → o.ins n ≠ []
  pi : ∀ n < o.nNet, n ∈ o.pi ↔ o.type n = .IN
  fanout : ∀ n < o.nNet, o.type n ≠ .FOUT → ∀ x ∈ o.ins n, o.outs x = [n]

/-- The nets of frame 2 that are no shared inputs. -/
def Frame2 (o : Netlist) (k : Nat) : Prop :=
  ∃ n < o.nNet, o.type n ≠ .IN ∧ k = netId o.type .two n

/-- The graph facts that the analysis relies on. -/
structure ExpandsWell (o e : Netlist) : Prop where
  acyclic : Dag.Acyclic e.nNet e.ins
  inverse : ∀ a < e.nNet, ∀ b < e.nNet, (e.outs a).count b = (e.ins b).count a
  closed : ∀ k k', Frame2 o k → Relation.ReflTransGen (fun a b => b ∈ e.outs a) k k' → Frame2 o k'
  fanout : ∀ n < e.nNet, e.type n ≠ .FOUT → ∀ x ∈ e.ins n,
    (∀ p < o.nNet, o.type p = .IN → x ≠ netId o.type .one p) → (e.outs x).length = 1
  captured : e.ppo = o.dffs.map fun n => netId o.type .two (o.dataOf n)
  ppo : ∀ p ∈ e.ppo, (∃ n < o.nNet, o.type n = .IN ∧ p = netId o.type .one n) ∨ e.outs p = []
  ppoNodup : e.ppo.Nodup
  peer : ∀ k < e.nNet, ∀ p, e.peer1t k = some p ↔
    ∃ n < o.nNet, k = netId o.type .two n ∧ p = netId o.type .one n

namespace SequentialGraph

variable {o : Netlist}

theorem mem_outs_iff (g : SequentialGraph o) {a b : Nat} (ha : a < o.nNet) (hb : b < o.nNet) :
    b ∈ o.outs a ↔ a ∈ o.ins b := by
  rw [← List.count_pos_iff, ← List.count_pos_iff, g.inverse a ha b hb]

/-- A flip-flop has one input. -/
theorem dataOf_eq (g : SequentialGraph o) {n : Nat} (low : n < o.nNet) (dff : o.type n = .DFF) :
    o.ins n = [o.dataOf n] ∧ o.dataOf n < o.nNet := by
  obtain ⟨data, only⟩ := List.length_eq_one_iff.mp (g.dff n low dff)
  have isData : o.dataOf n = data := by
    rw [Netlist.dataOf, only]
    rfl
  refine ⟨by rw [isData, only], ?_⟩
  rw [isData]
  exact g.insLt n low data (by rw [only]; exact List.mem_singleton.mpr rfl)

/-- No fanout is an input. -/
theorem outs_gate (g : SequentialGraph o) {a b : Nat} (ha : a < o.nNet) (edge : b ∈ o.outs a) :
    o.type b ≠ .IN := by
  intro input
  have hb := g.outsLt a ha b edge
  have back := (g.mem_outs_iff ha hb).mp edge
  rw [g.inputs b hb input] at back
  cases back

/-! ### Edges of the expansion -/

theorem mem_frameOuts {frame : Frame} {a k : Nat} : k ∈ o.frameOuts frame a ↔ ∃ b ∈ o.outs a,
    (o.type b = .DFF ∧ frame = .one ∧ k = netId o.type .two b) ∨
      (o.type b ≠ .DFF ∧ k = netId o.type frame b) := by
  unfold Netlist.frameOuts connectFrameOutputs
  rw [List.mem_filterMap]
  refine exists_congr fun b => and_congr_right fun _ => ?_
  by_cases dff : o.type b = .DFF
  · by_cases one : frame = .one <;> simp [dff, one, eq_comm]
  · simp [dff, eq_comm]

/-- The copies of `b` are fanouts of a copy of `a` in its own frame, and of a flip-flop in the next. -/
theorem count_frameOuts (g : SequentialGraph o) {a b : Nat} (ha : a < o.nNet) (gate : o.type b ≠ .IN)
    (frame frame' : Frame) : (o.frameOuts frame a).count (netId o.type frame' b) =
      if (if o.type b = .DFF then frame = .one ∧ frame' = .two else frame = frame') then
        (o.outs a).count b
      else 0 := by
  have target : ∀ k ∈ o.outs a,
      ((if o.type k = .DFF then if frame = .one then some (netId o.type .two k) else none
        else some (netId o.type frame k)) = some (netId o.type frame' b) ↔
      k = b ∧ if o.type b = .DFF then frame = .one ∧ frame' = .two else frame = frame') := by
    intro k edge
    have isGate := g.outs_gate ha edge
    constructor
    · intro same
      split at same
      · rename_i dff
        split at same
        · rename_i one
          obtain ⟨rfl, frames | input⟩ := netId_inj (Option.some.inj same)
          · exact ⟨rfl, by rw [if_pos dff]; exact ⟨one, frames.symm⟩⟩
          · exact absurd input isGate
        · cases same
      · rename_i comb
        obtain ⟨rfl, frames | input⟩ := netId_inj (Option.some.inj same)
        · exact ⟨rfl, by rw [if_neg comb]; exact frames⟩
        · exact absurd input isGate
    · rintro ⟨rfl, frames⟩
      by_cases dff : o.type k = .DFF
      · rw [if_pos dff] at frames ⊢
        rw [if_pos frames.1, frames.2]
      · rw [if_neg dff] at frames ⊢
        rw [frames]
  rw [Netlist.frameOuts, connectFrameOutputs, List.count_filterMap]
  by_cases frames : if o.type b = .DFF then frame = .one ∧ frame' = .two else frame = frame'
  · rw [if_pos frames, List.count_eq_countP]
    apply List.countP_congr
    intro k edge
    rw [beq_iff_eq, beq_iff_eq, target k edge, and_iff_left frames]
  · rw [if_neg frames, List.countP_eq_zero]
    intro k edge same
    exact frames ((target k edge).mp (beq_iff_eq.mp same)).2

theorem count_map_netId (l : List Nat) (a : Nat) (frame frame' : Frame) :
    (l.map (netId o.type frame')).count (netId o.type frame a) =
      if frame = frame' ∨ o.type a = .IN then l.count a else 0 := by
  have target : ∀ i, netId o.type frame' i = netId o.type frame a ↔
      i = a ∧ (frame = frame' ∨ o.type a = .IN) := by
    intro i
    constructor
    · intro same
      obtain ⟨rfl, frames | input⟩ := netId_inj same
      · exact ⟨rfl, .inl frames.symm⟩
      · exact ⟨rfl, .inr input⟩
    · rintro ⟨rfl, rfl | input⟩
      · rfl
      · exact (netId_IN input frame').trans (netId_IN input frame).symm
  rw [List.count_eq_countP, List.countP_map]
  by_cases frames : frame = frame' ∨ o.type a = .IN
  · rw [if_pos frames, List.count_eq_countP]
    apply List.countP_congr
    intro i _
    rw [Function.comp_apply, beq_iff_eq, beq_iff_eq, target, and_iff_left frames]
  · rw [if_neg frames, List.countP_eq_zero]
    intro i _ same
    exact frames ((target i).mp (beq_iff_eq.mp same)).2

/-- The inputs of a copy, counted. -/
theorem count_expanded_ins (g : SequentialGraph o) {a b : Nat} (hb : b < o.nNet)
    (gate : o.type b ≠ .IN) (frame frame' : Frame) :
    (o.expanded.ins (netId o.type frame' b)).count (netId o.type frame a) =
      if (if o.type b = .DFF then frame' = .two ∧ (frame = .one ∨ o.type a = .IN)
          else frame = frame' ∨ o.type a = .IN) then (o.ins b).count a
      else 0 := by
  rw [Netlist.expanded_ins hb, if_neg gate]
  by_cases dff : o.type b = .DFF
  · simp only [dff, if_true]
    cases frame' with
    | one => simp
    | two =>
        have data := (g.dataOf_eq hb dff).1
        have one := @count_map_netId o [o.dataOf b] a frame .one
        rw [List.map_singleton, ← data] at one
        simpa using one
  · simp only [dff, if_false]
    exact count_map_netId _ a frame frame'

/-- `out` stays the inverse of `in`. -/
theorem expanded_inverse (g : SequentialGraph o) {j k : Nat} (hj : j < o.expanded.nNet)
    (hk : k < o.expanded.nNet) : (o.expanded.outs j).count k = (o.expanded.ins k).count j := by
  obtain ⟨a, ha, frame, rfl, shared⟩ := Netlist.exists_copy hj
  obtain ⟨b, hb, frame', rfl, shared'⟩ := Netlist.exists_copy hk
  by_cases input : o.type b = .IN
  · have noFanout : ∀ frame, netId o.type frame' b ∉ o.frameOuts frame a := by
      intro frame mem
      obtain ⟨c, edge, ⟨-, -, same⟩ | ⟨-, same⟩⟩ := mem_frameOuts.mp mem
      · exact g.outs_gate ha edge ((netId_inj same).1 ▸ input)
      · exact g.outs_gate ha edge ((netId_inj same).1 ▸ input)
    rw [Netlist.expanded_ins hb, if_pos input, List.count_nil, List.count_eq_zero,
      Netlist.expanded_outs ha]
    split
    · rw [List.mem_append, not_or]
      exact ⟨noFanout .one, noFanout .two⟩
    · exact noFanout frame
  · rw [g.count_expanded_ins hb input, Netlist.expanded_outs ha, ← g.inverse a ha b hb]
    by_cases isIn : o.type a = .IN
    · rw [if_pos isIn, List.count_append, g.count_frameOuts ha input, g.count_frameOuts ha input]
      cases frame' <;> by_cases dff : o.type b = .DFF <;> simp [dff, isIn]
    · rw [if_neg isIn, g.count_frameOuts ha input]
      cases frame <;> cases frame' <;> by_cases dff : o.type b = .DFF <;> simp [dff, isIn]

theorem expanded_insLt (g : SequentialGraph o) {k : Nat} (low : k < o.expanded.nNet) :
    ∀ i ∈ o.expanded.ins k, i < o.expanded.nNet := by
  obtain ⟨n, hn, frame, rfl, -⟩ := Netlist.exists_copy low
  rw [Netlist.expanded_ins hn]
  intro i edge
  split at edge
  · cases edge
  · split at edge
    · rename_i dff
      split at edge
      · cases edge
      · rw [List.mem_singleton] at edge
        rw [edge]
        exact Netlist.netId_lt_nNet (g.dataOf_eq hn dff).2 .one
    · obtain ⟨m, isIn, rfl⟩ := List.mem_map.mp edge
      exact Netlist.netId_lt_nNet (g.insLt n hn m isIn) frame

theorem expanded_outsLt (g : SequentialGraph o) {k : Nat} (low : k < o.expanded.nNet) :
    ∀ j ∈ o.expanded.outs k, j < o.expanded.nNet := by
  obtain ⟨n, hn, frame, rfl, -⟩ := Netlist.exists_copy low
  have copies : ∀ frame, ∀ j ∈ o.frameOuts frame n, j < o.expanded.nNet := by
    intro frame j edge
    obtain ⟨b, isOut, ⟨-, -, rfl⟩ | ⟨-, rfl⟩⟩ := mem_frameOuts.mp edge
    · exact Netlist.netId_lt_nNet (g.outsLt n hn b isOut) .two
    · exact Netlist.netId_lt_nNet (g.outsLt n hn b isOut) frame
  rw [Netlist.expanded_outs hn]
  intro j edge
  split at edge
  · rcases List.mem_append.mp edge with edge | edge
    · exact copies .one j edge
    · exact copies .two j edge
  · exact copies frame j edge

/-- A copy has the fan-in of its net or one input. -/
theorem expanded_fanin {width k : Nat} (pos : 1 ≤ width)
    (fanin : ∀ n < o.nNet, (o.ins n).length ≤ width) (low : k < o.expanded.nNet) :
    (o.expanded.ins k).length ≤ width := by
  obtain ⟨n, hn, frame, rfl, -⟩ := Netlist.exists_copy low
  rw [Netlist.expanded_ins hn]
  split
  · exact Nat.zero_le _
  · split
    · split
      · exact Nat.zero_le _
      · exact pos
    · rw [List.length_map]
      exact fanin n hn

theorem isSource_gate (g : SequentialGraph o) {n : Nat} (low : n < o.nNet) (gate : o.type n ≠ .IN)
    (comb : o.type n ≠ .DFF) : (o.type n).isSource = false := by
  rw [← Bool.not_eq_true]
  intro isSource
  simp only [GateType.isSource, Bool.or_eq_true, beq_iff_eq] at isSource
  rcases isSource with input | ff
  · exact gate input
  · exact comb (g.plain n low ff)

/-- The values of a net that is neither an input nor a flip-flop come from its inputs. -/
theorem deps_gate (g : SequentialGraph o) {n : Nat} (low : n < o.nNet) (gate : o.type n ≠ .IN)
    (comb : o.type n ≠ .DFF) : o.deps n = o.ins n := by
  rw [Netlist.deps, g.isSource_gate low gate comb]
  rfl

/-- Frame 1 is acyclic because the circuit is, cut at its flip-flops; frame 2 comes after it. -/
theorem expanded_acyclic (g : SequentialGraph o) (acyclic : Dag.Acyclic o.nNet o.deps) :
    Dag.Acyclic o.expanded.nNet o.expanded.ins := by
  have noInputs : ∀ {n : Nat} (frame : Frame), n < o.nNet → o.type n = .IN →
      ∃ d, Dag.GroundedIn o.expanded.ins d (netId o.type frame n) := by
    intro n frame low input
    apply Dag.grounded_node
    intro i edge
    rw [Netlist.expanded_ins low, if_pos input] at edge
    cases edge
  have gates : ∀ {n : Nat} {frame : Frame}, n < o.nNet → o.type n ≠ .IN → o.type n ≠ .DFF →
      (∀ m ∈ o.deps n, ∃ d, Dag.GroundedIn o.expanded.ins d (netId o.type frame m)) →
      ∃ d, Dag.GroundedIn o.expanded.ins d (netId o.type frame n) := by
    intro n frame low gate comb below
    apply Dag.grounded_node
    intro i edge
    rw [Netlist.expanded_ins low, if_neg gate, if_neg comb] at edge
    obtain ⟨m, isIn, rfl⟩ := List.mem_map.mp edge
    exact below m (by rw [g.deps_gate low gate comb]; exact isIn)
  have first : ∀ n < o.nNet, ∃ d, Dag.GroundedIn o.expanded.ins d (netId o.type .one n) := by
    refine acyclic.induction fun n low below => ?_
    by_cases input : o.type n = .IN
    · exact noInputs .one low input
    · by_cases dff : o.type n = .DFF
      · apply Dag.grounded_node
        intro i edge
        rw [Netlist.expanded_ins low, if_neg input, if_pos dff, if_pos rfl] at edge
        cases edge
      · exact gates low input dff below
  have second : ∀ n < o.nNet, ∃ d, Dag.GroundedIn o.expanded.ins d (netId o.type .two n) := by
    refine acyclic.induction fun n low below => ?_
    by_cases input : o.type n = .IN
    · exact noInputs .two low input
    · by_cases dff : o.type n = .DFF
      · apply Dag.grounded_node
        intro i edge
        rw [Netlist.expanded_ins low, if_neg input, if_pos dff, if_neg (by decide),
          List.mem_singleton] at edge
        rw [edge]
        exact first _ (g.dataOf_eq low dff).2
      · exact gates low input dff below
  apply Dag.acyclic_of_grounded (fun k low => g.expanded_insLt low)
  intro k low
  obtain ⟨n, hn, frame, rfl, -⟩ := Netlist.exists_copy low
  cases frame with
  | one => exact first n hn
  | two => exact second n hn

/-- A cycle that passes through no flip-flop is one of frame 1. -/
theorem acyclic_of_expanded (g : SequentialGraph o)
    (acyclic : Dag.Acyclic o.expanded.nNet o.expanded.ins) : Dag.Acyclic o.nNet o.deps := by
  obtain ⟨rank, lower⟩ := acyclic
  refine ⟨fun n => rank (netId o.type .one n), fun n low m dep => ?_⟩
  by_cases source : (o.type n).isSource = true
  · rw [Netlist.deps, if_pos source] at dep
    cases dep
  · rw [GateType.isSource, Bool.or_eq_true, not_or, beq_iff_eq] at source
    have comb : o.type n ≠ .DFF := by
      intro dff
      rw [dff] at source
      exact source.2 rfl
    rw [g.deps_gate low source.1 comb] at dep
    have edge : netId o.type .one m ∈ o.expanded.ins (netId o.type .one n) := by
      rw [Netlist.expanded_ins low, if_neg source.1, if_neg comb]
      exact List.mem_map_of_mem dep
    exact ⟨g.insLt n low m dep, (lower _ (Netlist.netId_lt_nNet low .one) _ edge).2⟩

/-- An input of the expansion has no inputs, and a gate has some. -/
theorem expanded_gates (g : SequentialGraph o) :
    (∀ k, o.expanded.type k = .IN → o.expanded.ins k = []) ∧
      ∀ k < o.expanded.nNet, o.expanded.type k ≠ .IN → o.expanded.type k ≠ .UNSET →
        o.expanded.ins k ≠ [] := by
  refine ⟨fun k input => ?_, fun k low gate typed => ?_⟩
  · by_cases low : k < o.expanded.nNet
    · obtain ⟨n, hn, frame, rfl, -⟩ := Netlist.exists_copy low
      rw [Netlist.expanded_type hn] at input
      rw [Netlist.expanded_ins hn]
      by_cases dff : o.type n = .DFF
      · cases frame with
        | one => simp [dff]
        | two => simp [dff] at input
      · rw [if_neg dff] at input
        rw [if_pos input]
    · exact Netlist.ins_of_le (by omega)
  · obtain ⟨n, hn, frame, rfl, -⟩ := Netlist.exists_copy low
    rw [Netlist.expanded_type hn] at gate typed
    rw [Netlist.expanded_ins hn]
    by_cases dff : o.type n = .DFF
    · cases frame with
      | one => simp [dff] at gate
      | two => simp [dff]
    · rw [if_neg dff] at gate typed
      rw [if_neg gate, if_neg dff]
      exact fun empty => g.gates n hn gate typed (List.map_eq_nil_iff.mp empty)

/-- Edges from frame 2 stay in frame 2. -/
theorem frame2_step (g : SequentialGraph o) {k k' : Nat} (here : Frame2 o k)
    (edge : k' ∈ o.expanded.outs k) : Frame2 o k' := by
  obtain ⟨n, low, gate, rfl⟩ := here
  rw [Netlist.expanded_outs low, if_neg gate] at edge
  obtain ⟨b, isOut, ⟨-, one, -⟩ | ⟨-, rfl⟩⟩ := mem_frameOuts.mp edge
  · cases one
  · exact ⟨b, g.outsLt n low b isOut, g.outs_gate low isOut, rfl⟩

theorem frame2_closed (g : SequentialGraph o) {k k' : Nat} (here : Frame2 o k)
    (path : Relation.ReflTransGen (fun a b => b ∈ o.expanded.outs a) k k') : Frame2 o k' := by
  induction path with
  | refl => exact here
  | tail _ edge ih => exact g.frame2_step ih edge

/-- A net with one fanout, as seen by its copies. -/
theorem frameOuts_single {frame : Frame} {a b : Nat} (only : o.outs a = [b]) :
    o.frameOuts frame a =
      if o.type b = .DFF then if frame = .one then [netId o.type .two b] else []
      else [netId o.type frame b] := by
  rw [Netlist.frameOuts, only, connectFrameOutputs]
  by_cases dff : o.type b = .DFF <;> cases frame <;> simp [dff]

/-- What a gate reads has one fanout, shared inputs apart. -/
theorem expanded_fanout (g : SequentialGraph o) {k : Nat} (low : k < o.expanded.nNet)
    (gate : o.expanded.type k ≠ .FOUT) {x : Nat} (edge : x ∈ o.expanded.ins k)
    (own : ∀ p < o.nNet, o.type p = .IN → x ≠ netId o.type .one p) :
    (o.expanded.outs x).length = 1 := by
  obtain ⟨n, hn, frame, rfl, -⟩ := Netlist.exists_copy low
  rw [Netlist.expanded_type hn] at gate
  rw [Netlist.expanded_ins hn] at edge
  split at edge
  · cases edge
  · rename_i isGate
    split at edge
    · rename_i dff
      split at edge
      · cases edge
      · rw [List.mem_singleton] at edge
        subst edge
        obtain ⟨only, dataLt⟩ := g.dataOf_eq hn dff
        have free : o.type (o.dataOf n) ≠ .IN := fun input => own _ dataLt input rfl
        have single := g.fanout n hn (by rw [dff]; decide) (o.dataOf n) (by rw [only]; simp)
        rw [Netlist.expanded_outs dataLt, if_neg free, frameOuts_single single, if_pos dff, if_pos rfl]
        rfl
    · rename_i comb
      obtain ⟨m, isIn, rfl⟩ := List.mem_map.mp edge
      have mLt := g.insLt n hn m isIn
      have free : o.type m ≠ .IN := fun input => own m mLt input (netId_IN input frame)
      rw [if_neg comb] at gate
      rw [Netlist.expanded_outs mLt, if_neg free, frameOuts_single (g.fanout n hn gate m isIn),
        if_neg comb]
      rfl

theorem mem_dffs {n : Nat} : n ∈ o.dffs ↔ n < o.nNet ∧ o.type n = .DFF := by
  rw [Netlist.dffs, List.mem_filter, List.mem_range, decide_eq_true_iff]

theorem expanded_ppoLt (g : SequentialGraph o) : ∀ p ∈ o.expanded.ppo, p < o.expanded.nNet := by
  intro p mem
  obtain ⟨n, isDff, rfl⟩ := List.mem_map.mp mem
  obtain ⟨low, dff⟩ := mem_dffs.mp isDff
  exact Netlist.netId_lt_nNet (g.dataOf_eq low dff).2 .two

/-- What a flip-flop captures goes nowhere else. -/
theorem outs_dataOf (g : SequentialGraph o) {n : Nat} (mem : n ∈ o.dffs) :
    o.outs (o.dataOf n) = [n] := by
  obtain ⟨low, dff⟩ := mem_dffs.mp mem
  exact g.fanout n low (by rw [dff]; decide) _ (by rw [(g.dataOf_eq low dff).1]; simp)

/-- A captured net of frame 2 is a shared input or has no fanout. -/
theorem expanded_ppo (g : SequentialGraph o) {p : Nat} (mem : p ∈ o.expanded.ppo) :
    (∃ n < o.nNet, o.type n = .IN ∧ p = netId o.type .one n) ∨ o.expanded.outs p = [] := by
  obtain ⟨n, isDff, rfl⟩ := List.mem_map.mp mem
  obtain ⟨low, dff⟩ := mem_dffs.mp isDff
  have dataLt := (g.dataOf_eq low dff).2
  by_cases input : o.type (o.dataOf n) = .IN
  · exact .inl ⟨_, dataLt, input, netId_IN input .two⟩
  · right
    rw [Netlist.expanded_outs dataLt, if_neg input, frameOuts_single (g.outs_dataOf isDff), if_pos dff]
    rfl

theorem expanded_ppo_nodup (g : SequentialGraph o) : o.expanded.ppo.Nodup := by
  have distinct : o.dffs.Nodup := List.nodup_range.filter _
  apply distinct.map_on
  intro n mem n' mem' same
  have sameData := (netId_inj same).1
  have single := g.outs_dataOf mem
  rw [sameData, g.outs_dataOf mem'] at single
  exact (List.singleton_injective single).symm

/-- `peer_1t` leads from frame 2 and the shared inputs to frame 1. -/
theorem expanded_peer {k : Nat} (low : k < o.expanded.nNet) (p : Nat) :
    o.expanded.peer1t k = some p ↔
      ∃ n < o.nNet, k = netId o.type .two n ∧ p = netId o.type .one n := by
  obtain ⟨n, hn, frame, rfl, -⟩ := Netlist.exists_copy low
  rw [Netlist.expanded_peer1t hn]
  constructor
  · intro peer
    split at peer
    · rename_i original
      refine ⟨n, hn, ?_, (Option.some.inj peer).symm⟩
      rcases original with input | rfl
      · rw [netId_IN input, netId_IN input .two]
      · rfl
    · cases peer
  · rintro ⟨m, -, same, rfl⟩
    obtain ⟨rfl, rfl | input⟩ := netId_inj same
    · rw [if_pos (.inr rfl)]
    · rw [if_pos (.inl input)]

/-- The searches of stuck-at faults run on the circuit itself. -/
theorem searchable (g : SequentialGraph o) (fanin : ∀ n < o.nNet, (o.ins n).length ≤ 10)
    (po : ∀ p ∈ o.po, p < o.nNet) : o.Searchable .SAF where
  insLt := g.insLt
  outsLt := g.outsLt
  edges := Netlist.sum_outs_le_of_inverse g.insLt g.outsLt g.inverse fanin
  inputs := g.inputs
  observedLt := po

/-- Those of transition faults run on the expansion. -/
theorem expanded_searchable (g : SequentialGraph o) (fanin : ∀ n < o.nNet, (o.ins n).length ≤ 10) :
    o.expanded.Searchable .TDF where
  insLt := fun _ low => g.expanded_insLt low
  outsLt := fun _ low => g.expanded_outsLt low
  edges := Netlist.sum_outs_le_of_inverse (fun _ low => g.expanded_insLt low)
    (fun _ low => g.expanded_outsLt low) (fun _ hj _ hk => g.expanded_inverse hj hk)
    (fun _ low => expanded_fanin (by decide) fanin low)
  inputs := fun k _ => g.expanded_gates.1 k
  observedLt := g.expanded_ppoLt

/-- The expansion keeps the graph facts that the analysis relies on. -/
theorem expandsWell (g : SequentialGraph o) (acyclic : Dag.Acyclic o.nNet o.deps) :
    ExpandsWell o o.expanded where
  acyclic := g.expanded_acyclic acyclic
  inverse := fun _ hj _ hk => g.expanded_inverse hj hk
  closed := fun _ _ here path => g.frame2_closed here path
  fanout := fun _ low gate _ edge own => g.expanded_fanout low gate edge own
  captured := rfl
  ppo := fun _ mem => g.expanded_ppo mem
  ppoNodup := g.expanded_ppo_nodup
  peer := fun _ low p => expanded_peer low p

end SequentialGraph

end SafRprGen
