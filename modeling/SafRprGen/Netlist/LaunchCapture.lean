/-
Module: SafRprGen.Netlist.LaunchCapture
Layer: Netlist
Purpose: What the two-frame expansion is for. The sequential circuit runs for two cycles from a scanned
  state: flip-flops hold their states in cycle 1 and what they captured in cycle 2, inputs do not change.
  A transition fault is detected when its site makes the slow transition between the cycles and holding
  the old value in cycle 2 changes what a flip-flop captures. The expanded netlist gives exactly this.
Main exports: Netlist.cycle, LaunchCaptured, SequentialGraph.frame_values, detects_expanded_iff
-/
import SafRprGen.Netlist.ReadGraph

namespace SafRprGen

namespace Netlist

variable (o : Netlist)

/-- The values in one cycle: inputs `x`, flip-flop states `state`, perhaps with a net forced. -/
def cycle (x state : Nat → Bool) (forced : Nat → Option Bool) : Nat → Bool :=
  o.value (fun n => if o.type n = .DFF then state n else x n) forced

/-- Cycle 1. -/
def cycle1 (x state : Nat → Bool) : Nat → Bool := o.cycle x state fun _ => none

/-- Cycle 2: every flip-flop holds what it captured in cycle 1. -/
def cycle2 (x state : Nat → Bool) (forced : Nat → Option Bool) : Nat → Bool :=
  o.cycle x (fun n => o.cycle1 x state (o.dataOf n)) forced

/-- The scanned assignment: the inputs and then the initial states, in the order of `pi[]`. -/
def scanned (x state : Nat → Bool) (c : Netlist) : c.Assignment :=
  fun k => (o.pi.map x ++ o.dffs.map state).getD k false

end Netlist

/-- The two cycles detect a slow transition of net `n`: it has the initial value in cycle 1 and the other
one in cycle 2, and holding the initial value in cycle 2 changes what a flip-flop captures. -/
structure LaunchCaptured (o : Netlist) (x state : Nat → Bool) (n : Nat) (type : FaultType) : Prop where
  first : o.cycle1 x state n = type.stuck
  second : o.cycle2 x state (fun _ => none) n = !type.stuck
  captured : ∃ d ∈ o.dffs, o.cycle2 x state (fun _ => none) (o.dataOf d) ≠
    o.cycle2 x state (Netlist.forcedAt n type.stuck) (o.dataOf d)

namespace SequentialGraph

variable {o : Netlist}

theorem expanded_acyclicDeps (g : SequentialGraph o) (acyclic : Dag.Acyclic o.nNet o.deps) :
    Dag.Acyclic o.expanded.nNet o.expanded.deps :=
  (g.expanded_acyclic acyclic).mono fun n _ => by
    unfold Netlist.deps
    split
    · exact List.nil_subset _
    · exact List.Subset.refl _

/-! ### The scanned assignment -/

theorem idxOf_map_netId (l : List Nat) (n : Nat) :
    (l.map (netId o.type .one)).idxOf (netId o.type .one n) = l.idxOf n := by
  induction l with
  | nil => rfl
  | cons m l ih =>
      rw [List.map_cons, List.idxOf_cons, List.idxOf_cons, ih]
      by_cases here : m = n
      · simp [here]
      · have other : netId o.type .one m ≠ netId o.type .one n := fun same => here (netId_inj same).1
        rw [beq_eq_false_iff_ne.mpr here, beq_eq_false_iff_ne.mpr other]

theorem getD_idxOf (l : List Nat) (f : Nat → Bool) {n : Nat} (mem : n ∈ l) (rest : List Bool) :
    (l.map f ++ rest).getD (l.idxOf n) false = f n := by
  have low : l.idxOf n < l.length := List.idxOf_lt_length_of_mem mem
  rw [List.getD_eq_getElem?_getD, List.getElem?_append_left (by simpa using low), List.getElem?_map,
    List.getElem?_eq_getElem low, List.getElem_idxOf]
  rfl

/-- The value that the scanned assignment gives to a free net of frame 1. -/
theorem piValue_scanned (g : SequentialGraph o) (x state : Nat → Bool) {n : Nat} (low : n < o.nNet)
    (free : o.type n = .IN ∨ o.type n = .DFF) :
    o.expanded.piValue (o.scanned x state o.expanded) (netId o.type .one n) =
      if o.type n = .DFF then state n else x n := by
  have length : o.expanded.nPi = (o.pi.map x ++ o.dffs.map state).length := by
    simp [Netlist.expanded, Netlist.nPi]
  have pi : o.expanded.pi = (o.pi ++ o.dffs).map (netId o.type .one) := List.map_append.symm
  have index : o.expanded.pi.idxOf (netId o.type .one n) = (o.pi ++ o.dffs).idxOf n := by
    rw [pi, idxOf_map_netId]
  have isFree : n ∈ o.pi ++ o.dffs := by
    rw [List.mem_append, g.pi n low, mem_dffs]
    rcases free with input | dff
    · exact .inl input
    · exact .inr ⟨low, dff⟩
  have inRange : o.expanded.pi.idxOf (netId o.type .one n) < o.expanded.nPi := by
    rw [index, length, List.length_append, List.length_map, List.length_map, ← List.length_append]
    exact List.idxOf_lt_length_of_mem isFree
  rw [Netlist.piValue, dif_pos inRange]
  change (o.pi.map x ++ o.dffs.map state).getD (o.expanded.pi.idxOf (netId o.type .one n)) false = _
  rw [index]
  by_cases input : n ∈ o.pi
  · have isIn := (g.pi n low).mp input
    rw [List.idxOf_append_of_mem input, getD_idxOf o.pi x input, if_neg (by rw [isIn]; decide)]
  · have dff : n ∈ o.dffs := (List.mem_append.mp isFree).resolve_left input
    rw [List.idxOf_append_of_notMem input, List.getD_eq_getElem?_getD,
      List.getElem?_append_right (by simp), List.length_map, Nat.add_sub_cancel_left,
      ← List.getD_eq_getElem?_getD, if_pos (mem_dffs.mp dff).2]
    have here := getD_idxOf o.dffs state dff []
    rwa [List.append_nil] at here

/-! ### Values of the copies -/

section Values

variable {forced : Nat → Option Bool} {x state : Nat → Bool}

/-- The equation of a copy of a gate. -/
theorem expanded_gate (g : SequentialGraph o) {n : Nat} (low : n < o.nNet) (gate : o.type n ≠ .IN)
    (comb : o.type n ≠ .DFF) (source : Nat → Bool) (frame : Frame)
    (free : forced (netId o.type frame n) = none) (value : Nat → Bool) :
    o.expanded.op source forced (netId o.type frame n)
        ((o.expanded.deps (netId o.type frame n)).map value) =
      (o.type n).fn ((o.ins n).map fun i => value (netId o.type frame i)) := by
  have notSource := g.isSource_gate low gate comb
  have type := Netlist.expanded_type low frame
  rw [if_neg comb] at type
  rw [Netlist.op_gate free (by rw [type]; exact notSource), Netlist.deps, type, notSource,
    if_neg Bool.false_ne_true, Netlist.expanded_ins low, if_neg gate, if_neg comb, List.map_map]
  rfl

/-- The equation of a gate of the circuit. -/
theorem cycle_gate (g : SequentialGraph o) {n : Nat} (low : n < o.nNet) (gate : o.type n ≠ .IN)
    (comb : o.type n ≠ .DFF) (source : Nat → Bool) (free : forced n = none) (value : Nat → Bool) :
    o.op source forced n ((o.deps n).map value) = (o.type n).fn ((o.ins n).map value) := by
  rw [Netlist.op_gate free (g.isSource_gate low gate comb), g.deps_gate low gate comb]

theorem expanded_value_eq (g : SequentialGraph o) (acyclic : Dag.Acyclic o.nNet o.deps)
    (source : Nat → Bool) {n : Nat} (low : n < o.nNet) (frame : Frame) :
    o.expanded.value source forced (netId o.type frame n) =
      o.expanded.op source forced (netId o.type frame n)
        ((o.expanded.deps (netId o.type frame n)).map (o.expanded.value source forced)) :=
  Dag.eval_eq (g.expanded_acyclicDeps acyclic) (Netlist.netId_lt_nNet low frame)

/-- Frame 1 holds the values of cycle 1 when nothing in it is forced. -/
theorem frame1_value (g : SequentialGraph o) (acyclic : Dag.Acyclic o.nNet o.deps)
    (free : ∀ n < o.nNet, forced (netId o.type .one n) = none) : ∀ n < o.nNet,
      o.expanded.value (o.expanded.piValue (o.scanned x state o.expanded)) forced
        (netId o.type .one n) = o.cycle1 x state n := by
  apply Dag.eval_unique acyclic
  intro n low
  rw [g.expanded_value_eq acyclic _ low]
  by_cases comb : o.type n = .IN ∨ o.type n = .DFF
  · have isIn : o.expanded.type (netId o.type .one n) = .IN := by
      rw [Netlist.expanded_type low]
      rcases comb with input | dff
      · simp [input]
      · simp [dff]
    have isSource : (o.type n).isSource = true := by
      rcases comb with input | dff
      · rw [input]
        rfl
      · rw [dff]
        rfl
    rw [Netlist.op_source (free n low) (by rw [isIn]; rfl), g.piValue_scanned x state low comb,
      Netlist.op_source rfl isSource]
  · rw [not_or] at comb
    rw [g.expanded_gate low comb.1 comb.2 _ .one (free n low),
      g.cycle_gate low comb.1 comb.2 _ rfl]

/-- Frame 2 holds the values of cycle 2, with the same nets forced. -/
theorem frame2_value (g : SequentialGraph o) (acyclic : Dag.Acyclic o.nNet o.deps)
    {forced' : Nat → Option Bool} (free : ∀ n < o.nNet, forced' (netId o.type .one n) = none)
    (same : ∀ n < o.nNet, forced' (netId o.type .two n) = forced n) : ∀ n < o.nNet,
      o.expanded.value (o.expanded.piValue (o.scanned x state o.expanded)) forced'
        (netId o.type .two n) = o.cycle2 x state forced n := by
  apply Dag.eval_unique acyclic
  intro n low
  rw [g.expanded_value_eq acyclic _ low]
  cases isForced : forced n with
  | some b => rw [Netlist.op_forced ((same n low).trans isForced), Netlist.op_forced isForced]
  | none =>
      have isFree := (same n low).trans isForced
      by_cases input : o.type n = .IN
      · have isIn : o.expanded.type (netId o.type .two n) = .IN := by
          rw [Netlist.expanded_type low, input]
          rfl
        rw [Netlist.op_source isFree (by rw [isIn]; rfl), netId_IN input,
          g.piValue_scanned x state low (.inl input),
          Netlist.op_source isForced (by rw [input]; rfl), input]
        rfl
      · by_cases dff : o.type n = .DFF
        · -- the buffer of a flip-flop reads what was captured in frame 1
          have isBuf : o.expanded.type (netId o.type .two n) = .BUF := by
            rw [Netlist.expanded_type low, if_pos dff]
            rfl
          have reads : o.expanded.ins (netId o.type .two n) = [netId o.type .one (o.dataOf n)] := by
            rw [Netlist.expanded_ins low, if_neg input, if_pos dff]
            rfl
          have captured := @frame1_value _ _ x state g acyclic free (o.dataOf n) (g.dataOf_eq low dff).2
          rw [Netlist.op_gate isFree (by rw [isBuf]; rfl), Netlist.deps, isBuf, reads,
            Netlist.op_source isForced (by rw [dff]; rfl), if_pos dff]
          exact captured
        · rw [g.expanded_gate low input dff _ .two isFree, g.cycle_gate low input dff _ isForced]

end Values

/-! ### Detection -/

/-- A fault of the copy in frame 2 that is excited through the copy in frame 1. -/
structure LaunchFault (o : Netlist) (f : FNODE) (n : Nat) : Prop where
  site : f.netptr = netId o.type .two n
  excitation : f.excNetptr = o.expanded.peer1t f.netptr

theorem LaunchFault.excNetptr_eq {f : FNODE} {n : Nat} (fault : LaunchFault o f n) (low : n < o.nNet) :
    f.excNetptr = some (netId o.type .one n) := by
  rw [fault.excitation, fault.site, Netlist.expanded_peer1t low, if_pos (.inr rfl)]

/-- A shared input is both frames' copy and cannot change between them. -/
theorem not_detects_input {f : FNODE} {n : Nat} (low : n < o.nNet) (input : o.type n = .IN)
    (fault : LaunchFault o f n) (y : o.expanded.Assignment) : ¬ o.expanded.Detects .TDF f y := by
  rintro ⟨-, excited⟩
  obtain ⟨first, second⟩ := excited _ (fault.excNetptr_eq low)
  rw [fault.site, netId_IN input, first] at second
  cases type : f.type <;> rw [type] at second <;> cases second

/-- The expansion detects a transition fault exactly when the two cycles do. -/
theorem detects_iff (g : SequentialGraph o) (acyclic : Dag.Acyclic o.nNet o.deps) {f : FNODE} {n : Nat}
    (low : n < o.nNet) (fault : LaunchFault o f n) (x state : Nat → Bool) :
    o.expanded.Detects .TDF f (o.scanned x state o.expanded) ↔
      LaunchCaptured o x state n f.type := by
  by_cases input : o.type n = .IN
  · apply iff_of_false (not_detects_input low input fault _)
    intro captured
    have source : ∀ state' : Nat → Bool, o.cycle x state' (fun _ => none) n = x n := by
      intro state'
      have isSource : (o.type n).isSource = true := by
        rw [input]
        rfl
      rw [Netlist.cycle, Netlist.value, Dag.eval_eq acyclic low, Netlist.op_source rfl isSource, input]
      rfl
    have first := captured.first
    have second := captured.second
    rw [Netlist.cycle1, source] at first
    rw [Netlist.cycle2, source, first] at second
    cases type : f.type <;> rw [type] at second <;> cases second
  · have goodFirst : ∀ k < o.nNet, o.expanded.good (o.scanned x state o.expanded)
        (netId o.type .one k) = o.cycle1 x state k :=
      g.frame1_value acyclic fun _ _ => rfl
    have goodSecond : ∀ k < o.nNet, o.expanded.good (o.scanned x state o.expanded)
        (netId o.type .two k) = o.cycle2 x state (fun _ => none) k :=
      g.frame2_value acyclic (fun _ _ => rfl) fun _ _ => rfl
    -- the site is not in frame 1, where the faulty circuit is as good as the good one
    have faultySecond : ∀ k < o.nNet, o.expanded.faulty f (o.scanned x state o.expanded)
        (netId o.type .two k) = o.cycle2 x state (Netlist.forcedAt n f.type.stuck) k := by
      refine g.frame2_value acyclic (fun k _ => ?_) fun k _ => ?_
      · apply Netlist.forcedAt_ne _
        intro same
        obtain ⟨rfl, frames | isIn⟩ := netId_inj (same.trans fault.site)
        · cases frames
        · exact input isIn
      · rw [fault.site]
        by_cases here : k = n
        · rw [here, Netlist.forcedAt_self, Netlist.forcedAt_self]
        · rw [Netlist.forcedAt_ne _ here, Netlist.forcedAt_ne _ fun same => here (netId_inj same).1]
    have observed : ∀ p ∈ o.expanded.observed .TDF, ∃ d ∈ o.dffs, p = netId o.type .two (o.dataOf d) := by
      intro p mem
      obtain ⟨d, isDff, rfl⟩ := List.mem_map.mp mem
      exact ⟨d, isDff, rfl⟩
    have dataLt : ∀ d ∈ o.dffs, o.dataOf d < o.nNet := fun d mem =>
      (g.dataOf_eq (mem_dffs.mp mem).1 (mem_dffs.mp mem).2).2
    constructor
    · rintro ⟨⟨p, isObserved, differs⟩, excited⟩
      obtain ⟨d, isDff, rfl⟩ := observed p isObserved
      obtain ⟨first, second⟩ := excited _ (fault.excNetptr_eq low)
      rw [goodSecond _ (dataLt d isDff), faultySecond _ (dataLt d isDff)] at differs
      rw [goodFirst n low] at first
      rw [fault.site, goodSecond n low] at second
      exact ⟨first, second, d, isDff, differs⟩
    · rintro ⟨first, second, d, isDff, differs⟩
      refine ⟨⟨netId o.type .two (o.dataOf d), List.mem_map_of_mem isDff, ?_⟩, fun e isExc => ?_⟩
      · rw [goodSecond _ (dataLt d isDff), faultySecond _ (dataLt d isDff)]
        exact differs
      · rw [fault.excNetptr_eq low] at isExc
        cases isExc
        rw [goodFirst n low, fault.site, goodSecond n low]
        exact ⟨first, second⟩

end SequentialGraph

/-- Launch-on-capture detection of the faults of a sequential circuit: at the scanned assignment of any
inputs and states the expansion detects a fault exactly when the two cycles do, and no assignment detects
one of an input. -/
theorem detects_expanded_iff {text : List Char} {a : Accepted} {net : ReadNet} {c : Netlist}
    (accepted : readFile text = .ok a) (read : readNl text = .ok net)
    (plain : ∀ r ∈ a.records, r.type.isFF = true → r.type = .DFF)
    (acyclic : RecordsAcyclic a.records) (expanded : net.wiring.expandTdfNetlist net.pi = some c) :
    let o := net.wiring.netlist net.pi
    ∀ n < o.nNet, ∀ f : FNODE, f.netptr = netId o.type .two n → f.excNetptr = c.peer1t f.netptr →
      (∀ x state : Nat → Bool, c.Detects .TDF f (o.scanned x state c) ↔
        LaunchCaptured o x state n f.type) ∧
      (o.type n = .IN → ∀ y : c.Assignment, ¬ c.Detects .TDF f y) := by
  intro o n low f site excitation
  obtain ⟨-, -, -, -, ports, -, loaded⟩ := readFile_spec accepted
  obtain ⟨pi, -, refines⟩ := readNl_spec accepted read
  have graph := loaded.sequentialGraph refines (readFile_records accepted) plain
  have ordered := loaded.acyclic refines acyclic
  rw [pi] at expanded
  rw [← pi] at graph ordered
  obtain rfl := ((loaded.expandTdfNetlist_eq_some refines).mp expanded).2
  rw [← pi] at excitation ⊢
  exact ⟨graph.detects_iff ordered low ⟨site, excitation⟩, fun input y =>
    SequentialGraph.not_detects_input low input ⟨site, excitation⟩ y⟩

theorem detects_expanded_toggle : ∃ net c, readNl (toggleText "z") = .ok net ∧
    net.wiring.expandTdfNetlist net.pi = some c ∧
    let o := net.wiring.netlist net.pi
    ∀ n < o.nNet, ∀ (x state : Nat → Bool) (type : FaultType),
      c.Detects .TDF ⟨[], [], type, netId o.type .two n, c.peer1t (netId o.type .two n)⟩
        (o.scanned x state c) ↔ LaunchCaptured o x state n type := by
  obtain ⟨a, net, accepted, read, -, plain, acyclic⟩ :=
    @toggleText_records "z" (by decide +kernel) (by decide +kernel)
  have expands : ((readNl (toggleText "z")).toOption.bind
      fun net => net.wiring.expandTdfNetlist net.pi).isSome = true := by decide +kernel
  rw [read] at expands
  change (net.wiring.expandTdfNetlist net.pi).isSome = true at expands
  obtain ⟨c, expanded⟩ := Option.isSome_iff_exists.mp expands
  refine ⟨net, c, read, expanded, fun n low x state type => ?_⟩
  exact (detects_expanded_iff accepted read plain acyclic expanded n low
    ⟨[], [], type, _, _⟩ rfl rfl).1 x state

end SafRprGen
