/-
Module: SafRprGen.Netlist.ReadGraph
Layer: Netlist
Purpose: The graph of an accepted text as a sequential graph. No pass looks for cycles, so levels are
  defined exactly for the texts whose gates can be ordered, and the expansion of a sequential circuit
  keeps its graph facts exactly when no slot of `out` stays NULL.
Main exports: Loaded.sequentialGraph, Loaded.full_iff, readNl_spec, levelsDefined_accepted_iff,
  expandTdfNetlist_iff
-/
import SafRprGen.Netlist.Level
import SafRprGen.Netlist.NetCount
import SafRprGen.Netlist.ReadNet

namespace SafRprGen

open Related

variable {records : List GateRecord} {ports : List (Bool × CStr)} {s : Signals} {gates : List Wires}
  {w : Wiring}

theorem ReadRecord.known {r : GateRecord} (h : ReadRecord r) : r.type ∈ gateTypes.map (·.2) := by
  have pins := h.pins
  cases type : r.type <;> rw [type] at pins <;> first | decide | exact absurd pins id

/-- A signal has the gate that drives it, or no inputs. -/
theorem Parsed.net_cases (parsed : Parsed s gates) {n : Nat} (low : n < s.nNet) :
    (∃ gate ∈ gates, gate.outNid = n ∧ gate.inNid ≠ [] ∧ (wired s gates).type n = gate.type) ∨
      ((wired s gates).ins n = [] ∧ (wired s gates).type n = if n ∈ s.pi then .IN else .UNSET) := by
  rcases parsed.shape.type n low with ⟨u, isUse, rfl, type⟩ | ⟨unused, type⟩
  · obtain ⟨mem, pin⟩ := mem_allUses.mp isUse
    refine .inl ⟨u.gate, mem, rfl, ?_, type⟩
    intro empty
    rw [empty] at pin
    cases pin
  · right
    have ins := parsed.shape.ins n low
    have empty : (allUses gates).filter (fun u => u.out = n) = [] := by
      rw [List.filter_eq_nil_iff]
      exact fun u mem same => unused u mem (of_decide_eq_true same)
    rw [empty, List.map_nil] at ins
    exact ⟨List.forall₂_nil_left_iff.mp ins, type.trans (parsed.type n)⟩

/-- A net is a branch, the net of a gate with inputs, or it has no inputs. -/
theorem Loaded.netlist_cases (loaded : Loaded records ports s gates)
    (refines : Refines s.nNet (allocNIn gates) (allocNOut s) w (wired s gates)) {n : Nat}
    (low : n < w.nNet) :
    (s.nNet ≤ n ∧ (w.netlist s.pi).type n = .FOUT ∧ (w.netlist s.pi).ins n ≠ []) ∨
      (n < s.nNet ∧ ∃ r ∈ records, (w.netlist s.pi).type n = r.type ∧
        (w.netlist s.pi).ins n ≠ [] ∧ ((w.netlist s.pi).ins n).length = r.inName.length) ∨
      ((w.netlist s.pi).ins n = [] ∧
        ((w.netlist s.pi).type n = .IN ∨ (w.netlist s.pi).type n = .UNSET)) := by
  have parsed := loaded.parsed
  rw [refines.nNet] at low
  rw [refines.netlist_type s.pi low, refines.netlist_ins parsed.shape.linked s.pi]
  by_cases signal : n < s.nNet
  · rcases parsed.net_cases signal with ⟨gate, mem, rfl, pins, type⟩ | ⟨none, type⟩
    · right
      left
      obtain ⟨r, isRecord, isType, -, names⟩ := loaded.record mem
      have length := (parsed.gate_ins mem).length_eq
      refine ⟨signal, r, isRecord, type.trans isType, ?_, ?_⟩
      · intro empty
        rw [empty] at length
        exact pins (List.length_eq_zero_iff.mp length)
      · rw [← length, ← names, List.length_map]
    · right
      right
      refine ⟨none, ?_⟩
      rw [type]
      split
      · exact .inl rfl
      · exact .inr rfl
  · obtain ⟨type, src, -, -, isIn, -⟩ := parsed.branch (by omega) low
    exact .inl ⟨by omega, type, by rw [isIn]; simp⟩

/-- What the analysis and the expansion rely on. -/
theorem Loaded.sequentialGraph (loaded : Loaded records ports s gates)
    (refines : Refines s.nNet (allocNIn gates) (allocNOut s) w (wired s gates))
    (formed : ∀ r ∈ records, ReadRecord r)
    (plain : ∀ r ∈ records, r.type.isFF = true → r.type = .DFF) :
    SequentialGraph (w.netlist s.pi) := by
  have parsed := loaded.parsed
  have linked := parsed.shape.linked
  have nNet : (w.netlist s.pi).nNet = (wired s gates).nNet := by
    rw [Wiring.netlist_nNet, refines.nNet]
  have ins := refines.netlist_ins linked s.pi
  have outs := refines.netlist_outs linked s.pi
  have cases := fun n (low : n < (w.netlist s.pi).nNet) =>
    loaded.netlist_cases refines ((w.netlist_nNet s.pi) ▸ low)
  have known : ∀ r ∈ records, r.type ≠ .IN ∧ r.type ≠ .UNSET ∧ r.type ≠ .FOUT := by
    intro r mem
    have all : ∀ t ∈ gateTypes.map (·.2), t ≠ .IN ∧ t ≠ .UNSET ∧ t ≠ .FOUT := by decide
    exact all _ (formed r mem).known
  refine ⟨fun n low i edge => ?_, fun n low k edge => ?_, fun a ha b hb => ?_, fun n low input => ?_,
    fun n low dff => ?_, fun n low ff => ?_, fun n low gate typed => ?_, fun n low => ?_,
    fun n low gate x edge => ?_⟩
  · rw [ins] at edge
    exact nNet ▸ (linked.lt (linked.mem_iff.mpr edge)).1
  · rw [outs] at edge
    exact nNet ▸ (linked.lt edge).2
  · rw [ins, outs]
    exact linked.inverse a b
  · rcases cases n low with ⟨-, type, -⟩ | ⟨-, r, mem, type, -⟩ | ⟨none, -⟩
    · rw [type] at input
      cases input
    · exact absurd (type.symm.trans input) (known r mem).1
    · exact none
  · rcases cases n low with ⟨-, type, -⟩ | ⟨-, r, mem, type, -, length⟩ | ⟨-, type | type⟩
    · rw [type] at dff
      cases dff
    · have pins := (formed r mem).pins
      rw [← type, dff] at pins
      exact length.trans pins
    · rw [type] at dff
      cases dff
    · rw [type] at dff
      cases dff
  · rcases cases n low with ⟨-, type, -⟩ | ⟨-, r, mem, type, -⟩ | ⟨-, type | type⟩
    · rw [type] at ff
      cases ff
    · rw [type] at ff ⊢
      exact plain r mem ff
    · rw [type] at ff
      cases ff
    · rw [type] at ff
      cases ff
  · rcases cases n low with ⟨-, -, some⟩ | ⟨-, r, mem, -, some, -⟩ | ⟨-, type | type⟩
    · exact some
    · exact some
    · exact absurd type gate
    · exact absurd type typed
  · rw [nNet] at low
    rw [refines.netlist_type s.pi low]
    change n ∈ s.pi ↔ _
    by_cases signal : n < s.nNet
    · constructor
      · intro input
        rw [parsed.free_type signal (parsed.piDriver n input), if_pos input]
      · intro input
        rcases parsed.net_cases signal with ⟨gate, mem, rfl, -, type⟩ | ⟨-, type⟩
        · obtain ⟨r, isRecord, isType, -⟩ := loaded.record mem
          exact absurd ((type.trans isType).symm.trans input) (known r isRecord).1
        · by_contra other
          rw [type, if_neg other] at input
          cases input
    · apply iff_of_false (fun input => signal (parsed.pi n input))
      intro input
      rw [(parsed.branch (by omega) low).1] at input
      cases input
  · have signal : n < s.nNet := by
      rcases cases n low with ⟨-, type, -⟩ | ⟨signal, -⟩ | ⟨none, -⟩
      · exact absurd type gate
      · exact signal
      · rw [none] at edge
        cases edge
    rw [ins] at edge
    rw [outs]
    exact (parsed.gate_input signal edge).1

/-- Pins are named A to J. -/
theorem Loaded.fanin (loaded : Loaded records ports s gates)
    (refines : Refines s.nNet (allocNIn gates) (allocNOut s) w (wired s gates))
    (formed : ∀ r ∈ records, ReadRecord r) {n : Nat} (low : n < w.nNet) :
    ((w.netlist s.pi).ins n).length ≤ 10 := by
  have parsed := loaded.parsed
  rcases loaded.netlist_cases refines low with ⟨high, -⟩ | ⟨-, r, mem, -, -, length⟩ | ⟨none, -⟩
  · rw [refines.nNet] at low
    obtain ⟨-, src, -, -, isIn, -⟩ := parsed.branch high low
    rw [refines.netlist_ins parsed.shape.linked s.pi, isIn, List.length_singleton]
    decide
  · rw [length]
    exact (formed r mem).fanin
  · rw [none]
    exact Nat.zero_le _

/-- A port is a signal or the branch that carries it. -/
theorem Loaded.poLt (loaded : Loaded records ports s gates)
    (refines : Refines s.nNet (allocNIn gates) (allocNOut s) w (wired s gates)) :
    ∀ p ∈ w.po, p < w.nNet := by
  have parsed := loaded.parsed
  intro p mem
  rw [refines.po] at mem
  rw [refines.nNet]
  obtain ⟨p₀, isPort, rfl | ⟨-, -, low, -⟩⟩ := forall₂_exists_left parsed.shape.po mem
  · exact lt_of_lt_of_le (parsed.po p isPort) parsed.shape.signals
  · exact low

/-- A cycle of gates is one of nets. -/
theorem Loaded.recordsAcyclic (loaded : Loaded records ports s gates)
    (refines : Refines s.nNet (allocNIn gates) (allocNOut s) w (wired s gates))
    (formed : ∀ r ∈ records, ReadRecord r)
    (acyclic : Dag.Acyclic (w.netlist s.pi).nNet (w.netlist s.pi).deps) : RecordsAcyclic records := by
  have parsed := loaded.parsed
  obtain ⟨rank, lower⟩ := acyclic
  rw [Wiring.netlist_nNet, refines.nNet] at lower
  refine ⟨fun word => (s.table.search hashKey word).elim 0 rank, fun r isRecord comb word isIn => ?_⟩
  obtain ⟨gate, mem, names⟩ := forall₂_exists_right loaded.names isRecord
  obtain ⟨src, isSrc, named⟩ := forall₂_exists_left names.ins_forall₂ isIn
  have valid := parsed.counted.valid
  have ofOut := (NameTable.search_eq_some valid).mpr names.out
  have ofSrc := (NameTable.search_eq_some valid).mpr named
  dsimp only
  rw [ofOut, ofSrc, Option.elim_some, Option.elim_some]
  have outLt : gate.outNid < (wired s gates).nNet :=
    lt_of_lt_of_le (Signals.name_of_getElem? names.out).1 parsed.shape.signals
  have type := parsed.gate_type mem (List.ne_nil_of_mem isSrc)
  have notSource : ((wired s gates).type gate.outNid).isSource = false := by
    rw [type, names.type]
    have all : ∀ t ∈ gateTypes.map (·.2), t.isSource = t.isFF := by decide
    rw [all _ (formed r isRecord).known, comb]
  obtain ⟨x, edge, carries⟩ := forall₂_exists_right (parsed.gate_ins mem) isSrc
  have down := (lower gate.outNid outLt x (by
    rw [netlist_deps loaded refines outLt, notSource]
    exact edge)).2
  unfold Wired.Carries at carries
  split at carries
  · exact carries ▸ down
  · obtain ⟨high, low, ins⟩ := carries
    have further := (lower x low src (by
      rw [netlist_deps loaded refines low, (parsed.branch high low).1, ins]
      exact List.mem_singleton.mpr rfl)).2
    exact further.trans down

/-! ### NULL slots -/

/-- No slot stays NULL exactly when no used signal has more ports than uses. -/
theorem Loaded.full_iff (loaded : Loaded records ports s gates)
    (refines : Refines s.nNet (allocNIn gates) (allocNOut s) w (wired s gates)) :
    ((∀ word, (outputsOf ports).count word ≤ nameUses records word ∨ nameUses records word = 0) →
      w.Full) ∧
    ((∃ word, nameUses records word < (outputsOf ports).count word ∧ nameUses records word ≠ 0) →
      ∃ n < w.nNet, none ∈ (w.nl n).outs) := by
  have parsed := loaded.parsed
  have linked := parsed.shape.linked
  have nodup := parsed.counted.valid.nodup
  have nNet := refines.nNet
  have uses : ∀ {n : Nat} {word : CStr}, s.table.names[n]? = some word →
      s.parserArray false n = nameUses records word ∧ s.po.count n = (outputsOf ports).count word := by
    intro n word isName
    rw [parsed.counted.used]
    exact ⟨count_named nodup loaded.usesNamed isName, count_named nodup loaded.po isName⟩
  constructor
  · intro few
    have outs : ∀ n < w.nNet, (w.nl n).outs = ((wired s gates).outs n).map some := by
      intro n low
      by_cases signal : n < s.nNet
      · obtain ⟨isUses, isPorts⟩ := uses (Signals.names_getElem? signal)
        exact loaded.outs_full refines signal (by rw [isUses, isPorts]; exact few _)
      · exact (refines.branch n (by omega) (by omega)).2
    have ins : ∀ n < w.nNet, (w.nl n).ins = ((wired s gates).ins n).map some := by
      intro n low
      by_cases signal : n < s.nNet
      · exact loaded.ins_full refines signal
      · exact (refines.branch n (by omega) (by omega)).1
    refine ⟨fun n low => ⟨_, ins n low, fun i edge => ?_⟩, fun n low => ⟨_, outs n low, fun k edge => ?_⟩,
      fun n low dff => ?_⟩
    · exact nNet ▸ (linked.lt (linked.mem_iff.mpr edge)).1
    · exact nNet ▸ (linked.lt edge).2
    · rw [ins n low]
      rw [(refines.label n (by omega)).2] at dff
      by_cases signal : n < s.nNet
      · rcases parsed.net_cases signal with ⟨gate, mem, rfl, pins, -⟩ | ⟨-, type⟩
        · have length := (parsed.gate_ins mem).length_eq
          intro empty
          rw [List.map_eq_nil_iff.mp empty] at length
          exact pins (List.length_eq_zero_iff.mp length)
        · rw [type] at dff
          split at dff <;> cases dff
      · rw [(parsed.branch (by omega) (by omega)).1] at dff
        cases dff
  · rintro ⟨word, more, used⟩
    obtain ⟨n, isName⟩ : ∃ n, s.table.names[n]? = some word := by
      have port : some word ∈ s.po.map (s.table.names[·]?) := by
        rw [loaded.po]
        exact List.mem_map_of_mem (List.count_pos_iff.mp (by omega))
      obtain ⟨n, -, isName⟩ := List.mem_map.mp port
      exact ⟨n, isName⟩
    obtain ⟨isUses, isPorts⟩ := uses isName
    have signal := (Signals.name_of_getElem? isName).1
    have signals : s.nNet ≤ (wired s gates).nNet := parsed.shape.signals
    refine ⟨n, by omega, ?_⟩
    obtain ⟨⟨free, slots⟩, cap⟩ := refines.outs n signal
    rw [allocNOut_eq, if_pos (by omega)] at cap
    have many : single s n = false := by
      rw [single, decide_eq_false_iff_not, allocNOut_eq, if_pos (by omega)]
      omega
    -- every port beyond the uses leaves a slot
    have left := parsed.tally.po n signal
    have edges := parsed.tally.outs n signal many
    have start : (startOf s).po = s.po := rfl
    rw [many, if_neg Bool.false_ne_true, start, ← parsed.uses_eq] at left
    rw [start, ← parsed.uses_eq] at edges
    rw [slots, List.length_append, List.length_map, List.length_replicate] at cap
    rw [slots, List.mem_append]
    exact .inr (List.mem_replicate.mpr ⟨by omega, rfl⟩)

/-! ### Accepted texts -/

/-- What `read_nl` returns for an accepted text. -/
theorem readNl_spec {text : List Char} {a : Accepted} {net : ReadNet}
    (accepted : readFile text = .ok a) (read : readNl text = .ok net) :
    net.pi = a.signals.pi ∧ (∀ t, net.nFF t = 0 ↔ ∀ r ∈ a.records, r.type ≠ t) ∧
      Refines a.signals.nNet (allocNIn a.gates) (allocNOut a.signals) net.wiring
        (wired a.signals a.gates) := by
  obtain ⟨-, -, -, -, ports, -, loaded⟩ := readFile_spec accepted
  obtain ⟨w, run, refines⟩ := loaded.parsed.connectionSignal
  unfold readNl at read
  rw [accepted] at read
  dsimp only at read
  rw [run] at read
  dsimp only at read
  split at read
  · cases read
  · cases read
    refine ⟨rfl, fun t => ?_, refines⟩
    rw [List.countP_eq_zero]
    simp only [decide_eq_true_eq]

/-- `PrepareCircuitForFaultModel` lets no flip-flops pass for stuck-at faults and only plain ones for
transition faults. -/
theorem prepareCircuit_spec {m : FaultModel} {net : ReadNet} {c : Netlist}
    (count : ∀ t, net.nFF t = 0 ↔ ∀ r ∈ records, r.type ≠ t)
    (prepared : prepareCircuit m net = some c) : (∀ r ∈ records, r.type.isFF = true → r.type = .DFF) ∧
      match m with
      | .SAF => (∀ r ∈ records, r.type ≠ .DFF) ∧ c = net.wiring.netlist net.pi
      | .TDF => net.wiring.expandTdfNetlist net.pi = some c := by
  have onlyPlain : net.nFF .RDFF = 0 → net.nFF .DFFS = 0 → net.nFF .RDFFS = 0 →
      ∀ r ∈ records, r.type.isFF = true → r.type = .DFF := by
    intro rdff dffs rdffs r mem ff
    have noRdff := (count .RDFF).mp rdff r mem
    have noDffs := (count .DFFS).mp dffs r mem
    have noRdffs := (count .RDFFS).mp rdffs r mem
    cases type : r.type <;> rw [type] at ff noRdff noDffs noRdffs <;> contradiction
  unfold prepareCircuit at prepared
  cases m with
  | SAF =>
      dsimp only at prepared ⊢
      split at prepared
      · cases prepared
      · cases prepared
        exact ⟨onlyPlain (by omega) (by omega) (by omega), (count .DFF).mp (by omega), rfl⟩
  | TDF =>
      dsimp only at prepared ⊢
      split at prepared
      · cases prepared
      · split at prepared
        · cases prepared
        · exact ⟨onlyPlain (by omega) (by omega) (by omega), prepared⟩

/-- The expansion succeeds exactly when no slot stays NULL. -/
theorem Loaded.expandTdfNetlist_eq_some (loaded : Loaded records ports s gates)
    (refines : Refines s.nNet (allocNIn gates) (allocNOut s) w (wired s gates)) {c : Netlist} :
    w.expandTdfNetlist s.pi = some c ↔
      (∀ word, (outputsOf ports).count word ≤ nameUses records word ∨ nameUses records word = 0) ∧
        c = (w.netlist s.pi).expanded := by
  obtain ⟨full, null⟩ := loaded.full_iff refines
  have parsed := loaded.parsed
  have signals : s.nNet ≤ (wired s gates).nNet := parsed.shape.signals
  by_cases few : ∀ word, (outputsOf ports).count word ≤ nameUses records word ∨ nameUses records word = 0
  · have piLow : ∀ p ∈ s.pi, p < w.nNet := fun p mem => by
      have := parsed.pi p mem
      rw [refines.nNet]
      omega
    rw [(full few).expandTdfNetlist_eq piLow (loaded.poLt refines), Option.some.injEq, and_iff_right few,
      eq_comm]
  · have some : ∃ word, nameUses records word < (outputsOf ports).count word ∧
        nameUses records word ≠ 0 := by
      push Not at few
      exact few
    obtain ⟨n, low, isNull⟩ := null some
    rw [Wiring.expandTdfNetlist_null low isNull]
    exact ⟨fun h => (by cases h), fun h => absurd h.1 few⟩

/-- The searches can run on every netlist that is ready for analysis, and the excitation net of a
transition fault is one of its nets. -/
theorem prepareCircuit_searchable {m : FaultModel} {text : List Char} {a : Accepted} {net : ReadNet}
    {c : Netlist} (accepted : readFile text = .ok a) (read : readNl text = .ok net)
    (prepared : prepareCircuit m net = some c) : c.Searchable m ∧
      ∀ f, c.IsFault m f → ∀ e ∈ f.excNetptr, e < c.nNet := by
  obtain ⟨-, -, -, -, ports, -, loaded⟩ := readFile_spec accepted
  obtain ⟨pi, count, refines⟩ := readNl_spec accepted read
  have formed := readFile_records accepted
  obtain ⟨plain, ready⟩ := prepareCircuit_spec count prepared
  have graph := loaded.sequentialGraph refines formed plain
  have fanin : ∀ n < (net.wiring.netlist a.signals.pi).nNet,
      ((net.wiring.netlist a.signals.pi).ins n).length ≤ 10 := by
    intro n low
    rw [Wiring.netlist_nNet] at low
    exact loaded.fanin refines formed low
  rw [pi] at ready
  cases m with
  | SAF =>
      obtain ⟨-, rfl⟩ := ready
      refine ⟨graph.searchable fanin fun p mem => ?_, fun f fault e isExc => ?_⟩
      · rw [Wiring.netlist_nNet]
        exact loaded.poLt refines p mem
      · rw [fault.saf rfl] at isExc
        cases isExc
  | TDF =>
      rw [((loaded.expandTdfNetlist_eq_some refines).mp ready).2]
      refine ⟨graph.expanded_searchable fanin, fun f fault e isExc => ?_⟩
      rw [(fault.tdf rfl).1] at isExc
      obtain ⟨n, low, -, rfl⟩ := (SequentialGraph.expanded_peer fault.netLt e).mp isExc
      exact Netlist.netId_lt_nNet low .one

/-! ### Levels -/

/-- Without flip-flops, levels are defined when the values are. -/
theorem SequentialGraph.levelsDefined_iff {o : Netlist} (g : SequentialGraph o)
    (comb : ∀ n < o.nNet, o.type n ≠ .DFF) : o.LevelsDefined ↔ Dag.Acyclic o.nNet o.deps := by
  have inputs : ∀ n, o.type n = .IN → o.ins n = [] := by
    intro n input
    by_cases low : n < o.nNet
    · exact g.inputs n low input
    · exact Netlist.ins_of_le (by omega)
  have deps : ∀ n < o.nNet, o.deps n = o.ins n := by
    intro n low
    by_cases input : o.type n = .IN
    · rw [Netlist.deps, input, inputs n input]
      rfl
    · exact g.deps_gate low input (comb n low)
  rw [Netlist.levelsDefined_iff inputs g.insLt g.gates]
  exact ⟨fun h => h.mono fun n low => by rw [deps n low]; exact List.Subset.refl _,
    fun h => h.mono fun n low => by rw [deps n low]; exact List.Subset.refl _⟩

theorem SequentialGraph.expanded_levelsDefined_iff {o : Netlist} (g : SequentialGraph o) :
    o.expanded.LevelsDefined ↔ Dag.Acyclic o.nNet o.deps := by
  obtain ⟨inputs, gates⟩ := g.expanded_gates
  rw [Netlist.levelsDefined_iff inputs (fun k low => g.expanded_insLt low) gates]
  exact ⟨g.acyclic_of_expanded, g.expanded_acyclic⟩

/-- Levels are defined exactly when the gates can be ordered. -/
theorem levelsDefined_accepted_iff {m : FaultModel} {text : List Char} {a : Accepted} {net : ReadNet}
    {c : Netlist} (accepted : readFile text = .ok a) (read : readNl text = .ok net)
    (prepared : prepareCircuit m net = some c) : c.LevelsDefined ↔ RecordsAcyclic a.records := by
  obtain ⟨-, -, -, -, ports, -, loaded⟩ := readFile_spec accepted
  obtain ⟨pi, count, refines⟩ := readNl_spec accepted read
  have formed := readFile_records accepted
  obtain ⟨plain, ready⟩ := prepareCircuit_spec count prepared
  have graph := loaded.sequentialGraph refines formed plain
  have ordered : RecordsAcyclic a.records ↔ Dag.Acyclic (net.wiring.netlist a.signals.pi).nNet
      (net.wiring.netlist a.signals.pi).deps :=
    ⟨loaded.acyclic refines, loaded.recordsAcyclic refines formed⟩
  rw [ordered]
  rw [pi] at ready
  cases m with
  | SAF =>
      obtain ⟨noDff, rfl⟩ := ready
      apply graph.levelsDefined_iff
      intro n low dff
      rw [Wiring.netlist_nNet] at low
      rcases loaded.netlist_cases refines low with ⟨-, type, -⟩ | ⟨-, r, mem, type, -⟩ | ⟨-, type | type⟩
      · rw [type] at dff
        cases dff
      · exact noDff r mem (type ▸ dff)
      · rw [type] at dff
        cases dff
      · rw [type] at dff
        cases dff
  | TDF =>
      rw [((loaded.expandTdfNetlist_eq_some refines).mp ready).2]
      exact graph.expanded_levelsDefined_iff

/-- Two buffers in a ring. -/
def ringText : List Char :=
  ("module m (z);\noutput z;\nBUF U1 (.A(y), .Z(z));\n" ++
    "BUF U2 (.A(z), .Z(y));\nendmodule\n").toList

/-- It is accepted, and `ComputeLevels` runs into the ring. -/
theorem ringText_levels : ∃ net c, readNl ringText = .ok net ∧ prepareCircuit .SAF net = some c ∧
    ¬ c.LevelsDefined := by
  have computed : ((readNl ringText).toOption.bind (prepareCircuit .SAF)).map
      (fun c => c.computeLevels.isSome) = some false := by decide +kernel
  cases read : readNl ringText with
  | error e =>
      rw [read] at computed
      cases computed
  | ok net =>
      rw [read] at computed
      obtain ⟨c, prepared, noLevels⟩ := Option.map_eq_some_iff.mp computed
      refine ⟨net, c, rfl, prepared, fun ⟨level, run, _⟩ => ?_⟩
      rw [run] at noLevels
      cases noLevels

theorem levelsDefined_accepted_and : ∃ net c, readNl declaredText = .ok net ∧
    prepareCircuit .SAF net = some c ∧ c.LevelsDefined := by
  have computed : ((readFile declaredText).toOption.map (·.records),
      ((readNl declaredText).toOption.bind (prepareCircuit .SAF)).isSome) =
        (some andRecords, true) := by decide +kernel
  rw [Prod.mk.injEq] at computed
  obtain ⟨records, passes⟩ := computed
  cases accepted : readFile declaredText with
  | error e =>
      rw [accepted] at records
      cases records
  | ok a =>
      rw [accepted] at records
      have isRecords : a.records = andRecords := Option.some.inj records
      have acyclic : RecordsAcyclic andRecords :=
        ⟨fun word => if word = "z".toList then 1 else 0, by decide +kernel⟩
      cases read : readNl declaredText with
      | error e =>
          rw [read] at passes
          cases passes
      | ok net =>
          rw [read] at passes
          change (prepareCircuit .SAF net).isSome = true at passes
          obtain ⟨c, prepared⟩ := Option.isSome_iff_exists.mp passes
          exact ⟨net, c, rfl, prepared,
            (levelsDefined_accepted_iff accepted read prepared).mpr (isRecords ▸ acyclic)⟩

/-! ### The expansion -/

/-- The expansion keeps its graph facts exactly when no used signal has more ports than uses. -/
theorem expandTdfNetlist_iff {text : List Char} {a : Accepted} {net : ReadNet}
    {ports : List (Bool × CStr)} (accepted : readFile text = .ok a) (read : readNl text = .ok net)
    (declared : declaredPorts text = .ok ports)
    (plain : ∀ r ∈ a.records, r.type.isFF = true → r.type = .DFF)
    (acyclic : RecordsAcyclic a.records) :
    (∃ c, net.wiring.expandTdfNetlist net.pi = some c ∧
        ExpandsWell (net.wiring.netlist net.pi) c) ↔
      ∀ word, (outputsOf ports).count word ≤ nameUses a.records word ∨ nameUses a.records word = 0 := by
  obtain ⟨-, -, -, -, ports', declared', loaded⟩ := readFile_spec accepted
  rw [declared] at declared'
  cases declared'
  obtain ⟨pi, -, refines⟩ := readNl_spec accepted read
  have graph := loaded.sequentialGraph refines (readFile_records accepted) plain
  rw [pi]
  constructor
  · rintro ⟨c, run, -⟩
    exact ((loaded.expandTdfNetlist_eq_some refines).mp run).1
  · intro few
    exact ⟨_, (loaded.expandTdfNetlist_eq_some refines).mpr ⟨few, rfl⟩,
      graph.expandsWell (loaded.acyclic refines acyclic)⟩

/-- A sequential circuit with the ports `ports`. -/
def toggleText (ports : String) : List Char :=
  ("module m (a, z);\ninput a;\noutput " ++ ports ++ ";\nDFF U1 (.D(z), .CP(clk), .Q(q));\n" ++
    "AND2 U2 (.A(a), .B(q), .Z(z));\nendmodule\n").toList

/-- The records of its gates. -/
def toggleRecords : List GateRecord :=
  [⟨"U1".toList, .DFF, "q".toList, ["z".toList]⟩,
    ⟨"U2".toList, .AND, "z".toList, ["a".toList, "q".toList]⟩]

theorem toggleRecords_acyclic : RecordsAcyclic toggleRecords :=
  ⟨fun word => if word = "z".toList then 1 else 0, by decide⟩

/-- What the texts of the circuit are read as. -/
theorem toggleText_records {ports : String}
    (records : (readFile (toggleText ports)).toOption.map (·.records) = some toggleRecords)
    (reads : (readNl (toggleText ports)).toOption.isSome = true) :
    ∃ a net, readFile (toggleText ports) = .ok a ∧ readNl (toggleText ports) = .ok net ∧
      a.records = toggleRecords ∧ (∀ r ∈ a.records, r.type.isFF = true → r.type = .DFF) ∧
      RecordsAcyclic a.records := by
  cases accepted : readFile (toggleText ports) with
  | error e =>
      rw [accepted] at records
      cases records
  | ok a =>
      cases read : readNl (toggleText ports) with
      | error e =>
          rw [read] at reads
          cases reads
      | ok net =>
          rw [accepted] at records
          have isRecords : a.records = toggleRecords := Option.some.inj records
          refine ⟨a, net, rfl, rfl, isRecords, ?_, isRecords ▸ toggleRecords_acyclic⟩
          rw [isRecords]
          decide

/-- A port that is declared twice leaves a slot NULL, and the expansion dereferences it. -/
theorem toggleText_null : ∃ a net, readFile (toggleText "z, z") = .ok a ∧
    readNl (toggleText "z, z") = .ok net ∧
    (∀ r ∈ a.records, r.type.isFF = true → r.type = .DFF) ∧ RecordsAcyclic a.records ∧
    ¬ ∃ c, net.wiring.expandTdfNetlist net.pi = some c ∧
      ExpandsWell (net.wiring.netlist net.pi) c := by
  obtain ⟨a, net, accepted, read, -, plain, acyclic⟩ :=
    @toggleText_records "z, z" (by decide +kernel) (by decide +kernel)
  have null : (readNl (toggleText "z, z")).toOption.bind
      (fun net => net.wiring.expandTdfNetlist net.pi) = none := by decide +kernel
  refine ⟨a, net, accepted, read, plain, acyclic, fun ⟨c, run, _⟩ => ?_⟩
  rw [read] at null
  change net.wiring.expandTdfNetlist net.pi = none at null
  rw [null] at run
  cases run

theorem expandTdfNetlist_toggle : ∃ net c, readNl (toggleText "z") = .ok net ∧
    net.wiring.expandTdfNetlist net.pi = some c ∧
      ExpandsWell (net.wiring.netlist net.pi) c := by
  obtain ⟨a, net, accepted, read, isRecords, plain, acyclic⟩ :=
    @toggleText_records "z" (by decide +kernel) (by decide +kernel)
  have declared : declaredPorts (toggleText "z") = .ok [(true, "a".toList), (false, "z".toList)] := by
    decide +kernel
  obtain ⟨c, run, well⟩ :=
    (expandTdfNetlist_iff accepted read declared plain acyclic).mpr fun word => by
      by_cases port : word = "z".toList
      · left
        rw [port, isRecords]
        decide +kernel
      · left
        have none : (outputsOf [(true, "a".toList), (false, "z".toList)]).count word = 0 :=
          List.count_eq_zero.mpr fun mem => port (List.mem_singleton.mp mem)
        rw [none]
        exact Nat.zero_le _
  exact ⟨net, c, read, run, well⟩

end SafRprGen
