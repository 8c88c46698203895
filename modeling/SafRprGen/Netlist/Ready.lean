/-
Module: SafRprGen.Netlist.Ready
Layer: Netlist
Purpose: Which accepted netlists the analysis can rely on. `read_nl` and `PrepareCircuitForFaultModel` accept
  texts whose netlists have cycles, undriven nets, inputs that are declared twice or outputs that are not the
  end of a path; every other accepted text gives a well-formed netlist.
Main exports: Driven, ReadyText, wellFormed_accepted_iff
-/
import SafRprGen.Netlist.ReadGraph

namespace SafRprGen

open Related

/-- Every signal is a declared input or the output of a gate that reads something. -/
def Driven (records : List GateRecord) (ports : List (Bool × CStr)) : Prop :=
  ∀ r ∈ records, ∀ word ∈ r.outName :: r.inName,
    word ∈ inputsOf ports ∨ ∃ r' ∈ records, r'.outName = word ∧ r'.inName ≠ []

/-- What a text must have besides being accepted. -/
structure ReadyText (m : FaultModel) (records : List GateRecord) (ports : List (Bool × CStr)) : Prop where
  acyclic : RecordsAcyclic records
  driven : Driven records ports
  once : (inputsOf ports).Nodup
  /-- An output that is used is declared no more often than it is used; the expansion checks that itself. -/
  ends : m = .SAF →
    ∀ word, (outputsOf ports).count word ≤ nameUses records word ∨ nameUses records word = 0

/-! ### The graph that `read_nl` builds -/

/-- A graph of `read_nl` with the numbers of inputs that `read_2nd` accepts. -/
structure PinnedGraph (o : Netlist) : Prop extends SequentialGraph o where
  arity : ∀ n < o.nNet, o.type n ≠ .UNSET → o.type n ≠ .DFF → (o.type n).ArityOk (o.ins n).length
  fanin : ∀ n < o.nNet, (o.ins n).length ≤ 10
  piLt : ∀ n ∈ o.pi, n < o.nNet
  poLt : ∀ p ∈ o.po, p < o.nNet

namespace PinnedGraph

variable {o : Netlist}

/-- A combinational netlist is well-formed when its nets are typed, it has no cycles, its inputs are
distinct and its outputs end their paths. -/
theorem wellFormed_iff (g : PinnedGraph o) (comb : ∀ n < o.nNet, o.type n ≠ .DFF)
    (noPeer : ∀ n, o.peer1t n = none) : o.WellFormed .SAF ↔
      Dag.Acyclic o.nNet o.deps ∧ (∀ n < o.nNet, o.type n ≠ .UNSET) ∧ o.pi.Nodup ∧
        ∀ p ∈ o.po, o.outs p = [] := by
  have deps : ∀ n < o.nNet, o.deps n = o.ins n := by
    intro n low
    by_cases input : o.type n = .IN
    · rw [Netlist.deps, input, g.inputs n low input]
      rfl
    · exact g.deps_gate low input (comb n low)
  constructor
  · intro wf
    refine ⟨wf.acyclicDeps, fun n low unset => ?_, wf.piNodup, fun p mem => ?_⟩
    · have arity := wf.arity n low
      rw [unset] at arity
      exact arity
    · rcases wf.observedEnd p mem with ends | ⟨h, -⟩
      · exact ends
      · cases h
  · rintro ⟨acyclic, typed, once, ends⟩
    exact
      { arity := fun n low => g.arity n low (typed n low) (comb n low)
        fanin := g.fanin
        insLt := g.insLt
        outsLt := g.outsLt
        inverse := g.inverse
        acyclic := acyclic.mono fun n low => by rw [deps n low]; exact List.Subset.refl _
        piNodup := once
        piMem := fun n => ⟨fun mem => ⟨g.piLt n mem, (g.pi n (g.piLt n mem)).mp mem⟩,
          fun h => (g.pi n h.1).mpr h.2⟩
        observedLt := g.poLt
        observedEnd := fun p mem => .inl (ends p mem)
        peerLt := fun n _ p isPeer => by rw [noPeer] at isPeer; cases isPeer
        peerIn := fun n _ _ p isPeer => by rw [noPeer] at isPeer; cases isPeer }

/-- The expansion is well-formed when the circuit, cut at its flip-flops, has no cycles, every net is
typed and the inputs are distinct. -/
theorem expanded_wellFormed_iff (g : PinnedGraph o) : o.expanded.WellFormed .TDF ↔
    Dag.Acyclic o.nNet o.deps ∧ (∀ n < o.nNet, o.type n ≠ .UNSET) ∧ o.pi.Nodup := by
  have graph := g.toSequentialGraph
  have distinct : Function.Injective (netId o.type .one) := fun n n' same => (netId_inj same).1
  constructor
  · intro wf
    refine ⟨graph.acyclic_of_expanded wf.acyclic, fun n low unset => ?_, ?_⟩
    · have arity := wf.arity _ (Netlist.netId_lt_nNet low .one)
      rw [Netlist.expanded_type low, unset] at arity
      exact arity
    · exact (List.nodup_append.mp wf.piNodup).1.of_map _
  · rintro ⟨acyclic, typed, once⟩
    have ppi : ∀ n ∈ o.pi, n < o.nNet ∧ o.type n = .IN := fun n mem =>
      ⟨g.piLt n mem, (g.pi n (g.piLt n mem)).mp mem⟩
    exact
      { arity := by
          intro k low
          obtain ⟨n, hn, frame, rfl, -⟩ := Netlist.exists_copy low
          rw [Netlist.expanded_type hn, Netlist.expanded_ins hn]
          by_cases input : o.type n = .IN
          · rw [input, if_pos rfl]
            exact rfl
          · by_cases dff : o.type n = .DFF
            · rw [if_pos dff, if_neg input, if_pos dff]
              cases frame with
              | one => exact rfl
              | two => exact rfl
            · rw [if_neg dff, if_neg input, if_neg dff, List.length_map]
              exact g.arity n hn (typed n hn) dff
        fanin := fun k low => SequentialGraph.expanded_fanin (by decide) g.fanin low
        insLt := fun k low => graph.expanded_insLt low
        outsLt := fun k low => graph.expanded_outsLt low
        inverse := fun j hj k hk => graph.expanded_inverse hj hk
        acyclic := graph.expanded_acyclic acyclic
        piNodup := by
          apply List.Nodup.append (once.map distinct) ((List.nodup_range.filter _).map distinct)
          intro k shared launched
          obtain ⟨n, isPi, rfl⟩ := List.mem_map.mp shared
          obtain ⟨n', isDff, same⟩ := List.mem_map.mp launched
          have dff := (SequentialGraph.mem_dffs.mp isDff).2
          rw [distinct same, (ppi n isPi).2] at dff
          cases dff
        piMem := by
          intro k
          constructor
          · intro mem
            rcases List.mem_append.mp mem with shared | launched
            · obtain ⟨n, isPi, rfl⟩ := List.mem_map.mp shared
              obtain ⟨low, input⟩ := ppi n isPi
              refine ⟨Netlist.netId_lt_nNet low .one, ?_⟩
              rw [Netlist.expanded_type low, input]
              rfl
            · obtain ⟨n, isDff, rfl⟩ := List.mem_map.mp launched
              obtain ⟨low, dff⟩ := SequentialGraph.mem_dffs.mp isDff
              refine ⟨Netlist.netId_lt_nNet low .one, ?_⟩
              rw [Netlist.expanded_type low, if_pos dff, if_pos rfl]
          · rintro ⟨low, input⟩
            obtain ⟨n, hn, frame, rfl, -⟩ := Netlist.exists_copy low
            rw [Netlist.expanded_type hn] at input
            apply List.mem_append.mpr
            by_cases dff : o.type n = .DFF
            · rw [if_pos dff] at input
              cases frame with
              | one => exact .inr (List.mem_map_of_mem (SequentialGraph.mem_dffs.mpr ⟨hn, dff⟩))
              | two => cases input
            · rw [if_neg dff] at input
              rw [netId_IN input]
              exact .inl (List.mem_map_of_mem ((g.pi n hn).mpr input))
        observedLt := graph.expanded_ppoLt
        observedEnd := by
          intro p mem
          rcases graph.expanded_ppo mem with ⟨n, low, input, rfl⟩ | ends
          · refine .inr ⟨rfl, ?_⟩
            rw [Netlist.expanded_type low, input]
            rfl
          · exact .inl ends
        peerLt := by
          intro k low p isPeer
          obtain ⟨n, hn, -, rfl⟩ := (SequentialGraph.expanded_peer low p).mp isPeer
          exact Netlist.netId_lt_nNet hn .one
        peerIn := by
          intro k low input p isPeer
          obtain ⟨n, hn, rfl, rfl⟩ := (SequentialGraph.expanded_peer low p).mp isPeer
          rw [Netlist.expanded_type hn] at input
          by_cases dff : o.type n = .DFF
          · rw [if_pos dff, if_neg (by decide)] at input
            cases input
          · rw [if_neg dff] at input
            exact (netId_IN input .two).symm }

end PinnedGraph

/-! ### The graph of an accepted text -/

section Accepted

variable {records : List GateRecord} {ports : List (Bool × CStr)} {s : Signals} {gates : List Wires}
  {w : Wiring}

theorem GateType.PinsOk.arity {type : GateType} {k : Nat} (pins : type.PinsOk k) (comb : type.isFF = false)
    (some : k ≠ 0) : type.ArityOk k := by
  cases type with
  | AND | NAND | OR | NOR => exact Nat.one_le_iff_ne_zero.mpr some
  | BUF | INV | EXOR | EXNOR => exact pins
  | DFF | RDFF | DFFS | RDFFS => cases comb
  | IN | UNSET | FOUT => exact absurd pins id

theorem Loaded.pinnedGraph (loaded : Loaded records ports s gates)
    (refines : Refines s.nNet (allocNIn gates) (allocNOut s) w (wired s gates))
    (formed : ∀ r ∈ records, ReadRecord r)
    (plain : ∀ r ∈ records, r.type.isFF = true → r.type = .DFF) :
    PinnedGraph (w.netlist s.pi) where
  toSequentialGraph := loaded.sequentialGraph refines formed plain
  arity := by
    intro n low typed comb
    rw [Wiring.netlist_nNet] at low
    rcases loaded.netlist_cases refines low with ⟨high, type, -⟩ | ⟨-, r, mem, type, some, length⟩ |
        ⟨none, input | unset⟩
    · rw [refines.nNet] at low
      obtain ⟨-, src, -, -, isIn, -⟩ := loaded.parsed.branch high low
      rw [type, refines.netlist_ins loaded.parsed.shape.linked s.pi, isIn]
      exact rfl
    · rw [type, length]
      refine (formed r mem).pins.arity ?_ (length ▸ fun zero => some (List.length_eq_zero_iff.mp zero))
      rw [← Bool.not_eq_true]
      exact fun ff => comb (type.trans (plain r mem ff))
    · rw [input, none]
      exact rfl
    · exact absurd unset typed
  fanin := by
    intro n low
    rw [Wiring.netlist_nNet] at low
    exact loaded.fanin refines formed low
  piLt := by
    intro n mem
    rw [Wiring.netlist_nNet, refines.nNet]
    exact lt_of_lt_of_le (loaded.parsed.pi n mem) loaded.parsed.shape.signals
  poLt := by
    intro p mem
    rw [Wiring.netlist_nNet]
    exact loaded.poLt refines p mem

/-- A signal is a declared input exactly when its name is. -/
theorem Loaded.mem_pi (loaded : Loaded records ports s gates) {n : Nat} {word : CStr}
    (isName : s.table.names[n]? = some word) : n ∈ s.pi ↔ word ∈ inputsOf ports := by
  rw [← List.count_pos_iff, ← List.count_pos_iff,
    count_named loaded.parsed.counted.valid.nodup loaded.pi isName]

/-- Inputs are distinct when no name is declared twice. -/
theorem Loaded.pi_nodup_iff (loaded : Loaded records ports s gates) :
    s.pi.Nodup ↔ (inputsOf ports).Nodup := by
  have nodup := loaded.parsed.counted.valid.nodup
  have mapped : s.pi.Nodup ↔ (s.pi.map (s.table.names[·]?)).Nodup := by
    refine ⟨fun once => once.map_on fun n mem n' mem' same => ?_, fun once => once.of_map _⟩
    have isName := Signals.names_getElem? (loaded.parsed.pi n mem)
    have isName' := Signals.names_getElem? (loaded.parsed.pi n' mem')
    rw [isName, isName', Option.some.injEq] at same
    rw [same] at isName
    exact (List.getElem?_inj (List.getElem?_eq_some_iff.mp isName).1 nodup).mp (isName.trans isName'.symm)
  rw [mapped, loaded.pi]
  exact List.nodup_map_iff (Option.some_injective _)

/-- Every net has a type when every signal is driven. -/
theorem Loaded.typed_iff (loaded : Loaded records ports s gates)
    (refines : Refines s.nNet (allocNIn gates) (allocNOut s) w (wired s gates))
    (formed : ∀ r ∈ records, ReadRecord r) :
    (∀ n < (w.netlist s.pi).nNet, (w.netlist s.pi).type n ≠ .UNSET) ↔ Driven records ports := by
  have parsed := loaded.parsed
  have nodup := parsed.counted.valid.nodup
  rw [Wiring.netlist_nNet, refines.nNet]
  constructor
  · intro typed r isRecord word mem
    obtain ⟨gate, isGate, names⟩ := forall₂_exists_right loaded.names isRecord
    obtain ⟨n, isName⟩ : ∃ n, s.table.names[n]? = some word := by
      rcases List.mem_cons.mp mem with rfl | isIn
      · exact ⟨_, names.out⟩
      · obtain ⟨n, -, named⟩ := forall₂_exists_left names.ins_forall₂ isIn
        exact ⟨n, named⟩
    have signal := (Signals.name_of_getElem? isName).1
    have low : n < (wired s gates).nNet := lt_of_lt_of_le signal parsed.shape.signals
    have some := typed n low
    rw [refines.netlist_type s.pi low] at some
    rcases parsed.net_cases signal with ⟨gate', mem', rfl, pins, -⟩ | ⟨-, type⟩
    · right
      obtain ⟨r', isRecord', -, out, ins⟩ := loaded.record mem'
      refine ⟨r', isRecord', out.symm.trans (Signals.name_of_getElem? isName).2, ?_⟩
      rw [← ins]
      exact fun empty => pins (List.map_eq_nil_iff.mp empty)
    · left
      rw [← loaded.mem_pi isName]
      by_contra other
      exact some (type.trans (if_neg other))
  · intro driven n low unset
    rw [refines.netlist_type s.pi low] at unset
    by_cases signal : n < s.nNet
    · have isName := Signals.names_getElem? signal
      obtain ⟨r, isRecord, mem⟩ : ∃ r ∈ records, s.name n ∈ r.outName :: r.inName := by
        rcases (parsed.counted.low n).mp signal with isUse | isDriver
        · obtain ⟨gate, isGate, isIn⟩ := List.mem_flatMap.mp isUse
          obtain ⟨r, isRecord, -, -, ins⟩ := loaded.record isGate
          exact ⟨r, isRecord, List.mem_cons_of_mem _ (ins ▸ List.mem_map_of_mem isIn)⟩
        · obtain ⟨gate, isGate, rfl⟩ := List.mem_map.mp isDriver
          obtain ⟨r, isRecord, -, out, -⟩ := loaded.record isGate
          exact ⟨r, isRecord, out ▸ List.mem_cons_self⟩
      rcases driven r isRecord _ mem with input | ⟨r', isRecord', out, some⟩
      · have isPi := (loaded.mem_pi isName).mpr input
        rw [parsed.free_type signal (parsed.piDriver n isPi), if_pos isPi] at unset
        cases unset
      · obtain ⟨gate, isGate, names⟩ := forall₂_exists_right loaded.names isRecord'
        have same : gate.outNid = n := by
          have named := names.out
          rw [out] at named
          exact (List.getElem?_inj (List.getElem?_eq_some_iff.mp named).1 nodup).mp
            (named.trans isName.symm)
        have pins : gate.inNid ≠ [] := by
          intro empty
          have ins := names.ins
          rw [empty, List.map_nil] at ins
          exact some (List.map_eq_nil_iff.mp ins.symm)
        rw [← same, parsed.gate_type isGate pins, names.type] at unset
        have all : ∀ t ∈ gateTypes.map (·.2), t ≠ .UNSET := by decide
        exact all _ (formed r' isRecord').known unset
    · rw [(parsed.branch (by omega) low).1] at unset
      cases unset

/-- Outputs end their paths when no used signal has more ports than uses. -/
theorem Loaded.ends_iff (loaded : Loaded records ports s gates)
    (refines : Refines s.nNet (allocNIn gates) (allocNOut s) w (wired s gates)) :
    (∀ p ∈ (w.netlist s.pi).po, (w.netlist s.pi).outs p = []) ↔
      ∀ word, (outputsOf ports).count word ≤ nameUses records word ∨ nameUses records word = 0 := by
  have parsed := loaded.parsed
  have linked := parsed.shape.linked
  have nodup := parsed.counted.valid.nodup
  have start : (startOf s).po = s.po := rfl
  have port : (w.netlist s.pi).po = (wired s gates).po := refines.po
  have counts : ∀ {n : Nat} {word : CStr}, s.table.names[n]? = some word → n ∈ s.po →
      (wired s gates).po.count n = (outputsOf ports).count word - nameUses records word ∧
        ((wired s gates).outs n).length + (wired s gates).po.count n =
          nameUses records word + (outputsOf ports).count word := by
    intro n word isName isPort
    have low := (Signals.name_of_getElem? isName).1
    have uses : s.parserArray false n = nameUses records word := by
      rw [parsed.counted.used]
      exact count_named nodup loaded.usesNamed isName
    have declared := count_named nodup loaded.po isName
    have many : single s n = false := by
      rw [single, decide_eq_false_iff_not, allocNOut_eq]
      have some : 0 < s.po.count n := List.count_pos_iff.mpr isPort
      split <;> omega
    have left := parsed.tally.po n low
    have edges := parsed.tally.outs n low many
    rw [start, ← parsed.uses_eq, uses, declared] at left edges
    rw [many, if_neg Bool.false_ne_true] at left
    exact ⟨left, edges⟩
  rw [port]
  constructor
  · intro ends word
    by_contra more
    push Not at more
    obtain ⟨n, isPort, isName⟩ : ∃ n ∈ s.po, s.table.names[n]? = some word := by
      have mem : some word ∈ s.po.map (s.table.names[·]?) := by
        rw [loaded.po]
        exact List.mem_map_of_mem (List.count_pos_iff.mp (by omega))
      exact List.mem_map.mp mem
    obtain ⟨left, edges⟩ := counts isName isPort
    have none := ends n (List.count_pos_iff.mp (by omega))
    rw [refines.netlist_outs linked s.pi] at none
    rw [none, List.length_nil] at edges
    omega
  · intro few p mem
    rw [refines.netlist_outs linked s.pi]
    obtain ⟨p₀, isPort, rfl | ⟨-, -, -, -, ends⟩⟩ := forall₂_exists_left parsed.shape.po mem
    · have isName := Signals.names_getElem? (parsed.po p isPort)
      obtain ⟨left, edges⟩ := counts isName isPort
      have some : 0 < (wired s gates).po.count p := List.count_pos_iff.mpr mem
      have uses := few (s.name p)
      exact List.length_eq_zero_iff.mp (by omega)
    · exact ends

theorem Loaded.acyclic_iff (loaded : Loaded records ports s gates)
    (refines : Refines s.nNet (allocNIn gates) (allocNOut s) w (wired s gates))
    (formed : ∀ r ∈ records, ReadRecord r) :
    Dag.Acyclic (w.netlist s.pi).nNet (w.netlist s.pi).deps ↔ RecordsAcyclic records :=
  ⟨loaded.recordsAcyclic refines formed, loaded.acyclic refines⟩

/-- The netlist of a combinational circuit. -/
theorem Loaded.saf_wellFormed_iff (loaded : Loaded records ports s gates)
    (refines : Refines s.nNet (allocNIn gates) (allocNOut s) w (wired s gates))
    (formed : ∀ r ∈ records, ReadRecord r) (plain : ∀ r ∈ records, r.type.isFF = true → r.type = .DFF)
    (noDff : ∀ r ∈ records, r.type ≠ .DFF) :
    (w.netlist s.pi).WellFormed .SAF ↔ ReadyText .SAF records ports := by
  have comb : ∀ n < (w.netlist s.pi).nNet, (w.netlist s.pi).type n ≠ .DFF := by
    intro n low dff
    rw [Wiring.netlist_nNet] at low
    rcases loaded.netlist_cases refines low with ⟨-, type, -⟩ | ⟨-, r, mem, type, -⟩ | ⟨-, type | type⟩
    · rw [type] at dff
      cases dff
    · exact noDff r mem (type ▸ dff)
    · rw [type] at dff
      cases dff
    · rw [type] at dff
      cases dff
  have noPeer : ∀ n, (w.netlist s.pi).peer1t n = none := by
    intro n
    by_cases low : n < w.nNet
    · rw [Netlist.peer1t, Wiring.netlist_net _ _ low]
    · rw [Netlist.peer1t, Netlist.net_of_le (by rw [Wiring.netlist_nNet]; omega)]
      rfl
  have once : (w.netlist s.pi).pi.Nodup ↔ (inputsOf ports).Nodup := loaded.pi_nodup_iff
  rw [(loaded.pinnedGraph refines formed plain).wellFormed_iff comb noPeer,
    loaded.acyclic_iff refines formed, loaded.typed_iff refines formed, once, loaded.ends_iff refines]
  exact ⟨fun h => ⟨h.1, h.2.1, h.2.2.1, fun _ => h.2.2.2⟩,
    fun h => ⟨h.acyclic, h.driven, h.once, h.ends rfl⟩⟩

/-- The expanded netlist of a sequential circuit. -/
theorem Loaded.tdf_wellFormed_iff (loaded : Loaded records ports s gates)
    (refines : Refines s.nNet (allocNIn gates) (allocNOut s) w (wired s gates))
    (formed : ∀ r ∈ records, ReadRecord r) (plain : ∀ r ∈ records, r.type.isFF = true → r.type = .DFF)
    {c : Netlist} (expanded : w.expandTdfNetlist s.pi = some c) :
    c.WellFormed .TDF ↔ ReadyText .TDF records ports := by
  obtain ⟨-, rfl⟩ := (loaded.expandTdfNetlist_eq_some refines).mp expanded
  have once : (w.netlist s.pi).pi.Nodup ↔ (inputsOf ports).Nodup := loaded.pi_nodup_iff
  rw [(loaded.pinnedGraph refines formed plain).expanded_wellFormed_iff, loaded.acyclic_iff refines formed,
    loaded.typed_iff refines formed, once]
  exact ⟨fun h => ⟨h.1, h.2.1, h.2.2, fun saf => (by cases saf)⟩, fun h => ⟨h.acyclic, h.driven, h.once⟩⟩

end Accepted

/-- The netlist of a text that is ready is well formed. -/
theorem ReadyText.wellFormed {m : FaultModel} {text : List Char} {a : Accepted} {net : ReadNet}
    {c : Netlist} {ports : List (Bool × CStr)} (sane : ReadyText m a.records ports)
    (accepted : readFile text = .ok a) (declared : declaredPorts text = .ok ports)
    (read : readNl text = .ok net) (prepared : prepareCircuit m net = some c) : c.WellFormed m := by
  obtain ⟨-, -, -, -, ports', declared', loaded⟩ := readFile_spec accepted
  rw [declared] at declared'
  cases declared'
  obtain ⟨pi, count, refines⟩ := readNl_spec accepted read
  have formed := readFile_records accepted
  obtain ⟨plain, ready⟩ := prepareCircuit_spec count prepared
  rw [pi] at ready
  cases m with
  | SAF =>
      obtain ⟨noDff, rfl⟩ := ready
      exact (loaded.saf_wellFormed_iff refines formed plain noDff).mpr sane
  | TDF => exact (loaded.tdf_wellFormed_iff refines formed plain ready).mpr sane

/-- An accepted text gives a well-formed netlist exactly when its gates can be ordered, every signal is
driven, no input is declared twice and, for stuck-at faults, every output ends a path. -/
theorem wellFormed_accepted_iff {m : FaultModel} {text : List Char} {a : Accepted} {net : ReadNet}
    {c : Netlist} {ports : List (Bool × CStr)} (accepted : readFile text = .ok a)
    (declared : declaredPorts text = .ok ports) (read : readNl text = .ok net)
    (prepared : prepareCircuit m net = some c) :
    c.WellFormed m ↔ ReadyText m a.records ports := by
  refine ⟨fun wf => ?_, fun sane => sane.wellFormed accepted declared read prepared⟩
  obtain ⟨-, -, -, -, ports', declared', loaded⟩ := readFile_spec accepted
  rw [declared] at declared'
  cases declared'
  obtain ⟨pi, count, refines⟩ := readNl_spec accepted read
  have formed := readFile_records accepted
  obtain ⟨plain, ready⟩ := prepareCircuit_spec count prepared
  rw [pi] at ready
  cases m with
  | SAF =>
      obtain ⟨noDff, rfl⟩ := ready
      exact (loaded.saf_wellFormed_iff refines formed plain noDff).mp wf
  | TDF => exact (loaded.tdf_wellFormed_iff refines formed plain ready).mp wf

/-- What the passes make of the text of an AND gate. -/
theorem declaredText_read : ∃ a net c, readFile declaredText = .ok a ∧
    declaredPorts declaredText = .ok andPorts ∧
    readNl declaredText = .ok net ∧ prepareCircuit .SAF net = some c ∧ a.records = andRecords ∧
    (List.range c.nNet).map c.name = ["a".toList, "b".toList, "z".toList] ∧ c.nNet = 3 := by
  have records : ((readFile declaredText).toOption.map (·.records), (declaredPorts declaredText).toOption) =
      (some andRecords, some andPorts) := by decide +kernel
  have passes : ((readNl declaredText).toOption.bind (prepareCircuit .SAF)).map
      (fun c => ((List.range c.nNet).map c.name, c.nNet)) =
        some (["a".toList, "b".toList, "z".toList], 3) := by decide +kernel
  obtain ⟨records, ports⟩ := Prod.mk.inj records
  cases accepted : readFile declaredText with
  | error e =>
      rw [accepted] at records
      cases records
  | ok a =>
      rw [accepted] at records
      cases declared : declaredPorts declaredText with
      | error e =>
          rw [declared] at ports
          cases ports
      | ok found =>
          rw [declared] at ports
          cases read : readNl declaredText with
          | error e =>
              rw [read] at passes
              cases passes
          | ok net =>
              rw [read] at passes
              obtain ⟨c, prepared, same⟩ := Option.map_eq_some_iff.mp passes
              rw [Prod.mk.injEq] at same
              exact ⟨a, net, c, rfl, congrArg Except.ok (Option.some.inj ports), rfl, prepared,
                Option.some.inj records, same.1, same.2⟩

theorem readyText_and : ReadyText .SAF andRecords andPorts where
  acyclic := ⟨fun word => if word = "z".toList then 1 else 0, by decide +kernel⟩
  driven := by
    unfold Driven
    decide +kernel
  once := by decide +kernel
  ends := by
    intro _ word
    by_cases named : word = "z".toList
    · subst named
      exact .inr (by decide +kernel)
    · have declared : (outputsOf andPorts).count word = 0 := by
        rw [List.count_eq_zero]
        exact fun mem => named (List.mem_singleton.mp mem)
      exact .inl (declared ▸ Nat.zero_le _)

theorem wellFormed_accepted_and : ∃ net c, readNl declaredText = .ok net ∧
    prepareCircuit .SAF net = some c ∧ c.WellFormed .SAF := by
  obtain ⟨a, net, c, accepted, declared, read, prepared, records, -, -⟩ := declaredText_read
  refine ⟨net, c, read, prepared, (wellFormed_accepted_iff accepted declared read prepared).mpr ?_⟩
  rw [records]
  exact readyText_and

end SafRprGen
