/-
Module: SafRprGen.Netlist.ReadNet
Layer: Netlist
Purpose: The graph that `connection_signal` builds from gate records and ports, as the netlist that the
  analysis reads. Inputs of gates are the signals of the records or branches of them, and the values of
  the nets are those of the signals in the list of gates.
Main exports: Solves, BuiltGraph, Evaluates, connectionSignal_graph
-/
import SafRprGen.Lib.Related
import SafRprGen.Netlist.Expanded
import SafRprGen.Netlist.Ports

namespace SafRprGen

open Related

theorem Filled.reduceOption {slots : List (Option Nat)} {entries : List Nat} (h : Filled slots entries) :
    slots.reduceOption = entries := by
  obtain ⟨free, rfl⟩ := h
  rw [List.reduceOption_append, List.reduceOption_replicate_none, List.append_nil,
    reduceOption_map_some]

section Graph

variable {nSignal : Nat} {capIn capOut : Nat → Nat} {w : Wiring} {v : Wired}

/-- The edges of a net are the entries of its slots. -/
theorem Refines.entries (h : Refines nSignal capIn capOut w v) {n : Nat} (low : n < v.nNet) :
    Filled (w.nl n).ins (v.ins n) ∧ Filled (w.nl n).outs (v.outs n) := by
  by_cases signal : n < nSignal
  · exact ⟨(h.ins n signal).1, (h.outs n signal).1⟩
  · obtain ⟨ins, outs⟩ := h.branch n (by omega) low
    rw [ins, outs]
    exact ⟨filled_map _, filled_map _⟩

theorem Refines.netlist_ins (h : Refines nSignal capIn capOut w v) (linked : v.Linked) (pi : List Nat)
    (n : Nat) : (w.netlist pi).ins n = v.ins n := by
  by_cases low : n < v.nNet
  · rw [Netlist.ins, Wiring.netlist_net w pi (h.nNet ▸ low)]
    exact (h.entries low).1.reduceOption
  · rw [Netlist.ins_of_le (by rw [Wiring.netlist_nNet, h.nNet]; omega),
      (linked.beyond n (by omega)).2]

theorem Refines.netlist_outs (h : Refines nSignal capIn capOut w v) (linked : v.Linked) (pi : List Nat)
    (n : Nat) : (w.netlist pi).outs n = v.outs n := by
  by_cases low : n < v.nNet
  · rw [Netlist.outs, Wiring.netlist_net w pi (h.nNet ▸ low)]
    exact (h.entries low).2.reduceOption
  · rw [Netlist.outs_of_le (by rw [Wiring.netlist_nNet, h.nNet]; omega),
      (linked.beyond n (by omega)).1]

theorem Refines.netlist_type (h : Refines nSignal capIn capOut w v) (pi : List Nat) {n : Nat}
    (low : n < v.nNet) : (w.netlist pi).type n = v.type n := by
  rw [Netlist.type, Wiring.netlist_net w pi (h.nNet ▸ low)]
  exact (h.label n low).2

theorem Refines.netlist_name (h : Refines nSignal capIn capOut w v) (pi : List Nat) {n : Nat}
    (low : n < v.nNet) : (w.netlist pi).name n = v.name n := by
  rw [Netlist.name, Wiring.netlist_net w pi (h.nNet ▸ low)]
  exact (h.label n low).1

end Graph

/-! ### The nets of the signals -/

section Signals

variable {s : Signals} {gates : List Wires}

/-- The inputs of a gate carry its signals. -/
theorem Parsed.gate_ins (parsed : Parsed s gates) {gate : Wires} (mem : gate ∈ gates) :
    List.Forall₂ ((wired s gates).Carries s.nNet (single s)) gate.inNid
      ((wired s gates).ins gate.outNid) := by
  have low : gate.outNid < s.nNet := (parsed.counted.low _).mpr (.inr (List.mem_map_of_mem mem))
  have ins := parsed.shape.ins gate.outNid low
  rwa [allUses_out parsed.driversNodup mem] at ins

/-- A net without a gate has no inputs. -/
theorem Parsed.free_ins (parsed : Parsed s gates) {n : Nat} (low : n < s.nNet)
    (none : n ∉ driversOf gates) : (wired s gates).ins n = [] := by
  have ins := parsed.shape.ins n low
  have empty : (allUses gates).filter (fun u => u.out = n) = [] := by
    rw [List.filter_eq_nil_iff]
    intro u mem same
    exact none (of_decide_eq_true same ▸ List.mem_map_of_mem (mem_allUses.mp mem).1)
  rw [empty, List.map_nil] at ins
  exact List.forall₂_nil_left_iff.mp ins

theorem Parsed.gate_type (parsed : Parsed s gates) {gate : Wires} (mem : gate ∈ gates)
    (pins : gate.inNid ≠ []) : (wired s gates).type gate.outNid = gate.type := by
  have low : gate.outNid < s.nNet := (parsed.counted.low _).mpr (.inr (List.mem_map_of_mem mem))
  have same : ∀ gate' ∈ gates, gate'.outNid = gate.outNid → gate' = gate := fun gate' mem' h =>
    List.inj_on_of_nodup_map parsed.driversNodup mem' mem h
  rcases parsed.shape.type gate.outNid low with ⟨u, isUse, out, type⟩ | ⟨unused, -⟩
  · rw [type, same u.gate (mem_allUses.mp isUse).1 out]
  · obtain ⟨src, pin⟩ := List.exists_mem_of_ne_nil _ pins
    obtain ⟨k, isPin⟩ := List.mem_iff_getElem?.mp pin
    exact absurd rfl (unused ⟨gate, k, src⟩ (mem_allUses.mpr ⟨mem, isPin⟩))

/-- A net without a gate keeps its type. -/
theorem Parsed.free_type (parsed : Parsed s gates) {n : Nat} (low : n < s.nNet)
    (none : n ∉ driversOf gates) :
    (wired s gates).type n = if n ∈ s.pi then .IN else .UNSET := by
  rcases parsed.shape.type n low with ⟨u, isUse, rfl, -⟩ | ⟨-, type⟩
  · exact absurd (List.mem_map_of_mem (mem_allUses.mp isUse).1) none
  · rw [type]
    exact parsed.type n

theorem Parsed.branch (parsed : Parsed s gates) {b : Nat} (high : s.nNet ≤ b)
    (low : b < (wired s gates).nNet) : (wired s gates).type b = .FOUT ∧ ∃ n < s.nNet,
      single s n = false ∧ (wired s gates).ins b = [n] ∧ ((wired s gates).outs b = [] ∨
        ∃ u ∈ allUses gates, u.src = n ∧ (wired s gates).outs b = [u.out]) :=
  parsed.shape.branch b high low

/-- What a gate input carries, it carries to this gate only. -/
theorem Parsed.carries_outs (parsed : Parsed s gates) {n x src : Nat}
    (edge : x ∈ (wired s gates).ins n) (carries : (wired s gates).Carries s.nNet (single s) src x)
    (used : src < s.nNet) : (wired s gates).outs x = [n] := by
  have linked := parsed.shape.linked
  have back : n ∈ (wired s gates).outs x := linked.mem_iff.mpr edge
  unfold Wired.Carries at carries
  split at carries
  · rename_i one
    subst carries
    have all := parsed.shape.outsSingle x used one
    have isOne : allocNOut s x = 1 := of_decide_eq_true one
    have few : ((wired s gates).outs x).length ≤ 1 := by
      rw [all, List.length_map, ← List.countP_eq_length_filter, ← parsed.uses_eq]
      rw [allocNOut_eq] at isOne
      omega
    obtain ⟨o, only⟩ := List.length_eq_one_iff.mp (le_antisymm few (List.length_pos_of_mem back))
    rw [only, List.mem_singleton] at back
    rw [only, back]
  · obtain ⟨high, low, -⟩ := carries
    obtain ⟨-, _, -, -, -, outs | ⟨u, -, -, outs⟩⟩ := parsed.branch high low
    · rw [outs] at back
      cases back
    · rw [outs, List.mem_singleton] at back
      rw [outs, back]

end Signals

/-! ### The graph of a list of gates -/

/-- Port names are distinct, and every signal that a gate uses is an input or the output of one gate. -/
structure WellUsed (records : List GateRecord) (ports : List (Bool × CStr)) : Prop where
  distinct : (ports.map (·.2)).Nodup
  used : ∀ r ∈ records, ∀ word ∈ r.inName,
    word ∈ inputsOf ports ∨ (records.map (·.outName)).count word = 1

/-- The facts about slots that the analysis relies on. -/
structure BuiltGraph (records : List GateRecord) (s : Signals) (gates : List Wires) (w : Wiring) :
    Prop where
  /-- The slots of a gate hold the nets of its signals or branches of them. -/
  pins : List.Forall₂ (fun r gate => s.table.names[gate.outNid]? = some r.outName ∧
    List.Forall₂ (fun word slot => ∃ n x, s.table.names[n]? = some word ∧ slot = some x ∧
      (x = n ∨ ((w.nl x).type = .FOUT ∧ (w.nl x).ins = [some n])))
      r.inName (w.nl gate.outNid).ins) records gates
  inverse : ∀ a < w.nNet, ∀ b < w.nNet,
    (w.nl a).outs.count (some b) = (w.nl b).ins.count (some a)
  noNull : ∀ n < w.nNet, (∀ slot ∈ (w.nl n).ins, ∃ x < w.nNet, slot = some x) ∧
    ∀ slot ∈ (w.nl n).outs, ∃ x < w.nNet, slot = some x
  fanout : ∀ n < w.nNet, 2 ≤ (w.nl n).outs.length → ∀ x, some x ∈ (w.nl n).outs →
    (w.nl x).type = .FOUT
  gateInputs : ∀ n < w.nNet, (w.nl n).type ≠ .FOUT → ∀ x, some x ∈ (w.nl n).ins →
    (w.nl x).outs.length = 1 ∧ x ∉ w.po
  ends : ∀ p ∈ w.po, (w.nl p).outs = []

/-- The gates can be ordered so that each comes after those that drive it; flip-flops are cut. -/
def RecordsAcyclic (records : List GateRecord) : Prop :=
  ∃ rank : CStr → Nat, ∀ r ∈ records, r.type.isFF = false →
    ∀ word ∈ r.inName, rank word < rank r.outName

/-- Values of the signals in the list of gates: `source` feeds the inputs and the flip-flop states. -/
structure Solves (records : List GateRecord) (inputs : List CStr) (source value : CStr → Bool) :
    Prop where
  input : ∀ word ∈ inputs, value word = source word
  gate : ∀ r ∈ records, value r.outName =
    if r.type.isFF then source r.outName else r.type.fn (r.inName.map value)

/-- The graph gives the outputs the values that their signals have in the list of gates. -/
def Evaluates (records : List GateRecord) (ports : List (Bool × CStr)) (s : Signals) (w : Wiring) :
    Prop :=
  RecordsAcyclic records → ∀ source : CStr → Bool, ∃ value,
    Solves records (inputsOf ports) source value ∧
    (∀ value', Solves records (inputsOf ports) source value' →
      ∀ word ∈ inputsOf ports ++ records.map (·.outName), value' word = value word) ∧
    w.po.map ((w.netlist s.pi).value (fun n => source (s.name n)) fun _ => none) =
      (outputsOf ports).map value

section Facts

variable {records : List GateRecord} {ports : List (Bool × CStr)} {s : Signals} {gates : List Wires}

theorem Refines.count_outs {nSignal : Nat} {capIn capOut : Nat → Nat} {w : Wiring} {v : Wired}
    (h : Refines nSignal capIn capOut w v) {a b : Nat} (ha : a < v.nNet) (hb : b < v.nNet)
    (linked : v.Linked) : (w.nl a).outs.count (some b) = (w.nl b).ins.count (some a) := by
  have counts : ∀ {slots : List (Option Nat)} {entries : List Nat} (n : Nat), Filled slots entries →
      slots.count (some n) = entries.count n := by
    rintro slots entries n ⟨free, rfl⟩
    rw [List.count_append, List.count_map_of_injective _ _ (Option.some_injective _),
      List.count_replicate]
    simp
  rw [counts b (h.entries ha).2, counts a (h.entries hb).1, linked.inverse]

/-- A signal that is not declared more than once has no more ports than uses, unless it has none. -/
theorem po_count_le (distinct : (ports.map (·.2)).Nodup) (loaded : Loaded records ports s gates)
    (n : Nat) : s.po.count n ≤ 1 := by
  have nodup : s.po.Nodup := by
    have outputs : ((outputsOf ports).map some).Nodup := by
      apply List.Nodup.map (Option.some_injective _)
      exact distinct.sublist (List.Sublist.map _ List.filter_sublist)
    rw [← loaded.po] at outputs
    exact outputs.of_map _
  exact List.nodup_iff_count_le_one.mp nodup n

/-- (b): no slot stays NULL when no signal has more ports than uses. -/
theorem Loaded.outs_full (loaded : Loaded records ports s gates) {w : Wiring}
    (refines : Refines s.nNet (allocNIn gates) (allocNOut s) w (wired s gates)) {n : Nat}
    (low : n < s.nNet)
    (few : s.po.count n ≤ s.parserArray false n ∨ s.parserArray false n = 0) :
    (w.nl n).outs = ((wired s gates).outs n).map some := by
  have parsed := loaded.parsed
  obtain ⟨filled, cap⟩ := refines.outs n low
  apply filled.full
  rw [cap, allocNOut_eq]
  cases one : single s n with
  | true =>
      have isOne : allocNOut s n = 1 := of_decide_eq_true one
      rw [allocNOut_eq] at isOne
      rw [isOne, parsed.shape.outsSingle n low one, List.length_map, ← List.countP_eq_length_filter,
        ← parsed.uses_eq]
      split at isOne <;> omega
  | false =>
      have edges := parsed.tally.outs n low one
      have ports := parsed.tally.po n low
      have start : (startOf s).po = s.po := rfl
      rw [one, if_neg Bool.false_ne_true, start, ← parsed.uses_eq] at ports
      rw [start, ← parsed.uses_eq] at edges
      split <;> omega

theorem Loaded.ins_full (loaded : Loaded records ports s gates) {w : Wiring}
    (refines : Refines s.nNet (allocNIn gates) (allocNOut s) w (wired s gates)) {n : Nat}
    (low : n < s.nNet) : (w.nl n).ins = ((wired s gates).ins n).map some := by
  have parsed := loaded.parsed
  obtain ⟨filled, cap⟩ := refines.ins n low
  apply filled.full
  rw [cap]
  by_cases driven : n ∈ driversOf gates
  · obtain ⟨gate, mem, rfl⟩ := List.mem_map.mp driven
    rw [allocNIn_eq parsed.driversNodup mem, (parsed.gate_ins mem).length_eq]
  · rw [allocNIn_none driven, parsed.free_ins low driven]
    rfl

theorem Names.ins_forall₂ {r : GateRecord} {gate : Wires} (names : Names s r gate) :
    List.Forall₂ (fun n word => s.table.names[n]? = some word) gate.inNid r.inName := by
  have same := names.ins
  rw [← List.forall₂_eq_eq_eq, List.forall₂_map_left_iff, List.forall₂_map_right_iff] at same
  exact same

/-- (a): the slots of a gate. -/
theorem Loaded.pins (loaded : Loaded records ports s gates) {w : Wiring}
    (refines : Refines s.nNet (allocNIn gates) (allocNOut s) w (wired s gates)) :
    List.Forall₂ (fun r gate => s.table.names[gate.outNid]? = some r.outName ∧
      List.Forall₂ (fun word slot => ∃ n x, s.table.names[n]? = some word ∧ slot = some x ∧
        (x = n ∨ ((w.nl x).type = .FOUT ∧ (w.nl x).ins = [some n])))
        r.inName (w.nl gate.outNid).ins) records gates := by
  have parsed := loaded.parsed
  apply (forall₂_mem_right loaded.names).imp
  rintro r gate ⟨names, mem⟩
  refine ⟨names.out, ?_⟩
  have low : gate.outNid < s.nNet := (parsed.counted.low _).mpr (.inr (List.mem_map_of_mem mem))
  rw [loaded.ins_full refines low, List.forall₂_map_right_iff]
  apply (forall₂_through names.ins_forall₂ (parsed.gate_ins mem)).imp
  rintro word x ⟨n, -, named, carries⟩
  refine ⟨n, x, named, rfl, ?_⟩
  unfold Wired.Carries at carries
  split at carries
  · exact .inl carries
  · obtain ⟨high, low, ins⟩ := carries
    refine .inr ⟨?_, ?_⟩
    · rw [(refines.label x low).2]
      exact (parsed.branch high low).1
    · rw [(refines.branch x high low).1, ins]
      rfl

theorem Parsed.in_lt (parsed : Parsed s gates) {gate : Wires} (mem : gate ∈ gates) {n : Nat}
    (isIn : n ∈ gate.inNid) : n < s.nNet :=
  (parsed.counted.low n).mpr (.inl (List.mem_flatMap.mpr ⟨gate, mem, isIn⟩))

/-- (c): what a gate reads has one fanout and is no port. -/
theorem Parsed.gate_input (parsed : Parsed s gates) {n x : Nat} (low : n < s.nNet)
    (edge : x ∈ (wired s gates).ins n) : (wired s gates).outs x = [n] ∧ x ∉ (wired s gates).po := by
  have driven : n ∈ driversOf gates := by
    by_contra none
    rw [parsed.free_ins low none] at edge
    cases edge
  obtain ⟨gate, mem, rfl⟩ := List.mem_map.mp driven
  obtain ⟨src, isIn, carries⟩ := forall₂_exists_left (parsed.gate_ins mem) edge
  have srcLt := parsed.in_lt mem isIn
  have outs := parsed.carries_outs edge carries srcLt
  refine ⟨outs, fun port => ?_⟩
  obtain ⟨p₀, isPort, same | ⟨-, -, -, -, ends⟩⟩ := forall₂_exists_left parsed.shape.po port
  · subst same
    have portLt := parsed.po x isPort
    unfold Wired.Carries at carries
    split at carries
    · rename_i one
      subst carries
      have isOne : allocNOut s x = 1 := of_decide_eq_true one
      have count : 0 < s.po.count x := List.count_pos_iff.mpr isPort
      rw [allocNOut_eq] at isOne
      split at isOne <;> omega
    · omega
  · rw [outs] at ends
    cases ends

/-- (d): a port that is declared once ends there. -/
theorem Loaded.port_ends (loaded : Loaded records ports s gates) (distinct : (ports.map (·.2)).Nodup)
    {p : Nat} (port : p ∈ (wired s gates).po) : (wired s gates).outs p = [] := by
  have parsed := loaded.parsed
  obtain ⟨p₀, isPort, same | ⟨-, -, -, -, ends⟩⟩ := forall₂_exists_left parsed.shape.po port
  · subst same
    have low := parsed.po p isPort
    have once := po_count_le distinct loaded p
    have left : 0 < (wired s gates).po.count p := List.count_pos_iff.mpr port
    have count := parsed.tally.po p low
    have start : (startOf s).po = s.po := rfl
    rw [start, ← parsed.uses_eq] at count
    have many : single s p = false := by
      rw [single, decide_eq_false_iff_not, allocNOut_eq]
      have some : 0 < s.po.count p := List.count_pos_iff.mpr isPort
      split <;> omega
    have edges := parsed.tally.outs p low many
    rw [start, ← parsed.uses_eq] at edges
    rw [many, if_neg Bool.false_ne_true] at count
    exact List.length_eq_zero_iff.mp (by omega)
  · exact ends

/-- (a) to (d). -/
theorem Loaded.builtGraph (loaded : Loaded records ports s gates) (distinct : (ports.map (·.2)).Nodup)
    {w : Wiring} (refines : Refines s.nNet (allocNIn gates) (allocNOut s) w (wired s gates)) :
    BuiltGraph records s gates w := by
  have parsed := loaded.parsed
  have linked := parsed.shape.linked
  have nNet := refines.nNet
  have few : ∀ n, s.po.count n ≤ s.parserArray false n ∨ s.parserArray false n = 0 := by
    intro n
    have := po_count_le distinct loaded n
    omega
  have outs : ∀ n < (wired s gates).nNet, (w.nl n).outs = ((wired s gates).outs n).map some := by
    intro n low
    by_cases signal : n < s.nNet
    · exact loaded.outs_full refines signal (few n)
    · exact (refines.branch n (by omega) low).2
  have ins : ∀ n < (wired s gates).nNet, (w.nl n).ins = ((wired s gates).ins n).map some := by
    intro n low
    by_cases signal : n < s.nNet
    · exact loaded.ins_full refines signal
    · exact (refines.branch n (by omega) low).1
  have isBranch : ∀ n x, n < (wired s gates).nNet → x ∈ (wired s gates).outs n →
      2 ≤ ((wired s gates).outs n).length → (w.nl x).type = .FOUT := by
    intro n x low edge two
    have signal : n < s.nNet := by
      by_contra high
      obtain ⟨-, _, -, -, -, none | ⟨_, -, -, one⟩⟩ := parsed.branch (by omega) low
      · rw [none] at two
        simp at two
      · rw [one] at two
        simp at two
    have many : single s n = false := by
      rw [← Bool.not_eq_true]
      intro one
      have isOne : allocNOut s n = 1 := of_decide_eq_true one
      rw [parsed.shape.outsSingle n signal one, List.length_map, ← List.countP_eq_length_filter,
        ← parsed.uses_eq] at two
      rw [allocNOut_eq] at isOne
      omega
    have high := parsed.shape.outsFan n signal many x edge
    have xLow := (linked.lt edge).2
    rw [(refines.label x xLow).2]
    exact (parsed.branch high xLow).1
  refine ⟨loaded.pins refines, fun a ha b hb => ?_, fun n hn => ⟨?_, ?_⟩, fun n hn two x edge => ?_,
    fun n hn gate x edge => ?_, fun p port => ?_⟩
  · exact refines.count_outs (by omega) (by omega) linked
  · rw [ins n (by omega)]
    intro slot mem
    obtain ⟨x, edge, rfl⟩ := List.mem_map.mp mem
    exact ⟨x, by have := (linked.lt (linked.mem_iff.mpr edge)).1; omega, rfl⟩
  · rw [outs n (by omega)]
    intro slot mem
    obtain ⟨x, edge, rfl⟩ := List.mem_map.mp mem
    exact ⟨x, by have := (linked.lt edge).2; omega, rfl⟩
  · rw [outs n (by omega), List.length_map] at two
    rw [outs n (by omega), List.mem_map_of_injective (Option.some_injective _)] at edge
    exact isBranch n x (by omega) edge two
  · rw [ins n (by omega), List.mem_map_of_injective (Option.some_injective _)] at edge
    have signal : n < s.nNet := by
      by_contra high
      rw [(refines.label n (by omega)).2, (parsed.branch (by omega) (by omega)).1] at gate
      exact gate rfl
    obtain ⟨only, noPort⟩ := parsed.gate_input signal edge
    have xLow := (linked.lt (linked.mem_iff.mpr edge)).1
    rw [outs x xLow, only, refines.po]
    exact ⟨rfl, noPort⟩
  · rw [refines.po] at port
    have ends := loaded.port_ends distinct port
    have low : p < (wired s gates).nNet := by
      obtain ⟨p₀, isPort, rfl | ⟨-, -, low, -⟩⟩ := forall₂_exists_left parsed.shape.po port
      · exact lt_of_lt_of_le (parsed.po p isPort) parsed.shape.signals
      · exact low
    rw [outs p low, ends]
    rfl

/-! ### Values -/

theorem Signals.name_of_getElem? {s : Signals} {n : Nat} {word : CStr}
    (named : s.table.names[n]? = some word) : n < s.nNet ∧ s.name n = word := by
  refine ⟨(List.getElem?_eq_some_iff.mp named).1, ?_⟩
  rw [Signals.name, List.getD_eq_getElem?_getD, named]
  rfl

/-- The record of a gate, and its names. -/
theorem Loaded.record (loaded : Loaded records ports s gates) {gate : Wires} (mem : gate ∈ gates) :
    ∃ r ∈ records, gate.type = r.type ∧ s.name gate.outNid = r.outName ∧
      gate.inNid.map s.name = r.inName := by
  obtain ⟨r, isRecord, names⟩ := forall₂_exists_left loaded.names mem
  refine ⟨r, isRecord, names.type, (Signals.name_of_getElem? names.out).2, ?_⟩
  have ins := names.ins_forall₂
  rw [← List.forall₂_eq_eq_eq, List.forall₂_map_left_iff]
  exact ins.imp fun n word named => (Signals.name_of_getElem? named).2

/-- The signal that a net stands for. -/
def stemOf (s : Signals) (v : Wired) (n : Nat) : Nat := if n < s.nNet then n else (v.ins n).headD 0

theorem stemOf_carries {v : Wired} {src x : Nat} (srcLt : src < s.nNet)
    (carries : v.Carries s.nNet (single s) src x) : stemOf s v x = src := by
  unfold Wired.Carries at carries
  unfold stemOf
  split at carries
  · subst carries
    rw [if_pos srcLt]
  · rw [if_neg (by omega), carries.2.2]
    rfl

/-- The netlist of the graph. -/
theorem netlist_deps {w : Wiring} (loaded : Loaded records ports s gates)
    (refines : Refines s.nNet (allocNIn gates) (allocNOut s) w (wired s gates)) {n : Nat}
    (low : n < (wired s gates).nNet) : (w.netlist s.pi).deps n =
      if ((wired s gates).type n).isSource then [] else (wired s gates).ins n := by
  rw [Netlist.deps, refines.netlist_type s.pi low, refines.netlist_ins loaded.parsed.shape.linked]

/-- An acyclic list of gates gives an acyclic graph. -/
theorem Loaded.acyclic (loaded : Loaded records ports s gates) {w : Wiring}
    (refines : Refines s.nNet (allocNIn gates) (allocNOut s) w (wired s gates))
    (acyclic : RecordsAcyclic records) :
    Dag.Acyclic (w.netlist s.pi).nNet (w.netlist s.pi).deps := by
  have parsed := loaded.parsed
  obtain ⟨rank, lower⟩ := acyclic
  refine ⟨fun n => 2 * rank (s.name (stemOf s (wired s gates) n)) + if n < s.nNet then 0 else 1, ?_⟩
  rw [Wiring.netlist_nNet, refines.nNet]
  intro n low m dep
  rw [netlist_deps loaded refines low] at dep
  split at dep
  · cases dep
  · rename_i gateType
    have mLow := (parsed.shape.linked.lt (parsed.shape.linked.mem_iff.mpr dep)).1
    refine ⟨mLow, ?_⟩
    by_cases signal : n < s.nNet
    · have driven : n ∈ driversOf gates := by
        by_contra none
        rw [parsed.free_ins signal none] at dep
        cases dep
      obtain ⟨gate, mem, rfl⟩ := List.mem_map.mp driven
      obtain ⟨src, isIn, carries⟩ := forall₂_exists_left (parsed.gate_ins mem) dep
      have srcLt := parsed.in_lt mem isIn
      obtain ⟨r, isRecord, type, out, ins⟩ := loaded.record mem
      rw [parsed.gate_type mem (List.ne_nil_of_mem isIn), type] at gateType
      have notFF : r.type.isFF = false := by
        rw [← Bool.not_eq_true]
        exact fun ff => gateType (by simp [GateType.isSource, ff])
      have less := lower r isRecord notFF (s.name src) (ins ▸ List.mem_map_of_mem isIn)
      rw [← out] at less
      have stem : stemOf s (wired s gates) gate.outNid = gate.outNid := if_pos signal
      dsimp only
      rw [stemOf_carries srcLt carries, stem, if_pos signal]
      split <;> omega
    · obtain ⟨-, src, srcLt, -, ins, -⟩ := parsed.branch (by omega) low
      rw [ins, List.mem_singleton] at dep
      subst dep
      have stem : stemOf s (wired s gates) n = m := by
        rw [stemOf, if_neg signal, ins]
        rfl
      have self : stemOf s (wired s gates) m = m := if_pos srcLt
      dsimp only
      rw [stem, self, if_pos srcLt, if_neg signal]
      omega

/-- Every signal of a well-used list is an input or has a gate. -/
theorem Loaded.driven_or_input (loaded : Loaded records ports s gates)
    (used : ∀ r ∈ records, ∀ word ∈ r.inName,
      word ∈ inputsOf ports ∨ (records.map (·.outName)).count word = 1) {n : Nat} (low : n < s.nNet) :
    n ∈ s.pi ∨ n ∈ driversOf gates := by
  have isName := Signals.names_getElem? low
  have nodup := loaded.parsed.counted.valid.nodup
  rcases (loaded.parsed.counted.low n).mp low with isUse | driven
  · obtain ⟨gate, mem, isIn⟩ := List.mem_flatMap.mp isUse
    obtain ⟨r, isRecord, -, -, ins⟩ := loaded.record mem
    rcases used r isRecord (s.name n) (ins ▸ List.mem_map_of_mem isIn) with input | driven
    · left
      rw [← List.count_pos_iff, count_named nodup loaded.pi isName, List.count_pos_iff]
      exact input
    · right
      rw [← List.count_pos_iff, count_named nodup loaded.driversNamed isName]
      omega
  · exact .inr driven

/-- A gate reads the values of its signals. -/
theorem Parsed.map_ins (parsed : Parsed s gates) {value : Nat → Bool}
    (stems : ∀ x < (wired s gates).nNet, value x = value (stemOf s (wired s gates) x)) {gate : Wires}
    (mem : gate ∈ gates) :
    ((wired s gates).ins gate.outNid).map value = gate.inNid.map value := by
  have edges : ∀ x ∈ (wired s gates).ins gate.outNid, x < (wired s gates).nNet := fun x edge =>
    (parsed.shape.linked.lt (parsed.shape.linked.mem_iff.mpr edge)).1
  rw [← List.forall₂_eq_eq_eq, List.forall₂_map_left_iff, List.forall₂_map_right_iff]
  have related := parsed.gate_ins mem
  have signals : ∀ src ∈ gate.inNid, src < s.nNet := fun src => parsed.in_lt mem
  generalize (wired s gates).ins gate.outNid = xs at *
  generalize gate.inNid = nids at *
  induction related with
  | nil => exact .nil
  | @cons src x nids xs one _ ih =>
      refine .cons ?_ (ih (fun x isIn => edges x (List.mem_cons_of_mem _ isIn))
        fun src isIn => signals src (List.mem_cons_of_mem _ isIn))
      rw [stems x (edges x List.mem_cons_self),
        stemOf_carries (signals src List.mem_cons_self) one]

/-- The type of a gate of a record that has an input. -/
theorem Loaded.type_eq (loaded : Loaded records ports s gates) (pins : ∀ r ∈ records, r.inName ≠ [])
    {gate : Wires} (mem : gate ∈ gates) : (wired s gates).type gate.outNid = gate.type := by
  obtain ⟨r, isRecord, -, -, ins⟩ := loaded.record mem
  refine loaded.parsed.gate_type mem fun empty => pins r isRecord ?_
  rw [← ins, empty]
  rfl

variable {source : CStr → Bool} {w : Wiring}

/-- The gate words that `read_module_type` knows. -/
def KnownTypes (records : List GateRecord) : Prop := ∀ r ∈ records, r.type ∈ gateTypes.map (·.2)

theorem KnownTypes.isSource (types : KnownTypes records) {r : GateRecord} (mem : r ∈ records) :
    r.type.isSource = r.type.isFF := by
  have all : ∀ t ∈ gateTypes.map (·.2), t.isSource = t.isFF := by decide
  exact all r.type (types r mem)

theorem Parsed.stemOf_lt (parsed : Parsed s gates) {x : Nat} (low : x < (wired s gates).nNet) :
    stemOf s (wired s gates) x < s.nNet := by
  unfold stemOf
  split
  · assumption
  · obtain ⟨-, src, srcLt, -, ins, -⟩ := parsed.branch (by omega) low
    rw [ins]
    exact srcLt

theorem stemOf_self {v : Wired} {n : Nat} (low : n < s.nNet) : stemOf s v n = n := if_pos low

/-- The equation of a net. -/
theorem Loaded.op_eq (loaded : Loaded records ports s gates)
    (refines : Refines s.nNet (allocNIn gates) (allocNOut s) w (wired s gates)) {n : Nat}
    (low : n < (wired s gates).nNet) (value : Nat → Bool) :
    (w.netlist s.pi).op (fun n => source (s.name n)) (fun _ => none) n
        (((w.netlist s.pi).deps n).map value) =
      if ((wired s gates).type n).isSource then source (s.name n)
      else ((wired s gates).type n).fn (((wired s gates).ins n).map value) := by
  rw [netlist_deps loaded refines low, Netlist.op, refines.netlist_type s.pi low]
  dsimp only
  split <;> rfl

/-- The equation of an input, of a gate and of a branch. -/
theorem Loaded.op_cases (loaded : Loaded records ports s gates) (types : KnownTypes records)
    (used : ∀ r ∈ records, ∀ word ∈ r.inName,
      word ∈ inputsOf ports ∨ (records.map (·.outName)).count word = 1)
    (pins : ∀ r ∈ records, r.inName ≠ [])
    (refines : Refines s.nNet (allocNIn gates) (allocNOut s) w (wired s gates)) {value : Nat → Bool}
    (stems : ∀ x < (wired s gates).nNet, value x = value (stemOf s (wired s gates) x)) {n : Nat}
    (low : n < (wired s gates).nNet) :
    let equation := (w.netlist s.pi).op (fun n => source (s.name n)) (fun _ => none) n
      (((w.netlist s.pi).deps n).map value)
    (s.name n ∈ inputsOf ports ∧ n < s.nNet ∧ equation = source (s.name n)) ∨
      (∃ gate ∈ gates, ∃ r ∈ records, n = gate.outNid ∧ s.name n = r.outName ∧
        gate.inNid.map s.name = r.inName ∧ equation =
          if r.type.isFF then source r.outName else r.type.fn (gate.inNid.map value)) ∨
      (s.nNet ≤ n ∧ equation = value n) := by
  intro equation
  have isEquation : equation = _ := loaded.op_eq refines low value
  have parsed := loaded.parsed
  by_cases signal : n < s.nNet
  · rcases loaded.driven_or_input used signal with input | driven
    · left
      have isInput : s.name n ∈ inputsOf ports := by
        rw [← List.count_pos_iff, ← count_named parsed.counted.valid.nodup loaded.pi
          (Signals.names_getElem? signal), List.count_pos_iff]
        exact input
      refine ⟨isInput, signal, ?_⟩
      rw [isEquation, parsed.free_type signal (parsed.piDriver n input), if_pos input]
      rfl
    · right
      left
      obtain ⟨gate, mem, rfl⟩ := List.mem_map.mp driven
      obtain ⟨r, isRecord, type, out, ins⟩ := loaded.record mem
      refine ⟨gate, mem, r, isRecord, rfl, out, ins, ?_⟩
      rw [isEquation, loaded.type_eq pins mem, type, types.isSource isRecord, out,
        parsed.map_ins stems mem]
  · right
    right
    refine ⟨by omega, ?_⟩
    obtain ⟨type, src, srcLt, -, ins, -⟩ := parsed.branch (by omega) low
    have stem : stemOf s (wired s gates) n = src := by
      rw [stemOf, if_neg signal, ins]
      rfl
    rw [isEquation, type, ins, stems n low, stem]
    rfl

/-- Values of the signals are values of the nets. -/
theorem Loaded.graph_of_solves (loaded : Loaded records ports s gates) (types : KnownTypes records)
    (used : ∀ r ∈ records, ∀ word ∈ r.inName,
      word ∈ inputsOf ports ∨ (records.map (·.outName)).count word = 1)
    (pins : ∀ r ∈ records, r.inName ≠ [])
    (refines : Refines s.nNet (allocNIn gates) (allocNOut s) w (wired s gates))
    {value : CStr → Bool} (solves : Solves records (inputsOf ports) source value) :
    ∀ n < (w.netlist s.pi).nNet, value (s.name (stemOf s (wired s gates) n)) =
      (w.netlist s.pi).op (fun n => source (s.name n)) (fun _ => none) n
        (((w.netlist s.pi).deps n).map fun n => value (s.name (stemOf s (wired s gates) n))) := by
  have parsed := loaded.parsed
  rw [Wiring.netlist_nNet, refines.nNet]
  intro n low
  have stems : ∀ x < (wired s gates).nNet, value (s.name (stemOf s (wired s gates) x)) =
      value (s.name (stemOf s (wired s gates) (stemOf s (wired s gates) x))) := fun x xLow => by
    rw [stemOf_self (parsed.stemOf_lt xLow)]
  rcases loaded.op_cases types used pins refines stems low with
    ⟨input, signal, equation⟩ | ⟨gate, mem, r, isRecord, rfl, out, ins, equation⟩ | ⟨-, equation⟩
  · rw [equation, stemOf_self signal]
    exact solves.input _ input
  · have signal : gate.outNid < s.nNet := (parsed.counted.low _).mpr (.inr (List.mem_map_of_mem mem))
    rw [equation, stemOf_self signal, out, solves.gate r isRecord, ← ins, List.map_map]
    congr 2
    apply List.map_congr_left
    intro src isIn
    rw [stemOf_self (parsed.in_lt mem isIn)]
    rfl
  · exact equation.symm

/-- Values of the nets are values of the signals. -/
theorem Loaded.solves_of_graph (loaded : Loaded records ports s gates) (types : KnownTypes records)
    (pins : ∀ r ∈ records, r.inName ≠ [])
    (refines : Refines s.nNet (allocNIn gates) (allocNOut s) w (wired s gates))
    (acyclic : RecordsAcyclic records) {value : CStr → Bool}
    (named : ∀ n < s.nNet, value (s.name n) =
      (w.netlist s.pi).value (fun n => source (s.name n)) (fun _ => none) n) :
    Solves records (inputsOf ports) source value := by
  have parsed := loaded.parsed
  have signals : s.nNet ≤ (wired s gates).nNet := parsed.shape.signals
  have equations : ∀ n < (wired s gates).nNet, (w.netlist s.pi).value (fun n => source (s.name n))
      (fun _ => none) n = (w.netlist s.pi).op (fun n => source (s.name n)) (fun _ => none) n
        (((w.netlist s.pi).deps n).map ((w.netlist s.pi).value (fun n => source (s.name n))
          fun _ => none)) := fun n low =>
    Dag.eval_eq (loaded.acyclic refines acyclic) (by
      rw [Wiring.netlist_nNet, refines.nNet]
      exact low)
  generalize (w.netlist s.pi).value (fun n => source (s.name n)) (fun _ => none) = net at *
  have stems : ∀ x < (wired s gates).nNet, net x = net (stemOf s (wired s gates) x) := by
    intro x low
    by_cases signal : x < s.nNet
    · rw [stemOf_self signal]
    · obtain ⟨type, src, srcLt, -, ins, -⟩ := parsed.branch (by omega) low
      have stem : stemOf s (wired s gates) x = src := by
        rw [stemOf, if_neg signal, ins]
        rfl
      rw [equations x low, loaded.op_eq refines low, type, ins, stem]
      rfl
  constructor
  · intro word input
    obtain ⟨n, mem, isName⟩ : ∃ n ∈ s.pi, s.table.names[n]? = some word := by
      have known : some word ∈ s.pi.map (s.table.names[·]?) := by
        rw [loaded.pi]
        exact List.mem_map_of_mem input
      obtain ⟨n, mem, isName⟩ := List.mem_map.mp known
      exact ⟨n, mem, isName⟩
    obtain ⟨low, rfl⟩ := Signals.name_of_getElem? isName
    rw [named n low, equations n (by omega), loaded.op_eq refines (by omega),
      parsed.free_type low (parsed.piDriver n mem), if_pos mem]
    rfl
  · intro r isRecord
    obtain ⟨gate, mem, names⟩ := forall₂_exists_right loaded.names isRecord
    obtain ⟨low, out⟩ := Signals.name_of_getElem? names.out
    have ins : gate.inNid.map s.name = r.inName := by
      rw [← List.forall₂_eq_eq_eq, List.forall₂_map_left_iff]
      exact names.ins_forall₂.imp fun n word isName => (Signals.name_of_getElem? isName).2
    rw [← out, named _ low, equations _ (by omega), loaded.op_eq refines (by omega),
      loaded.type_eq pins mem, names.type, types.isSource isRecord, parsed.map_ins stems mem, ← ins,
      List.map_map]
    congr 2
    exact List.map_congr_left fun src isIn => (named src (parsed.in_lt mem isIn)).symm

/-- The value of a name: that of the net with its number. -/
def signalValue (s : Signals) (source : CStr → Bool) (net : Nat → Bool) (word : CStr) : Bool :=
  (s.table.search hashKey word).elim (source word) net

/-- (e): the outputs have the values of their signals. -/
theorem Loaded.evaluates (loaded : Loaded records ports s gates) (types : KnownTypes records)
    (used : ∀ r ∈ records, ∀ word ∈ r.inName,
      word ∈ inputsOf ports ∨ (records.map (·.outName)).count word = 1)
    (pins : ∀ r ∈ records, r.inName ≠ [])
    (refines : Refines s.nNet (allocNIn gates) (allocNOut s) w (wired s gates)) :
    Evaluates records ports s w := by
  intro acyclic source
  have parsed := loaded.parsed
  have signals : s.nNet ≤ (wired s gates).nNet := parsed.shape.signals
  have nNet : (w.netlist s.pi).nNet = (wired s gates).nNet := by rw [Wiring.netlist_nNet, refines.nNet]
  let value := signalValue s source
    ((w.netlist s.pi).value (fun n => source (s.name n)) fun _ => none)
  have named : ∀ n < s.nNet, value (s.name n) =
      (w.netlist s.pi).value (fun n => source (s.name n)) (fun _ => none) n := by
    intro n low
    have found := (NameTable.search_eq_some parsed.counted.valid).mpr (Signals.names_getElem? low)
    simp only [value, signalValue, found, Option.elim_some]
  have unique : ∀ value', Solves records (inputsOf ports) source value' →
      ∀ n < (wired s gates).nNet, value' (s.name (stemOf s (wired s gates) n)) =
        (w.netlist s.pi).value (fun n => source (s.name n)) (fun _ => none) n := by
    intro value' solves n low
    exact Dag.eval_unique (loaded.acyclic refines acyclic)
      (loaded.graph_of_solves types used pins refines solves) n (nNet ▸ low)
  have solves := loaded.solves_of_graph types pins refines acyclic named
  refine ⟨value, solves, fun value' solves' word known => ?_, ?_⟩
  · obtain ⟨n, isName⟩ : ∃ n, s.table.names[n]? = some word := by
      rcases List.mem_append.mp known with input | output
      · have isIn : some word ∈ s.pi.map (s.table.names[·]?) := by
          rw [loaded.pi]
          exact List.mem_map_of_mem input
        obtain ⟨n, -, isName⟩ := List.mem_map.mp isIn
        exact ⟨n, isName⟩
      · have isOut : some word ∈ (driversOf gates).map (s.table.names[·]?) := by
          rw [loaded.driversNamed]
          exact List.mem_map_of_mem output
        obtain ⟨n, -, isName⟩ := List.mem_map.mp isOut
        exact ⟨n, isName⟩
    obtain ⟨low, rfl⟩ := Signals.name_of_getElem? isName
    have one := unique value' solves' n (by omega)
    rw [stemOf_self low] at one
    rw [one, named n low]
  · have outputs : s.po.map s.name = outputsOf ports := by
      have po := loaded.po
      rw [← List.forall₂_eq_eq_eq, List.forall₂_map_left_iff, List.forall₂_map_right_iff] at po
      rw [← List.forall₂_eq_eq_eq, List.forall₂_map_left_iff]
      exact po.imp fun n word isName => (Signals.name_of_getElem? isName).2
    rw [refines.po, ← outputs, List.map_map, ← List.forall₂_eq_eq_eq, List.forall₂_map_left_iff,
      List.forall₂_map_right_iff]
    have related := (List.forall₂_and_left _ _).mpr ⟨parsed.po, parsed.shape.po⟩
    refine List.Forall₂.flip (related.imp ?_)
    rintro p₀ p ⟨low, rfl | ⟨-, high, pLow, ins, -⟩⟩
    · exact (named p low).symm
    · have stem : stemOf s (wired s gates) p = p₀ := by
        have notSignal : ¬ p < s.nNet := Nat.not_lt.mpr high
        rw [stemOf, if_neg notSignal, ins]
        rfl
      have carried := unique value solves p pLow
      rw [stem] at carried
      exact carried.symm

/-- `parser` on gate records and ports. -/
def parser (records : List GateRecord) (ports : List (Bool × CStr)) :
    Except Stop (List Wires × Signals) := do
  let (gates, s) := storeSignal .empty records
  let s ← searchPorts hashSearchPiPo s ports
  analyzeAsyntaxError s
  .ok (gates, s)

theorem Loaded.of_parser (run : parser records ports = .ok (gates, s)) :
    Loaded records ports s gates := by
  unfold parser at run
  obtain ⟨s', search, run⟩ := Loop.bind_eq_ok.mp run
  obtain ⟨_, check, run⟩ := Loop.bind_eq_ok.mp run
  cases run
  exact .of_search rfl search check

/-- `connection_signal` on the records and ports that the parser accepts. -/
theorem connectionSignal_graph (types : KnownTypes records) (wellUsed : WellUsed records ports)
    (accepted : parser records ports = .ok (gates, s)) : ∃ w, connectionSignal s gates = some w ∧
      BuiltGraph records s gates w ∧
      ((∀ r ∈ records, r.inName ≠ []) → Evaluates records ports s w) := by
  have loaded := Loaded.of_parser accepted
  obtain ⟨w, run, refines⟩ := loaded.parsed.connectionSignal
  exact ⟨w, run, loaded.builtGraph wellUsed.distinct refines, fun pins =>
    loaded.evaluates types wellUsed.used pins refines⟩

end Facts

/-- An AND gate without inputs, as `read_file` leaves it for the gate word without a number. -/
def emptyGate : List GateRecord := [⟨"U1".toList, .AND, "z".toList, []⟩]

/-- Its net never gets its type, so the graph does not give the value of the gate. -/
theorem emptyGate_not_evaluates : KnownTypes emptyGate ∧ WellUsed emptyGate [(false, "z".toList)] ∧
    ∃ gates s w, parser emptyGate [(false, "z".toList)] = .ok (gates, s) ∧
      connectionSignal s gates = some w ∧ ¬ Evaluates emptyGate [(false, "z".toList)] s w := by
  refine ⟨by unfold KnownTypes; decide, ⟨by decide, by decide⟩, ?_⟩
  have computed : ((parser emptyGate [(false, "z".toList)]).toOption.bind fun (gates, s) =>
      (connectionSignal s gates).map fun w =>
        w.po.map ((w.netlist s.pi).value (fun _ => false) fun _ => none)) = some [false] := by
    decide
  cases accepted : parser emptyGate [(false, "z".toList)] with
  | error e =>
      rw [accepted] at computed
      cases computed
  | ok r =>
      obtain ⟨gates, s⟩ := r
      rw [accepted] at computed
      obtain ⟨w, run, values⟩ := Option.map_eq_some_iff.mp computed
      refine ⟨gates, s, w, rfl, run, fun evaluates => ?_⟩
      have acyclic : RecordsAcyclic emptyGate := ⟨fun _ => 0, by decide⟩
      obtain ⟨value, solves, -, outputs⟩ := evaluates acyclic fun _ => false
      have gate := solves.gate ⟨"U1".toList, .AND, "z".toList, []⟩ (by decide)
      have isOutput : outputsOf [(false, "z".toList)] = ["z".toList] := rfl
      rw [values, isOutput, List.map_cons, List.cons.injEq] at outputs
      rw [← outputs.1] at gate
      cases gate

/-- An AND gate with its ports. -/
def andRecords : List GateRecord := [⟨"U1".toList, .AND, "z".toList, ["a".toList, "b".toList]⟩]

def andPorts : List (Bool × CStr) := [(true, "a".toList), (true, "b".toList), (false, "z".toList)]

theorem connectionSignal_graph_and : ∃ gates s w, parser andRecords andPorts = .ok (gates, s) ∧
    connectionSignal s gates = some w ∧ BuiltGraph andRecords s gates w ∧
      Evaluates andRecords andPorts s w := by
  have accepts : (parser andRecords andPorts).isOk = true := by decide
  cases accepted : parser andRecords andPorts with
  | error e =>
      rw [accepted] at accepts
      cases accepts
  | ok r =>
      obtain ⟨gates, s⟩ := r
      obtain ⟨w, run, built, evaluates⟩ :=
        connectionSignal_graph (by unfold KnownTypes; decide) ⟨by decide, by decide⟩ accepted
      exact ⟨gates, s, w, rfl, run, built, evaluates (by decide)⟩

end SafRprGen
