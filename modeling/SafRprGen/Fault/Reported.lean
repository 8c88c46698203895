/-
Module: SafRprGen.Fault.Reported
Layer: Fault
Purpose: No requested fault is lost. `ReadFault` prunes the lines of faults that a structural pair carries to
  the output of a gate; up the graph every pruned fault reaches one that is stored, so that each class of a
  requested fault keeps a node and `FinalizeFaultEquivalence` finds its representatives.
Main exports: NamesFault, TellingNames, ReadableFaults, Wanted, exists_unpruned, PairGraph.readFault_run,
  PairGraph.readFault_spec
-/
import SafRprGen.Fault.Collapse
import SafRprGen.Fault.HashRange
import SafRprGen.Fault.NetNames
import SafRprGen.Fault.Presentation

namespace SafRprGen

open CText

namespace Netlist

variable {c : Netlist} {m : FaultModel}

/-- The first two words of a line name a fault: a net, which for a transition fault has a first-frame copy,
and a type. -/
structure NamesFault (c : Netlist) (m : FaultModel) (line : CStr) (net : Nat) (type : FaultType) : Prop where
  low : net < c.nNet
  peer : m = .TDF → (c.peer1t net).isSome = true
  words : ∃ before gap after,
    line = before ++ (c.name net ++ (gap ++ (faultTypeName m type ++ after))) ∧
      (∀ ch ∈ before, isSpace ch = true) ∧ (∀ ch ∈ gap, isSpace ch = true) ∧ gap ≠ [] ∧
        ∀ ch ∈ after.head?, isSpace ch = true

/-- Names by which a fault file can tell the nets apart. -/
structure TellingNames (c : Netlist) : Prop where
  distinct : c.names.Nodup
  plain : ∀ n < c.nNet, Plain (c.name n)
  ascii : ∀ n < c.nNet, ∀ ch ∈ c.name n, ch.toNat < 128

/-- Every line of the fault file that is not blank names a fault. -/
def ReadableFaults (c : Netlist) (opt : Opt) : Prop :=
  ∀ file ∈ opt.fault, ∀ line ∈ listedFaults file, ∃ net type, NamesFault c opt.faultModel line net type

/-- The requested faults: those of the fault file, or all faults, for transition faults of the nets with a
first-frame copy. -/
def Wanted (c : Netlist) (opt : Opt) (net : Nat) (type : FaultType) : Prop :=
  match opt.fault with
  | some file => ∃ line ∈ listedFaults file, NamesFault c opt.faultModel line net type
  | none => net < c.nNet ∧ (opt.faultModel = .TDF → (c.peer1t net).isSome = true)

/-! ### Names of one letter -/

theorem TellingNames.of_letters {c : Netlist} {letters : List Char}
    (names : (List.range c.nNet).map c.name = letters.map fun ch => [ch]) (nodup : letters.Nodup)
    (plain : ∀ ch ∈ letters, isSpace ch = false ∧ ch.toNat < 128) : TellingNames c := by
  have isName : ∀ n < c.nNet, ∃ ch ∈ letters, c.name n = [ch] := by
    intro n low
    have mem : c.name n ∈ letters.map fun ch => [ch] :=
      names ▸ List.mem_map_of_mem (List.mem_range.mpr low)
    obtain ⟨ch, isLetter, same⟩ := List.mem_map.mp mem
    exact ⟨ch, isLetter, same.symm⟩
  refine ⟨?_, fun n low => ?_, fun n low => ?_⟩
  · rw [names_eq, names]
    exact nodup.map List.singleton_injective
  · obtain ⟨ch, isLetter, name⟩ := isName n low
    rw [name]
    exact ⟨List.cons_ne_nil _ _, List.forall_mem_singleton.mpr (plain ch isLetter).1, by simp⟩
  · obtain ⟨ch, isLetter, name⟩ := isName n low
    rw [name]
    exact List.forall_mem_singleton.mpr (plain ch isLetter).2

/-! ### Lines that name a fault -/

theorem NamesFault.normalise {line : CStr} {net : Nat} {type : FaultType} (h : NamesFault c m line net type)
    (names : TellingNames c) : normalise line = c.faultLine m net type := by
  obtain ⟨before, gap, after, rfl, isBefore, isGap, someGap, isAfter⟩ := h.words
  exact normalise_eq_faultLine (names.plain net h.low) type isBefore isGap someGap isAfter

/-- The node made of the line is one of the fault. -/
theorem NamesFault.created {line : CStr} {net : Nat} {type : FaultType} (h : NamesFault c m line net type)
    (names : TellingNames c) : Denotes c m line net type := by
  have plain := names.plain net h.low
  have generated := denotes_faultLine (.inl plain) (findNetByName_name names.distinct h.low) h.peer type
  unfold Denotes at generated ⊢
  rw [normalise_faultLine plain] at generated
  rw [h.normalise names]
  exact generated

/-- The line of a generated fault names it. -/
theorem Generates.namesFault {s : FaultState} {net : Nat} {type : FaultType} (h : Generates c m s net type)
    (names : TellingNames c) : NamesFault c m (c.faultLine m net type) net type where
  low := h.low
  peer := h.peer
  words := by
    refine ⟨[], ['\t'], ['\n'], faultLine_plain (names.plain net h.low) type, fun _ mem => (by cases mem),
      List.forall_mem_singleton.mpr rfl, List.cons_ne_nil _ _, fun ch first => ?_⟩
    cases first
    rfl

/-- The bytes of an ASCII text sum up to an index. -/
theorem calcHash_ascii {text : CStr} (ascii : ∀ ch ∈ text, ch.toNat < 128) :
    ∃ hash, calcHash text = some hash := by
  have none : highBytes text = 0 := by
    rw [highBytes, List.countP_eq_zero]
    intro ch mem
    have low := ascii ch mem
    rw [decide_eq_true_eq, byte]
    omega
  apply (calcHash_isSome_iff text).mpr
  rw [none]
  exact .inl (Nat.zero_le _)

theorem faultTypeName_ascii (m : FaultModel) (type : FaultType) :
    ∀ ch ∈ faultTypeName m type, ch.toNat < 128 := by
  cases m <;> cases type <;> exact @of_decide_eq_true _ (List.decidableBAll _ _) (by decide)

theorem TellingNames.hashed (names : TellingNames c) {net : Nat} (low : net < c.nNet) (type : FaultType) :
    ∃ hash, calcHash (c.faultLine m net type) = some hash := by
  apply calcHash_ascii
  rw [faultLine_plain (names.plain net low)]
  intro ch mem
  rcases List.mem_append.mp mem with mem | mem
  · exact names.ascii net low ch mem
  · rcases List.mem_cons.mp mem with rfl | mem
    · decide
    · rcases List.mem_append.mp mem with mem | mem
      · exact faultTypeName_ascii m type ch mem
      · rw [List.mem_singleton.mp mem]
        decide

/-- `CreateFaultList` accepts the line. -/
theorem NamesFault.createFaultList {line : CStr} {net : Nat} {type : FaultType}
    (h : NamesFault c m line net type) (names : TellingNames c) (s : FaultState) :
    ∃ t, c.createFaultList m s line = some (true, t) := by
  obtain ⟨node, created, -, -⟩ := h.created names
  obtain ⟨hash, hashed⟩ := @TellingNames.hashed c m names net h.low type
  rw [← h.normalise names] at hashed
  unfold Netlist.createFaultList
  dsimp only
  rw [hashed, Option.map_some, created]
  by_cases found : (s.list hash).any (fun node => node.string = SafRprGen.normalise line) = true
  · rw [if_pos found]
    exact ⟨_, rfl⟩
  · rw [if_neg found]
    exact ⟨_, rfl⟩

theorem createFaultLists_okay (names : TellingNames c) {lines : List CStr} :
    ∀ (_ : ∀ line ∈ lines, ∃ net type, NamesFault c m line net type) (s : FaultState),
      ∃ t, c.createFaultLists m lines s = some (true, t) := by
  induction lines with
  | nil => exact fun _ s => ⟨s, rfl⟩
  | cons line lines ih =>
      intro valid s
      obtain ⟨⟨net, type, named⟩, rest⟩ := List.forall_mem_cons.mp valid
      obtain ⟨t, one⟩ := named.createFaultList names s
      obtain ⟨u, more⟩ := ih rest t
      refine ⟨u, ?_⟩
      rw [createFaultLists, Loop.untilError, one]
      exact more

/-! ### Pruned faults -/

/-- A pruned fault is carried to the output of a gate, which is requested as well. -/
theorem structuralFaults_up (graph : c.PairGraph) {a b : Nat × FaultType}
    (mem : (a, b) ∈ c.structuralFaults m) :
    b.1 < c.nNet ∧ a.1 ∈ c.deps b.1 ∧ (m = .TDF → (c.peer1t b.1).isSome = true) := by
  obtain ⟨low, pair⟩ := mem_structuralFaults.mp mem
  have edge := mem_structuralPairs_ins graph low pair
  have gate : (c.type b.1).isSource = false := by
    unfold structuralPairs at pair
    split at pair
    · cases pair
    · cases type : c.type b.1 <;> rw [type] at pair <;> first | rfl | cases pair
  refine ⟨low, ?_, ?_⟩
  · rw [deps, gate]
    exact edge
  · rintro rfl
    by_contra none
    have barred : c.transitionCrosses b.1 = false := by
      unfold transitionCrosses
      rw [Option.not_isSome_iff_eq_none.mp none, Bool.and_false, Bool.false_and]
    rw [structuralPairs, barred] at pair
    cases pair

/-- Every fault shares its class with one whose line is generated: the graph has no endless path up. -/
theorem exists_unpruned (graph : c.PairGraph) (acyclic : Dag.Acyclic c.nNet c.deps) {s₀ s : FaultState}
    (inv : StructuralInv c s₀ (c.structuralFaults m) s)
    (all : s₀.testSa0 = (fun _ => true) ∧ s₀.testSa1 = fun _ => true) {net : Nat} (low : net < c.nNet)
    (peer : m = .TDF → (c.peer1t net).isSome = true) (type : FaultType) :
    ∃ net' type', Generates c m s net' type' ∧
      UnionFind.Closure ((c.structuralFaults m).map pairIds) (faultId net' type') (faultId net type) := by
  obtain ⟨rank, bound, lower⟩ := acyclic.boundedRank
  -- on the distance from the highest rank
  induction far : c.nNet - rank net using Nat.strong_induction_on generalizing net type with
  | _ far ih =>
    have flag : Generates c m s net type ∨ ∃ b, ((net, type), b) ∈ c.structuralFaults m := by
      cases type with
      | SF0 =>
          cases pruned : s.testSa0 net with
          | true => exact .inl ⟨low, peer, pruned⟩
          | false =>
              rcases (inv.testSa0 net).mp pruned with start | carried
              · rw [all.1] at start
                cases start
              · exact .inr carried
      | SF1 =>
          cases pruned : s.testSa1 net with
          | true => exact .inl ⟨low, peer, pruned⟩
          | false =>
              rcases (inv.testSa1 net).mp pruned with start | carried
              · rw [all.2] at start
                cases start
              · exact .inr carried
    rcases flag with flag | ⟨b, mem⟩
    · exact ⟨net, type, flag, .refl _⟩
    · obtain ⟨lowB, edge, peerB⟩ := structuralFaults_up graph mem
      have up := (lower b.1 lowB net edge).2
      have top := bound b.1 lowB
      obtain ⟨net', type', generates, joined⟩ :=
        ih (c.nNet - rank b.1) (by omega) lowB peerB b.2 rfl
      have pair : (faultId net type, faultId b.1 b.2) ∈ (c.structuralFaults m).map pairIds :=
        List.mem_map.mpr ⟨_, mem, rfl⟩
      exact ⟨net', type', generates, .trans _ _ _ joined (.symm _ _ (.rel _ _ pair))⟩

/-! ### `ReadFault` -/

/-- The table of a netlist that is ready to be reported. -/
structure Covered (c : Netlist) (opt : Opt) (s : FaultState) : Prop where
  stored : Stored c opt.faultModel s
  prepared : Prepared c ((c.initialFaults opt).map pairIds) s
  requested : ∀ id < c.faultCount,
    c.requested opt s id = true ↔ Wanted c opt (memberNet id) (memberType id)
  nodes : ∀ fault ∈ scanFaults s, c.requested opt s (nodeId fault) = true
  cover : ∀ id < c.faultCount, c.requested opt s id = true → ∃ fault ∈ scanFaults s,
    UnionFind.Closure ((c.initialFaults opt).map pairIds) (nodeId fault) id

/-- Every line that is read names a fault. -/
theorem faultLines_named {opt : Opt} (names : TellingNames c) (valid : ReadableFaults c opt)
    (s : FaultState) :
    ∀ line ∈ c.faultLines opt s, ∃ net type, NamesFault c opt.faultModel line net type := by
  unfold faultLines
  intro line mem
  cases file : opt.fault with
  | some text =>
      rw [file] at mem
      exact valid text file line mem
  | none =>
      rw [file] at mem
      obtain ⟨net, type, generates, rfl⟩ := mem_generatedFaults.mp mem
      exact ⟨net, type, generates.namesFault names⟩

theorem loadFaults_named {opt : Opt} {s s₀ : FaultState} (names : TellingNames c)
    (init : c.initFaultEquivalence opt s = .some (true, s₀))
    (named : ∀ line ∈ c.faultLines opt s₀, ∃ net type, NamesFault c opt.faultModel line net type) :
    ∃ t, c.loadFaults opt s = .some (true, t) := by
  have okay := @createFaultLists_okay c opt.faultModel names (c.faultLines opt s₀) named
  unfold loadFaults
  rw [init, Option.bind_some]
  dsimp only
  rw [if_pos rfl]
  unfold faultLines at okay
  cases file : opt.fault with
  | some text =>
      rw [file] at okay
      exact okay s₀
  | none =>
      rw [file] at okay
      exact okay _

/-- The node of a line has the id of the fault that the line names. -/
theorem nodeId_of_namesFault {line : CStr} {net : Nat} {type : FaultType} {fault : FNODE}
    (named : NamesFault c m line net type) (names : TellingNames c)
    (created : c.createFaultNode m (normalise line) = .some fault) : nodeId fault = faultId net type := by
  obtain ⟨node, created', rfl, rfl⟩ := named.created names
  rw [created, Option.some.injEq] at created'
  rw [created']
  rfl

/-- The table holds the nodes of the lines. -/
def StoresLines (c : Netlist) (m : FaultModel) (lines : List CStr) (s : FaultState) : Prop :=
  ∀ node, node ∈ scanFaults s ↔ ∃ line ∈ lines, c.createFaultNode m (normalise line) = .some node

theorem StoresLines.exists_node {lines : List CStr} {s : FaultState} (stores : StoresLines c m lines s)
    (names : TellingNames c) {line : CStr} {net : Nat} {type : FaultType} (isLine : line ∈ lines)
    (named : NamesFault c m line net type) : ∃ fault ∈ scanFaults s, nodeId fault = faultId net type := by
  obtain ⟨node, created, rfl, rfl⟩ := named.created names
  exact ⟨node, (stores node).mpr ⟨line, isLine, created⟩, rfl⟩

/-- The report asks for the wanted faults: with a fault file they are those of a node. -/
theorem requested_iff_wanted {opt : Opt} {s₀ s : FaultState} (names : TellingNames c)
    (stores : StoresLines c opt.faultModel (c.faultLines opt s₀) s) (valid : ReadableFaults c opt)
    {id : Nat} (low : id < c.faultCount) :
    c.requested opt s id = true ↔ Wanted c opt (memberNet id) (memberType id) := by
  unfold Netlist.requested Wanted
  cases file : opt.fault with
  | none =>
      dsimp only
      rw [Bool.or_eq_true, decide_eq_true_eq, and_iff_right (memberNet_lt low)]
      cases opt.faultModel with
      | SAF => exact iff_of_true (.inl rfl) fun h => by cases h
      | TDF => exact ⟨fun h _ => h.resolve_left fun h => (by cases h), fun h => .inr (h rfl)⟩
  | some text =>
      have lines : c.faultLines opt s₀ = listedFaults text := by rw [faultLines, file]
      rw [lines] at stores
      dsimp only
      rw [List.any_eq_true]
      constructor
      · rintro ⟨fault, isNode, same⟩
        obtain ⟨line, isLine, created⟩ := (stores fault).mp isNode
        obtain ⟨net, type, isNamed⟩ := valid text file line isLine
        have id_eq := (nodeId_of_namesFault isNamed names created).symm.trans (of_decide_eq_true same)
        rw [← id_eq, memberNet_faultId, memberType_faultId]
        exact ⟨line, isLine, isNamed⟩
      · rintro ⟨line, isLine, isNamed⟩
        obtain ⟨fault, isNode, same⟩ := stores.exists_node names isLine isNamed
        exact ⟨fault, isNode, decide_eq_true (same.trans (faultId_member id))⟩

/-- The fault of a node is requested. -/
theorem StoresLines.requested {opt : Opt} {s₀ s : FaultState} (names : TellingNames c)
    (stores : StoresLines c opt.faultModel (c.faultLines opt s₀) s) {fault : FNODE}
    (isNode : fault ∈ scanFaults s) : c.requested opt s (nodeId fault) = true := by
  unfold Netlist.requested
  cases file : opt.fault with
  | some text => exact List.any_eq_true.mpr ⟨fault, isNode, decide_eq_true rfl⟩
  | none =>
      obtain ⟨line, isLine, created⟩ := (stores fault).mp isNode
      rw [faultLines, file] at isLine
      obtain ⟨net, type, generates, rfl⟩ := mem_generatedFaults.mp isLine
      rw [nodeId_of_namesFault (generates.namesFault names) names created, memberNet_faultId]
      dsimp only
      rw [Bool.or_eq_true, decide_eq_true_eq]
      cases model : opt.faultModel with
      | SAF => exact .inl rfl
      | TDF => exact .inr (generates.peer model)

/-- Every line is stored, and every class of a requested fault has a node. -/
theorem PairGraph.load_covered {opt : Opt} (graph : c.PairGraph) (acyclic : Dag.Acyclic c.nNet c.deps)
    (names : TellingNames c) (some : 0 < c.nNet) (small : c.nNet ≤ intMax / 2)
    (valid : ReadableFaults c opt) {s : FaultState} (empty : s.list = fun _ => []) :
    ∃ t, c.loadFaults opt s = .some (true, t) ∧ Covered c opt t := by
  obtain ⟨ok, s₀, init, isOk, inv⟩ := graph.init_spec opt s
  obtain rfl := isOk.mpr ⟨some, small⟩
  have inv := inv rfl
  obtain ⟨t, run⟩ := loadFaults_named names init (faultLines_named names valid s₀)
  obtain ⟨s₀', init', stored, prepared, -, mem⟩ := graph.load_spec empty run
  rw [init, Option.some.injEq, Prod.mk.injEq] at init'
  obtain ⟨-, rfl⟩ := init'
  have stores : StoresLines c opt.faultModel (c.faultLines opt s₀) t := mem
  have requests := fun id (low : id < c.faultCount) => requested_iff_wanted names stores valid low
  refine ⟨t, run, stored, prepared, requests, fun fault isNode => stores.requested names isNode, ?_⟩
  intro id low isRequested
  cases file : opt.fault with
  | some text =>
      unfold Netlist.requested at isRequested
      rw [file] at isRequested
      obtain ⟨fault, isNode, same⟩ := List.any_eq_true.mp isRequested
      exact ⟨fault, isNode, of_decide_eq_true same ▸ .refl _⟩
  | none =>
      have wanted := (requests id low).mp isRequested
      unfold Wanted at wanted
      rw [file] at wanted
      have initial : c.initialFaults opt = c.structuralFaults opt.faultModel := by
        rw [initialFaults, file]
        rfl
      rw [initial] at inv ⊢
      -- the fault may be pruned; one that it is carried to is not
      obtain ⟨net, type, generates, joined⟩ :=
        exists_unpruned graph acyclic inv ⟨rfl, rfl⟩ wanted.1 wanted.2 (memberType id)
      have isLine : c.faultLine opt.faultModel net type ∈ c.faultLines opt s₀ := by
        rw [faultLines, file]
        exact mem_generatedFaults.mpr ⟨net, type, generates, rfl⟩
      obtain ⟨fault, isNode, same⟩ := stores.exists_node names isLine (generates.namesFault names)
      rw [faultId_member] at joined
      exact ⟨fault, isNode, same ▸ joined⟩

/-- Two faults are in one class of the structural and the external pairs. -/
def SameClass (c : Netlist) (opt : Opt) (pairs : List (Nat × Nat)) (a b : Nat) : Prop :=
  UnionFind.Closure ((c.initialFaults opt).map pairIds ++ pairs) a b

/-- The statistics start at zero. -/
theorem PairGraph.load_stats {opt : Opt} (graph : c.PairGraph) {s t : FaultState}
    (empty : s.list = fun _ => [])
    (run : c.loadFaults opt s = .some (true, t)) : t.stats = ⟨0, 0, 0, 0⟩ := by
  obtain ⟨s₀, init, -, -, frame, -⟩ := graph.load_spec empty run
  obtain ⟨ok, s₀', init', -, inv⟩ := graph.init_spec opt s
  rw [init, Option.some.injEq, Prod.mk.injEq] at init'
  obtain ⟨rfl, rfl⟩ := init'
  rw [frame, (inv rfl).frame]

/-- `ReadFault` succeeds: no class of a requested fault is without a representative. -/
theorem PairGraph.readFault_run {opt : Opt} (graph : c.PairGraph) (acyclic : Dag.Acyclic c.nNet c.deps)
    (names : TellingNames c) (some : 0 < c.nNet) (small : c.nNet ≤ intMax / 2)
    (valid : ReadableFaults c opt) {pairs : List (Nat × Nat)} (external : ExternalPairs c opt pairs)
    {s : FaultState} (empty : s.list = fun _ => []) :
    ∃ loaded root t, c.readFault opt s = .some (true, t) ∧ Covered c opt loaded ∧
      Finalized c opt loaded root t ∧
      (∀ a < c.faultCount, ∀ b < c.faultCount, root a = root b ↔ SameClass c opt pairs a b) ∧
      Counted ((c.initialFaults opt).map pairIds) pairs loaded t ∧ loaded.stats = ⟨0, 0, 0, 0⟩ := by
  obtain ⟨loaded, load, covered⟩ := graph.load_covered acyclic names some small valid empty
  obtain ⟨root, okay, t, run, classes, isOkay, done⟩ :=
    finalizeFaultEquivalence_run covered.prepared covered.stored.nodesLt external
  have found : okay = true := by
    apply isOkay.mpr
    intro id low isRequested
    obtain ⟨fault, isNode, joined⟩ := covered.cover id low isRequested
    refine ⟨fault, isNode, (classes _ (covered.stored.nodesLt fault isNode) id low).mpr ?_⟩
    exact joined.mono fun p mem => List.mem_append_left _ mem
  subst found
  refine ⟨loaded, root, t, ?_, covered, (done rfl).1, classes, (done rfl).2, graph.load_stats empty load⟩
  rw [readFault, load, Option.bind_some]
  exact run

theorem PairGraph.readFault_spec {opt : Opt} (graph : c.PairGraph) (acyclic : Dag.Acyclic c.nNet c.deps)
    (names : TellingNames c) (some : 0 < c.nNet) (small : c.nNet ≤ intMax / 2)
    (valid : ReadableFaults c opt) {pairs : List (Nat × Nat)} (external : ExternalPairs c opt pairs)
    {s : FaultState} (empty : s.list = fun _ => []) :
    ∃ loaded root t, c.readFault opt s = .some (true, t) ∧ Covered c opt loaded ∧
      Finalized c opt loaded root t ∧
      ∀ a < c.faultCount, ∀ b < c.faultCount, root a = root b ↔ SameClass c opt pairs a b := by
  obtain ⟨loaded, root, t, run, covered, done, classes, -⟩ :=
    graph.readFault_run acyclic names some small valid external empty
  exact ⟨loaded, root, t, run, covered, done, classes⟩

end Netlist

end SafRprGen
