/-
Module: SafRprGen.Output.Reported
Layer: Output
Purpose: The rows of the density report as a list of faults. Every requested fault is reported in one row,
  which names the target of its class, and the counts of the report add up.
Main exports: writtenResults, NamesRow, readFault_reports
-/
import SafRprGen.Fault.Reported
import SafRprGen.Output.FaultCsv

namespace SafRprGen

namespace Netlist

variable {c : Netlist} {m : FaultModel}

/-- The calls of `WriteFaultResult`, one for each target of `CopyTargetOrder`. -/
def writtenResults (c : Netlist) (s : FaultState) (result : FNODE → FaultResult) :
    Option (List WrittenResult) :=
  (c.initTargetOrder s).mapM fun target =>
    (c.getEquivalentFaults s target).map fun members => ⟨target, result target, members⟩

/-- A row names a fault and the target that represents it, with the density of the target. -/
def NamesRow (gmp : Gmp) (c : Netlist) (m : FaultModel) (row : CStr) (fault : Nat × FaultType)
    (target : FNODE) (density : ℚ) : Prop :=
  ∃ count complete, row = csvRow [c.name fault.1, faultTypeName m fault.2, count, complete,
    (gmp.snprintf density).take 63, c.name target.netptr, faultTypeName m target.type]

/-! ### Targets -/

theorem perm_initTargetOrder (c : Netlist) (s : FaultState) : (c.initTargetOrder s).Perm (scanFaults s) := by
  have sorted := (List.mergeSort_perm (targetEntries s) fun a b => c.compareTarget a b != .gt).map (·.1)
  rwa [targetEntries, List.zipIdx_map_fst] at sorted

section Targets

variable {opt : Opt} {s t : FaultState} {root : Nat → Nat}

/-- The targets are nodes of the table. -/
theorem Finalized.target (done : Finalized c opt s root t) {target : FNODE}
    (mem : target ∈ c.initTargetOrder t) : target ∈ scanFaults s := by
  have kept := (perm_initTargetOrder c t).mem_iff.mp mem
  rw [done.scan] at kept
  exact (List.mem_filter.mp kept).1

/-- No two targets share a class. -/
theorem Finalized.target_unique (done : Finalized c opt s root t) {target target' : FNODE}
    (mem : target ∈ c.initTargetOrder t) (mem' : target' ∈ c.initTargetOrder t)
    (same : root (nodeId target) = root (nodeId target')) : target = target' := by
  have kept := (perm_initTargetOrder c t).mem_iff.mp mem
  have kept' := (perm_initTargetOrder c t).mem_iff.mp mem'
  rw [done.scan] at kept kept'
  exact FirstMin.winners_unique kept kept' same

/-- Every class with a node has a target. -/
theorem Finalized.exists_target (done : Finalized c opt s root t) {fault : FNODE}
    (mem : fault ∈ scanFaults s) :
    ∃ target ∈ c.initTargetOrder t, root (nodeId target) = root (nodeId fault) := by
  obtain ⟨target, kept, same⟩ := @FirstMin.exists_winner _ _ _ (fun fault => c.level fault.netptr)
    (fun fault => root (nodeId fault)) _ _ _ mem
  rw [← done.scan] at kept
  exact ⟨target, (perm_initTargetOrder c t).mem_iff.mpr kept, same⟩

theorem Finalized.targets_nodup (done : Finalized c opt s root t) (stored : Stored c m s) :
    (c.initTargetOrder t).Nodup := by
  rw [(perm_initTargetOrder c t).nodup_iff, done.scan]
  exact stored.nodup.filter _

/-- The members that `GetEquivalentFaults` lists for a target. -/
theorem Finalized.getEquivalentFaults (done : Finalized c opt s root t) (stored : Stored c m s)
    {target : FNODE} (mem : target ∈ c.initTargetOrder t) :
    c.getEquivalentFaults t target = some (c.classMembers opt s root (root (nodeId target))) := by
  have low := stored.nodesLt target (done.target mem)
  rw [Netlist.getEquivalentFaults, done.roots.groupRoot low, done.members]
  rfl

end Targets

/-! ### Rows -/

/-- The ids of the faults that the rows of a call name. -/
def reportedIds (r : WrittenResult) : List Nat := nodeId r.target :: r.otherMembers

theorem otherMembers_eq (r : WrittenResult) :
    r.otherMembers = r.members.filter fun id => decide (id ≠ nodeId r.target) := by
  unfold WrittenResult.otherMembers
  apply List.filter_congr
  intro id _
  rw [← Bool.decide_and, ← decide_not]
  apply decide_eq_decide.mpr
  apply not_congr
  constructor
  · rintro ⟨net, type⟩
    rw [nodeId, ← net, ← type, faultId_member]
  · rintro rfl
    exact ⟨memberNet_faultId _ _, memberType_faultId _ _⟩

/-- Each row of a call names one of the ids. -/
theorem writeFaultResult_names (gmp : Gmp) {r : WrittenResult}
    (named : c.name r.target.netptr = r.target.name) :
    List.Forall₂ (fun row id => NamesRow gmp c m row (memberNet id, memberType id) r.target r.result.density)
      (r.writeFaultResult gmp c m) (reportedIds r) := by
  unfold WrittenResult.writeFaultResult reportedIds
  refine .cons ⟨printCount r.result.cubeCnt, printCount (if r.result.complete then 1 else 0), ?_⟩ ?_
  · rw [nodeId, memberNet_faultId, memberType_faultId, named]
    rfl
  · rw [List.forall₂_map_left_iff, List.forall₂_same]
    intro id _
    refine ⟨[], [], ?_⟩
    rw [named]
    rfl

/-- The faults that the rows of a call name. -/
def reportedFaults (w : WrittenResult) : List (Nat × FaultType) :=
  (reportedIds w).map fun id => (memberNet id, memberType id)

/-- Each row of a call names one of the faults. -/
theorem rows_reportedFaults (gmp : Gmp) {r : WrittenResult}
    (named : c.name r.target.netptr = r.target.name) :
    List.Forall₂ (fun row fault => NamesRow gmp c m row fault r.target r.result.density)
      (r.writeFaultResult gmp c m) (reportedFaults r) := by
  unfold reportedFaults
  rw [List.forall₂_map_right_iff]
  exact writeFaultResult_names gmp named

/-- A call that succeeds for every item gives all results. -/
theorem mapM_eq_some {α β : Type} {f : α → Option β} {g : α → β} {items : List α}
    (all : ∀ x ∈ items, f x = some (g x)) : items.mapM f = some (items.map g) := by
  induction items with
  | nil => rfl
  | cons x items ih =>
      obtain ⟨first, rest⟩ := List.forall_mem_cons.mp all
      rw [List.mapM_cons, first, ih rest]
      rfl

/-- What the report says: the targets are requested faults, one for each class of a requested fault, and the
rows are the requested faults, each in one row that names the target of its class. -/
structure Reports (c : Netlist) (opt : Opt) (pairs : List (Nat × Nat)) (t : FaultState) : Prop where
  requested : ∀ target ∈ c.initTargetOrder t, Wanted c opt target.netptr target.type
  nodup : (c.initTargetOrder t).Nodup
  oneTarget : ∀ net type, Wanted c opt net type →
    ∃! target, target ∈ c.initTargetOrder t ∧ SameClass c opt pairs (faultId net type) (nodeId target)
  numinit : t.numinit = (c.initTargetOrder t).length
  rows : ∀ gmp result, ∃ results, ∃ reported : List ((Nat × FaultType) × FNODE),
    c.writtenResults t result = some results ∧
    List.Forall₂ (fun row e => NamesRow gmp c opt.faultModel row e.1 e.2 (result e.2).density)
      (results.flatMap (WrittenResult.writeFaultResult gmp c opt.faultModel)) reported ∧
    (reported.map (·.1)).Nodup ∧
    (∀ net type, (net, type) ∈ reported.map (·.1) ↔ Wanted c opt net type) ∧
    (∀ e ∈ reported, e.2 ∈ c.initTargetOrder t ∧
      SameClass c opt pairs (faultId e.1.1 e.1.2) (nodeId e.2)) ∧
    (t.numinit : Int) + t.numequiv = reported.length

theorem Wanted.low {opt : Opt} {net : Nat} {type : FaultType} (wanted : Wanted c opt net type) :
    net < c.nNet := by
  unfold Wanted at wanted
  cases file : opt.fault with
  | some text =>
      rw [file] at wanted
      obtain ⟨line, -, named⟩ := wanted
      exact named.low
  | none =>
      rw [file] at wanted
      exact wanted.1

/-! ### The calls for the targets -/

/-- The call of `WriteFaultResult` for a target. -/
def classCall (c : Netlist) (opt : Opt) (s : FaultState) (root : Nat → Nat) (result : FNODE → FaultResult)
    (target : FNODE) : WrittenResult :=
  ⟨target, result target, c.classMembers opt s root (root (nodeId target))⟩

/-- The entries of the requested faults. -/
theorem Covered.wanted_iff {opt : Opt} {s : FaultState} (covered : Covered c opt s) (net : Nat)
    (type : FaultType) :
    faultId net type < c.faultCount ∧ c.requested opt s (faultId net type) = true ↔
    Wanted c opt net type := by
  constructor
  · rintro ⟨low, requested⟩
    have wanted := (covered.requested _ low).mp requested
    rwa [memberNet_faultId, memberType_faultId] at wanted
  · intro wanted
    have low := faultId_lt wanted.low type
    refine ⟨low, (covered.requested _ low).mpr ?_⟩
    rw [memberNet_faultId, memberType_faultId]
    exact wanted

section Calls

variable {opt : Opt} {s t : FaultState} {root : Nat → Nat} {pairs : List (Nat × Nat)}

theorem Covered.target_named (covered : Covered c opt s) (done : Finalized c opt s root t) {target : FNODE}
    (mem : target ∈ c.initTargetOrder t) : c.name target.netptr = target.name :=
  (createFaultNode_spec (covered.stored.parsed_scan (done.target mem))).2.1

theorem Covered.target_low (covered : Covered c opt s) (done : Finalized c opt s root t) {target : FNODE}
    (mem : target ∈ c.initTargetOrder t) : nodeId target < c.faultCount :=
  covered.stored.nodesLt target (done.target mem)

/-- The class of a requested fault has a target. -/
theorem Covered.exists_target (covered : Covered c opt s) (done : Finalized c opt s root t)
    (classes : ∀ a < c.faultCount, ∀ b < c.faultCount, root a = root b ↔ SameClass c opt pairs a b)
    {id : Nat} (low : id < c.faultCount) (requested : c.requested opt s id = true) :
    ∃ target ∈ c.initTargetOrder t, root (nodeId target) = root id := by
  obtain ⟨fault, isNode, joined⟩ := covered.cover id low requested
  obtain ⟨target, mem, same⟩ := done.exists_target isNode
  refine ⟨target, mem, same.trans ((classes _ (covered.stored.nodesLt fault isNode) id low).mpr ?_)⟩
  exact joined.mono fun p mem => List.mem_append_left _ mem

theorem otherMembers_classCall (result : FNODE → FaultResult) (target : FNODE) :
    (c.classCall opt s root result target).otherMembers =
      ((List.range c.faultCount).filter fun id => c.requested opt s id &&
        decide (root id = root (nodeId target))).filter fun id => decide (id ≠ nodeId target) :=
  otherMembers_eq (c.classCall opt s root result target)

/-- The faults of a call are in the class of its target. -/
theorem Covered.sameClass_classCall (covered : Covered c opt s) (done : Finalized c opt s root t)
    (classes : ∀ a < c.faultCount, ∀ b < c.faultCount, root a = root b ↔ SameClass c opt pairs a b)
    {result : FNODE → FaultResult} {target : FNODE} (isTarget : target ∈ c.initTargetOrder t)
    {fault : Nat × FaultType} (mem : fault ∈ reportedFaults (c.classCall opt s root result target)) :
    SameClass c opt pairs (faultId fault.1 fault.2) (nodeId target) := by
  obtain ⟨id, isId, rfl⟩ := List.mem_map.mp mem
  rw [faultId_member]
  rcases List.mem_cons.mp isId with rfl | other
  · exact .refl _
  · rw [otherMembers_classCall] at other
    obtain ⟨inRange, inClass⟩ := List.mem_filter.mp (List.mem_filter.mp other).1
    exact (classes id (List.mem_range.mp inRange) _ (covered.target_low done isTarget)).mp
      (of_decide_eq_true (Bool.and_eq_true_iff.mp inClass).2)

/-- The calls name the requested faults. -/
theorem Covered.perm_reportedFaults (covered : Covered c opt s) (done : Finalized c opt s root t)
    (classes : ∀ a < c.faultCount, ∀ b < c.faultCount, root a = root b ↔ SameClass c opt pairs a b)
    (result : FNODE → FaultResult) :
    (((c.initTargetOrder t).map (c.classCall opt s root result)).flatMap reportedFaults).Perm
      (((List.range c.faultCount).filter (c.requested opt s)).map
        fun id => (memberNet id, memberType id)) := by
  have listed := FirstMin.perm_flatMap_classes List.nodup_range
    (fun target mem => ⟨List.mem_range.mpr (covered.target_low done mem),
      covered.nodes target (done.target mem)⟩)
    ((done.targets_nodup covered.stored).map_on fun target mem target' mem' same =>
      done.target_unique mem mem' same)
    (fun id inRange requested => covered.exists_target done classes (List.mem_range.mp inRange) requested)
  have split : ((c.initTargetOrder t).map (c.classCall opt s root result)).flatMap reportedFaults =
      ((c.initTargetOrder t).flatMap fun target => reportedIds (c.classCall opt s root result target)).map
        fun id => (memberNet id, memberType id) := by
    rw [List.flatMap_map, List.map_flatMap]
    rfl
  rw [split]
  simp only [reportedIds, otherMembers_classCall]
  exact listed.map _

theorem Covered.reportedFaults_nodup (covered : Covered c opt s) (done : Finalized c opt s root t)
    (classes : ∀ a < c.faultCount, ∀ b < c.faultCount, root a = root b ↔ SameClass c opt pairs a b)
    (result : FNODE → FaultResult) :
    (((c.initTargetOrder t).map (c.classCall opt s root result)).flatMap reportedFaults).Nodup := by
  refine (covered.perm_reportedFaults done classes result).nodup_iff.mpr
    ((List.nodup_range.filter _).map fun id id' same => ?_)
  rw [Prod.mk.injEq] at same
  rw [← faultId_member id, ← faultId_member id', same.1, same.2]

theorem Covered.mem_reportedFaults (covered : Covered c opt s) (done : Finalized c opt s root t)
    (classes : ∀ a < c.faultCount, ∀ b < c.faultCount, root a = root b ↔ SameClass c opt pairs a b)
    (result : FNODE → FaultResult) (net : Nat) (type : FaultType) :
    (net, type) ∈ ((c.initTargetOrder t).map (c.classCall opt s root result)).flatMap reportedFaults ↔
      Wanted c opt net type := by
  rw [(covered.perm_reportedFaults done classes result).mem_iff, ← covered.wanted_iff, ← List.mem_range,
    ← List.mem_filter]
  constructor
  · intro mem
    obtain ⟨id, isId, same⟩ := List.mem_map.mp mem
    rw [Prod.mk.injEq] at same
    rwa [← same.1, ← same.2, faultId_member]
  · exact fun mem => List.mem_map.mpr ⟨_, mem, by rw [memberNet_faultId, memberType_faultId]⟩

/-- The rows that the calls write, each with its fault and its target. -/
theorem Covered.rows_classCall (covered : Covered c opt s) (done : Finalized c opt s root t) (gmp : Gmp)
    (result : FNODE → FaultResult) :
    List.Forall₂ (fun row (e : (Nat × FaultType) × FNODE) =>
        NamesRow gmp c opt.faultModel row e.1 e.2 (result e.2).density)
      (((c.initTargetOrder t).map (c.classCall opt s root result)).flatMap
        (WrittenResult.writeFaultResult gmp c opt.faultModel))
      ((c.initTargetOrder t).flatMap fun target =>
        (reportedFaults (c.classCall opt s root result target)).map fun fault => (fault, target)) := by
  have targets : List.Forall₂ (fun a b => a ∈ c.initTargetOrder t ∧ a = b) (c.initTargetOrder t)
      (c.initTargetOrder t) := List.forall₂_same.mpr fun target mem => ⟨mem, rfl⟩
  rw [List.flatMap_map]
  apply List.rel_flatMap targets
  rintro target _ ⟨isTarget, rfl⟩
  rw [List.forall₂_map_right_iff]
  exact rows_reportedFaults gmp (r := c.classCall opt s root result target)
    (covered.target_named done isTarget)

theorem Covered.reports (covered : Covered c opt s) (done : Finalized c opt s root t)
    (classes : ∀ a < c.faultCount, ∀ b < c.faultCount, root a = root b ↔ SameClass c opt pairs a b) :
    Reports c opt pairs t := by
  refine ⟨fun target mem => ?_, done.targets_nodup covered.stored, fun net type wanted => ?_, ?_,
    fun gmp result => ?_⟩
  · exact (covered.wanted_iff target.netptr target.type).mp
      ⟨covered.target_low done mem, covered.nodes target (done.target mem)⟩
  · obtain ⟨low, requested⟩ := (covered.wanted_iff net type).mpr wanted
    obtain ⟨target, mem, same⟩ := covered.exists_target done classes low requested
    refine ⟨target, ⟨mem, (classes _ low _ (covered.target_low done mem)).mp same.symm⟩, ?_⟩
    rintro target' ⟨mem', joined⟩
    have same' := (classes _ low _ (covered.target_low done mem')).mpr joined
    exact done.target_unique mem' mem (same'.symm.trans same.symm)
  · rw [done.numinit_eq covered.stored, (perm_initTargetOrder c t).length_eq]
  · have results : c.writtenResults t result =
        some ((c.initTargetOrder t).map (c.classCall opt s root result)) := by
      apply mapM_eq_some
      intro target mem
      rw [done.getEquivalentFaults covered.stored mem]
      rfl
    have rows := covered.rows_classCall done gmp result
    have faults : ((c.initTargetOrder t).flatMap fun target =>
        (reportedFaults (c.classCall opt s root result target)).map fun fault => (fault, target)).map (·.1) =
          ((c.initTargetOrder t).map (c.classCall opt s root result)).flatMap reportedFaults := by
      simp only [List.map_flatMap, List.map_map, Function.comp_def, List.map_id', List.flatMap_map]
    refine ⟨_, _, results, rows, ?_, fun net type => ?_, fun e mem => ?_, ?_⟩
    · rw [faults]
      exact covered.reportedFaults_nodup done classes result
    · rw [faults]
      exact covered.mem_reportedFaults done classes result net type
    · obtain ⟨target, isTarget, inCall⟩ := List.mem_flatMap.mp mem
      obtain ⟨fault, isFault, rfl⟩ := List.mem_map.mp inCall
      exact ⟨isTarget, covered.sameClass_classCall done classes isTarget isFault⟩
    · have length := (covered.perm_reportedFaults done classes result).length_eq
      rw [← faults, List.length_map, List.length_map] at length
      rw [length, done.numequiv, done.outputFaults]
      omega

end Calls

end Netlist

open Netlist

/-- A netlist that is ready for analysis has exact structural pairs, and no cycles when its gates can be
ordered. -/
theorem prepareCircuit_graph {m : FaultModel} {text : List Char} {a : Accepted} {net : ReadNet} {c : Netlist}
    (accepted : readFile text = .ok a) (read : readNl text = .ok net)
    (prepared : prepareCircuit m net = some c) : CollapseGraph c m ∧
      (RecordsAcyclic a.records → Dag.Acyclic c.nNet c.deps) := by
  obtain ⟨-, -, -, -, ports, -, loaded⟩ := readFile_spec accepted
  obtain ⟨pi, count, refines⟩ := readNl_spec accepted read
  obtain ⟨plain, ready⟩ := prepareCircuit_spec count prepared
  rw [pi] at ready
  cases m with
  | SAF =>
      obtain ⟨-, rfl⟩ := ready
      exact ⟨loaded.collapseGraph refines, loaded.acyclic refines⟩
  | TDF =>
      have graph := loaded.sequentialGraph refines (readFile_records accepted) plain
      rw [((loaded.expandTdfNetlist_eq_some refines).mp ready).2]
      refine ⟨graph.collapseGraph, fun ordered => ?_⟩
      apply (graph.expanded_acyclic (loaded.acyclic refines ordered)).mono
      intro k _
      rw [Netlist.deps]
      split
      · exact List.nil_subset _
      · exact List.Subset.refl _

/-- Every requested fault is reported exactly once. -/
theorem readFault_reports (m : FaultModel) (text : List Char) (a : Accepted) (net : ReadNet) (c : Netlist)
    (accepted : readFile text = .ok a) (read : readNl text = .ok net)
    (prepared : prepareCircuit m net = some c) (acyclic : RecordsAcyclic a.records)
    (names : TellingNames c) (some : 0 < c.nNet) (small : c.nNet ≤ intMax / 2)
    (opt : Opt) (model : opt.faultModel = m) (valid : ReadableFaults c opt) (pairs : List (Nat × Nat))
    (external : ExternalPairs c opt pairs) (s : FaultState) (empty : s.list = fun _ => []) :
    ∃ t, c.readFault opt s = .some (true, t) ∧ Reports c opt pairs t := by
  subst model
  obtain ⟨graph, ordered⟩ := prepareCircuit_graph accepted read prepared
  obtain ⟨loaded, root, t, run, covered, done, classes⟩ :=
    graph.toPairGraph.readFault_spec (ordered acyclic) names some small valid external empty
  exact ⟨t, run, covered.reports done classes⟩

/-- A gate whose input has a carriage return in its name. -/
def returnText : List Char :=
  ("module m (a\r, b, z);\ninput a\r, b;\noutput z;\n" ++
    "AND2 U1 (.A(a\r), .B(b), .Z(z));\nendmodule\n").toList

def returnRecords : List GateRecord := [⟨"U1".toList, .AND, "z".toList, ["a\r".toList, "b".toList]⟩]

/-- The netlist has no cycles and distinct ASCII names, but `sscanf` cuts the name off, so that `ReadFault`
stops at a line that it generated itself. -/
theorem returnText_fails : ∃ a net c t, readFile returnText = .ok a ∧ readNl returnText = .ok net ∧
    prepareCircuit .SAF net = some c ∧ RecordsAcyclic a.records ∧ c.names.Nodup ∧
    (∀ name ∈ c.names, ∀ ch ∈ name, ch.toNat < 128) ∧
    c.readFault ⟨.SAF, none, none⟩ emptyFaultState = some (false, t) := by
  have computed : ((readFile returnText).toOption.map (·.records),
      ((readNl returnText).toOption.bind (prepareCircuit .SAF)).map fun c => (c.names,
        (c.readFault ⟨.SAF, none, none⟩ emptyFaultState).map (·.1))) =
      (some returnRecords, some (["a\r".toList, "b".toList, "z".toList], some false)) := by decide +kernel
  rw [Prod.mk.injEq] at computed
  obtain ⟨records, passes⟩ := computed
  cases accepted : readFile returnText with
  | error e =>
      rw [accepted] at records
      cases records
  | ok a =>
      rw [accepted] at records
      have isRecords : a.records = returnRecords := Option.some.inj records
      cases read : readNl returnText with
      | error e =>
          rw [read] at passes
          cases passes
      | ok net =>
          rw [read] at passes
          obtain ⟨c, prepared, both⟩ := Option.map_eq_some_iff.mp passes
          rw [Prod.mk.injEq] at both
          obtain ⟨names, stops⟩ := both
          obtain ⟨⟨okay, t⟩, run, rfl⟩ := Option.map_eq_some_iff.mp stops
          refine ⟨a, net, c, t, rfl, rfl, prepared, ?_, ?_, ?_, run⟩
          · rw [isRecords]
            exact ⟨fun word => if word = "z".toList then 1 else 0, by decide +kernel⟩
          · rw [names]
            decide +kernel
          · rw [names]
            intro name mem
            have ascii : name.all (fun ch => decide (ch.toNat < 128)) = true := by
              revert name
              exact List.all_eq_true.mp (by decide +kernel)
            simpa using ascii

/-- The names of the AND gate's nets. -/
theorem tellingNames_and {c : Netlist}
    (names : (List.range c.nNet).map c.name = ["a".toList, "b".toList, "z".toList]) :
    TellingNames c :=
  @TellingNames.of_letters c ['a', 'b', 'z'] (names.trans (by decide)) (by decide)
    (@of_decide_eq_true _ (List.decidableBAll _ _) (by decide))

/-- The six faults of an AND gate. -/
theorem readFault_reports_and : ∃ net c, readNl declaredText = .ok net ∧ prepareCircuit .SAF net = some c ∧
    ∃ t, c.readFault ⟨.SAF, none, none⟩ emptyFaultState = some (true, t) ∧
      Reports c ⟨.SAF, none, none⟩ [] t := by
  have computed : ((readFile declaredText).toOption.map (·.records),
      ((readNl declaredText).toOption.bind (prepareCircuit .SAF)).map fun c => (c.names, c.nNet)) =
      (some andRecords, some (["a".toList, "b".toList, "z".toList], 3)) := by decide +kernel
  rw [Prod.mk.injEq] at computed
  obtain ⟨records, passes⟩ := computed
  cases accepted : readFile declaredText with
  | error e =>
      rw [accepted] at records
      cases records
  | ok a =>
      rw [accepted] at records
      have isRecords : a.records = andRecords := Option.some.inj records
      have acyclic : RecordsAcyclic andRecords :=
        ⟨fun word => if word = "z".toList then 1 else 0, by decide +kernel⟩
      cases read : readNl declaredText with
      | error e =>
          rw [read] at passes
          cases passes
      | ok net =>
          rw [read] at passes
          obtain ⟨c, prepared, both⟩ := Option.map_eq_some_iff.mp passes
          rw [Prod.mk.injEq] at both
          obtain ⟨names, size⟩ := both
          have telling : ∀ name ∈ ["a".toList, "b".toList, "z".toList], Plain name ∧ ∀ ch ∈ name,
              ch.toNat < 128 := by
            intro name mem
            simp only [List.mem_cons, List.not_mem_nil, or_false] at mem
            rcases mem with rfl | rfl | rfl <;>
                exact ⟨⟨by decide, List.forall_mem_singleton.mpr rfl, by decide⟩,
              List.forall_mem_singleton.mpr (by decide)⟩
          have isName : ∀ n < c.nNet, c.name n ∈ ["a".toList, "b".toList, "z".toList] := by
            intro n low
            rw [← names, names_eq]
            exact List.mem_map_of_mem (List.mem_range.mpr low)
          refine ⟨net, c, rfl, prepared, readFault_reports .SAF declaredText a net c accepted read prepared
            (isRecords ▸ acyclic) ⟨?_, fun n low => (telling _ (isName n low)).1,
              fun n low => (telling _ (isName n low)).2⟩ ?_ ?_ ⟨.SAF, none, none⟩ rfl ?_ [] rfl
            emptyFaultState rfl⟩
          · rw [names]
            decide +kernel
          · rw [size]
            decide
          · rw [size]
            decide
          · intro file isFile
            cases isFile

end SafRprGen
