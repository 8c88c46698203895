/-
Module: SafRprGen.Fault.Presentation
Layer: Fault
Purpose: Two runs of `ReadFault` that differ in how the external equivalences are presented. The runs merge
  in another order and link other roots, but the classes are the same closure, so they leave the same
  targets, representatives, member lists and counts.
Main exports: loadFaults_spec, Finalized.congr, readFault_presentation
-/
import SafRprGen.Fault.Target

namespace SafRprGen

namespace Netlist

variable {c : Netlist}

/-- The lines that `ReadFault` stores. -/
def faultLines (c : Netlist) (opt : Opt) (s : FaultState) : List CStr :=
  match opt.fault with
  | some file => listedFaults file
  | none => c.generatedFaults opt.faultModel s

theorem stored_empty {m : FaultModel} {s : FaultState} (empty : s.list = fun _ => []) :
    Stored c m s := by
  constructor <;> simp [empty]

/-- After a successful load the table holds the faults of the lines, each once, and the classes are those
of the structural pairs. -/
theorem PairGraph.load_spec {opt : Opt} (graph : c.PairGraph) {s t : FaultState}
    (empty : s.list = fun _ => []) (run : c.loadFaults opt s = some (true, t)) :
    ∃ s₀, c.initFaultEquivalence opt s = some (true, s₀) ∧ Stored c opt.faultModel t ∧
      Prepared c ((c.initialFaults opt).map pairIds) t ∧
      (t = { s₀ with list := t.list, numinit := t.numinit }) ∧
      ∀ node, node ∈ scanFaults t ↔ ∃ line ∈ c.faultLines opt s₀,
        c.createFaultNode opt.faultModel (normalise line) = some node := by
  unfold loadFaults at run
  obtain ⟨ok, s₀, init, -, inv⟩ := graph.init_spec _ s
  rw [init, Option.bind_some] at run
  cases ok with
  | false => cases run
  | true =>
      have inv := inv rfl
      have emptyScan : ∀ n, scanFaults { s₀ with numinit := n } = [] := by
        intro n
        rw [inv.frame]
        simp [scanFaults, empty]
      have stored : ∀ n, Stored c opt.faultModel { s₀ with numinit := n } := by
        intro n
        apply stored_empty
        rw [inv.frame]
        exact empty
      have created : ∃ n, c.createFaultLists opt.faultModel (c.faultLines opt s₀)
          { s₀ with numinit := n } = some (true, t) := by
        unfold faultLines
        cases file : opt.fault with
        | none =>
            rw [file] at run
            exact ⟨0, run⟩
        | some text =>
            rw [file] at run
            exact ⟨s₀.numinit, run⟩
      obtain ⟨n, created⟩ := created
      obtain ⟨stored', frame, mem⟩ := createFaultLists_spec (stored n) created
      refine ⟨s₀, init, stored', ?_, frame, fun node => ?_⟩
      · have frame' := inv.frame
        refine ⟨?_, ?_, ?_, ?_⟩
        · rw [frame]
          exact inv.classes
        all_goals rw [frame, frame']
      · rw [mem, emptyScan]
        simp

theorem loadFaults_spec {opt : Opt} (wf : c.WellFormed opt.faultModel) {s t : FaultState}
    (empty : s.list = fun _ => []) (run : c.loadFaults opt s = some (true, t)) :
    ∃ s₀, c.initFaultEquivalence opt s = some (true, s₀) ∧ Stored c opt.faultModel t ∧
      Prepared c ((c.initialFaults opt).map pairIds) t ∧
      (t = { s₀ with list := t.list, numinit := t.numinit }) ∧
      ∀ node, node ∈ scanFaults t ↔ ∃ line ∈ c.faultLines opt s₀,
        c.createFaultNode opt.faultModel (normalise line) = some node :=
  wf.pairGraph.load_spec empty run

/-- The targets are the nodes that their classes keep. -/
theorem Finalized.scan {opt : Opt} {s t : FaultState} {root : Nat → Nat}
    (done : Finalized c opt s root t) :
    scanFaults t = FirstMin.winners (fun fault => c.level fault.netptr)
      (fun fault => root (nodeId fault)) (scanFaults s) := by
  unfold FirstMin.winners
  change _ = (scanFaults s).filter fun fault =>
    decide (c.classTarget root (scanFaults s) (root (nodeId fault)) = some fault)
  conv_rhs => rw [scanFaults, List.filter_flatMap]
  rw [scanFaults, done.list, List.flatMap_def, List.flatMap_def]
  apply congrArg List.flatten
  apply List.map_congr_left
  intro hash inTable
  rw [if_pos (List.mem_range.mp inTable)]
  rfl

/-- `numinit` counts the targets. -/
theorem Finalized.numinit_eq {opt : Opt} {m : FaultModel} {s t : FaultState} {root : Nat → Nat}
    (done : Finalized c opt s root t) (stored : Stored c m s) :
    t.numinit = (scanFaults t).length := by
  rw [done.numinit, done.scan, FirstMin.winners_length stored.nodup]
  rfl

/-- The result depends on the classes only. -/
theorem Finalized.congr {opt opt' : Opt} {m : FaultModel} {s t t' : FaultState} {root root' : Nat → Nat}
    (done : Finalized c opt s root t) (done' : Finalized c opt' s root' t') (stored : Stored c m s)
    (requests : c.requested opt s = c.requested opt' s)
    (same : ∀ a < c.faultCount, ∀ b < c.faultCount, root a = root b ↔ root' a = root' b) :
    t'.list = t.list ∧ t'.numinit = t.numinit ∧ t'.numequiv = t.numequiv ∧
      ∀ id < c.faultCount, t'.representative (root' id) = t.representative (root id) ∧
        t'.members (root' id) = t.members (root id) := by
  have low := stored.nodesLt
  have targets : ∀ id < c.faultCount, c.classTarget root' (scanFaults s) (root' id) =
      c.classTarget root (scanFaults s) (root id) := by
    intro id hid
    unfold classTarget
    congr 1
    apply List.filter_congr
    intro fault mem
    exact decide_eq_decide.mpr (same _ (low fault mem) id hid).symm
  have list : t'.list = t.list := by
    rw [done.list, done'.list]
    funext hash
    by_cases inTable : hash < maxsizeHash
    · rw [if_pos inTable, if_pos inTable]
      apply List.filter_congr
      intro fault mem
      have stored : fault ∈ scanFaults s :=
        List.mem_flatMap.mpr ⟨hash, List.mem_range.mpr inTable, mem⟩
      rw [targets _ (low fault stored)]
    · rw [if_neg inTable, if_neg inTable]
  have count : t'.numinit = t.numinit := by
    rw [done.numinit_eq stored, done'.numinit_eq stored, scanFaults, scanFaults, list]
  refine ⟨list, count, ?_, fun id hid => ⟨?_, ?_⟩⟩
  · rw [done.numequiv, done'.numequiv, done.outputFaults, done'.outputFaults, requests, count]
  · rw [done.representative, done'.representative, targets id hid]
  · rw [done.members, done'.members]
    unfold classMembers
    apply List.filter_congr
    intro a mem
    rw [requests]
    congr 1
    exact decide_eq_decide.mpr (same a (List.mem_range.mp mem) id hid).symm

/-- A class has a representative when it has a node, and it is the node that comes first in the order of
the targets. -/
theorem Finalized.first {opt : Opt} {s t : FaultState} {root : Nat → Nat}
    (done : Finalized c opt s root t) (r : Nat) :
    ((t.representative r).isSome = true ↔ ∃ e ∈ targetEntries s, root (nodeId e.1) = r) ∧
      ∀ fault, t.representative r = some fault → ∃ e ∈ targetEntries s, e.1 = fault ∧
        root (nodeId fault) = r ∧
        ∀ e' ∈ targetEntries s, root (nodeId e'.1) = r → c.compareTarget e e' ≠ .gt := by
  rw [done.representative]
  constructor
  · rw [classTarget_isSome]
    constructor
    · rintro ⟨fault, mem, here⟩
      obtain ⟨i, hi, rfl⟩ := List.getElem_of_mem mem
      exact ⟨((scanFaults s)[i], i), List.mem_zipIdx_iff_getElem?.mpr (List.getElem?_eq_getElem hi), here⟩
    · rintro ⟨e, mem, here⟩
      exact ⟨e.1, List.mem_of_getElem? (List.mem_zipIdx_iff_getElem?.mp mem), here⟩
  · intro fault chosen
    have isMin := FirstMin.firstMin_eq_some.mp chosen
    obtain ⟨i, entry, least⟩ := isMin.position
    refine ⟨(fault, i), entry, rfl, of_decide_eq_true (List.mem_filter.mp isMin.mem).2, ?_⟩
    rintro ⟨g, j⟩ mem here
    unfold compareTarget
    rcases least g j mem (decide_eq_true here) with less | ⟨same, le⟩
    · rw [compare_lt_iff_lt.mpr less, Ordering.lt_then]
      exact fun h => by cases h
    · dsimp only
      rw [same, compare_eq_iff_eq.mpr rfl, Ordering.eq_then]
      exact fun h => absurd (compare_gt_iff_gt.mp h) (not_lt.mpr le)

/-- Target selection depends on the classes of the external pairs only: files whose pairs are the same up
to order, sides and repetitions leave the same targets in the same order, the same representatives, member
lists and counts. The representative of a class is its first node by level and scan position. -/
theorem readFault_presentation (k : Circuit) (opt : Opt) (model : opt.faultModel = k.model)
    (file file' : CStr) (pairs pairs' : List (Nat × Nat))
    (reads : ReadsPairs k.netlist file true pairs) (reads' : ReadsPairs k.netlist file' true pairs')
    (same : ∀ a b, ((a, b) ∈ pairs ∨ (b, a) ∈ pairs) ↔ ((a, b) ∈ pairs' ∨ (b, a) ∈ pairs'))
    (s t : FaultState) (okay : Bool) (empty : s.list = fun _ => [])
    (run : k.netlist.readFault { opt with equiv := some file } s = some (okay, t)) :
    ∃ t', k.netlist.readFault { opt with equiv := some file' } s = some (okay, t') ∧
      (okay = true → t'.list = t.list ∧
        k.netlist.initTargetOrder t' = k.netlist.initTargetOrder t ∧
        t'.numinit = t.numinit ∧ t'.numequiv = t.numequiv ∧
        (∀ fault, nodeId fault < k.netlist.faultCount →
          k.netlist.getEquivalentFaults t' fault = k.netlist.getEquivalentFaults t fault) ∧
        ∃ loaded, k.netlist.loadFaults { opt with equiv := some file } s = some (true, loaded) ∧
          ∀ id < k.netlist.faultCount, ∃ root root', k.netlist.groupRoot t id = some root ∧
            k.netlist.groupRoot t' id = some root' ∧
            t'.representative root' = t.representative root ∧
            t'.members root' = t.members root ∧
            ((t.representative root).isSome = true ↔ ∃ e ∈ targetEntries loaded,
              k.netlist.groupRoot t (nodeId e.1) = some root) ∧
            ∀ fault, t.representative root = some fault → ∃ e ∈ targetEntries loaded, e.1 = fault ∧
              k.netlist.groupRoot t (nodeId fault) = some root ∧
              ∀ e' ∈ targetEntries loaded, k.netlist.groupRoot t (nodeId e'.1) = some root →
                k.netlist.compareTarget e e' ≠ .gt) := by
  have wf : k.netlist.WellFormed opt.faultModel := model ▸ k.wellFormed
  have loads : k.netlist.loadFaults { opt with equiv := some file' } s =
      k.netlist.loadFaults { opt with equiv := some file } s := rfl
  have requests : ∀ s, k.netlist.requested { opt with equiv := some file } s =
      k.netlist.requested { opt with equiv := some file' } s := fun _ => rfl
  have external : ExternalPairs k.netlist { opt with equiv := some file } pairs := reads
  have external' : ExternalPairs k.netlist { opt with equiv := some file' } pairs' := reads'
  have wfFile : k.netlist.WellFormed { opt with equiv := some file }.faultModel := wf
  unfold readFault at run ⊢
  rw [loads]
  generalize ({ opt with equiv := some file } : Opt) = first at *
  generalize ({ opt with equiv := some file' } : Opt) = second at *
  obtain ⟨⟨loadOk, loaded⟩, load, run⟩ := Option.bind_eq_some_iff.mp run
  rw [load, Option.bind_some]
  cases loadOk with
  | false =>
      cases run
      exact ⟨t, rfl, fun h => by cases h⟩
  | true =>
      obtain ⟨s₀, -, stored, prepared, -, -⟩ := loadFaults_spec wfFile empty load
      obtain ⟨root, ok, u, final, classes, isOk, done⟩ :=
        finalizeFaultEquivalence_spec prepared stored.nodesLt external
      obtain ⟨root', ok', u', final', classes', isOk', done'⟩ :=
        finalizeFaultEquivalence_spec prepared stored.nodesLt external'
      dsimp only at run ⊢
      rw [if_pos rfl, final] at run
      cases run
      have kernel : ∀ a < k.netlist.faultCount, ∀ b < k.netlist.faultCount,
          root a = root b ↔ root' a = root' b := by
        intro a ha b hb
        rw [classes a ha b hb, classes' a ha b hb]
        apply UnionFind.closure_congr
        intro x y
        simp only [List.mem_append]
        rw [or_or_or_comm, same x y]
        exact or_or_or_comm
      have sameOk : ok' = okay := by
        rw [Bool.eq_iff_iff, isOk, isOk']
        rw [requests]
        refine forall₃_congr fun id hid _ => exists_congr fun fault => and_congr_right fun mem => ?_
        exact (kernel _ (stored.nodesLt fault mem) id hid).symm
      subst sameOk
      refine ⟨u', by rw [if_pos rfl, final'], fun isTrue => ?_⟩
      have done := done isTrue
      have done' := done' isTrue
      obtain ⟨list, count, equivs, groups⟩ := done.congr done' stored (requests loaded) kernel
      have walk : ∀ id < k.netlist.faultCount, k.netlist.groupRoot t id = some (root id) :=
        fun id hid => done.roots.groupRoot hid
      have walk' : ∀ id < k.netlist.faultCount, k.netlist.groupRoot u' id = some (root' id) :=
        fun id hid => done'.roots.groupRoot hid
      have inClass : ∀ e ∈ targetEntries loaded, ∀ r,
          k.netlist.groupRoot t (nodeId e.1) = some r ↔ root (nodeId e.1) = r := by
        intro e mem r
        have low := stored.nodesLt e.1 (List.mem_of_getElem? (List.mem_zipIdx_iff_getElem?.mp mem))
        rw [walk _ low, Option.some.injEq]
      refine ⟨list, ?_, count, equivs, fun fault low => ?_, loaded, rfl, fun id hid => ?_⟩
      · unfold initTargetOrder targetEntries scanFaults
        rw [list]
      · unfold getEquivalentFaults
        rw [walk _ low, walk' _ low]
        exact congrArg some (groups _ low).2
      · obtain ⟨isSome, first⟩ := done.first (root id)
        refine ⟨root id, root' id, walk id hid, walk' id hid, (groups id hid).1, (groups id hid).2, ?_, ?_⟩
        · rw [isSome]
          exact exists_congr fun e => and_congr_right fun mem => (inClass e mem _).symm
        · intro fault chosen
          obtain ⟨e, mem, rfl, here, least⟩ := first fault chosen
          exact ⟨e, mem, rfl, (inClass e mem _).mpr here, fun e' mem' here' =>
            least e' mem' ((inClass e' mem' _).mp here')⟩

theorem sortedNets_and : andNetlist.sortedNets = [1, 2, 0] := by
  have order : ¬ andNetlist.name 0 ≤ andNetlist.name 1 ∧ andNetlist.name 1 ≤ andNetlist.name 2 ∧
      ¬ andNetlist.name 0 ≤ andNetlist.name 2 := by decide
  simp [sortedNets, show andNetlist.nNet = 3 from rfl, List.range, List.range.loop, List.mergeSort,
    List.MergeSort.Internal.splitInTwo, order]

private theorem parseFaultReference_and (text : CStr) : andNetlist.parseFaultReference text =
    match CText.splitLast '/' (CText.strip text) with
    | none => some none
    | some (name, value) =>
        if name.isEmpty || (value != ['0'] && value != ['1']) then some none
        else
          ((CText.bsearch 3 fun i => strcmp name (andNetlist.name ([1, 2, 0].getD i 0))).map
            fun found => found.map fun i => [1, 2, 0].getD i 0).map fun match_ =>
              match_.map fun net => faultId net (if value = ['0'] then .SF0 else .SF1) := by
  unfold parseFaultReference searchSorted
  rw [sortedNets_and]
  rfl

/-- A file with the one pair of the given parts. -/
private theorem readsPairs_and {line first second : CStr} {a b : Nat}
    (clean : Char.ofNat 0 ∉ line)
    (pair : ¬ ((CText.strip line).isEmpty || (CText.strip line).head? == some '#') = true)
    (comma : CText.splitFirst ',' (CText.strip line) = some (first, second)) (last : ',' ∉ second)
    (isA : andNetlist.parseFaultReference first = some (some a))
    (isB : andNetlist.parseFaultReference second = some (some b)) (s : FaultState) :
    andNetlist.readEquivalenceLines [line] s =
      ([(a, b)].foldlM andNetlist.mergePair s).map fun s => (true, s) := by
  have read : andNetlist.readEquivalenceLine s line =
      (andNetlist.mergePair s (a, b)).map fun s => (true, s) := by
    unfold readEquivalenceLine
    rw [if_neg clean, if_neg pair, comma]
    dsimp only
    rw [if_neg last, isA, isB, mergePair, Option.map_map]
    rfl
  rw [readEquivalenceLines, read, List.foldlM_cons]
  cases andNetlist.mergePair s (a, b) with
  | none => rfl
  | some t => rfl

/-- The file that joins the stuck-at-1 faults of the inputs. -/
theorem readsPair_and : ReadsPairs andNetlist "a/1,b/1\n".toList true [(3, 5)] := by
  have isA : andNetlist.parseFaultReference "a/1".toList = some (some 3) := by
    rw [parseFaultReference_and]
    decide
  have isB : andNetlist.parseFaultReference "b/1".toList = some (some 5) := by
    rw [parseFaultReference_and]
    decide
  exact ⟨by decide, readsPairs_and (by decide) (by decide) (by decide) (by decide) isA isB⟩

theorem readFault_presentation_and :
    ∃ t t', andNetlist.readFault ⟨.SAF, none, some "a/1,b/1\n".toList⟩ emptyFaultState =
        some (true, t) ∧
      andNetlist.readFault ⟨.SAF, none, some "# swapped\n b/1 , a/1\n".toList⟩ emptyFaultState =
        some (true, t') ∧
      t'.list = t.list ∧ t'.numinit = t.numinit ∧ t'.numequiv = t.numequiv := by
  have isA : andNetlist.parseFaultReference "a/1".toList = some (some 3) := by
    rw [parseFaultReference_and]
    decide
  have isB : andNetlist.parseFaultReference "b/1".toList = some (some 5) := by
    rw [parseFaultReference_and]
    decide
  have isA' : andNetlist.parseFaultReference " a/1".toList = some (some 3) := by
    rw [parseFaultReference_and]
    decide
  have isB' : andNetlist.parseFaultReference "b/1 ".toList = some (some 5) := by
    rw [parseFaultReference_and]
    decide
  have reads : ReadsPairs andNetlist "a/1,b/1\n".toList true [(3, 5)] :=
    ⟨by decide, readsPairs_and (by decide) (by decide) (by decide) (by decide) isA isB⟩
  have reads' : ReadsPairs andNetlist "# swapped\n b/1 , a/1\n".toList true [(5, 3)] :=
    ⟨by decide, readsPairs_and (by decide) (by decide) (by decide) (by decide) isB' isA'⟩
  have okay : (andNetlist.readFault ⟨.SAF, none, some "a/1,b/1\n".toList⟩ emptyFaultState).map (·.1) =
      some true := by
    simp only [readFault, finalizeFaultEquivalence, externalEquivalences, reads.2]
    decide +kernel
  obtain ⟨⟨okay, t⟩, run, isTrue⟩ := Option.map_eq_some_iff.mp okay
  dsimp only at isTrue
  subst isTrue
  obtain ⟨t', run', same⟩ := readFault_presentation andCircuit ⟨.SAF, none, none⟩ rfl
    "a/1,b/1\n".toList "# swapped\n b/1 , a/1\n".toList [(3, 5)] [(5, 3)] reads reads'
    (fun x y => by simp [or_comm, and_comm]) emptyFaultState t true rfl run
  obtain ⟨list, -, count, equivs, -⟩ := same rfl
  exact ⟨t, t', run, run', list, count, equivs⟩

end Netlist

end SafRprGen
