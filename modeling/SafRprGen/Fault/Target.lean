/-
Module: SafRprGen.Fault.Target
Layer: Fault
Purpose: The choice of targets (`FinalizeFaultEquivalence`, `InitTargetOrder`): every class keeps the fault
  that comes first by level and scan position, and gets the list of its requested members. The choice
  depends on the classes only, not on the roots that the merges leave.
Main exports: finalizeFaultEquivalence, readFault, initTargetOrder, Finalized, finalizeFaultEquivalence_spec,
  Counted
-/
import SafRprGen.Fault.External
import SafRprGen.Fault.FaultList
import SafRprGen.Lib.FirstMin
import SafRprGen.Netlist.Level

namespace SafRprGen

namespace Netlist

variable (c : Netlist)

/-- The entry of a node. -/
def nodeId (fault : FNODE) : Nat := faultId fault.netptr fault.type

/-- The body of the scan of `ChooseRepresentatives`; the count is `representative_count`. -/
def chooseRepresentative (s : FaultState × Nat) (fault : FNODE) : Option (FaultState × Nat) :=
  (c.findRoot s.1 (nodeId fault)).map fun (root, t) =>
    let previous := t.representative root
    let count := if previous.isNone then s.2 + 1 else s.2
    if previous.all fun previous => decide (c.level fault.netptr < c.level previous.netptr) then
      ({ t with representative := Function.update t.representative root (some fault) }, count)
    else (t, count)

/-- `ChooseRepresentatives`. -/
def chooseRepresentatives (s : FaultState) : Option (FaultState × Nat) :=
  (List.range maxsizeHash).foldlM
    (fun t bucket => (s.list bucket).foldlM c.chooseRepresentative t)
    ({ s with representative := fun _ => none }, 0)

/-- The walk of `RemoveNonrepresentatives` over one bucket: the nodes it leaves linked. -/
def keepRepresentatives : List FNODE → FaultState → Option (List FNODE × FaultState)
  | [], s => some ([], s)
  | fault :: rest, s =>
      (c.findRoot s (nodeId fault)).bind fun (root, s) =>
        (keepRepresentatives rest s).map fun (kept, s) =>
          (if s.representative root = some fault then fault :: kept else kept, s)

/-- `RemoveNonrepresentatives`. -/
def removeNonrepresentatives (s : FaultState) : Option FaultState :=
  ((List.range maxsizeHash).foldlM
    (fun t bucket => (c.keepRepresentatives (t.list bucket) t).map fun (kept, t) =>
      { t with list := Function.update t.list bucket kept })
    s).map fun s => { s with
      numinit := s.stats.targetsAfterExternal
      numequiv := (s.stats.outputFaults : Int) - s.stats.targetsAfterExternal }

/-- The marking of the faults to report: those of the fault file, or all faults, for transition faults of
the nets with a first-frame copy. -/
def requestOutputs (opt : Opt) (s : FaultState) : FaultState :=
  match opt.fault with
  | some _ => (List.range maxsizeHash).foldl
      (fun t bucket => (s.list bucket).foldl
        (fun t fault => { t with
          outputRequested := Function.update t.outputRequested (nodeId fault) true }) t) s
  | none => { s with outputRequested := fun id =>
      opt.faultModel = .SAF || (c.peer1t (memberNet id)).isSome }

/-- A requested fault is put in front of the members of its class; false when the class has no
representative. -/
def addMember (s : FaultState) (id : Nat) : Option (Bool × FaultState) :=
  if !s.outputRequested id then some (true, s)
  else
    (c.findRoot s id).map fun (group, s) =>
      if (s.representative group).isNone then (false, s)
      else
        (true, { s with
          members := Function.update s.members group (id :: s.members group)
          stats.outputFaults := s.stats.outputFaults + 1 })

/-- The external pairs, when a file of them is given. -/
def externalEquivalences (opt : Opt) (s : FaultState) : Option (Bool × FaultState) :=
  match opt.equiv with
  | some file => c.readExternalEquivalences s file
  | none => some (true, s)

/-- `FinalizeFaultEquivalence`; the Boolean is its return value. -/
def finalizeFaultEquivalence (opt : Opt) (s : FaultState) : Option (Bool × FaultState) :=
  (c.chooseRepresentatives (c.requestOutputs opt s)).bind fun (s, before) =>
    let s := { s with stats.targetsBeforeExternal := before }
    (c.externalEquivalences opt s).bind fun (success, s) =>
      if success then
        (c.chooseRepresentatives s).bind fun (s, after) =>
          let s := { s with stats.targetsAfterExternal := after }
          -- from the last id down, so that the member lists go up
          (Loop.untilError c.addMember (List.range c.faultCount).reverse s).bind fun (found, s) =>
            if found then (c.removeNonrepresentatives s).map fun s => (true, s)
            else some (false, s)
      else some (false, s)

/-- `ReadFault`; the Boolean is true for `READ_OKAY`. -/
def readFault (opt : Opt) (s : FaultState) : Option (Bool × FaultState) :=
  (c.loadFaults opt s).bind fun (okay, s) =>
    if okay then c.finalizeFaultEquivalence opt s else some (false, s)

/-- `GetEquivalentFaults`. -/
def getEquivalentFaults (s : FaultState) (representative : FNODE) : Option (List Nat) :=
  (c.groupRoot s (nodeId representative)).map s.members

/-- `CompareTarget` on entries, each a fault with its rank. -/
def compareTarget (a b : FNODE × Nat) : Ordering :=
  (compare (c.level a.1.netptr) (c.level b.1.netptr)).then (compare a.2 b.2)

/-- The entries of `InitTargetOrder`, in scan order. -/
def targetEntries (s : FaultState) : List (FNODE × Nat) := (scanFaults s).zipIdx

/-- `InitTargetOrder` and `CopyTargetOrder`. -/
def initTargetOrder (s : FaultState) : List FNODE :=
  ((targetEntries s).mergeSort fun a b => c.compareTarget a b != .gt).map (·.1)

variable {c}

/-! ### Finding roots -/

/-- The walk from every entry ends at its `root`. -/
structure Roots (c : Netlist) (root : Nat → Nat) (s : FaultState) : Prop where
  valid : UnionFind.Valid c.faultCount s.forest
  root : ∀ id < c.faultCount, UnionFind.RootOf s.forest.parent id (root id)

theorem Roots.of_represents {pairs : List (Nat × Nat)} {s : FaultState}
    (rep : UnionFind.Represents c.faultCount pairs s.forest) :
    ∃ root, Roots c root s ∧ ∀ a < c.faultCount, ∀ b < c.faultCount,
      root a = root b ↔ UnionFind.Closure pairs a b := by
  have roots : ∀ id, ∃ r, id < c.faultCount → UnionFind.RootOf s.forest.parent id r := by
    intro id
    by_cases low : id < c.faultCount
    · obtain ⟨r, -, isRoot⟩ := rep.valid.acyclic.exists_root id low
      exact ⟨r, fun _ => isRoot⟩
    · exact ⟨0, fun h => absurd h low⟩
  choose root isRoot using roots
  refine ⟨root, ⟨rep.valid, isRoot⟩, fun a ha b hb => ?_⟩
  rw [← rep.classes a ha b hb]
  constructor
  · intro same
    exact ⟨root a, isRoot a ha, same ▸ isRoot b hb⟩
  · rintro ⟨r, rootA, rootB⟩
    rw [(isRoot a ha).unique rootA, (isRoot b hb).unique rootB]

theorem Roots.represents {root : Nat → Nat} {s : FaultState} {pairs : List (Nat × Nat)}
    (roots : Roots c root s) (iff : ∀ a < c.faultCount, ∀ b < c.faultCount,
      root a = root b ↔ UnionFind.Closure pairs a b) :
    UnionFind.Represents c.faultCount pairs s.forest where
  valid := roots.valid
  classes := by
    intro a ha b hb
    rw [← iff a ha b hb]
    constructor
    · rintro ⟨r, rootA, rootB⟩
      rw [(roots.root a ha).unique rootA, (roots.root b hb).unique rootB]
    · intro same
      exact ⟨root a, roots.root a ha, same ▸ roots.root b hb⟩

theorem Roots.of_forest {root : Nat → Nat} {s t : FaultState} (roots : Roots c root s)
    (forest : t.forest = s.forest) : Roots c root t :=
  ⟨forest ▸ roots.valid, forest ▸ roots.root⟩

theorem Roots.find {root : Nat → Nat} {s : FaultState} (roots : Roots c root s) {id : Nat}
    (low : id < c.faultCount) :
    ∃ forest, c.findRoot s id = some (root id, { s with forest }) ∧
      Roots c root { s with forest } := by
  obtain ⟨r, forest, run, -, isRoot, valid, -, same⟩ := UnionFind.find_spec roots.valid low
  refine ⟨forest, ?_, valid, fun x hx => (same x hx _).mpr (roots.root x hx)⟩
  rw [findRoot, run, isRoot.unique (roots.root id low)]
  rfl

theorem Roots.groupRoot {root : Nat → Nat} {s : FaultState} (roots : Roots c root s) {id : Nat}
    (low : id < c.faultCount) : c.groupRoot s id = some (root id) := by
  obtain ⟨r, walked, isRoot⟩ := UnionFind.walk_spec roots.valid.acyclic low
  rw [Netlist.groupRoot, walked, isRoot.unique (roots.root id low)]

/-! ### Representatives -/

/-- The node that a class keeps. -/
def classTarget (c : Netlist) (root : Nat → Nat) (nodes : List FNODE) (r : Nat) : Option FNODE :=
  FirstMin.firstMin (fun fault => c.level fault.netptr)
    (nodes.filter fun fault => decide (root (nodeId fault) = r))

/-- The classes with a node. -/
def targetClasses (root : Nat → Nat) (nodes : List FNODE) : Finset Nat :=
  (nodes.map fun fault => root (nodeId fault)).toFinset

/-- The nodes of the table have entries. -/
def NodesLt (c : Netlist) (s : FaultState) : Prop :=
  ∀ fault ∈ scanFaults s, nodeId fault < c.faultCount

theorem Stored.nodesLt {m : FaultModel} {s : FaultState} (stored : Stored c m s) : NodesLt c s :=
  fun _ mem => faultId_lt (createFaultNode_spec (stored.parsed_scan mem)).1 _

private theorem keep_eq (rank : FNODE → Nat) (previous : Option FNODE) (fault : FNODE) :
    FirstMin.keep rank previous fault =
      if previous.all (fun previous => decide (rank fault < rank previous)) = true then some fault
      else previous := by
  cases previous with
  | none => rfl
  | some best =>
      by_cases less : rank fault < rank best <;> simp [FirstMin.keep, less]

private theorem chooseRepresentative_eq {root : Nat → Nat} {s : FaultState} {fault : FNODE}
    (count : Nat) (roots : Roots c root s) (low : nodeId fault < c.faultCount) :
    ∃ forest, c.chooseRepresentative (s, count) fault = some
        (let next := FirstMin.countStep (fun fault => c.level fault.netptr)
          (fun fault => root (nodeId fault)) (s.representative, count) fault
        ({ s with forest, representative := next.1 }, next.2)) ∧
      Roots c root { s with forest } := by
  obtain ⟨forest, run, roots'⟩ := roots.find low
  refine ⟨forest, ?_, roots'⟩
  unfold chooseRepresentative
  rw [run, Option.map_some]
  unfold FirstMin.countStep FirstMin.scanStep
  rw [keep_eq]
  dsimp only
  split
  · rfl
  · rw [Function.update_eq_self]

/-- Every class gets its target, and the classes with a node are counted. -/
theorem chooseRepresentatives_spec {root : Nat → Nat} {s : FaultState} (roots : Roots c root s)
    (low : NodesLt c s) :
    ∃ forest, c.chooseRepresentatives s = some
        ({ s with forest, representative := c.classTarget root (scanFaults s) },
          (targetClasses root (scanFaults s)).card) ∧
      Roots c root { s with forest } := by
  unfold chooseRepresentatives
  rw [Loop.foldlM_flatMap]
  obtain ⟨⟨t, count⟩, run, ⟨frame, counted, roots'⟩⟩ := Loop.foldlM_inv c.chooseRepresentative
    (fun seen t => t.1 = { s with forest := t.1.forest, representative := t.1.representative } ∧
      (t.1.representative, t.2) = seen.foldl
        (FirstMin.countStep (fun fault => c.level fault.netptr) fun fault => root (nodeId fault))
        (fun _ => none, 0) ∧ Roots c root t.1)
    (scanFaults s) (s := ({ s with representative := fun _ => none }, 0))
    ⟨rfl, rfl, roots.of_forest rfl⟩
    (by
      rintro seen fault rest ⟨t, count⟩ split ⟨frame, counted, roots⟩
      obtain ⟨forest, run, roots'⟩ := chooseRepresentative_eq count roots
        (low fault (by rw [split]; simp))
      refine ⟨_, run, ?_, ?_, roots'.of_forest rfl⟩
      · dsimp only at frame ⊢
        rw [frame]
      · rw [List.foldl_append, ← counted]
        rfl)
  rw [FirstMin.count_eq, Prod.mk.injEq] at counted
  obtain ⟨representative, rfl⟩ := counted
  refine ⟨t.forest, ?_, roots'.of_forest rfl⟩
  have kept : t.representative = c.classTarget root (scanFaults s) := by
    funext r
    dsimp only at representative
    rw [representative, FirstMin.scan_eq]
    rfl
  dsimp only at frame
  rw [← kept, ← frame]
  exact run

/-! ### Requested faults -/

/-- The fault is to be reported. -/
def requested (c : Netlist) (opt : Opt) (s : FaultState) (id : Nat) : Bool :=
  match opt.fault with
  | some _ => (scanFaults s).any fun fault => nodeId fault = id
  | none => opt.faultModel = .SAF || (c.peer1t (memberNet id)).isSome

theorem requestOutputs_eq {opt : Opt} {s : FaultState} (fresh : s.outputRequested = fun _ => false) :
    c.requestOutputs opt s = { s with outputRequested := c.requested opt s } := by
  unfold requestOutputs requested
  cases opt.fault with
  | none => rfl
  | some file =>
      dsimp only
      rw [← List.foldl_flatMap]
      change (scanFaults s).foldl _ s = _
      induction scanFaults s using List.reverseRecOn with
      | nil => simp [← fresh]
      | append_singleton nodes fault ih =>
          rw [List.foldl_append, List.foldl_cons, List.foldl_nil, ih]
          congr 1
          funext id
          by_cases here : id = nodeId fault
          · subst here
            simp
          · simp [here, Ne.symm here]

/-! ### External pairs -/

/-- One pair of the file. -/
def mergePair (c : Netlist) (s : FaultState) (p : Nat × Nat) : Option FaultState :=
  (c.mergeFaults s p.1 p.2).map fun s => { s with stats.inputPairs := s.stats.inputPairs + 1 }

/-- Reading the file merges these pairs of faults, in this order, and then ends with or without an
error. -/
def ReadsPairs (c : Netlist) (file : CStr) (success : Bool) (pairs : List (Nat × Nat)) : Prop :=
  (∀ p ∈ pairs, p.1 < c.faultCount ∧ p.2 < c.faultCount) ∧
    ∀ s, c.readExternalEquivalences s file =
      (pairs.foldlM c.mergePair s).map fun s => (success, s)

theorem parseFaultReference_total (text : CStr) :
    ∃ r, c.parseFaultReference text = some r ∧ ∀ id ∈ r, id < c.faultCount := by
  unfold parseFaultReference
  split
  · exact ⟨none, rfl, by simp⟩
  · split
    · exact ⟨none, rfl, by simp⟩
    · rename_i name value _ _
      obtain ⟨r, run, hit, -⟩ := c.searchSorted_spec name
      refine ⟨_, by rw [run]; rfl, fun id hid => ?_⟩
      obtain ⟨net, found, rfl⟩ := Option.map_eq_some_iff.mp hid
      exact faultId_lt (hit net found).1 _

/-- A line is an error, is skipped or merges a pair, whatever was merged before. -/
theorem readEquivalenceLine_cases (line : CStr) :
    (∀ s, c.readEquivalenceLine s line = some (false, s)) ∨
      (∀ s, c.readEquivalenceLine s line = some (true, s)) ∨
      ∃ p, (p.1 < c.faultCount ∧ p.2 < c.faultCount) ∧
        ∀ s, c.readEquivalenceLine s line = (c.mergePair s p).map fun s => (true, s) := by
  unfold readEquivalenceLine
  by_cases nul : Char.ofNat 0 ∈ line
  · exact .inl fun s => by rw [if_pos nul]
  by_cases blank : ((CText.strip line).isEmpty || (CText.strip line).head? == some '#') = true
  · exact .inr (.inl fun s => by simp only [if_neg nul, if_pos blank])
  simp only [if_neg nul, if_neg blank]
  cases comma : CText.splitFirst ',' (CText.strip line) with
  | none => exact .inl fun s => rfl
  | some parts =>
      obtain ⟨first, second⟩ := parts
      dsimp only
      by_cases more : ',' ∈ second
      · exact .inl fun s => by rw [if_pos more]
      simp only [if_neg more]
      obtain ⟨a, runA, lowA⟩ := @parseFaultReference_total c first
      obtain ⟨b, runB, lowB⟩ := @parseFaultReference_total c second
      rw [runA, runB]
      cases a with
      | none => exact .inl fun s => rfl
      | some a =>
          cases b with
          | none => exact .inl fun s => rfl
          | some b =>
              refine .inr (.inr ⟨(a, b), ⟨lowA a rfl, lowB b rfl⟩, fun s => ?_⟩)
              rw [mergePair, Option.map_map]
              rfl

/-- Every file merges some pairs. -/
theorem exists_readsPairs (file : CStr) : ∃ success pairs, ReadsPairs c file success pairs := by
  unfold ReadsPairs readExternalEquivalences
  induction CText.getlines file with
  | nil => exact ⟨true, [], by simp, fun s => rfl⟩
  | cons line lines ih =>
      obtain ⟨success, pairs, low, run⟩ := ih
      rcases @readEquivalenceLine_cases c line with bad | skip | ⟨p, lowP, pair⟩
      · exact ⟨false, [], by simp, fun s => by rw [readEquivalenceLines, bad]; rfl⟩
      · exact ⟨success, pairs, low, fun s => by rw [readEquivalenceLines, skip]; exact run s⟩
      · refine ⟨success, p :: pairs, List.forall_mem_cons.mpr ⟨lowP, low⟩, fun s => ?_⟩
        rw [readEquivalenceLines, pair, List.foldlM_cons]
        cases c.mergePair s p with
        | none => rfl
        | some t => exact run t

theorem mergePairs_spec {merged : List (Nat × Nat)} {s : FaultState}
    (rep : UnionFind.Represents c.faultCount merged s.forest) {pairs : List (Nat × Nat)}
    (low : ∀ p ∈ pairs, p.1 < c.faultCount ∧ p.2 < c.faultCount) :
    ∃ t, pairs.foldlM c.mergePair s = some t ∧
      t = { s with forest := t.forest, stats.inputPairs := t.stats.inputPairs } ∧
      UnionFind.Represents c.faultCount (merged ++ pairs) t.forest := by
  apply Loop.foldlM_inv c.mergePair
    (fun seen t => t = { s with forest := t.forest, stats.inputPairs := t.stats.inputPairs } ∧
      UnionFind.Represents c.faultCount (merged ++ seen) t.forest)
  · exact ⟨rfl, by simpa using rep⟩
  · rintro seen p rest t split ⟨frame, rep⟩
    have inRange := low p (by rw [split]; simp)
    obtain ⟨forest, run, rep'⟩ := mergeFaults_spec rep inRange.1 inRange.2
    refine ⟨_, by rw [mergePair, run]; rfl, ?_, by simpa using rep'⟩
    dsimp only
    rw [frame]

/-! ### Members -/

/-- The requested members of a class, in the order of their ids. -/
def classMembers (c : Netlist) (opt : Opt) (s : FaultState) (root : Nat → Nat) (r : Nat) : List Nat :=
  (List.range c.faultCount).filter fun id => c.requested opt s id && decide (root id = r)

/-- Every requested fault becomes a member of its class, unless a class has no representative. -/
theorem addMembers_spec {root : Nat → Nat} {s : FaultState} (roots : Roots c root s)
    (fresh : s.members = fun _ => []) :
    ∃ found t, Loop.untilError c.addMember (List.range c.faultCount).reverse s = some (found, t) ∧
      (found = true ↔ ∀ id < c.faultCount, s.outputRequested id = true →
        (s.representative (root id)).isSome = true) ∧
      (found = true → Roots c root t ∧ t = { s with
        forest := t.forest
        members := fun r => (List.range c.faultCount).filter fun id =>
          s.outputRequested id && decide (root id = r)
        stats.outputFaults := s.stats.outputFaults +
          ((List.range c.faultCount).filter s.outputRequested).length }) := by
  obtain ⟨found, t, run, iff, done⟩ := @Loop.untilError_total _ _ c.addMember
    (fun id => s.outputRequested id = true → (s.representative (root id)).isSome = true)
    (fun seen t => Roots c root t ∧ t = { s with
      forest := t.forest
      members := fun r => seen.reverse.filter fun id => s.outputRequested id && decide (root id = r)
      stats.outputFaults := s.stats.outputFaults + (seen.filter s.outputRequested).length })
    (List.range c.faultCount).reverse
    (by
      rintro seen id rest t split ⟨roots, frame⟩
      have low : id < c.faultCount := by
        have mem : id ∈ (List.range c.faultCount).reverse := by rw [split]; simp
        simpa using mem
      have request : t.outputRequested = s.outputRequested := by rw [frame]
      have chosen : t.representative = s.representative := by rw [frame]
      unfold addMember
      rw [request]
      by_cases wanted : s.outputRequested id = true
      · obtain ⟨forest, found, roots'⟩ := roots.find low
        rw [if_neg (by simp [wanted]), found, Option.map_some]
        dsimp only
        rw [chosen]
        by_cases none : (s.representative (root id)).isNone = true
        · rw [if_pos none]
          refine ⟨false, _, rfl, ⟨fun h => (by cases h), fun h => ?_⟩, fun h => by cases h⟩
          have := h wanted
          rw [Option.isNone_iff_eq_none.mp none] at this
          cases this
        · rw [if_neg none]
          refine ⟨true, _, rfl, ⟨fun _ _ => ?_, fun _ => rfl⟩, fun _ => ⟨roots'.of_forest rfl, ?_⟩⟩
          · simpa [Option.isSome_iff_ne_none] using none
          · rw [frame]
            congr 1
            · funext r
              by_cases here : r = root id
              · subst here
                simp [wanted]
              · simp [here, Ne.symm here]
            · simp [wanted, Nat.add_assoc]
      · rw [if_pos (by simp [wanted])]
        refine ⟨true, t, rfl, ⟨fun _ h => absurd h wanted, fun _ => rfl⟩, fun _ => ⟨roots, ?_⟩⟩
        rw [frame]
        simp [wanted])
    s ⟨roots, by simp [← fresh]⟩
  refine ⟨found, t, run, by simp [iff], fun h => ?_⟩
  simpa [List.filter_reverse] using done h

/-! ### Removal -/

theorem keepRepresentatives_spec {root : Nat → Nat} (nodes : List FNODE) :
    ∀ {s : FaultState}, Roots c root s → (∀ fault ∈ nodes, nodeId fault < c.faultCount) →
      ∃ forest, c.keepRepresentatives nodes s = some
          (nodes.filter fun fault => decide (s.representative (root (nodeId fault)) = some fault),
            { s with forest }) ∧ Roots c root { s with forest } := by
  induction nodes with
  | nil => intro s roots _; exact ⟨s.forest, rfl, roots⟩
  | cons fault rest ih =>
      intro s roots low
      obtain ⟨forest, found, roots'⟩ := roots.find (low fault List.mem_cons_self)
      obtain ⟨forest', run, roots''⟩ := ih roots' fun f hf => low f (List.mem_cons_of_mem _ hf)
      refine ⟨forest', ?_, roots''⟩
      rw [keepRepresentatives, found, Option.bind_some]
      dsimp only
      rw [run, List.filter_cons]
      by_cases chosen : s.representative (root (nodeId fault)) = some fault <;> simp [chosen]

theorem removeNonrepresentatives_spec {root : Nat → Nat} {s : FaultState} (roots : Roots c root s)
    (low : NodesLt c s) :
    ∃ t, c.removeNonrepresentatives s = some t ∧ Roots c root t ∧ t = { s with
      forest := t.forest
      list := fun hash => if hash < maxsizeHash then (s.list hash).filter fun fault =>
        decide (s.representative (root (nodeId fault)) = some fault) else s.list hash
      numinit := s.stats.targetsAfterExternal
      numequiv := (s.stats.outputFaults : Int) - s.stats.targetsAfterExternal } := by
  obtain ⟨u, run, roots', frame⟩ := Loop.foldlM_inv
    (fun (t : FaultState) bucket => (c.keepRepresentatives (t.list bucket) t).map fun (kept, t) =>
      { t with list := Function.update t.list bucket kept })
    (fun seen t => Roots c root t ∧ t = { s with
      forest := t.forest
      list := fun hash => if hash ∈ seen then (s.list hash).filter fun fault =>
        decide (s.representative (root (nodeId fault)) = some fault) else s.list hash })
    (List.range maxsizeHash) (s := s) ⟨roots, by simp⟩
    (by
      rintro seen bucket rest t split ⟨roots, frame⟩
      have fresh : bucket ∉ seen := by
        have nodup := List.nodup_range (n := maxsizeHash)
        rw [split] at nodup
        intro mem
        exact (List.nodup_append.mp nodup).2.2 bucket mem bucket List.mem_cons_self rfl
      have here : t.list bucket = s.list bucket := by
        rw [frame]
        exact if_neg fresh
      have chosen : t.representative = s.representative := by rw [frame]
      have inTable : bucket ∈ List.range maxsizeHash := by rw [split]; simp
      obtain ⟨forest, run, roots'⟩ := keepRepresentatives_spec (t.list bucket) roots fun fault mem =>
        low fault (List.mem_flatMap.mpr ⟨bucket, inTable, here ▸ mem⟩)
      refine ⟨{ t with
        forest
        list := Function.update t.list bucket ((t.list bucket).filter fun fault =>
          decide (t.representative (root (nodeId fault)) = some fault)) },
        by rw [run]; rfl, roots'.of_forest rfl, ?_⟩
      rw [here, chosen, frame]
      congr 1
      funext hash
      by_cases same : hash = bucket
      · subst same
        simp
      · simp [same])
  refine ⟨{ u with
    numinit := u.stats.targetsAfterExternal
    numequiv := (u.stats.outputFaults : Int) - u.stats.targetsAfterExternal },
    by rw [removeNonrepresentatives, run]; rfl, roots'.of_forest rfl, ?_⟩
  rw [frame]
  simp

/-! ### The result -/

/-- The pairs of the external file, if there is one. -/
def ExternalPairs (c : Netlist) (opt : Opt) (pairs : List (Nat × Nat)) : Prop :=
  match opt.equiv with
  | none => pairs = []
  | some file => ReadsPairs c file true pairs

/-- What `FinalizeFaultEquivalence` leaves for a table `s` of faults and the classes of `root`. -/
structure Finalized (c : Netlist) (opt : Opt) (s : FaultState) (root : Nat → Nat) (t : FaultState) :
    Prop where
  roots : Roots c root t
  representative : t.representative = c.classTarget root (scanFaults s)
  members : t.members = c.classMembers opt s root
  list : t.list = fun hash => if hash < maxsizeHash then (s.list hash).filter fun fault =>
    decide (c.classTarget root (scanFaults s) (root (nodeId fault)) = some fault) else s.list hash
  numinit : t.numinit = (targetClasses root (scanFaults s)).card
  outputFaults : t.stats.outputFaults = ((List.range c.faultCount).filter (c.requested opt s)).length
  numequiv : t.numequiv = (t.stats.outputFaults : Int) - t.numinit

/-- The state `InitFaultEquivalence` prepares for the faults. -/
structure Prepared (c : Netlist) (merged : List (Nat × Nat)) (s : FaultState) : Prop where
  classes : UnionFind.Represents c.faultCount merged s.forest
  requested : s.outputRequested = fun _ => false
  members : s.members = fun _ => []
  outputFaults : s.stats.outputFaults = 0

theorem classTarget_isSome {root : Nat → Nat} {nodes : List FNODE} {r : Nat} :
    (c.classTarget root nodes r).isSome = true ↔ ∃ fault ∈ nodes, root (nodeId fault) = r := by
  unfold classTarget
  rw [Option.isSome_iff_ne_none, ne_eq, FirstMin.firstMin_eq_none, List.filter_eq_nil_iff]
  simp

theorem externalEquivalences_spec {opt : Opt} {merged pairs : List (Nat × Nat)} {s : FaultState}
    (external : ExternalPairs c opt pairs)
    (rep : UnionFind.Represents c.faultCount merged s.forest) :
    ∃ t, c.externalEquivalences opt s = some (true, t) ∧
      t = { s with forest := t.forest, stats.inputPairs := t.stats.inputPairs } ∧
      UnionFind.Represents c.faultCount (merged ++ pairs) t.forest := by
  unfold ExternalPairs at external
  unfold externalEquivalences
  cases equiv : opt.equiv with
  | none =>
      rw [equiv] at external
      subst external
      exact ⟨s, rfl, rfl, by simpa using rep⟩
  | some file =>
      rw [equiv] at external
      obtain ⟨inRange, reads⟩ := external
      obtain ⟨t, run, frame, rep'⟩ := mergePairs_spec rep inRange
      exact ⟨t, by dsimp only; rw [reads, run]; rfl, frame, rep'⟩

/-- The entries of the nodes of the table. -/
def nodeIds (s : FaultState) : Finset Nat := ((scanFaults s).map nodeId).toFinset

/-- What the statistics count: the pairs of the external file, and the classes with a node before and after
them. -/
structure Counted (merged pairs : List (Nat × Nat)) (s t : FaultState) : Prop where
  inputPairs : t.stats.inputPairs = s.stats.inputPairs + pairs.length
  before : t.stats.targetsBeforeExternal = UnionFind.classCount merged (nodeIds s)
  after : t.stats.targetsAfterExternal = UnionFind.classCount (merged ++ pairs) (nodeIds s)

/-- Every pair of the file is counted. -/
theorem mergePairs_inputPairs (pairs : List (Nat × Nat)) : ∀ {s t : FaultState},
    pairs.foldlM c.mergePair s = some t → t.stats.inputPairs = s.stats.inputPairs + pairs.length := by
  induction pairs with
  | nil =>
      intro s t run
      cases run
      rfl
  | cons p pairs ih =>
      intro s t run
      rw [List.foldlM_cons] at run
      obtain ⟨u, first, rest⟩ := Option.bind_eq_some_iff.mp run
      obtain ⟨v, joined, rfl⟩ := Option.map_eq_some_iff.mp first
      obtain ⟨forest, -, rfl⟩ := Option.map_eq_some_iff.mp joined
      rw [ih rest, List.length_cons]
      dsimp only
      omega

theorem externalEquivalences_inputPairs {opt : Opt} {pairs : List (Nat × Nat)} {s t : FaultState}
    (external : ExternalPairs c opt pairs) (run : c.externalEquivalences opt s = some (true, t)) :
    t.stats.inputPairs = s.stats.inputPairs + pairs.length := by
  unfold ExternalPairs at external
  unfold externalEquivalences at run
  cases equiv : opt.equiv with
  | none =>
      rw [equiv] at external run
      cases run
      rw [external]
      rfl
  | some file =>
      rw [equiv] at external run
      dsimp only at run
      rw [external.2] at run
      obtain ⟨u, merged, same⟩ := Option.map_eq_some_iff.mp run
      cases same
      exact mergePairs_inputPairs pairs merged

/-- The classes with a node, by the pairs that were merged. -/
theorem card_targetClasses {root : Nat → Nat} {pairs : List (Nat × Nat)} {s : FaultState} (low : NodesLt c s)
    (iff : ∀ a < c.faultCount, ∀ b < c.faultCount, root a = root b ↔ UnionFind.Closure pairs a b) :
    (targetClasses root (scanFaults s)).card = UnionFind.classCount pairs (nodeIds s) := by
  have lt : ∀ id ∈ nodeIds s, id < c.faultCount := by
    intro id mem
    obtain ⟨fault, isNode, rfl⟩ := List.mem_map.mp (List.mem_toFinset.mp mem)
    exact low fault isNode
  have image : targetClasses root (scanFaults s) = (nodeIds s).image root := by
    ext r
    simp [targetClasses, nodeIds]
  rw [UnionFind.classCount_eq fun a ha b hb => iff a (lt a ha) b (lt b hb), image]

/-- The classes are those of all merged pairs. The call succeeds when every class with a requested fault has
a node. -/
theorem finalizeFaultEquivalence_run {opt : Opt} {merged pairs : List (Nat × Nat)} {s : FaultState}
    (prepared : Prepared c merged s) (low : NodesLt c s) (external : ExternalPairs c opt pairs) :
    ∃ root okay t, c.finalizeFaultEquivalence opt s = some (okay, t) ∧
      (∀ a < c.faultCount, ∀ b < c.faultCount,
        root a = root b ↔ UnionFind.Closure (merged ++ pairs) a b) ∧
      (okay = true ↔ ∀ id < c.faultCount, c.requested opt s id = true →
        ∃ fault ∈ scanFaults s, root (nodeId fault) = root id) ∧
      (okay = true → Finalized c opt s root t ∧ Counted merged pairs s t) := by
  unfold finalizeFaultEquivalence
  rw [requestOutputs_eq prepared.requested]
  -- the first choice only counts: its representatives are overwritten
  obtain ⟨root₀, roots₀, iff₀⟩ := Roots.of_represents prepared.classes
  obtain ⟨forest₀, first, roots₀'⟩ := @chooseRepresentatives_spec c root₀
    { s with outputRequested := c.requested opt s } (roots₀.of_forest rfl) low
  rw [first, Option.bind_some]
  dsimp only
  have rep₀ := roots₀'.represents iff₀
  obtain ⟨u, read, frame, rep⟩ := externalEquivalences_spec external (s := { s with
    outputRequested := c.requested opt s
    forest := forest₀
    representative := c.classTarget root₀ (scanFaults s)
    stats.targetsBeforeExternal := (targetClasses root₀ (scanFaults s)).card })
    (roots₀'.represents iff₀)
  erw [read]
  rw [Option.bind_some]
  dsimp only
  rw [if_pos rfl]
  obtain ⟨root, roots, iff⟩ := Roots.of_represents rep
  have lowU : NodesLt c u := by
    rw [frame]
    exact low
  have scan : scanFaults u = scanFaults s := by
    rw [frame]
    rfl
  obtain ⟨forest₁, second, roots₁⟩ := chooseRepresentatives_spec roots lowU
  rw [second, Option.bind_some]
  dsimp only
  obtain ⟨found, v, added, isFound, done⟩ := @addMembers_spec c root { u with
    forest := forest₁
    representative := c.classTarget root (scanFaults u)
    stats.targetsAfterExternal := (targetClasses root (scanFaults u)).card }
    (roots₁.of_forest rfl) (by rw [frame]; exact prepared.members)
  rw [added, Option.bind_some]
  have isOkay : found = true ↔ ∀ id < c.faultCount, c.requested opt s id = true →
      ∃ fault ∈ scanFaults s, root (nodeId fault) = root id := by
    rw [isFound]
    dsimp only
    rw [scan, frame]
    simp only [classTarget_isSome]
  cases found with
  | false => exact ⟨root, false, v, rfl, iff, isOkay, fun h => by cases h⟩
  | true =>
      obtain ⟨roots₂, frameV⟩ := done rfl
      have lowV : NodesLt c v := by
        rw [frameV]
        exact lowU
      obtain ⟨t, removed, roots₃, frameT⟩ := removeNonrepresentatives_spec roots₂ lowV
      dsimp only
      rw [if_pos rfl, removed]
      refine ⟨root, true, t, rfl, iff, isOkay, fun _ => ⟨⟨roots₃, ?_, ?_, ?_, ?_, ?_, ?_⟩, ?_, ?_, ?_⟩⟩
      · rw [frameT, frameV, scan]
      · rw [frameT, frameV, frame]
        rfl
      · rw [frameT, frameV]
        dsimp only
        rw [scan, frame]
      · rw [frameT, frameV, scan]
      · rw [frameT, frameV]
        rw [frame]
        dsimp only
        rw [prepared.outputFaults, Nat.zero_add]
      · rw [frameT]
      · have read := externalEquivalences_inputPairs external read
        rw [frameT, frameV]
        exact read
      · rw [frameT, frameV]
        dsimp only
        rw [frame]
        exact card_targetClasses low iff₀
      · rw [frameT, frameV]
        dsimp only
        rw [scan]
        exact card_targetClasses low iff

/-- What the result is, without the statistics. -/
theorem finalizeFaultEquivalence_spec {opt : Opt} {merged pairs : List (Nat × Nat)} {s : FaultState}
    (prepared : Prepared c merged s) (low : NodesLt c s) (external : ExternalPairs c opt pairs) :
    ∃ root okay t, c.finalizeFaultEquivalence opt s = some (okay, t) ∧
      (∀ a < c.faultCount, ∀ b < c.faultCount,
        root a = root b ↔ UnionFind.Closure (merged ++ pairs) a b) ∧
      (okay = true ↔ ∀ id < c.faultCount, c.requested opt s id = true →
        ∃ fault ∈ scanFaults s, root (nodeId fault) = root id) ∧
      (okay = true → Finalized c opt s root t) := by
  obtain ⟨root, okay, t, run, classes, isOkay, done⟩ := finalizeFaultEquivalence_run prepared low external
  exact ⟨root, okay, t, run, classes, isOkay, fun success => (done success).1⟩

end Netlist

end SafRprGen
