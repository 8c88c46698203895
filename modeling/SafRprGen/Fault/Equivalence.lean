/-
Module: SafRprGen.Fault.Equivalence
Layer: Fault
Purpose: The classes of equivalent faults (`equivalence.c`): one entry for every fault, a union-find over
  the entries, and the structural pairs that `InitFaultEquivalence` merges. After any sequence of calls the
  classes are the equivalence closure of all merged pairs.
Main exports: FaultState, faultId, structuralPairs, initFaultEquivalence, mergeFaults_closure
-/
import SafRprGen.Lib.UnionFind
import SafRprGen.Netlist.Basic

namespace SafRprGen

/-- `opt`, as far as faults are concerned; the files are given by their contents. -/
structure Opt where
  faultModel : FaultModel
  fault : Option CStr
  equiv : Option CStr

/-- `FaultEquivalenceStats`. -/
structure FaultEquivalenceStats where
  inputPairs : Nat
  targetsBeforeExternal : Nat
  targetsAfterExternal : Nat
  outputFaults : Nat
deriving DecidableEq, Repr

/-- `fault_entries` with the statistics, the `test_sa` flags of the nets, and the fault list of
`readdata`. The member list of a group is the list of the ids of its entries. -/
structure FaultState where
  forest : UnionFind.Forest
  representative : Nat → Option FNODE
  outputRequested : Nat → Bool
  members : Nat → List Nat
  testSa0 : Nat → Bool
  testSa1 : Nat → Bool
  stats : FaultEquivalenceStats
  list : Nat → List FNODE
  numinit : Nat
  numequiv : Int

/-- `FaultId`. -/
def faultId (net : Nat) (type : FaultType) : Nat := net * 2 + if type = .SF1 then 1 else 0

/-- The net of an entry. -/
def memberNet (id : Nat) : Nat := id / 2

/-- The fault type of an entry. -/
def memberType (id : Nat) : FaultType := if id % 2 = 1 then .SF1 else .SF0

namespace Netlist

variable (c : Netlist)

/-- `fault_count`. -/
def faultCount : Nat := c.nNet * 2

/-- `FindRoot`. -/
def findRoot (s : FaultState) (id : Nat) : Option (Nat × FaultState) :=
  (UnionFind.find c.faultCount s.forest id).map fun (root, forest) => (root, { s with forest })

/-- `MergeFaults`. -/
def mergeFaults (s : FaultState) (first second : Nat) : Option FaultState :=
  (UnionFind.merge c.faultCount s.forest first second).map fun forest => { s with forest }

/-- The walk of `GetEquivalentFaults`, which writes nothing. -/
def groupRoot (s : FaultState) (id : Nat) : Option Nat :=
  UnionFind.walk c.faultCount s.forest id

/-- `AddStructuralPair`. -/
def addStructuralPair (s : FaultState) (input : Nat) (inputType : FaultType) (output : Nat)
    (outputType : FaultType) : Option FaultState :=
  (c.mergeFaults s (faultId input inputType) (faultId output outputType)).map fun s =>
    match inputType with
    | .SF0 => { s with testSa0 := Function.update s.testSa0 input false }
    | .SF1 => { s with testSa1 := Function.update s.testSa1 input false }

/-- A transition fault is carried over a buffer or an inverter within frame 2. -/
def transitionCrosses (output : Nat) : Bool :=
  (c.type output == .BUF || c.type output == .INV) &&
    (match c.peer1t output with
      | none => false
      | some p => c.type p != .IN) &&
    (c.peer1t ((c.ins output).getD 0 0)).isSome

/-- The pairs of `AddStructuralEquivalences` at one net: input, its fault type, the type at the output. -/
def structuralPairs (m : FaultModel) (output : Nat) : List (Nat × FaultType × FaultType) :=
  if m = .TDF && !c.transitionCrosses output then []
  else
    let first := (c.ins output).getD 0 0
    match c.type output with
    | .BUF => [(first, .SF0, .SF0), (first, .SF1, .SF1)]
    | .INV => [(first, .SF0, .SF1), (first, .SF1, .SF0)]
    | .AND => (c.ins output).map fun i => (i, .SF0, .SF0)
    | .NAND => (c.ins output).map fun i => (i, .SF0, .SF1)
    | .OR => (c.ins output).map fun i => (i, .SF1, .SF1)
    | .NOR => (c.ins output).map fun i => (i, .SF1, .SF0)
    | _ => []

/-- `AddStructuralEquivalences`. -/
def addStructuralEquivalences (m : FaultModel) (s : FaultState) : Option FaultState :=
  (List.range c.nNet).foldlM
    (fun s output => (c.structuralPairs m output).foldlM
      (fun s pair => c.addStructuralPair s pair.1 pair.2.1 output pair.2.2) s)
    s

/-- `InitFaultEquivalence`; the Boolean is its return value. -/
def initFaultEquivalence (opt : Opt) (s : FaultState) : Option (Bool × FaultState) :=
  let s := { s with stats := ⟨0, 0, 0, 0⟩ }
  if c.nNet = 0 || decide (intMax / 2 < c.nNet) then some (false, s)
  else
    let s := { s with
      forest := UnionFind.singletons
      representative := fun _ => none
      outputRequested := fun _ => false
      members := fun _ => []
      testSa0 := fun _ => true
      testSa1 := fun _ => true }
    -- an explicit fault list without external pairs keeps every fault on its own
    if opt.fault.isNone || opt.equiv.isSome then
      (c.addStructuralEquivalences opt.faultModel s).map fun s => (true, s)
    else some (true, s)

variable {c}

/-! ### Fault ids -/

theorem faultId_lt {net : Nat} (h : net < c.nNet) (type : FaultType) :
    faultId net type < c.faultCount := by
  unfold faultId faultCount
  split <;> omega

@[simp]
theorem memberNet_faultId (net : Nat) (type : FaultType) : memberNet (faultId net type) = net := by
  unfold memberNet faultId
  split <;> omega

@[simp]
theorem memberType_faultId (net : Nat) (type : FaultType) :
    memberType (faultId net type) = type := by
  unfold memberType faultId
  cases type <;> simp

@[simp]
theorem faultId_member (id : Nat) : faultId (memberNet id) (memberType id) = id := by
  unfold faultId memberNet memberType
  by_cases odd : id % 2 = 1 <;> simp [odd] <;> omega

theorem memberNet_lt {id : Nat} (h : id < c.faultCount) : memberNet id < c.nNet := by
  unfold memberNet
  unfold faultCount at h
  omega

/-! ### The merged pairs -/

/-- The structurally equivalent faults, in the order they are merged. -/
def structuralFaults (c : Netlist) (m : FaultModel) : List ((Nat × FaultType) × (Nat × FaultType)) :=
  (List.range c.nNet).flatMap fun output => (c.structuralPairs m output).map fun pair =>
    ((pair.1, pair.2.1), (output, pair.2.2))

/-- The ids of a pair of faults. -/
def pairIds (p : (Nat × FaultType) × (Nat × FaultType)) : Nat × Nat :=
  (faultId p.1.1 p.1.2, faultId p.2.1 p.2.2)

/-- The pairs that `InitFaultEquivalence` merges. -/
def initialFaults (c : Netlist) (opt : Opt) : List ((Nat × FaultType) × (Nat × FaultType)) :=
  if opt.fault.isNone || opt.equiv.isSome then c.structuralFaults opt.faultModel else []

theorem mem_structuralFaults {m : FaultModel} {a b : Nat × FaultType} :
    (a, b) ∈ c.structuralFaults m ↔ b.1 < c.nNet ∧ (a.1, a.2, b.2) ∈ c.structuralPairs m b.1 := by
  obtain ⟨i, t⟩ := a
  obtain ⟨output, t'⟩ := b
  simp only [structuralFaults, List.mem_flatMap, List.mem_map, List.mem_range, Prod.mk.injEq]
  constructor
  · rintro ⟨o, ho, ⟨i', ti, to'⟩, mem, ⟨rfl, rfl⟩, rfl, rfl⟩
    exact ⟨ho, mem⟩
  · rintro ⟨ho, mem⟩
    exact ⟨output, ho, _, mem, ⟨rfl, rfl⟩, rfl, rfl⟩

/-- What the structural pairs rely on: inputs are nets, and a buffer or an inverter has one. -/
structure PairGraph (c : Netlist) : Prop where
  insLt : ∀ n < c.nNet, ∀ i ∈ c.ins n, i < c.nNet
  single : ∀ n < c.nNet, c.type n = .BUF ∨ c.type n = .INV → c.ins n ≠ []

theorem WellFormed.pairGraph {m : FaultModel} (wf : c.WellFormed m) : c.PairGraph where
  insLt := wf.insLt
  single := by
    rintro n hn (type | type) none
    all_goals
      have arity := wf.arity n hn
      rw [type, none] at arity
      cases arity

/-- Inputs of structural pairs are inputs of the gate. -/
theorem mem_structuralPairs_ins {m : FaultModel} (graph : c.PairGraph) {output : Nat}
    (hout : output < c.nNet) {pair : Nat × FaultType × FaultType}
    (h : pair ∈ c.structuralPairs m output) : pair.1 ∈ c.ins output := by
  have single := graph.single output hout
  unfold structuralPairs at h
  split at h
  · exact absurd h List.not_mem_nil
  · cases type : c.type output with
    | BUF | INV =>
        obtain ⟨i, rest, hi⟩ := List.exists_cons_of_ne_nil (single (by simp [type]))
        simp only [type, hi, List.getD_cons_zero, List.mem_cons, List.not_mem_nil, or_false] at h
        rcases h with rfl | rfl <;> simp [hi]
    | AND | NAND | OR | NOR =>
        simp only [type, List.mem_map] at h
        obtain ⟨i, hi, rfl⟩ := h
        exact hi
    | _ =>
        simp only [type] at h
        exact absurd h List.not_mem_nil

theorem structuralFaults_lt {m : FaultModel} (graph : c.PairGraph)
    {p : (Nat × FaultType) × (Nat × FaultType)} (h : p ∈ c.structuralFaults m) :
    p.1.1 < c.nNet ∧ p.2.1 < c.nNet := by
  obtain ⟨hout, mem⟩ := mem_structuralFaults.mp h
  exact ⟨graph.insLt _ hout _ (mem_structuralPairs_ins graph hout mem), hout⟩

/-! ### The state after `InitFaultEquivalence` -/

/-- The state after merging some structural pairs: their closure, and their input faults are not to be
generated. -/
structure StructuralInv (c : Netlist) (s₀ : FaultState)
    (merged : List ((Nat × FaultType) × (Nat × FaultType))) (s : FaultState) : Prop where
  frame : s = { s₀ with forest := s.forest, testSa0 := s.testSa0, testSa1 := s.testSa1 }
  classes : UnionFind.Represents c.faultCount (merged.map pairIds) s.forest
  testSa0 : ∀ i, s.testSa0 i = false ↔ s₀.testSa0 i = false ∨ ∃ b, ((i, .SF0), b) ∈ merged
  testSa1 : ∀ i, s.testSa1 i = false ↔ s₀.testSa1 i = false ∨ ∃ b, ((i, .SF1), b) ∈ merged

theorem mergeFaults_spec {pairs : List (Nat × Nat)} {s : FaultState}
    (rep : UnionFind.Represents c.faultCount pairs s.forest) {a b : Nat} (ha : a < c.faultCount)
    (hb : b < c.faultCount) :
    ∃ forest, c.mergeFaults s a b = some { s with forest } ∧
      UnionFind.Represents c.faultCount (pairs ++ [(a, b)]) forest := by
  obtain ⟨forest, run, rep'⟩ := rep.merge ha hb
  exact ⟨forest, by rw [mergeFaults, run]; rfl, rep'⟩

theorem findRoot_spec {pairs : List (Nat × Nat)} {s : FaultState}
    (rep : UnionFind.Represents c.faultCount pairs s.forest) {a : Nat} (ha : a < c.faultCount) :
    ∃ root forest, c.findRoot s a = some (root, { s with forest }) ∧
      UnionFind.RootOf s.forest.parent a root ∧
      UnionFind.Represents c.faultCount pairs forest ∧
      ∀ b < c.faultCount, ∀ r,
        UnionFind.RootOf forest.parent b r ↔ UnionFind.RootOf s.forest.parent b r := by
  obtain ⟨root, forest, run, isRoot, rep', same⟩ := rep.find ha
  exact ⟨root, forest, by rw [findRoot, run]; rfl, isRoot, rep', same⟩

theorem StructuralInv.pair {s₀ s : FaultState} {merged : List ((Nat × FaultType) × (Nat × FaultType))}
    (inv : StructuralInv c s₀ merged s) {p : (Nat × FaultType) × (Nat × FaultType)}
    (lt : p.1.1 < c.nNet ∧ p.2.1 < c.nNet) :
    ∃ s', c.addStructuralPair s p.1.1 p.1.2 p.2.1 p.2.2 = some s' ∧
      StructuralInv c s₀ (merged ++ [p]) s' := by
  obtain ⟨⟨i, t⟩, ⟨output, t'⟩⟩ := p
  obtain ⟨forest, run, rep⟩ := mergeFaults_spec inv.classes (faultId_lt lt.1 t) (faultId_lt lt.2 t')
  have classes : UnionFind.Represents c.faultCount ((merged ++ [((i, t), (output, t'))]).map pairIds)
      forest := by
    rw [List.map_append]
    exact rep
  have frame := inv.frame
  unfold addStructuralPair
  rw [run, Option.map_some]
  cases t with
  | SF0 =>
      refine ⟨_, rfl, ⟨?_, classes, fun k => ?_, fun k => ?_⟩⟩
      · conv_lhs => rw [frame]
      · dsimp only
        by_cases here : k = i
        · subst here
          simp
        · rw [Function.update_of_ne here, inv.testSa0]
          simp [here]
      · rw [inv.testSa1]
        simp
  | SF1 =>
      refine ⟨_, rfl, ⟨?_, classes, fun k => ?_, fun k => ?_⟩⟩
      · conv_lhs => rw [frame]
      · rw [inv.testSa0]
        simp
      · dsimp only
        by_cases here : k = i
        · subst here
          simp
        · rw [Function.update_of_ne here, inv.testSa1]
          simp [here]

theorem addStructuralEquivalences_spec {m : FaultModel} (graph : c.PairGraph) {s : FaultState}
    (fresh : s.forest = UnionFind.singletons) :
    ∃ s', c.addStructuralEquivalences m s = some s' ∧ StructuralInv c s (c.structuralFaults m) s' := by
  have start : StructuralInv c s [] s := by
    refine ⟨rfl, ?_, by simp, by simp⟩
    rw [fresh]
    exact UnionFind.represents_singletons _
  have loop := Loop.foldlM_inv
    (fun s (p : (Nat × FaultType) × (Nat × FaultType)) =>
      c.addStructuralPair s p.1.1 p.1.2 p.2.1 p.2.2)
    (StructuralInv c s) (c.structuralFaults m) start
    (by
      intro seen p rest s split inv
      apply inv.pair
      apply structuralFaults_lt graph
      rw [split]
      exact List.mem_append_right _ List.mem_cons_self)
  have nested : c.addStructuralEquivalences m s = (c.structuralFaults m).foldlM
      (fun s (p : (Nat × FaultType) × (Nat × FaultType)) =>
        c.addStructuralPair s p.1.1 p.1.2 p.2.1 p.2.2) s := by
    unfold structuralFaults addStructuralEquivalences
    rw [← Loop.foldlM_flatMap]
    congr 1
    funext s output
    rw [List.foldlM_map]
  rw [nested]
  exact loop

/-- `InitFaultEquivalence` succeeds when the fault ids fit in an `int`. -/
theorem PairGraph.init_spec (graph : c.PairGraph) (opt : Opt) (s : FaultState) :
    ∃ ok s', c.initFaultEquivalence opt s = some (ok, s') ∧
      (ok = true ↔ 0 < c.nNet ∧ c.nNet ≤ intMax / 2) ∧
      (ok = true → StructuralInv c { s with
          stats := ⟨0, 0, 0, 0⟩, forest := UnionFind.singletons, representative := fun _ => none
          outputRequested := fun _ => false, members := fun _ => []
          testSa0 := fun _ => true, testSa1 := fun _ => true } (c.initialFaults opt) s') := by
  unfold initFaultEquivalence
  dsimp only
  split
  · rename_i bad
    refine ⟨false, _, rfl, ?_, fun h => by cases h⟩
    simp only [Bool.or_eq_true, decide_eq_true_eq] at bad
    constructor
    · intro h
      cases h
    · omega
  · rename_i good
    simp only [Bool.or_eq_true, decide_eq_true_eq, not_or] at good
    have fits : 0 < c.nNet ∧ c.nNet ≤ intMax / 2 := by omega
    unfold initialFaults
    split
    · obtain ⟨s', run, inv⟩ := addStructuralEquivalences_spec graph (s := { s with
          stats := ⟨0, 0, 0, 0⟩, forest := UnionFind.singletons, representative := fun _ => none
          outputRequested := fun _ => false, members := fun _ => []
          testSa0 := fun _ => true, testSa1 := fun _ => true }) rfl
      exact ⟨true, s', by rw [run]; rfl, by simp [fits], fun _ => inv⟩
    · refine ⟨true, _, rfl, by simp [fits], fun _ => ⟨rfl, ?_, by simp, by simp⟩⟩
      exact UnionFind.represents_singletons _

theorem initFaultEquivalence_spec {opt : Opt} (wf : c.WellFormed opt.faultModel) (s : FaultState) :
    ∃ ok s', c.initFaultEquivalence opt s = some (ok, s') ∧
      (ok = true ↔ 0 < c.nNet ∧ c.nNet ≤ intMax / 2) ∧
      (ok = true → StructuralInv c { s with
          stats := ⟨0, 0, 0, 0⟩, forest := UnionFind.singletons, representative := fun _ => none
          outputRequested := fun _ => false, members := fun _ => []
          testSa0 := fun _ => true, testSa1 := fun _ => true } (c.initialFaults opt) s') :=
  wf.pairGraph.init_spec _ s

/-! ### Sequences of calls -/

end Netlist

/-- A call after `InitFaultEquivalence`. -/
inductive EquivCall where
  | findRoot (id : Nat)
  | mergeFaults (first second : Nat)

namespace Netlist

/-- The ids of a call are those of entries. -/
def CallInRange (c : Netlist) : EquivCall → Prop
  | .findRoot id => id < c.faultCount
  | .mergeFaults first second => first < c.faultCount ∧ second < c.faultCount

/-- The state after a call. -/
def runCall (c : Netlist) (s : FaultState) : EquivCall → Option FaultState
  | .findRoot id => (c.findRoot s id).map (·.2)
  | .mergeFaults first second => c.mergeFaults s first second

/-- The pairs that a sequence of calls merges. -/
def callPairs (calls : List EquivCall) : List (Nat × Nat) :=
  calls.filterMap fun call =>
    match call with
    | .findRoot _ => none
    | .mergeFaults first second => some (first, second)

variable {c : Netlist}

theorem runCalls_spec {pairs : List (Nat × Nat)} {s : FaultState}
    (rep : UnionFind.Represents c.faultCount pairs s.forest) (calls : List EquivCall)
    (low : ∀ call ∈ calls, c.CallInRange call) :
    ∃ t, calls.foldlM c.runCall s = some t ∧
      UnionFind.Represents c.faultCount (pairs ++ callPairs calls) t.forest := by
  apply Loop.foldlM_inv c.runCall
    (fun seen s => UnionFind.Represents c.faultCount (pairs ++ callPairs seen) s.forest) calls
  · simpa [callPairs] using rep
  · intro seen call rest s split rep
    have here : c.CallInRange call := low call (by rw [split]; simp)
    cases call with
    | findRoot id =>
        obtain ⟨root, forest, run, -, rep', -⟩ := findRoot_spec rep here
        refine ⟨_, by rw [runCall, run]; rfl, ?_⟩
        simpa [callPairs] using rep'
    | mergeFaults first second =>
        obtain ⟨forest, run, rep'⟩ := mergeFaults_spec rep here.1 here.2
        refine ⟨_, run, ?_⟩
        simpa [callPairs] using rep'

/-- Union-find is correct: after `InitFaultEquivalence` and any sequence of calls the parent links are
acyclic, `FindRoot` and the walk of `GetEquivalentFaults` end at one root, two faults have the same root
exactly when the equivalence closure of all merged pairs relates them, `FindRoot` moves no fault to another
root, and the group size at a root is the size of its class. -/
theorem mergeFaults_closure (k : Circuit) (opt : Opt) (model : opt.faultModel = k.model)
    (s s₀ : FaultState) (init : k.netlist.initFaultEquivalence opt s = some (true, s₀))
    (calls : List EquivCall) (low : ∀ call ∈ calls, k.netlist.CallInRange call) :
    ∃ t, calls.foldlM k.netlist.runCall s₀ = some t ∧
      (∃ rank : Nat → Nat, ∀ a < k.netlist.faultCount, t.forest.parent a < k.netlist.faultCount ∧
        (t.forest.parent a ≠ a → rank (t.forest.parent a) < rank a)) ∧
      ∀ a < k.netlist.faultCount, ∃ root t', k.netlist.findRoot t a = some (root, t') ∧
        k.netlist.groupRoot t a = some root ∧ t.forest.parent root = root ∧
        t.forest.size root = Set.ncard { b | b < k.netlist.faultCount ∧
          UnionFind.Closure ((k.netlist.initialFaults opt).map pairIds ++ callPairs calls) a b } ∧
        ∀ b < k.netlist.faultCount, ∃ rootB, k.netlist.groupRoot t b = some rootB ∧
          k.netlist.groupRoot t' b = some rootB ∧
          (root = rootB ↔ UnionFind.Closure
            ((k.netlist.initialFaults opt).map pairIds ++ callPairs calls) a b) := by
  have wf : k.netlist.WellFormed opt.faultModel := model ▸ k.wellFormed
  obtain ⟨ok, s₁, run, -, inv⟩ := initFaultEquivalence_spec wf s
  rw [init] at run
  cases run
  obtain ⟨t, run, rep⟩ := runCalls_spec (inv rfl).classes calls low
  refine ⟨t, run, ?_, ?_⟩
  · obtain ⟨rank, lower⟩ := rep.valid.acyclic
    refine ⟨rank, fun a ha => ⟨rep.valid.acyclic.parent_lt ha, fun notRoot => ?_⟩⟩
    exact (lower a ha _ (by simp [UnionFind.links, notRoot])).2
  · intro a ha
    obtain ⟨root, forest, found, isRoot, rep', same⟩ := findRoot_spec rep ha
    have closure : ∀ b < k.netlist.faultCount, (UnionFind.RootOf t.forest.parent b root ↔
        UnionFind.Closure ((k.netlist.initialFaults opt).map pairIds ++ callPairs calls) a b) := by
      intro b hb
      rw [← rep.classes a ha b hb]
      refine ⟨fun rootB => ⟨root, isRoot, rootB⟩, ?_⟩
      rintro ⟨r, rootA, rootB⟩
      exact isRoot.unique rootA ▸ rootB
    refine ⟨root, _, found, ?_, isRoot.isRoot, ?_, ?_⟩
    · obtain ⟨r, walked, rootA⟩ := UnionFind.walk_spec rep.valid.acyclic ha
      rw [isRoot.unique rootA]
      exact walked
    · rw [rep.valid.size root (isRoot.lt rep.valid.acyclic ha) isRoot.isRoot]
      congr 1
      ext b
      exact ⟨fun h => ⟨h.1, (closure b h.1).mp h.2⟩, fun h => ⟨h.1, (closure b h.1).mpr h.2⟩⟩
    · intro b hb
      obtain ⟨r, walked, rootB⟩ := UnionFind.walk_spec rep.valid.acyclic hb
      obtain ⟨r', walked', rootB'⟩ := UnionFind.walk_spec rep'.valid.acyclic hb
      have unmoved : r' = r := ((same b hb r').mp rootB').unique rootB
      refine ⟨r, walked, unmoved ▸ walked', ?_⟩
      rw [← closure b hb]
      exact ⟨fun h => h ▸ rootB, fun h => h.unique rootB⟩

/-- A state before `InitFaultEquivalence`. -/
def emptyFaultState : FaultState where
  forest := UnionFind.singletons
  representative := fun _ => none
  outputRequested := fun _ => false
  members := fun _ => []
  testSa0 := fun _ => false
  testSa1 := fun _ => false
  stats := ⟨0, 0, 0, 0⟩
  list := fun _ => []
  numinit := 0
  numequiv := 0

theorem mergeFaults_closure_and :
    ∃ s₀ t, andNetlist.initFaultEquivalence ⟨.SAF, none, none⟩ emptyFaultState = some (true, s₀) ∧
      [EquivCall.mergeFaults 1 3, .findRoot 5].foldlM andNetlist.runCall s₀ = some t ∧
      ∀ a < 6, ∃ root t', andNetlist.findRoot t a = some (root, t') ∧
        andNetlist.groupRoot t a = some root := by
  obtain ⟨ok, s₀, init, isOk, -⟩ :=
    @initFaultEquivalence_spec _ ⟨.SAF, none, none⟩ andNetlist_wellFormed emptyFaultState
  have good : ok = true := isOk.mpr (by decide)
  subst good
  obtain ⟨t, run, -, roots⟩ := mergeFaults_closure andCircuit ⟨.SAF, none, none⟩ rfl emptyFaultState s₀
    init [.mergeFaults 1 3, .findRoot 5] (by simp [CallInRange]; decide)
  refine ⟨s₀, t, init, run, fun a ha => ?_⟩
  obtain ⟨root, t', found, walked, -⟩ := roots a ha
  exact ⟨root, t', found, walked⟩

end Netlist

end SafRprGen
