/-
Module: SafRprGen.Fault.FaultList
Layer: Fault
Purpose: The table of target faults (`fault_list.c`): a fault is a line of text, normalised, hashed and
  parsed, and stored once. The lines come from the fault file or are generated for every net whose
  `test_sa` flags are still set.
Main exports: findNetByName, createFaultNode, createFaultList, createFaultLists, Stored,
  createFaultLists_spec
-/
import SafRprGen.Fault.Equivalence
import SafRprGen.Lib.CText

namespace SafRprGen

open CText

/-- `MAXSIZE_HASH`. -/
def maxsizeHash : Nat := 100

/-- `MAXSIZE_BUFFER`. -/
def maxsizeBuffer : Nat := 500000

/-- The value of a byte as a `char`, which is signed. -/
def signedChar (ch : Char) : Int :=
  if ch.toNat % 256 < 128 then ch.toNat % 256 else ch.toNat % 256 - 256

/-- `calcHash`; a negative index is outside the table. -/
def calcHash (buffer : CStr) : Option Nat :=
  match (buffer.foldl (fun hashval ch => hashval + signedChar ch) 0).tmod maxsizeHash with
  | .ofNat hash => some hash
  | .negSucc _ => none

/-- `IsBlankLine`. -/
def isBlankLine (line : CStr) : Bool := line.all isSpace

/-- `ParseFaultType` on the token after the name. -/
def parseFaultType (m : FaultModel) (token : CStr) : Option FaultType :=
  match m with
  | .TDF =>
      if token = "STR".toList then some .SF0
      else if token = "STF".toList then some .SF1
      else none
  | .SAF =>
      if token = "sa0".toList then some .SF0
      else if token = "sa1".toList then some .SF1
      else none

/-- `FaultTypeName`. -/
def faultTypeName : FaultModel → FaultType → CStr
  | .TDF, .SF0 => "STR".toList
  | .TDF, .SF1 => "STF".toList
  | .SAF, .SF0 => "sa0".toList
  | .SAF, .SF1 => "sa1".toList

/-- `NetNameHash`. -/
def netNameHash (s : CStr) : UInt64 :=
  s.foldl (fun h ch => ((h <<< 5) + h) + UInt64.ofNat (ch.toNat % 256)) 5381

/-- The normalisation in `CreateFaultList`: two words are separated by one tab. -/
def normalise (buffer : CStr) : CStr :=
  let (name, rest) := scanWord 499990 buffer
  let (type, _) := scanWord 7 rest
  if name.isEmpty || type.isEmpty then buffer
  else (name ++ '\t' :: type ++ ['\n']).take (maxsizeBuffer - 1)

namespace Netlist

variable (c : Netlist)

/-- `BuildNetHash`: the chains of the table, each with the last net first. -/
def buildNetHash : Nat → List Nat :=
  (List.range c.nNet).foldl
    (fun chain i =>
      let h := (netNameHash (c.name i)).toNat % (c.nNet * 2 + 1)
      Function.update chain h (i :: chain h))
    fun _ => []

/-- `FindNetByName`. -/
def findNetByName (name : CStr) : Option Nat :=
  (c.buildNetHash ((netNameHash name).toNat % (c.nNet * 2 + 1))).find? fun net => c.name net = name

/-- `CreateFaultNode`; `none` is its error. -/
def createFaultNode (m : FaultModel) (buffer : CStr) : Option FNODE :=
  (strtok (fun ch => ch ∈ [' ', '\t', '\r', '\n']) buffer).bind fun (name, context) =>
    (strtok (fun ch => ch ∈ [' ', '\n']) context).bind fun (token, _) =>
      (parseFaultType m token).bind fun type =>
        (c.findNetByName name).bind fun net =>
          match m with
          | .SAF => some ⟨buffer, name, type, net, none⟩
          | .TDF => (c.peer1t net).map fun peer => ⟨buffer, name, type, net, some peer⟩

/-- `CreateFaultList`; the Boolean is its return value. -/
def createFaultList (m : FaultModel) (s : FaultState) (buffer : CStr) :
    Option (Bool × FaultState) :=
  let buffer := normalise buffer
  (calcHash buffer).map fun hash =>
    if (s.list hash).any fun node => node.string = buffer then (true, s)
    else
      match c.createFaultNode m buffer with
      | none => (false, s)
      | some node =>
          (true, { s with
            list := Function.update s.list hash (node :: s.list hash)
            numinit := s.numinit + 1 })

/-- The loops of `ReadFault`, stopped by an error. -/
def createFaultLists (m : FaultModel) (buffers : List CStr) (s : FaultState) :
    Option (Bool × FaultState) :=
  Loop.untilError (c.createFaultList m) buffers s

/-- The lines of the fault file that are not blank. -/
def listedFaults (file : CStr) : List CStr :=
  (fgetsAll maxsizeBuffer file).filter fun line => !isBlankLine line

/-- The line generated for a fault. -/
def faultLine (m : FaultModel) (net : Nat) (type : FaultType) : CStr :=
  (c.name net ++ '\t' :: faultTypeName m type ++ ['\n']).take (maxsizeBuffer - 1)

/-- The lines generated without a fault file: the faults whose flags are set, for transition faults only
at nets with a first-frame copy. -/
def generatedFaults (m : FaultModel) (s : FaultState) : List CStr :=
  (List.range c.nNet).flatMap fun i =>
    if m = .TDF && (c.peer1t i).isNone then []
    else (if s.testSa0 i then [c.faultLine m i .SF0] else []) ++
      if s.testSa1 i then [c.faultLine m i .SF1] else []

/-- `ReadFault` up to `FinalizeFaultEquivalence`. -/
def loadFaults (opt : Opt) (s : FaultState) : Option (Bool × FaultState) :=
  (c.initFaultEquivalence opt s).bind fun (okay, s) =>
    if okay then
      match opt.fault with
      | some file => c.createFaultLists opt.faultModel (listedFaults file) s
      | none =>
          c.createFaultLists opt.faultModel (c.generatedFaults opt.faultModel s)
            { s with numinit := 0 }
    else some (false, s)

/-- The stored nodes, in the order the table is scanned. -/
def scanFaults (s : FaultState) : List FNODE := (List.range maxsizeHash).flatMap s.list

variable {c} {m : FaultModel}

/-! ### Names -/

theorem buildNetHash_spec (h : Nat) :
    c.buildNetHash h = ((List.range c.nNet).filter fun i =>
      decide ((netNameHash (c.name i)).toNat % (c.nNet * 2 + 1) = h)).reverse := by
  unfold buildNetHash
  generalize c.nNet * 2 + 1 = size
  induction List.range c.nNet using List.reverseRecOn with
  | nil => rfl
  | append_singleton nets i ih =>
      rw [List.foldl_append, List.foldl_cons, List.foldl_nil, List.filter_append]
      by_cases here : (netNameHash (c.name i)).toNat % size = h
      · subst here
        simp [ih]
      · rw [Function.update_of_ne (Ne.symm here), ih]
        simp [here]

/-- The search finds a net with the name, if there is one. -/
theorem findNetByName_spec (name : CStr) :
    (∀ net, c.findNetByName name = some net → net < c.nNet ∧ c.name net = name) ∧
      (c.findNetByName name = none → ∀ net < c.nNet, c.name net ≠ name) := by
  unfold findNetByName
  rw [buildNetHash_spec]
  constructor
  · intro net found
    have mem := List.mem_of_find?_eq_some found
    rw [List.mem_reverse, List.mem_filter, List.mem_range] at mem
    have named := List.find?_some found
    exact ⟨mem.1, of_decide_eq_true named⟩
  · intro none net hnet same
    have missing := List.find?_eq_none.mp none net (by simp [hnet, same])
    exact missing (decide_eq_true same)

/-! ### Nodes -/

theorem createFaultNode_string {buffer : CStr} {node : FNODE}
    (created : c.createFaultNode m buffer = some node) : node.string = buffer := by
  unfold createFaultNode at created
  obtain ⟨⟨name, context⟩, -, created⟩ := Option.bind_eq_some_iff.mp created
  obtain ⟨⟨token, rest⟩, -, created⟩ := Option.bind_eq_some_iff.mp created
  obtain ⟨type, -, created⟩ := Option.bind_eq_some_iff.mp created
  obtain ⟨net, -, created⟩ := Option.bind_eq_some_iff.mp created
  cases m with
  | SAF =>
      cases created
      rfl
  | TDF =>
      obtain ⟨peer, -, rfl⟩ := Option.map_eq_some_iff.mp created
      rfl

/-- A node is a fault of the netlist, named by its net. -/
theorem createFaultNode_spec {buffer : CStr} {node : FNODE}
    (created : c.createFaultNode m buffer = some node) :
    node.netptr < c.nNet ∧ c.name node.netptr = node.name ∧
      (m = .SAF → node.excNetptr = none) ∧
      (m = .TDF → node.excNetptr = c.peer1t node.netptr ∧ node.excNetptr ≠ none) := by
  unfold createFaultNode at created
  obtain ⟨⟨name, context⟩, -, created⟩ := Option.bind_eq_some_iff.mp created
  obtain ⟨⟨token, rest⟩, -, created⟩ := Option.bind_eq_some_iff.mp created
  obtain ⟨type, -, created⟩ := Option.bind_eq_some_iff.mp created
  obtain ⟨net, found, created⟩ := Option.bind_eq_some_iff.mp created
  obtain ⟨hnet, named⟩ := (c.findNetByName_spec name).1 net found
  cases m with
  | SAF =>
      cases created
      exact ⟨hnet, named, fun _ => rfl, fun h => by cases h⟩
  | TDF =>
      obtain ⟨peer, here, rfl⟩ := Option.map_eq_some_iff.mp created
      exact ⟨hnet, named, fun h => (by cases h), fun _ => ⟨here.symm, by simp⟩⟩

/-! ### The table -/

theorem calcHash_lt {buffer : CStr} {hash : Nat} (h : calcHash buffer = some hash) :
    hash < maxsizeHash := by
  unfold calcHash at h
  split at h
  · rename_i hash' found
    cases h
    have := Int.tmod_lt_of_pos (buffer.foldl (fun hashval ch => hashval + signedChar ch) 0)
      (show (0 : Int) < maxsizeHash by decide)
    rw [found] at this
    exact Int.ofNat_lt.mp this
  · cases h

/-- Every stored node is parsed from its string, which is in its bucket once. -/
structure Stored (c : Netlist) (m : FaultModel) (s : FaultState) : Prop where
  distinct : ∀ hash, ((s.list hash).map FNODE.string).Nodup
  keyed : ∀ hash, ∀ node ∈ s.list hash, calcHash node.string = some hash
  parsed : ∀ hash, ∀ node ∈ s.list hash, c.createFaultNode m node.string = some node

theorem Stored.mem_scanFaults {s : FaultState} (stored : Stored c m s) {node : FNODE} :
    node ∈ scanFaults s ↔ ∃ hash, node ∈ s.list hash := by
  simp only [scanFaults, List.mem_flatMap, List.mem_range]
  constructor
  · rintro ⟨hash, -, mem⟩
    exact ⟨hash, mem⟩
  · rintro ⟨hash, mem⟩
    exact ⟨hash, calcHash_lt (stored.keyed hash node mem), mem⟩

theorem Stored.parsed_scan {s : FaultState} (stored : Stored c m s) {node : FNODE}
    (mem : node ∈ scanFaults s) : c.createFaultNode m node.string = some node := by
  obtain ⟨hash, mem⟩ := stored.mem_scanFaults.mp mem
  exact stored.parsed hash node mem

theorem Stored.nodup {s : FaultState} (stored : Stored c m s) : (scanFaults s).Nodup := by
  refine List.nodup_flatMap.mpr ⟨fun hash _ => (stored.distinct hash).of_map, ?_⟩
  apply List.nodup_range.pairwise_of_forall_ne
  intro a _ b _ ne node memA memB
  have same := (stored.keyed a node memA).symm.trans (stored.keyed b node memB)
  exact ne (Option.some.inj same)

/-- A line is stored unless a node with its string is there already. -/
theorem createFaultList_spec {s t : FaultState} (stored : Stored c m s) {buffer : CStr}
    (run : c.createFaultList m s buffer = some (true, t)) :
    Stored c m t ∧ t = { s with list := t.list, numinit := t.numinit } ∧
      ∀ node, node ∈ scanFaults t ↔
        node ∈ scanFaults s ∨ c.createFaultNode m (normalise buffer) = some node := by
  unfold createFaultList at run
  dsimp only at run
  obtain ⟨hash, hashed, run⟩ := Option.map_eq_some_iff.mp run
  by_cases found : (s.list hash).any (fun node => node.string = normalise buffer) = true
  · rw [if_pos found] at run
    cases run
    refine ⟨stored, rfl, fun node => ⟨.inl, ?_⟩⟩
    rintro (mem | created)
    · exact mem
    · obtain ⟨old, mem, same⟩ := List.any_eq_true.mp found
      have same : old.string = normalise buffer := of_decide_eq_true same
      have parsed := stored.parsed hash old mem
      rw [same, created] at parsed
      cases parsed
      exact stored.mem_scanFaults.mpr ⟨hash, mem⟩
  · rw [if_neg found] at run
    cases created : c.createFaultNode m (normalise buffer) with
    | none =>
        rw [created] at run
        cases run
    | some node =>
        rw [created] at run
        cases run
        have string := createFaultNode_string created
        have old : ∀ k f, f ∈ Function.update s.list hash (node :: s.list hash) k ↔
            f ∈ s.list k ∨ (k = hash ∧ f = node) := by
          intro k f
          by_cases here : k = hash
          · subst here
            simp [or_comm]
          · simp [here]
        have stored' : Stored c m { s with
            list := Function.update s.list hash (node :: s.list hash)
            numinit := s.numinit + 1 } := by
          constructor
          · intro k
            by_cases here : k = hash
            · subst here
              simp only [Function.update_self, List.map_cons, List.nodup_cons]
              refine ⟨fun mem => found ?_, stored.distinct k⟩
              obtain ⟨f, mem, same⟩ := List.mem_map.mp mem
              exact List.any_eq_true.mpr ⟨f, mem, decide_eq_true (same.trans string)⟩
            · simpa [here] using stored.distinct k
          · intro k f mem
            rcases (old k f).mp mem with mem | ⟨rfl, rfl⟩
            · exact stored.keyed k f mem
            · rw [string]
              exact hashed
          · intro k f mem
            rcases (old k f).mp mem with mem | ⟨rfl, rfl⟩
            · exact stored.parsed k f mem
            · rw [string]
              exact created
        refine ⟨stored', rfl, fun f => ?_⟩
        rw [stored'.mem_scanFaults, stored.mem_scanFaults]
        dsimp only
        constructor
        · rintro ⟨k, mem⟩
          rcases (old k f).mp mem with mem | ⟨rfl, rfl⟩
          · exact .inl ⟨k, mem⟩
          · exact .inr rfl
        · rintro (⟨k, mem⟩ | same)
          · exact ⟨k, (old k f).mpr (.inl mem)⟩
          · cases same
            exact ⟨hash, (old hash _).mpr (.inr ⟨rfl, rfl⟩)⟩

/-- After the loop the table holds exactly the faults of its lines. -/
theorem createFaultLists_spec {buffers : List CStr} {s t : FaultState} (stored : Stored c m s)
    (run : c.createFaultLists m buffers s = some (true, t)) :
    Stored c m t ∧ t = { s with list := t.list, numinit := t.numinit } ∧
      ∀ node, node ∈ scanFaults t ↔ node ∈ scanFaults s ∨
        ∃ buffer ∈ buffers, c.createFaultNode m (normalise buffer) = some node := by
  have loop := Loop.untilError_inv
    (fun seen t => Stored c m t ∧ t = { s with list := t.list, numinit := t.numinit } ∧
      ∀ node, node ∈ scanFaults t ↔ node ∈ scanFaults s ∨
        ∃ buffer ∈ seen, c.createFaultNode m (normalise buffer) = some node)
    (fun seen buffer u v inv one => by
      obtain ⟨storedU, frameU, memU⟩ := inv
      obtain ⟨storedV, frameV, memV⟩ := createFaultList_spec storedU one
      refine ⟨storedV, by rw [frameV, frameU], fun node => ?_⟩
      rw [memV, memU, or_assoc]
      apply or_congr_right
      constructor
      · rintro (⟨b, hb, created⟩ | created)
        · exact ⟨b, List.mem_append_left _ hb, created⟩
        · exact ⟨buffer, by simp, created⟩
      · rintro ⟨b, hb, created⟩
        rcases List.mem_append.mp hb with hb | hb
        · exact .inl ⟨b, hb, created⟩
        · exact .inr (List.mem_singleton.mp hb ▸ created))
    buffers [] s t ⟨stored, rfl, by simp⟩ run
  exact loop

end Netlist

end SafRprGen
