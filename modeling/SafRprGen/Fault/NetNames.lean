/-
Module: SafRprGen.Fault.NetNames
Layer: Fault
Purpose: Names as the only link from a fault line back to its net. `FindNetByName` returns the net it was
  asked for, and a generated line its own fault, exactly when the names of the file leave room for those that
  are made up and the nets with a generated line have names that are read back.
Main exports: Generates, NamesIdentify, namesIdentify_iff
-/
import SafRprGen.Netlist.Names
import SafRprGen.Fault.Denote

namespace SafRprGen

namespace Netlist

variable {c : Netlist} {m : FaultModel}

/-- `ReadFault` generates a line for the fault. -/
structure Generates (c : Netlist) (m : FaultModel) (s : FaultState) (net : Nat)
    (type : FaultType) : Prop where
  low : net < c.nNet
  peer : m = .TDF → (c.peer1t net).isSome = true
  flag : (match type with | .SF0 => s.testSa0 net | .SF1 => s.testSa1 net) = true

theorem mem_generatedFaults {s : FaultState} {line : CStr} : line ∈ c.generatedFaults m s ↔
    ∃ net type, Generates c m s net type ∧ line = c.faultLine m net type := by
  have flagged : ∀ net type (flag : Bool), line ∈ (if flag then [c.faultLine m net type] else []) ↔
      flag = true ∧ line = c.faultLine m net type := by
    intro net type flag
    cases flag <;> simp
  unfold generatedFaults
  rw [List.mem_flatMap]
  constructor
  · rintro ⟨net, low, mem⟩
    rw [List.mem_range] at low
    by_cases skip : (m = .TDF && (c.peer1t net).isNone) = true
    · rw [if_pos skip] at mem
      cases mem
    · rw [if_neg skip, List.mem_append, flagged, flagged] at mem
      have peer : m = .TDF → (c.peer1t net).isSome = true := by
        rintro rfl
        rw [Option.isSome_iff_ne_none]
        simpa using skip
      rcases mem with ⟨flag, rfl⟩ | ⟨flag, rfl⟩
      · exact ⟨net, .SF0, ⟨low, peer, flag⟩, rfl⟩
      · exact ⟨net, .SF1, ⟨low, peer, flag⟩, rfl⟩
  · rintro ⟨net, type, ⟨low, peer, flag⟩, rfl⟩
    refine ⟨net, List.mem_range.mpr low, ?_⟩
    have keep : ¬ (m = .TDF && (c.peer1t net).isNone) = true := by
      intro skip
      rw [Bool.and_eq_true, decide_eq_true_eq] at skip
      have some := peer skip.1
      rw [Option.isNone_iff_eq_none.mp skip.2] at some
      cases some
    rw [if_neg keep, List.mem_append, flagged, flagged]
    cases type with
    | SF0 => exact .inl ⟨flag, rfl⟩
    | SF1 => exact .inr ⟨flag, rfl⟩

theorem name_inj_of_nodup (nodup : c.names.Nodup) {n n' : Nat} (low : n < c.nNet) (low' : n' < c.nNet)
    (same : c.name n = c.name n') : n = n' := by
  rw [names_eq] at nodup
  exact List.inj_on_of_nodup_map nodup (List.mem_range.mpr low) (List.mem_range.mpr low') same

/-- Distinct names are found. -/
theorem findNetByName_name (nodup : c.names.Nodup) {n : Nat} (low : n < c.nNet) :
    c.findNetByName (c.name n) = some n := by
  cases found : c.findNetByName (c.name n) with
  | none => exact absurd rfl ((c.findNetByName_spec (c.name n)).2 found n low)
  | some n' =>
      obtain ⟨low', same⟩ := (c.findNetByName_spec (c.name n)).1 n' found
      rw [name_inj_of_nodup nodup low' low same]

/-- Net names identify nets. -/
structure NamesIdentify (c : Netlist) (m : FaultModel) : Prop where
  distinct : c.names.Nodup
  found : ∀ n < c.nNet, c.findNetByName (c.name n) = some n
  /-- The line that is generated for a fault denotes that fault. -/
  denoted : ∀ s₀ s, c.initFaultEquivalence ⟨m, none, none⟩ s₀ = some (true, s) →
    ∀ net type, Generates c m s net type → Denotes c m (c.faultLine m net type) net type

end Netlist

open Netlist

/-- Net names identify nets exactly when no signal of the file has a name that is made up, no two pins make
up the same one, and every net for which a line is generated has a legible name. -/
theorem namesIdentify_iff (m : FaultModel) (text : List Char) (a : Accepted) (net : ReadNet) (c : Netlist)
    (accepted : readFile text = .ok a) (read : readNl text = .ok net)
    (created : createdNets m net = some c) :
    NamesIdentify c m ↔ Nameable m a net ∧
      ∀ s₀ s, c.initFaultEquivalence ⟨m, none, none⟩ s₀ = some (true, s) →
        ∀ net type, Generates c m s net type → Legible (c.name net) := by
  rw [← createdNets_names_iff accepted read created]
  constructor
  · intro identify
    exact ⟨identify.distinct, fun s₀ s init net type generates =>
      (identify.denoted s₀ s init net type generates).legible⟩
  · rintro ⟨nodup, legible⟩
    refine ⟨nodup, fun n => findNetByName_name nodup, fun s₀ s init net type generates => ?_⟩
    exact denotes_faultLine (legible s₀ s init net type generates) (findNetByName_name nodup generates.low)
      generates.peer type

/-- An inverter whose output is named like a branch of its input. -/
def clashText : List Char :=
  ("module m (a, z, a_n_A);\ninput a;\noutput z, a_n_A;\n" ++
    "INV U1 (.A(a), .ZN(n));\nINV U2 (.A(a), .ZN(a_n_A));\nINV U3 (.A(n), .ZN(z));\nendmodule\n").toList

/-- Two nets of an accepted netlist have one name, and the line that is generated for the first denotes the
fault of the second. -/
theorem clashText_clash : ∃ net c, readNl clashText = .ok net ∧ prepareCircuit .SAF net = some c ∧
    c.name 2 = "a_n_A".toList ∧ c.findNetByName (c.name 2) = some 4 ∧ ¬ NamesIdentify c .SAF ∧
    ∃ s, c.initFaultEquivalence ⟨.SAF, none, none⟩ emptyFaultState = some (true, s) ∧
      Generates c .SAF s 2 .SF0 ∧ Denotes c .SAF (c.faultLine .SAF 2 .SF0) 4 .SF0 := by
  have computed : ((readNl clashText).toOption.bind (prepareCircuit .SAF)).map (fun c =>
      decide (c.name 2 = "a_n_A".toList ∧ c.findNetByName (c.name 2) = some 4 ∧ 2 < c.nNet ∧
        ((c.createFaultNode .SAF (normalise (c.faultLine .SAF 2 .SF0))).map fun f => (f.netptr, f.type)) =
          some (4, .SF0) ∧
        ((c.initFaultEquivalence ⟨.SAF, none, none⟩ emptyFaultState).map fun r => (r.1, r.2.testSa0 2)) =
          some (true, true))) = some true := by
    decide +kernel
  cases read : readNl clashText with
  | error e =>
      rw [read] at computed
      cases computed
  | ok net =>
      rw [read] at computed
      obtain ⟨c, prepared, all⟩ := Option.map_eq_some_iff.mp computed
      obtain ⟨named, found, size, created, flags⟩ := of_decide_eq_true all
      obtain ⟨node, isNode, here⟩ := Option.map_eq_some_iff.mp created
      obtain ⟨⟨ok, s⟩, init, flag⟩ := Option.map_eq_some_iff.mp flags
      rw [Prod.mk.injEq] at here flag
      refine ⟨net, c, rfl, prepared, named, found, fun identify => ?_, s, ?_, ⟨size, ?_, flag.2⟩,
        node, isNode, here.1, here.2⟩
      · have own := identify.found 2 size
        rw [found] at own
        cases own
      · rw [init]
        exact congrArg (fun ok => some (ok, s)) flag.1
      · intro h
        cases h

/-- Both inputs go to two gates, and the output of the first gate is a port that the second one reads. -/
def branchedText : List Char :=
  ("module m (a, z, y);\ninput a;\noutput z, y;\n" ++
    "AND2 U1 (.A(a), .B(y), .Z(z));\nINV U2 (.A(a), .ZN(y));\nendmodule\n").toList

theorem namesIdentify_branched : ∃ a net c, readFile branchedText = .ok a ∧ readNl branchedText = .ok net ∧
    createdNets .SAF net = some c ∧ "a_y_stem_A".toList ∈ c.names ∧ NamesIdentify c .SAF := by
  have computed : (readFile branchedText).toOption.isSome = true ∧
      ((readNl branchedText).toOption.bind (createdNets .SAF)).map (fun c =>
        decide ("a_y_stem_A".toList ∈ c.names ∧ c.names.Nodup ∧ ∀ n < c.nNet, c.name n ≠ [] ∧
          (c.name n).any CText.isSpace = false ∧ (c.name n).length ≤ 499990)) = some true := by
    decide +kernel
  cases accepted : readFile branchedText with
  | error e =>
      rw [accepted] at computed
      cases computed.1
  | ok a =>
      cases read : readNl branchedText with
      | error e =>
          rw [read] at computed
          cases computed.2
      | ok net =>
          rw [read] at computed
          obtain ⟨c, created, all⟩ := Option.map_eq_some_iff.mp computed.2
          replace created : createdNets .SAF net = some c := created
          obtain ⟨made, nodup, plain⟩ := of_decide_eq_true all
          refine ⟨a, net, c, rfl, rfl, created, made,
            (namesIdentify_iff .SAF branchedText a net c accepted read created).mpr
              ⟨(createdNets_names_iff accepted read created).mp nodup, fun s₀ s _ n type generates => ?_⟩⟩
          obtain ⟨some, solid, short⟩ := plain n generates.low
          exact .inl ⟨some, fun ch mem => Bool.not_eq_true _ ▸ List.any_eq_false.mp solid ch mem, short⟩

end SafRprGen
