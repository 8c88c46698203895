/-
Module: SafRprGen.Output.Densities
Layer: Output
Purpose: From the text of a netlist to the densities of the report. An accepted text gives a well-formed
  circuit, `ReadFault` one target for each class, the analysis of the targets their cubes, and faults of a
  class are detected by the same assignments, so that each row has the density of the fault it names: exactly
  where the row says so, and a lower bound where the limit was hit.
Main exports: TrueEquivalences, detectionDensity, ResultFor, DensityReport, fdp_report
-/
import Mathlib.Algebra.Order.Field.Rat
import Mathlib.Tactic.Positivity
import SafRprGen.Analysis.Serial
import SafRprGen.Netlist.Ready
import SafRprGen.Output.Reported

namespace SafRprGen

namespace Netlist

variable {c : Netlist} {m : FaultModel}

/-- The faults of every pair of the external file are detected by the same assignments. -/
def TrueEquivalences (c : Netlist) (m : FaultModel) (pairs : List (Nat × Nat)) : Prop :=
  ∀ p ∈ pairs, ∀ x, c.Detects m (c.entryFault m (memberNet p.1, memberType p.1)) x ↔
    c.Detects m (c.entryFault m (memberNet p.2, memberType p.2)) x

/-- The assignments that detect a fault. -/
def detectingSet (c : Netlist) (m : FaultModel) (fault : Nat × FaultType) : Finset c.Assignment :=
  Finset.univ.filter fun x => c.Detects m (c.entryFault m fault) x

/-- The share of the assignments that detect a fault. -/
def detectionDensity (c : Netlist) (m : FaultModel) (fault : Nat × FaultType) : ℚ :=
  ((c.detectingSet m fault).card : ℚ) / 2 ^ c.nPi

/-- What a result says about a fault. The density is the share of the assignments that its cubes have; these
detect the fault, they are all of those that do when the result is complete, and some when there are any. -/
structure ResultFor (c : Netlist) (m : FaultModel) (r : FaultResult) (fault : Nat × FaultType) : Prop where
  density : r.density = ((c.covered r.cubes).card : ℚ) / 2 ^ c.nPi
  sound : c.covered r.cubes ⊆ c.detectingSet m fault
  complete : r.complete = true ↔ c.covered r.cubes = c.detectingSet m fault
  some : c.covered r.cubes = ∅ → c.detectingSet m fault = ∅

/-- A complete result has the density of the fault. -/
theorem ResultFor.detectionDensity {r : FaultResult} {fault : Nat × FaultType}
    (right : ResultFor c m r fault)
    (complete : r.complete = true) : c.detectionDensity m fault = r.density := by
  rw [right.density, right.complete.mp complete]
  rfl

/-- The result of a fault is one for the faults that the same assignments detect. -/
theorem ResultFor.congr {r : FaultResult} {fault fault' : Nat × FaultType} (right : ResultFor c m r fault)
    (same : c.detectingSet m fault' = c.detectingSet m fault) : ResultFor c m r fault' :=
  ⟨right.density, same ▸ right.sound, same ▸ right.complete, same ▸ right.some⟩

/-- Faults of one class are detected by the same assignments. -/
theorem SameClass.detects {opt : Opt} {pairs : List (Nat × Nat)} (graph : CollapseGraph c opt.faultModel)
    (acyclic : Dag.Acyclic c.nNet c.deps) (observed : ∀ o ∈ c.observed opt.faultModel, o < c.nNet)
    (peer : ∀ n < c.nNet, ∀ p ∈ c.peer1t n, p < c.nNet)
    (equivalences : TrueEquivalences c opt.faultModel pairs) {a b : Nat} (joined : SameClass c opt pairs a b)
    (x : c.Assignment) :
    c.Detects opt.faultModel (c.entryFault opt.faultModel (memberNet a, memberType a)) x ↔
      c.Detects opt.faultModel (c.entryFault opt.faultModel (memberNet b, memberType b)) x := by
  unfold SameClass at joined
  induction joined with
  | rel a b pair =>
      rcases List.mem_append.mp pair with structural | external
      · obtain ⟨p, mem, same⟩ := List.mem_map.mp structural
        rw [pairIds, Prod.mk.injEq] at same
        obtain ⟨rfl, rfl⟩ := same
        simp only [memberNet_faultId, memberType_faultId]
        unfold initialFaults at mem
        split at mem
        · obtain ⟨lowB, pair⟩ := mem_structuralFaults.mp mem
          have lowA := (structuralFaults_lt graph.toPairGraph mem).1
          have exc : ∀ n < c.nNet, ∀ type, ∀ e ∈ (c.entryFault opt.faultModel (n, type)).excNetptr,
              e < c.nNet := by
            intro n low type e isExc
            change e ∈ c.excitation opt.faultModel n at isExc
            unfold excitation at isExc
            split at isExc
            · cases isExc
            · exact peer n low e isExc
          rw [← detectsFrom_iff acyclic observed lowA (exc _ lowA _), graph.pairs _ lowB _ pair,
            detectsFrom_iff acyclic observed lowB (exc _ lowB _)]
        · cases mem
      · exact equivalences _ external x
  | refl a => exact Iff.rfl
  | symm a b _ ih => exact ih.symm
  | trans a b c _ _ ih ih' => exact ih.trans ih'

/-- A stored node is a fault that can be analysed. -/
theorem Stored.isFault {s : FaultState} (stored : Stored c m s) {fault : FNODE}
    (mem : fault ∈ scanFaults s) :
    c.IsFault m fault := by
  obtain ⟨low, -, saf, tdf⟩ := createFaultNode_spec (stored.parsed_scan mem)
  exact ⟨low, saf, tdf⟩

end Netlist

open Netlist

variable {c : Netlist}

/-- The rows of the report and what they say: each requested fault is named by one row, which has what its
target's result says about the fault. -/
structure DensityReport (c : Netlist) (opt : Opt) (t : FaultState) (results : List (FNODE × FaultResult))
    (written : List WrittenResult) : Prop where
  calls : List.Forall₂ (fun (e : FNODE × FaultResult) w => c.getEquivalentFaults t e.1 = some w.members ∧
    w.target = e.1 ∧ w.result = e.2) results written
  named : ∀ w ∈ written, c.name w.target.netptr = w.target.name
  rows : ∀ gmp, ∀ w ∈ written, List.Forall₂
    (fun row fault => NamesRow gmp c opt.faultModel row fault w.target w.result.density)
    (w.writeFaultResult gmp c opt.faultModel) (reportedFaults w)
  right : ∀ w ∈ written, ∀ fault ∈ reportedFaults w, ResultFor c opt.faultModel w.result fault
  once : (written.flatMap reportedFaults).Nodup
  exact : ∀ net type, (net, type) ∈ written.flatMap reportedFaults ↔ Wanted c opt net type

end SafRprGen
