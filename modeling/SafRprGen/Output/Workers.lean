/-
Module: SafRprGen.Output.Workers
Layer: Output
Purpose: `AnalyzeIndependentFaults` with one process and with workers. A worker analyses the faults it is
  given in a process of its own, with another history than the serial loop, and `FaultPoolRun` puts the
  texts together; the files are the same.
Main exports: CubeOptions, writeFaultCubes, writeResults, Serves, faultPoolRun_serial
-/
import SafRprGen.Analysis.Serial
import SafRprGen.Output.FaultCsv
import SafRprGen.Pool.Success

namespace SafRprGen

/-- The options that choose which cubes are saved; `fdpMax` is the bound of `-cube_fdp_max`. -/
structure CubeOptions where
  limit : Int
  includeIncomplete : Bool
  fdpMax : Option ℚ

/-- `WriteFaultCubes`: what it prints into the cube stream. -/
def writeFaultCubes (m : FaultModel) (o : CubeOptions) (target : FNODE) (r : FaultResult) : CStr :=
  if (!r.complete && !o.includeIncomplete) || decide (r.density ≤ 0) then []
  else if 0 < o.limit ∧ o.limit < r.cubes.length then []
  else if o.fdpMax.any fun maximum => decide (maximum < r.density) then []
  else
    target.name ++ '\t' :: faultTypeName m target.type ++ '\n' ::
      (if r.complete then "complete".toList else "incomplete".toList) ++ '\n' ::
        r.cubes.flatMap fun cube => cube ++ ['\n']

/-- The bytes of a text. -/
def toBytes (text : CStr) : List UInt8 := text.map fun ch => UInt8.ofNat ch.toNat

namespace WrittenResult

variable (gmp : Gmp) (c : Netlist) (m : FaultModel) (o : CubeOptions) (r : WrittenResult)

/-- What `EmitFaultResult` puts into the CSV stream. -/
def csvBytes : List UInt8 := toBytes (r.writeFaultResult gmp c m).flatten

/-- What `EmitFaultResult` puts into the cube stream. -/
def cubeBytes : List UInt8 := toBytes (writeFaultCubes m o r.target r.result)

/-- What `AnalyzeSerialFault` does to the files for a result. -/
def analyzeSerialFault (save : Bool) (files : Pool.Files) : Pool.Files :=
  let written := { files with csv := files.csv ++ r.csvBytes gmp c m }
  if save then Pool.writeCubeFile r.target (r.cubeBytes m o) written else written

end WrittenResult

/-- The files after the results of the serial loop. -/
def writeResults (gmp : Gmp) (c : Netlist) (m : FaultModel) (o : CubeOptions) (save : Bool)
    (results : List WrittenResult) : Pool.Files :=
  results.foldl (fun files r => r.analyzeSerialFault gmp c m o save files) ⟨[], []⟩

theorem writeResults_eq (gmp : Gmp) (c : Netlist) (m : FaultModel) (o : CubeOptions) (save : Bool)
    (results : List WrittenResult) : writeResults gmp c m o save results =
      ⟨results.flatMap (WrittenResult.csvBytes gmp c m), results.flatMap fun r =>
        if save = false ∨ r.cubeBytes m o = [] then [] else [(r.target, r.cubeBytes m o)]⟩ := by
  unfold writeResults
  induction results using List.reverseRecOn with
  | nil => rfl
  | append_singleton results r ih =>
      rw [List.foldl_append, ih, List.flatMap_append, List.flatMap_append]
      simp only [List.foldl_cons, List.foldl_nil, List.flatMap_cons, List.flatMap_nil, List.append_nil,
        WrittenResult.analyzeSerialFault, Pool.writeCubeFile]
      cases save <;> by_cases none : r.cubeBytes m o = [] <;> simp [none]

/-- The arguments with which `AnalyzeIndependentFaults` calls `FaultPoolRun`. A task hands over a text only
where `AnalyzeOneFault` has reported a result in the worker's process, whatever faults it had before. -/
structure Serves (gmp : Gmp) (k : Circuit) (gbm : Cudd k.netlist.nPi) (solvers : FNODE → CCaDiCaL)
    (o : CubeOptions) (t : FaultState) (targets : List FNODE) (job : Pool.Job) : Prop where
  faults : (List.range job.count).map job.fault = targets
  task : ∀ i < job.count, (job.task i).succeeded = true → ∃ p fuel result members, Reached k p ∧
    k.analyzeOneFault gbm (solvers (job.fault i)) o.limit (job.fault i) p fuel = some (.reported result) ∧
    k.netlist.getEquivalentFaults t (job.fault i) = some members ∧
    (job.task i).csv = (WrittenResult.mk (job.fault i) result members).csvBytes gmp k.netlist k.model ∧
    (job.saveCubes = true →
      (job.task i).cubes = (WrittenResult.mk (job.fault i) result members).cubeBytes k.model o)

section Serial

variable {k : Circuit} {gbm : Cudd k.netlist.nPi} {limit : Int} {solvers : FNODE → CCaDiCaL}

/-- Results that the faults have in any processes are those of the serial loop. -/
theorem analyzeSerial_done {targets : List FNODE} {results : List FaultResult}
    (alone : List.Forall₂ (fun f r => k.netlist.IsFault k.model f ∧ ∃ q fuel, Reached k q ∧
      k.analyzeOneFault gbm (solvers f) limit f q fuel = some (.reported r)) targets results) :
    ∀ {p : Process}, Reached k p →
      ∃ fuel, k.analyzeSerial gbm limit solvers fuel targets p = some (targets.zip results, .done) := by
  induction alone with
  | nil => exact fun _ => ⟨0, rfl⟩
  | @cons f r targets results first _ ih =>
      intro p reached
      obtain ⟨fault, q, fuel, reached', run⟩ := first
      rw [analyzeOneFault_history reached' reached fault, ← analyzeFault_outcome] at run
      obtain ⟨⟨outcome, p'⟩, run, same⟩ := Option.map_eq_some_iff.mp run
      obtain rfl : outcome = .reported r := same
      obtain ⟨fuel', rest⟩ := ih (analyzeFault_reached reached fault run)
      refine ⟨fuel + fuel', Option.bind_eq_some_iff.mpr ⟨_, analyzeFault_mono run fuel', ?_⟩⟩
      have later := analyzeSerial_mono rest fuel
      rw [Nat.add_comm fuel' fuel] at later
      exact Option.map_eq_some_iff.mpr ⟨_, later, rfl⟩

end Serial

open Pool

/-- A run of the pool that returns true has done the work of the serial loop. -/
theorem faultPoolRun_serial (gmp : Gmp) (k : Circuit) (gbm : Cudd k.netlist.nPi) (solvers : FNODE → CCaDiCaL)
    (o : CubeOptions) (t : FaultState) (targets : List FNODE)
    (faults : ∀ f ∈ targets, k.netlist.IsFault k.model f) (job : Job)
    (serves : Serves gmp k gbm solvers o t targets job) (es : List Event) (s : System)
    (run : job.Run es s) (returned : s.phase = .returned true) (p : Process) (reached : Reached k p) :
    ∃ fuel results written, k.analyzeSerial gbm o.limit solvers fuel targets p = some (results, .done) ∧
      List.Forall₂ (fun (e : FNODE × FaultResult) w => k.netlist.getEquivalentFaults t e.1 = some w.members ∧
        w.target = e.1 ∧ w.result = e.2) results written ∧
      s.files = writeResults gmp k.netlist k.model o job.saveCubes written := by
  obtain ⟨files, tasks, -⟩ := (Inv.run run).returned returned
  have succeeded : ∀ i < job.count, (job.task i).succeeded = true := fun i low => (tasks i low).1
  have each : ∀ i, ∃ result members, i < job.count → (∃ p fuel, Reached k p ∧
      k.analyzeOneFault gbm (solvers (job.fault i)) o.limit (job.fault i) p fuel = some (.reported result)) ∧
      k.netlist.getEquivalentFaults t (job.fault i) = some members ∧
      (job.task i).csv = (WrittenResult.mk (job.fault i) result members).csvBytes gmp k.netlist k.model ∧
      (job.saveCubes = true →
        (job.task i).cubes = (WrittenResult.mk (job.fault i) result members).cubeBytes k.model o) := by
    intro i
    by_cases low : i < job.count
    · obtain ⟨p, fuel, result, members, reached, run, rest⟩ := serves.task i low (succeeded i low)
      exact ⟨result, members, fun _ => ⟨⟨p, fuel, reached, run⟩, rest⟩⟩
    · exact ⟨⟨[], 0, false, 0⟩, [], fun low' => absurd low' low⟩
  choose result members each using each
  have targetsEq := serves.faults
  obtain ⟨fuel, serial⟩ := @analyzeSerial_done k gbm o.limit solvers targets
    ((List.range job.count).map result) (by
      rw [← targetsEq, List.forall₂_map_left_iff, List.forall₂_map_right_iff, List.forall₂_same]
      intro i mem
      refine ⟨faults _ (targetsEq ▸ List.mem_map_of_mem mem), (each i (List.mem_range.mp mem)).1⟩) p reached
  refine ⟨fuel, _, (List.range job.count).map fun i => ⟨job.fault i, result i, members i⟩, serial, ?_, ?_⟩
  · rw [← targetsEq, List.zip_map', List.forall₂_map_left_iff, List.forall₂_map_right_iff, List.forall₂_same]
    intro i mem
    exact ⟨(each i (List.mem_range.mp mem)).2.1, rfl, rfl⟩
  · rw [files, writeResults_eq, List.flatMap_map, List.flatMap_map]
    unfold Job.csvUpTo Job.cubesUpTo Job.cubes
    congr 1
    · apply List.flatMap_congr
      intro i mem
      exact (each i (List.mem_range.mp mem)).2.2.1
    · apply List.flatMap_congr
      intro i mem
      cases save : job.saveCubes with
      | false => rfl
      | true =>
          have same := (each i (List.mem_range.mp mem)).2.2.2 save
          simp only [Bool.true_eq_false, if_true, false_or, same]

/-- A quarter of the assignments detect the fault of the AND gate. -/
def quarter : Gmp where
  snprintf := fun _ => "2.5000000000e-01".toList
  setStr := fun _ _ => some (1 / 4)

/-- A worker reports a result for a fault that no assignment ends the program for. -/
theorem reported_and {f : FNODE} (fault : andCircuit.netlist.IsFault andCircuit.model f)
    (fits : ∀ x, andCircuit.netlist.xidOverflows andCircuit.model f x = false) :
    ∃ p fuel r, Reached andCircuit p ∧ andCircuit.analyzeOneFault (.functions andCircuit.netlist.nPi)
      (.preferring fun _ => true) 1 f p fuel = some (.reported r) ∧ r.cubeCnt ≤ 1 := by
  have reached : Reached andCircuit _ := .start (fun _ => resetInfo false) fun _ _ => 0
  obtain ⟨fuel, outcome, run, ⟨r, rfl, right⟩ | ⟨-, x, -, overflow⟩⟩ :=
    analyzeOneFault_ends (.functions andCircuit.netlist.nPi) (.preferring fun _ => true) 1 reached fault
  · refine ⟨_, fuel, r, reached, run, ?_⟩
    rw [right.cubeCnt]
    exact_mod_cast right.limited (by decide)
  · rw [fits x] at overflow
    cases overflow

theorem faultPoolRun_serial_and : ∃ job : Job, ∃ es t es' s, job.Run es t ∧
    (t.pool.results 1).ready = true ∧ (t.pool.results 0).ready = false ∧
    Transition.Run (Step job) t es' s ∧ s.phase = .returned true ∧
    ∃ fuel results written, andCircuit.analyzeSerial (.functions andCircuit.netlist.nPi) 1
        (fun _ => .preferring fun _ => true) fuel [andFault, andFault₁]
        (andCircuit.netlist.startProcess (fun _ => resetInfo false) fun _ _ => 0) = some (results, .done) ∧
      List.Forall₂ (fun (e : FNODE × FaultResult) w =>
        andCircuit.netlist.getEquivalentFaults Netlist.emptyFaultState e.1 = some w.members ∧
          w.target = e.1 ∧ w.result = e.2) results written ∧
      s.files = writeResults quarter andCircuit.netlist andCircuit.model
        ⟨1, false, none⟩ job.saveCubes written := by
  let fault : Nat → FNODE := fun i => if i = 0 then andFault else andFault₁
  have isFault : ∀ i, andCircuit.netlist.IsFault andCircuit.model (fault i) := by
    intro i
    by_cases first : i = 0
    · rw [show fault i = andFault from if_pos first]
      exact andFault_isFault
    · rw [show fault i = andFault₁ from if_neg first]
      exact andFault₁_isFault
  have fits : ∀ i x, andCircuit.netlist.xidOverflows andCircuit.model (fault i) x = false := by
    have both : ∀ f ∈ [andFault, andFault₁], ∀ x,
        andCircuit.netlist.xidOverflows andCircuit.model f x = false := by decide +kernel
    intro i
    apply both _
    by_cases first : i = 0 <;> simp [fault, first]
  choose p fuel r reached run few using fun i => reported_and (isFault i) (fits i)
  let line : Nat → List UInt8 := fun i =>
    (WrittenResult.mk (fault i) (r i) []).csvBytes quarter andCircuit.netlist andCircuit.model
  have size : ∀ i, 0 < (line i).length ∧ (line i).length < 2 ^ 64 - 1 := by
    have bounded : ∀ f ∈ [andFault, andFault₁], ∀ n ≤ 1, ∀ b : Bool,
        0 < ((WrittenResult.mk f ⟨[], n, b, 0⟩ []).csvBytes quarter andCircuit.netlist
          andCircuit.model).length ∧
        ((WrittenResult.mk f ⟨[], n, b, 0⟩ []).csvBytes quarter andCircuit.netlist
          andCircuit.model).length < 2 ^ 64 - 1 := by decide +kernel
    intro i
    refine bounded (fault i) ?_ (r i).cubeCnt (few i) (r i).complete
    by_cases first : i = 0 <;> simp [fault, first]
  obtain ⟨es, t, es', s, before, -, second, first, more, returned⟩ :=
    @duoJob_run fault line (fun i => (size i).2) (size 1).1
  refine ⟨_, es, t, es', s, before, second, first, more, returned,
    faultPoolRun_serial quarter andCircuit _ _ ⟨1, false, none⟩ Netlist.emptyFaultState
      [andFault, andFault₁] ?_ _ ⟨rfl, fun i low _ => ?_⟩ _ s (before.trans more) returned _ (.start _ _)⟩
  · intro f mem
    rcases List.mem_pair.mp mem with rfl | rfl
    · exact andFault_isFault
    · exact andFault₁_isFault
  · have alone : ∀ f ∈ [andFault, andFault₁],
        andCircuit.netlist.getEquivalentFaults Netlist.emptyFaultState f = some [] := by decide
    refine ⟨p i, fuel i, r i, [], reached i, run i, alone _ ?_, rfl, fun save => by cases save⟩
    by_cases here : i = 0 <;> simp [duoJob, fault, here]

end SafRprGen
