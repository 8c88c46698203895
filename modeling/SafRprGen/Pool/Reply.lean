/-
Module: SafRprGen.Pool.Reply
Layer: Pool
Purpose: What a worker of `worker_pool.c` answers for one fault: the header, which is sent as it lies in
  memory, followed by the text for the CSV file and the text of the cube file. The task is a parameter;
  a job fixes what it yields for every fault. The serial loop of `AnalyzeIndependentFaults` for the same
  yields closes the module, with the whole output of a job in the order of its faults.
Main exports: FaultReply, FaultReply.read_bytes, TaskResult, Job, analyzeAndReply, writeCubeFile,
  serialLoop, serialLoop_spec
-/
import SafRprGen.Lib.Bytes
import SafRprGen.Netlist.Basic

namespace SafRprGen

namespace Pool

open Bytes

/-- `FaultStats`: three doubles, kept as their bits. -/
structure FaultStats where
  cadical : BitVec 64
  bdd : BitVec 64
  xid : BitVec 64
deriving DecidableEq, Repr

/-- `FaultReply`: `int` is 32 bits, `size_t` is 64. -/
structure FaultReply where
  faultIndex : BitVec 32
  succeeded : BitVec 32
  csvSize : BitVec 64
  cubeSize : BitVec 64
  stats : FaultStats
deriving DecidableEq, Repr

/-- `sizeof(FaultReply)`. -/
def replySize : Nat := 48

/-- `sizeof(int)`. -/
def intSize : Nat := 4

/-- `NO_FAULT`, which asks a worker to stop. -/
def noFault : BitVec 32 := BitVec.ofInt 32 (-1)

/-- The header as `send_bytes` sends it. No field needs padding. -/
def FaultReply.bytes (r : FaultReply) : List UInt8 :=
  wordBytes 4 r.faultIndex ++ (wordBytes 4 r.succeeded ++ (wordBytes 8 r.csvSize ++
    (wordBytes 8 r.cubeSize ++ (wordBytes 8 r.stats.cadical ++ (wordBytes 8 r.stats.bdd ++
      wordBytes 8 r.stats.xid)))))

/-- The header that `receive_bytes` leaves in `reply`. -/
def FaultReply.read (bytes : List UInt8) : FaultReply where
  faultIndex := readWord 4 (bytes.take 4)
  succeeded := readWord 4 ((bytes.drop 4).take 4)
  csvSize := readWord 8 ((bytes.drop 8).take 8)
  cubeSize := readWord 8 ((bytes.drop 16).take 8)
  stats :=
    { cadical := readWord 8 ((bytes.drop 24).take 8)
      bdd := readWord 8 ((bytes.drop 32).take 8)
      xid := readWord 8 ((bytes.drop 40).take 8) }

@[simp] theorem FaultReply.length_bytes (r : FaultReply) : r.bytes.length = replySize := by
  simp only [FaultReply.bytes, List.length_append, length_wordBytes, replySize]

@[simp] theorem FaultReply.read_bytes (r : FaultReply) : FaultReply.read r.bytes = r := by
  simp [FaultReply.read, FaultReply.bytes, List.drop_append, List.take_of_length_le,
    List.drop_of_length_le]

/-- A fault's index on its way to a worker. -/
def intBytes (x : BitVec 32) : List UInt8 := wordBytes 4 x

@[simp] theorem length_intBytes (x : BitVec 32) : (intBytes x).length = intSize := length_wordBytes 4 x

@[simp] theorem readWord_intBytes (x : BitVec 32) : readWord 4 (intBytes x) = x := readWord_wordBytes 4 x

/-- What one call of the task leaves: its verdict, the two memory streams and the times. A stream holds
one byte more than its size, so the size is below `SIZE_MAX`. -/
structure TaskResult where
  succeeded : Bool
  csv : List UInt8
  cubes : List UInt8
  stats : FaultStats
  csv_lt : csv.length < 2 ^ 64 - 1
  cubes_lt : cubes.length < 2 ^ 64 - 1

/-- The arguments of `FaultPoolRun`, with what the task yields for each fault and how many bytes a socket
takes up before a writer has to wait. `count` is an `int`, and the pool is only called with more than one
job. -/
structure Job where
  fault : Nat → FNODE
  count : Nat
  jobs : Nat
  saveCubes : Bool
  task : Nat → TaskResult
  plus : BitVec 64 → BitVec 64 → BitVec 64
  room : Nat
  count_lt : count < 2 ^ 31
  jobs_pos : 0 < jobs
  room_pos : 0 < room

namespace Job

variable (c : Job)

/-- `worker_count`. -/
def workerCount : Nat := min c.jobs c.count

/-- `FaultStatsAdd`. -/
def faultStatsAdd (sum part : FaultStats) : FaultStats :=
  ⟨c.plus sum.cadical part.cadical, c.plus sum.bdd part.bdd, c.plus sum.xid part.xid⟩

/-- The cube text of a fault; without a cube output there is no cube stream. -/
def cubes (i : Nat) : List UInt8 := if c.saveCubes then (c.task i).cubes else []

/-- The header of `analyze_and_reply`; a task that failed hands over no text. -/
def reply (i : Nat) : FaultReply where
  faultIndex := BitVec.ofNat 32 i
  succeeded := if (c.task i).succeeded then 1 else 0
  csvSize := if (c.task i).succeeded then BitVec.ofNat 64 (c.task i).csv.length else 0
  cubeSize := if (c.task i).succeeded then BitVec.ofNat 64 (c.cubes i).length else 0
  stats := (c.task i).stats

/-- What `analyze_and_reply` sends, in the order of its three calls. -/
def analyzeAndReply (i : Nat) : List UInt8 :=
  (c.reply i).bytes ++
    if (c.task i).succeeded then (c.task i).csv ++ c.cubes i else []

theorem length_cubes_lt (i : Nat) : (c.cubes i).length < 2 ^ 64 - 1 := by
  unfold Job.cubes
  split
  · exact (c.task i).cubes_lt
  · decide

end Job

/-- What the run writes: the CSV file, and the calls of `WriteCubeFile` that have a text. -/
structure Files where
  csv : List UInt8
  cubes : List (FNODE × List UInt8)
deriving DecidableEq

/-- `WriteCubeFile`, which does nothing when the text is empty. -/
def writeCubeFile (fault : FNODE) (text : List UInt8) (files : Files) : Files :=
  if text = [] then files else { files with cubes := files.cubes ++ [(fault, text)] }

namespace Job

variable (c : Job)

/-- `AnalyzeSerialFault` where the writes succeed. -/
def analyzeSerialFault (i : Nat) (files : Files) : Bool × Files :=
  let written := { files with csv := files.csv ++ (c.task i).csv }
  ((c.task i).succeeded,
    if (c.task i).succeeded && c.saveCubes then writeCubeFile (c.fault i) (c.task i).cubes written
    else written)

/-- The serial loop of `AnalyzeIndependentFaults` over the first `k` faults. -/
def serialLoop : Nat → Bool × Files
  | 0 => (true, ⟨[], []⟩)
  | k + 1 =>
      let (succeeded, files) := serialLoop k
      if succeeded then c.analyzeSerialFault k files else (succeeded, files)

/-- What the first `k` faults put into the CSV file. -/
def csvUpTo (k : Nat) : List UInt8 := (List.range k).flatMap fun i => (c.task i).csv

/-- The calls of `WriteCubeFile` for the first `k` faults. -/
def cubesUpTo (k : Nat) : List (FNODE × List UInt8) :=
  (List.range k).flatMap fun i => if c.cubes i = [] then [] else [(c.fault i, c.cubes i)]

theorem csvUpTo_succ (k : Nat) : c.csvUpTo (k + 1) = c.csvUpTo k ++ (c.task k).csv := by
  simp only [Job.csvUpTo, List.range_succ, List.flatMap_append, List.flatMap_cons, List.flatMap_nil,
    List.append_nil]

theorem cubesUpTo_succ (k : Nat) :
    c.cubesUpTo (k + 1) = c.cubesUpTo k ++ if c.cubes k = [] then [] else [(c.fault k, c.cubes k)] := by
  simp only [Job.cubesUpTo, List.range_succ, List.flatMap_append, List.flatMap_cons, List.flatMap_nil,
    List.append_nil]

theorem csvUpTo_prefix {k n : Nat} (le : k ≤ n) : c.csvUpTo k <+: c.csvUpTo n := by
  induction n, le using Nat.le_induction with
  | base => exact List.prefix_refl _
  | succ n _ ih =>
      rw [csvUpTo_succ]
      exact ih.trans (List.prefix_append _ _)

theorem cubesUpTo_prefix {k n : Nat} (le : k ≤ n) : c.cubesUpTo k <+: c.cubesUpTo n := by
  induction n, le using Nat.le_induction with
  | base => exact List.prefix_refl _
  | succ n _ ih =>
      rw [cubesUpTo_succ]
      exact ih.trans (List.prefix_append _ _)

/-- Where every task succeeds the serial loop writes the outputs of the faults in their order. -/
theorem serialLoop_spec {k : Nat} (all : ∀ i < k, (c.task i).succeeded = true) :
    c.serialLoop k = (true, ⟨c.csvUpTo k, c.cubesUpTo k⟩) := by
  induction k with
  | zero => rfl
  | succ k ih =>
      have last := all k (Nat.lt_succ_self k)
      rw [Job.serialLoop, ih fun i lt => all i (Nat.lt_succ_of_lt lt)]
      simp only [if_true, Job.analyzeSerialFault, last, Bool.true_and, csvUpTo_succ, cubesUpTo_succ,
        Job.cubes, writeCubeFile]
      by_cases save : c.saveCubes = true <;> by_cases none : (c.task k).cubes = [] <;> simp [save, none]

end Job

end Pool

end SafRprGen
