/-
Module: SafRprGen.Pool.Model
Layer: Pool
Purpose: `FaultPoolRun` as a transition system. The parent is at one point of its code (`Phase`), every
  worker is a process at one point of `worker_loop`, and between the two lies a stream socket: bytes on
  their way in either direction, and whether the two ends are open. One step is one call to the system
  or one stretch of code between two calls. What the system decides is left open: how many bytes a
  `read` or `write` moves, which process runs next, when a signal comes, which call fails, when a worker
  dies.
Main exports: Phase, WorkerProcess, Socket, FaultPool, System, Event, ParentStep, WorkerStep, Step, Job.start
-/
import Mathlib.Logic.Function.Basic
import SafRprGen.Lib.Transition
import SafRprGen.Pool.Reply

namespace SafRprGen

namespace Pool

open Bytes

/-- Where `FaultPoolRun` is. `launching` tells the call of `assign_next_fault` in the start loop from the
one in `collect_fault_results`. -/
inductive Phase where
  | entry
  | launch (index : Nat)
  | assigning (index : Nat) (launching : Bool)
  | sending (index : Nat) (rest : List UInt8) (launching : Bool)
  | collect
  | scan (index : Nat)
  | header (index : Nat) (got : List UInt8)
  | csv (index : Nat) (reply : FaultReply) (got : List UInt8)
  | cubes (index : Nat) (reply : FaultReply) (csv got : List UInt8)
  | output (index : Nat)
  | outputCube (index fault : Nat)
  | stop (index : Nat) (rest : List UInt8)
  | terminate
  | wait (index : Nat) (succeeded workers : Bool)
  | reap (index : Nat) (succeeded workers : Bool)
  | returned (succeeded : Bool)

namespace Phase

/-- Where the caller of `assign_next_fault` goes on. -/
def resume (index : Nat) (launching : Bool) : Phase :=
  if launching then .launch (index + 1) else .scan (index + 1)

/-- The worker a `send_bytes` of the parent writes to, and what is left to write. -/
def outgoing : Phase → Option (Nat × List UInt8)
  | .sending w rest _ => some (w, rest)
  | .stop w rest => some (w, rest)
  | _ => none

/-- The phase after `k` more bytes have been written. -/
def sent (k : Nat) : Phase → Phase
  | .sending w rest launching => .sending w (rest.drop k) launching
  | .stop w rest => .stop w (rest.drop k)
  | p => p

/-- The worker a `receive_bytes` of the parent reads from, and how many bytes are still to come. -/
def incoming : Phase → Option (Nat × Nat)
  | .header w got => some (w, replySize - got.length)
  | .csv w reply got => some (w, reply.csvSize.toNat - got.length)
  | .cubes w reply _ got => some (w, reply.cubeSize.toNat - got.length)
  | _ => none

/-- The phase after more bytes have been read. -/
def received (bytes : List UInt8) : Phase → Phase
  | .header w got => .header w (got ++ bytes)
  | .csv w reply got => .csv w reply (got ++ bytes)
  | .cubes w reply text got => .cubes w reply text (got ++ bytes)
  | p => p

/-- A `read` or `write` of the parent is due. -/
def transferring (p : Phase) : Prop :=
  (∃ w rest, p.outgoing = some (w, rest) ∧ rest ≠ []) ∨ ∃ w size, p.incoming = some (w, size) ∧ 0 < size

end Phase

/-- Where a worker is in `worker_loop`. Its exit status counts only as being zero or not. -/
inductive WorkerProcess where
  | notStarted
  | receiving (got : List UInt8)
  | replying (index : Nat) (rest : List UInt8)
  | finishing
  | exited (clean : Bool)

/-- The process runs. -/
def WorkerProcess.alive : WorkerProcess → Prop
  | .notStarted => False
  | .exited _ => False
  | _ => True

/-- A socket pair: the bytes under way, and whether its ends are open. -/
structure Socket where
  toWorker : List UInt8
  toParent : List UInt8
  workerEnd : Bool
  parentEnd : Bool

/-- `WorkerState`; `pid` tells whether the number is positive, `faultIndex` is empty at `NO_FAULT`. -/
structure WorkerState where
  pid : Bool
  faultIndex : Option Nat

/-- `PendingFaultOutput`. -/
structure PendingFaultOutput where
  csv : List UInt8
  cubes : List UInt8
  ready : Bool

/-- `FaultPool`; `events` tells whether `POLLIN` is asked for. -/
structure FaultPool where
  workers : Nat → WorkerState
  events : Nat → Bool
  revents : Nat → Bool
  results : Nat → PendingFaultOutput
  nextFault : Nat
  completedFaults : Nat
  nextOutput : Nat
  stats : FaultStats

structure System where
  phase : Phase
  pool : FaultPool
  process : Nat → WorkerProcess
  socket : Nat → Socket
  signalled : Nat → Bool
  cancelled : Bool
  files : Files

/-- What a step shows: an assignment, a worker that ends outside its own code, a call that the system
refuses, a call that a signal interrupts, the signal that cancels the run, or anything else. -/
inductive Event where
  | assign (worker fault : Nat)
  | run
  | crash (worker : Nat)
  | refused
  | interrupted
  | cancel
deriving DecidableEq

namespace System

variable (c : Job) (s : System)

def goto (p : Phase) : System := { s with phase := p }

def setProcess (w : Nat) (p : WorkerProcess) : System :=
  { s with process := Function.update s.process w p }

def setSocket (w : Nat) (socket : Socket) : System :=
  { s with socket := Function.update s.socket w socket }

def setWorker (w : Nat) (worker : WorkerState) : System :=
  { s with pool := { s.pool with workers := Function.update s.pool.workers w worker } }

/-- A `read` or `write` of the parent that moved bytes: `transfer_bytes` goes on unless the run has been
cancelled. -/
def transferred (p : Phase) : System := s.goto (if s.cancelled then .terminate else p)

/-- `start_worker`. -/
def startWorker (w : Nat) : System :=
  ((s.setProcess w (.receiving [])).setSocket w ⟨[], [], true, true⟩).setWorker w ⟨true, none⟩

/-- `assign_next_fault` up to its `send_bytes`. -/
def assignNextFault (w : Nat) : System :=
  { s with
    pool := { s.pool with
      workers := Function.update s.pool.workers w
        { s.pool.workers w with faultIndex := some s.pool.nextFault }
      nextFault := s.pool.nextFault + 1
      events := Function.update s.pool.events w true } }

/-- `assign_next_fault` when every fault has been handed out. -/
def idleWorker (w : Nat) : System :=
  { s with
    pool := { s.pool with
      workers := Function.update s.pool.workers w { s.pool.workers w with faultIndex := none }
      events := Function.update s.pool.events w false } }

/-- What `poll` reports: bytes on a socket that is asked about, or that its other end is closed. -/
def ready (w : Nat) : Bool :=
  !(s.socket w).workerEnd || (s.pool.events w && !(s.socket w).toParent.isEmpty)

def poll : System := { s with pool := { s.pool with revents := s.ready } }

/-- The checks of `receive_fault_result` on the header. -/
def accepts (w : Nat) (reply : FaultReply) : Bool :=
  match (s.pool.workers w).faultIndex with
  | none => false
  | some i =>
      reply.succeeded ≠ 0 && reply.faultIndex = BitVec.ofNat 32 i && !(s.pool.results i).ready &&
        reply.csvSize.toNat ≠ 2 ^ 64 - 1 && reply.cubeSize.toNat ≠ 2 ^ 64 - 1 &&
          (c.saveCubes || reply.cubeSize = 0)

/-- The end of `receive_fault_result`. -/
def storeResult (i : Nat) (reply : FaultReply) (csv cubes : List UInt8) : System :=
  { s with
    pool := { s.pool with
      results := Function.update s.pool.results i ⟨csv, cubes, true⟩
      completedFaults := s.pool.completedFaults + 1
      stats := c.faultStatsAdd s.pool.stats reply.stats } }

/-- The next result is ready to be written. -/
def writable : Prop :=
  s.pool.nextOutput < c.count ∧ (s.pool.results s.pool.nextOutput).ready = true

instance : Decidable (s.writable c) := inferInstanceAs (Decidable (_ ∧ _))

/-- `next_output++` and the `fwrite` of `write_ready_results`, which wrote these bytes. -/
def writeCsv (bytes : List UInt8) : System :=
  { s with
    pool := { s.pool with nextOutput := s.pool.nextOutput + 1 }
    files := { s.files with csv := s.files.csv ++ bytes } }

/-- The call of `WriteCubeFile`; afterwards the buffers are freed. -/
def writeCube (i : Nat) : System :=
  { s with
    pool := { s.pool with
      results := Function.update s.pool.results i { s.pool.results i with csv := [], cubes := [] } }
    files := writeCubeFile (c.fault i) (s.pool.results i).cubes s.files }

/-- `terminate_workers`. -/
def terminateWorkers : System :=
  { s with signalled := fun w => s.signalled w || decide (w < c.workerCount) && (s.pool.workers w).pid }

/-- The parent closes its end. -/
def closeSocket (w : Nat) : System := s.setSocket w { s.socket w with parentEnd := false }

/-- `worker->pid = 0`. -/
def forget (w : Nat) : System := s.setWorker w { s.pool.workers w with pid := false }

theorem forget_pid (w v : Nat) (pid : ((s.forget w).pool.workers v).pid = true) :
    (s.pool.workers v).pid = true := by
  by_cases same : v = w
  · subst same
    rw [show (s.forget v).pool.workers v = { s.pool.workers v with pid := false } from
      Function.update_self _ _ _] at pid
    cases pid
  · rwa [show (s.forget w).pool.workers v = s.pool.workers v from Function.update_of_ne same _ _] at pid

/-- A worker ends; the system closes its end of the socket. -/
def exit (w : Nat) (clean : Bool) : System :=
  (s.setProcess w (.exited clean)).setSocket w { s.socket w with workerEnd := false }

end System

/-- `send_stop_requests` from worker `w` on. -/
def Job.stopAt (c : Job) (w : Nat) : Phase :=
  if w < c.workerCount then .stop w (intBytes noFault) else .wait 0 true true

/-- The parent: `FaultPoolRun` and what it calls. -/
inductive ParentStep (c : Job) (s : System) : Event → System → Prop where
  | empty (here : s.phase = .entry) (none : c.count = 0) : ParentStep c s .run (s.goto (.returned true))
  | noMemory (here : s.phase = .entry) (some : c.count ≠ 0) :
      ParentStep c s .refused (s.goto (.returned false))
  | install (here : s.phase = .entry) (some : c.count ≠ 0) :
      ParentStep c s .run ({ s with cancelled := false }.goto (.launch 0))
  | flushFailed (here : s.phase = .entry) (some : c.count ≠ 0) :
      ParentStep c s .refused ({ s with cancelled := false }.goto .terminate)
  | started {w : Nat} (here : s.phase = .launch w) (lt : w < c.workerCount) :
      ParentStep c s .run ((s.startWorker w).goto (.assigning w true))
  | startFailed {w : Nat} (here : s.phase = .launch w) (lt : w < c.workerCount) :
      ParentStep c s .refused (s.goto .terminate)
  | launched {w : Nat} (here : s.phase = .launch w) (all : w = c.workerCount) :
      ParentStep c s .run (s.goto .collect)
  | assigned {w : Nat} {launching : Bool} (here : s.phase = .assigning w launching)
      (left : s.pool.nextFault ≠ c.count) :
      ParentStep c s (.assign w s.pool.nextFault) ((s.assignNextFault w).goto
        (.sending w (intBytes (BitVec.ofNat 32 s.pool.nextFault)) launching))
  | idle {w : Nat} {launching : Bool} (here : s.phase = .assigning w launching)
      (none : s.pool.nextFault = c.count) :
      ParentStep c s .run ((s.idleWorker w).goto (.resume w launching))
  | sent {w : Nat} {launching : Bool} (here : s.phase = .sending w [] launching) :
      ParentStep c s .run (s.goto (.resume w launching))
  -- `transfer_bytes`
  | send {w : Nat} {rest : List UInt8} (k : Nat) (here : s.phase.outgoing = some (w, rest)) (pos : 0 < k)
      (le : k ≤ rest.length) (room : (s.socket w).toWorker.length + k ≤ c.room)
      (open' : (s.socket w).workerEnd = true) :
      ParentStep c s .run ((s.setSocket w { s.socket w with
        toWorker := (s.socket w).toWorker ++ rest.take k }).transferred (s.phase.sent k))
  | brokenPipe {w : Nat} {rest : List UInt8} (here : s.phase.outgoing = some (w, rest)) (more : rest ≠ [])
      (closed : (s.socket w).workerEnd = false) : ParentStep c s .run (s.goto .terminate)
  | receive {w size : Nat} (k : Nat) (here : s.phase.incoming = some (w, size)) (pos : 0 < k)
      (le : k ≤ size) (available : k ≤ (s.socket w).toParent.length) :
      ParentStep c s .run ((s.setSocket w { s.socket w with
        toParent := (s.socket w).toParent.drop k }).transferred
          (s.phase.received ((s.socket w).toParent.take k)))
  | hangup {w size : Nat} (here : s.phase.incoming = some (w, size)) (more : 0 < size)
      (empty : (s.socket w).toParent = []) (closed : (s.socket w).workerEnd = false) :
      ParentStep c s .run (s.goto .terminate)
  | ioError (here : s.phase.transferring) : ParentStep c s .refused (s.goto .terminate)
  | interrupted (here : s.phase.transferring) : ParentStep c s .interrupted (s.transferred s.phase)
  -- `collect_fault_results`
  | polled (here : s.phase = .collect) (more : s.pool.completedFaults < c.count)
      (on : s.cancelled = false) (ready : ∃ w < c.workerCount, s.ready w = true) :
      ParentStep c s .run (s.poll.goto (.scan 0))
  | pollInterrupted (here : s.phase = .collect) (more : s.pool.completedFaults < c.count)
      (on : s.cancelled = false) : ParentStep c s .interrupted s
  | pollFailed (here : s.phase = .collect) (more : s.pool.completedFaults < c.count)
      (on : s.cancelled = false) : ParentStep c s .refused (s.goto .terminate)
  | collected (here : s.phase = .collect)
      (done : ¬ (s.pool.completedFaults < c.count ∧ s.cancelled = false)) :
      ParentStep c s .run (s.goto
        (if s.cancelled = false ∧ s.pool.completedFaults = c.count then c.stopAt 0 else .terminate))
  | scanned {w : Nat} (here : s.phase = .scan w) (all : w = c.workerCount) :
      ParentStep c s .run (s.goto .collect)
  | skipped {w : Nat} (here : s.phase = .scan w) (lt : w < c.workerCount)
      (quiet : s.pool.revents w = false) : ParentStep c s .run (s.goto (.scan (w + 1)))
  | served {w : Nat} (here : s.phase = .scan w) (lt : w < c.workerCount)
      (ready : s.pool.revents w = true) :
      ParentStep c s .run (s.goto
        (if (s.pool.workers w).faultIndex.isNone then .terminate else .header w []))
  -- `receive_fault_result`
  | checked {w : Nat} {got : List UInt8} (here : s.phase = .header w got)
      (full : got.length = replySize) :
      ParentStep c s .run (s.goto
        (if s.accepts c w (.read got) then .csv w (.read got) [] else .terminate))
  | csvReceived {w : Nat} {reply : FaultReply} {got : List UInt8} (here : s.phase = .csv w reply got)
      (full : got.length = reply.csvSize.toNat) : ParentStep c s .run (s.goto (.cubes w reply got []))
  | noBuffer {w : Nat} {reply : FaultReply} (here : s.phase = .csv w reply [] ∨
      ∃ csv, s.phase = .cubes w reply csv [] ∧ reply.cubeSize ≠ 0) :
      ParentStep c s .refused (s.goto .terminate)
  | stored {w i : Nat} {reply : FaultReply} {csv got : List UInt8}
      (here : s.phase = .cubes w reply csv got) (full : got.length = reply.cubeSize.toNat)
      (index : (s.pool.workers w).faultIndex = some i) :
      ParentStep c s .run ((s.storeResult c i reply csv got).goto (.output w))
  -- `write_ready_results`
  | wrote {w : Nat} (here : s.phase = .output w) (writable : s.writable c) :
      ParentStep c s .run ((s.writeCsv (s.pool.results s.pool.nextOutput).csv).goto
        (.outputCube w s.pool.nextOutput))
  | writeFailed {w : Nat} (k : Nat) (here : s.phase = .output w) (writable : s.writable c)
      (less : k < (s.pool.results s.pool.nextOutput).csv.length) :
      ParentStep c s .refused ((s.writeCsv ((s.pool.results s.pool.nextOutput).csv.take k)).goto
        .terminate)
  | drained {w : Nat} (here : s.phase = .output w) (done : ¬ s.writable c) :
      ParentStep c s .run (s.goto (.assigning w false))
  | cubeWritten {w i : Nat} (here : s.phase = .outputCube w i) :
      ParentStep c s .run ((s.writeCube c i).goto (.output w))
  | cubeFailed {w i : Nat} (here : s.phase = .outputCube w i) (some : (s.pool.results i).cubes ≠ []) :
      ParentStep c s .refused ((s.writeCube c i).goto .terminate)
  -- the end of `FaultPoolRun`
  | stopped {w : Nat} (here : s.phase = .stop w []) : ParentStep c s .run (s.goto (c.stopAt (w + 1)))
  | terminated (here : s.phase = .terminate) :
      ParentStep c s .run ((s.terminateWorkers c).goto (.wait 0 false true))
  | closed {w : Nat} {succeeded workers : Bool} (here : s.phase = .wait w succeeded workers)
      (lt : w < c.workerCount) :
      ParentStep c s .run ((s.closeSocket w).goto
        (if (s.pool.workers w).pid then .reap w succeeded workers else .wait (w + 1) succeeded workers))
  | reaped {w : Nat} {succeeded workers clean : Bool} (here : s.phase = .reap w succeeded workers)
      (gone : s.process w = .exited clean) :
      ParentStep c s .run ((s.forget w).goto (.wait (w + 1) succeeded (workers && clean)))
  | waitFailed {w : Nat} {succeeded workers : Bool} (here : s.phase = .reap w succeeded workers) :
      ParentStep c s .refused ((s.forget w).goto (.wait (w + 1) succeeded false))
  | waitInterrupted {w : Nat} {succeeded workers : Bool} (here : s.phase = .reap w succeeded workers) :
      ParentStep c s .interrupted (if s.cancelled then s.terminateWorkers c else s)
  | finished {w : Nat} {succeeded workers : Bool} (here : s.phase = .wait w succeeded workers)
      (all : w = c.workerCount) :
      ParentStep c s .run (s.goto (.returned (succeeded && workers && !s.cancelled)))

/-- What `worker_loop` does with a number it has received. -/
def Job.dispatch (c : Job) (s : System) (w : Nat) (index : BitVec 32) : System :=
  if index = noFault then s.setProcess w .finishing
  else if index.toInt < 0 ∨ (c.count : Int) ≤ index.toInt then s.exit w false
  else s.setProcess w (.replying index.toNat (c.analyzeAndReply index.toNat))

/-- Worker `w`: `worker_loop` and `analyze_and_reply`, whose three `send_bytes` are one stream of bytes. A
worker may also end at any moment, with any status. -/
inductive WorkerStep (c : Job) (s : System) (w : Nat) : Event → System → Prop where
  | receive {got : List UInt8} (k : Nat) (here : s.process w = .receiving got) (pos : 0 < k)
      (le : got.length + k ≤ intSize) (available : k ≤ (s.socket w).toWorker.length) :
      WorkerStep c s w .run ((s.setSocket w { s.socket w with
        toWorker := (s.socket w).toWorker.drop k }).setProcess w
          (.receiving (got ++ (s.socket w).toWorker.take k)))
  | hangup {got : List UInt8} (here : s.process w = .receiving got) (more : got.length < intSize)
      (empty : (s.socket w).toWorker = []) (closed : (s.socket w).parentEnd = false) :
      WorkerStep c s w .run (s.exit w false)
  | received {got : List UInt8} (here : s.process w = .receiving got) (full : got.length = intSize) :
      WorkerStep c s w .run (c.dispatch s w (readWord 4 got))
  | send {i : Nat} {rest : List UInt8} (k : Nat) (here : s.process w = .replying i rest) (pos : 0 < k)
      (le : k ≤ rest.length) (room : (s.socket w).toParent.length + k ≤ c.room)
      (open' : (s.socket w).parentEnd = true) :
      WorkerStep c s w .run ((s.setSocket w { s.socket w with
        toParent := (s.socket w).toParent ++ rest.take k }).setProcess w (.replying i (rest.drop k)))
  | brokenPipe {i : Nat} {rest : List UInt8} (here : s.process w = .replying i rest) (more : rest ≠ [])
      (closed : (s.socket w).parentEnd = false) : WorkerStep c s w .run (s.exit w false)
  | replied {i : Nat} (here : s.process w = .replying i []) :
      WorkerStep c s w .run
        (if (c.task i).succeeded then s.setProcess w (.receiving []) else s.exit w false)
  | finished (here : s.process w = .finishing) : WorkerStep c s w .run (s.exit w true)
  | killed (alive : (s.process w).alive) (signal : s.signalled w = true) :
      WorkerStep c s w .run (s.exit w false)
  | crash (clean : Bool) (alive : (s.process w).alive) : WorkerStep c s w (.crash w) (s.exit w clean)

/-- One step of the whole. The signal counts from `install_pool_signal_handlers` to the last look at
`cancelled`. -/
inductive Step (c : Job) : System → Event → System → Prop where
  | parent {s t : System} {e : Event} (step : ParentStep c s e t) : Step c s e t
  | worker {s t : System} {e : Event} (w : Nat) (step : WorkerStep c s w e t) : Step c s e t
  | cancel {s : System} (begun : s.phase ≠ .entry) (on : ∀ b, s.phase ≠ .returned b) :
      Step c s .cancel { s with cancelled := true }

/-- `FaultPoolRun` is called: the pool is all zero, no worker runs, nothing has been written. -/
def Job.start : System where
  phase := .entry
  pool :=
    { workers := fun _ => ⟨false, none⟩
      events := fun _ => false
      revents := fun _ => false
      results := fun _ => ⟨[], [], false⟩
      nextFault := 0
      completedFaults := 0
      nextOutput := 0
      stats := ⟨0, 0, 0⟩ }
  process := fun _ => .notStarted
  socket := fun _ => ⟨[], [], false, false⟩
  signalled := fun _ => false
  cancelled := false
  files := ⟨[], []⟩

/-- A run of the pool from the call on. -/
abbrev Job.Run (c : Job) : List Event → System → Prop := Transition.Run (Step c) Job.start

end Pool

end SafRprGen
