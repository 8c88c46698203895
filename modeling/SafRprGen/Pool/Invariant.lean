/-
Module: SafRprGen.Pool.Invariant
Layer: Pool
Purpose: The invariant of `FaultPoolRun`. While nothing has failed the links of all started workers hold
  (`Link`), the books are right (`Books`), and the files hold the outputs of the first faults (`Good`).
  Once something has failed only the beginning of the output is left to promise, and that every worker
  that is still waited for has been signalled. Every step keeps the invariant.
Main exports: Phase.order, System.Here, Good, Inv, Good.parent, Inv.step, Inv.run
-/
import SafRprGen.Pool.Books

namespace SafRprGen

namespace Pool

open Bytes

namespace Phase

/-- The order of worker `w`, whose `fault_index` is `index`: during the end of `collect_fault_results` for
a worker its fault is done, though `fault_index` still names it. -/
def order (p : Phase) (index : Option Nat) (w : Nat) : Order :=
  match p with
  | .assigning v _ => if w = v then .none else .ofIndex index
  | .output v => if w = v then .none else .ofIndex index
  | .outputCube v _ => if w = v then .none else .ofIndex index
  | .stop v _ => if w ≤ v then .stop else .none
  | .wait _ _ _ => .stop
  | .reap _ _ _ => .stop
  | _ => .ofIndex index

/-- What the parent still has to send of the order. -/
def unsent (p : Phase) (w : Nat) : List UInt8 :=
  match p with
  | .sending v rest _ => if w = v then rest else []
  | .stop v rest => if w = v then rest else []
  | _ => []

/-- What the parent has read of the answer. -/
def answer (p : Phase) (w : Nat) : List UInt8 :=
  match p with
  | .header v got => if w = v then got else []
  | .csv v reply got => if w = v then reply.bytes ++ got else []
  | .cubes v reply text got => if w = v then reply.bytes ++ (text ++ got) else []
  | _ => []

/-- How many workers have been started. -/
def started (n : Nat) : Phase → Nat
  | .entry => 0
  | .launch w => w
  | .assigning w true => w + 1
  | .sending w _ true => w + 1
  | _ => n

/-- Nothing has failed and the run has not ended. -/
def live : Phase → Bool
  | .entry => false
  | .terminate => false
  | .returned _ => false
  | .wait _ succeeded _ => succeeded
  | .reap _ succeeded _ => succeeded
  | _ => true

/-- How many faults have had their `WriteCubeFile`. -/
def cubesDone (next : Nat) : Phase → Nat
  | .outputCube _ i => i
  | _ => next

/-- Inside `write_ready_results`. -/
def writing : Phase → Bool
  | .output _ => true
  | .outputCube _ _ => true
  | _ => false

/-- `wait_for_workers` has dealt with worker `w`. -/
def reaped (w : Nat) : Phase → Prop
  | .wait v _ _ => w < v
  | .reap v _ _ => w < v
  | _ => False

/-- Going from phase `p` to phase `q` leaves every worker what it had. -/
structure Alike (n : Nat) (p q : Phase) : Prop where
  started : q.started n = p.started n
  order : ∀ index v, q.order index v = p.order index v
  unsent : ∀ v, q.unsent v = p.unsent v
  answer : ∀ v, q.answer v = p.answer v
  cubesDone : ∀ next, q.cubesDone next = p.cubesDone next
  settled : ∀ v, p ≠ .assigning v true
  reaped : ∀ v, p.reaped v → q.reaped v

end Phase

namespace System

variable (s : System) (c : Job)

def order (w : Nat) : Order := s.phase.order (s.pool.workers w).faultIndex w

/-- How many workers have been started. -/
def started : Nat := s.phase.started c.workerCount

/-- What holds at the place where the parent is. -/
def Here : Prop :=
  match s.phase with
  | .launch w => w ≤ c.workerCount
  | .assigning w _ => w < c.workerCount
  | .sending w _ _ => w < c.workerCount
  | .scan w => w ≤ c.workerCount
  | .header w got => w < c.workerCount ∧ got.length ≤ replySize ∧
      ∃ i, (s.pool.workers w).faultIndex = some i
  | .csv w reply got => w < c.workerCount ∧ got.length ≤ reply.csvSize.toNat ∧
      ∃ i, (s.pool.workers w).faultIndex = some i ∧ (c.task i).succeeded = true ∧ reply = c.reply i
  | .cubes w reply text got => w < c.workerCount ∧ got.length ≤ reply.cubeSize.toNat ∧
      ∃ i, (s.pool.workers w).faultIndex = some i ∧ (c.task i).succeeded = true ∧ reply = c.reply i ∧
        text = (c.task i).csv
  | .output w => w < c.workerCount
  | .outputCube w i => w < c.workerCount ∧ s.pool.nextOutput = i + 1 ∧
      (s.pool.results i).cubes = c.cubes i
  | .stop w _ => w < c.workerCount ∧ s.pool.completedFaults = c.count
  | .wait w _ workers => w ≤ c.workerCount ∧ s.pool.completedFaults = c.count ∧
      (workers = true → ∀ v < w, s.process v = .exited true)
  | .reap w _ workers => w < c.workerCount ∧ s.pool.completedFaults = c.count ∧
      (workers = true → ∀ v < w, s.process v = .exited true)
  | _ => True

end System

/-- The invariant while nothing has failed. -/
structure Good (c : Job) (s : System) : Prop where
  here : s.Here c
  link : ∀ w < s.started c, Link c (s.order w) (s.phase.unsent w) (s.phase.answer w) (s.socket w)
    (s.process w)
  unborn : ∀ w, s.started c ≤ w → s.process w = .notStarted ∧ (s.pool.workers w).pid = false
  books : Books c s.pool s.order (s.started c)
  csv : s.files.csv = c.csvUpTo s.pool.nextOutput
  cubes : s.files.cubes = c.cubesUpTo (s.phase.cubesDone s.pool.nextOutput)
  drained : s.phase.writing = false → ¬ s.writable c
  idle : ∀ w < s.started c, (s.pool.workers w).faultIndex = none →
    s.pool.nextFault = c.count ∨ s.phase = .assigning w true
  asked : ∀ w < s.started c, (s.pool.workers w).faultIndex ≠ none → s.pool.events w = true
  pid : ∀ w < s.started c, (s.pool.workers w).pid = true ∨ s.phase.reaped w

/-- The invariant of `FaultPoolRun`. -/
structure Inv (c : Job) (s : System) : Prop where
  csv : s.files.csv <+: c.csvUpTo c.count
  cubes : s.files.cubes <+: c.cubesUpTo c.count
  entry : s.phase = .entry → s = Job.start
  good : s.phase.live = true → Good c s
  born : ∀ w, (s.pool.workers w).pid = true → s.process w ≠ .notStarted
  marked : ∀ {v workers}, s.phase = .wait v false workers ∨ s.phase = .reap v false workers →
    v ≤ c.workerCount ∧ ∀ w < c.workerCount, (s.pool.workers w).pid = true → s.signalled w = true
  reaping : ∀ {v succeeded workers}, s.phase = .reap v succeeded workers →
    v < c.workerCount ∧ (s.pool.workers v).pid = true
  returned : s.phase = .returned true → s.files = ⟨c.csvUpTo c.count, c.cubesUpTo c.count⟩ ∧
    (∀ i < c.count, (c.task i).succeeded = true ∧ (s.pool.results i).ready = true) ∧
      s.pool.nextFault = c.count ∧ s.cancelled = false ∧ ∀ w < c.workerCount, s.process w = .exited true

variable {c : Job} {s t : System}

namespace Good

/-- A worker's number stands for an index of the list. -/
theorem valid (good : Good c s) {w : Nat} (hw : w < s.started c) {i : Nat} (has : s.order w = .fault i) :
    i < c.count :=
  good.books.lt hw has

/-- A step of a worker. -/
theorem worker (good : Good c s) {w : Nat} {e : Event} (step : WorkerStep c s w e t) : Good c t := by
  have frame := step.frame
  have started : t.started c = s.started c := by rw [System.started, System.started, frame.phase]
  have order : t.order = s.order := by
    funext v
    rw [System.order, System.order, frame.phase, frame.pool]
  have hw : w < s.started c := by
    by_contra ge
    have alive := step.alive
    rw [(good.unborn w (by omega)).1] at alive
    exact alive
  have exited : ∀ v, s.process v = .exited true → t.process v = .exited true := by
    intro v gone
    by_cases same : v = w
    · subst same
      have alive := step.alive
      rw [gone] at alive
      exact absurd alive (WorkerProcess.not_alive_exited _)
    · rw [frame.process v same, gone]
  refine ⟨?_, ?_, ?_, ?_, ?_, ?_, ?_, ?_, ?_, ?_⟩
  · have here := good.here
    unfold System.Here at here ⊢
    rw [frame.phase, frame.pool]
    cases phase : s.phase with
    | wait v succeeded workers =>
        rw [phase] at here
        exact ⟨here.1, here.2.1, fun all u hu => exited u (here.2.2 all u hu)⟩
    | reap v succeeded workers =>
        rw [phase] at here
        exact ⟨here.1, here.2.1, fun all u hu => exited u (here.2.2 all u hu)⟩
    | _ => rw [phase] at here; exact here
  · intro v hv
    rw [started] at hv
    rw [order, frame.phase]
    by_cases same : v = w
    · subst same
      exact step.link (fun i has => good.valid hw has) (good.link v hv)
    · rw [frame.socket v same, frame.process v same]
      exact good.link v hv
  · intro v hv
    rw [started] at hv
    rw [frame.process v (by omega), frame.pool]
    exact good.unborn v hv
  · rw [started, order, frame.pool]
    exact good.books
  · rw [frame.files, frame.pool]
    exact good.csv
  · rw [frame.files, frame.pool, frame.phase]
    exact good.cubes
  · rw [System.writable, frame.pool, frame.phase]
    exact good.drained
  · rw [started, frame.pool, frame.phase]
    exact good.idle
  · rw [started, frame.pool]
    exact good.asked
  · rw [started, frame.pool, frame.phase]
    exact good.pid

/-- The parent goes on without a call, and every worker has the order, the rest of it and the part of
the answer that it had. -/
theorem goto (good : Good c s) {p : Phase} (started : p.started c.workerCount = s.started c)
    (order : ∀ w < s.started c, p.order (s.pool.workers w).faultIndex w = s.order w)
    (unsent : ∀ w < s.started c, p.unsent w = s.phase.unsent w)
    (answer : ∀ w < s.started c, p.answer w = s.phase.answer w) (here : (s.goto p).Here c)
    (cubesDone : p.cubesDone s.pool.nextOutput = s.phase.cubesDone s.pool.nextOutput)
    (drained : p.writing = false → ¬ s.writable c) (settled : ∀ w, s.phase ≠ .assigning w true)
    (reaped : ∀ w, s.phase.reaped w → p.reaped w) : Good c (s.goto p) := by
  refine ⟨here, ?_, ?_, ?_, good.csv, ?_, drained, ?_, ?_, ?_⟩
  · intro w hw
    have hw' : w < s.started c := started ▸ hw
    have link := good.link w hw'
    rw [← order w hw', ← unsent w hw', ← answer w hw'] at link
    exact link
  · intro w hw
    exact good.unborn w (started ▸ hw)
  · have books := good.books.congr (s.goto p).order fun w hw i => by
      rw [show (s.goto p).order w = p.order (s.pool.workers w).faultIndex w from rfl, order w hw]
    rw [← started] at books
    exact books
  · exact good.cubes.trans (by rw [← cubesDone]; rfl)
  · intro w hw none
    exact .inl ((good.idle w (started ▸ hw) none).resolve_right (settled w))
  · intro w hw
    exact good.asked w (started ▸ hw)
  · intro w hw
    exact (good.pid w (started ▸ hw)).imp_right (reaped w)

theorem alike {p q : Phase} (good : Good c s) (at' : s.phase = p) (alike : p.Alike c.workerCount q)
    (here : (s.goto q).Here c) (drained : q.writing = false → ¬ s.writable c) : Good c (s.goto q) := by
  subst at'
  exact good.goto alike.started (fun w _ => alike.order _ w) (fun w _ => alike.unsent w)
    (fun w _ => alike.answer w) here (alike.cubesDone _) drained alike.settled alike.reaped

end Good

end Pool

end SafRprGen
