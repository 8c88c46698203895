/-
Module: SafRprGen.Pool.Returns
Layer: Pool
Purpose: The pool does not hang, and the result about `FaultPoolRun` as a whole. A worker that owes bytes
  can move, so the parent never waits in vain; with the rank of `Progress` every run comes to its end. At
  every moment each fault has been handed out at most once and the files hold the beginning of the output
  of the serial loop; a run that returns true has written all of it, and one in which a worker died over
  its work, a task failed or the signal came returns false.
Main exports: Link.answers, Inv.progress, Job.Died, Job.Correct, faultPoolRun_spec
-/
import SafRprGen.Pool.Progress

namespace SafRprGen

namespace Pool

open Bytes

variable {c : Job} {s t : System} {e : Event} {w : Nat}

/-- A worker that listens can move when it has a number, or some more of one. -/
theorem Listening.moves {got : List UInt8} (listening : Listening c got (s.process w))
    (some : got.length = intSize ∨ got.length < intSize ∧ (s.socket w).toWorker ≠ []) :
    ∃ t, WorkerStep c s w .run t := by
  generalize here : s.process w = p at listening
  cases listening with
  | receiving =>
      rcases some with full | ⟨less, more⟩
      · exact ⟨_, .received here full⟩
      · exact ⟨_, .receive 1 here Nat.one_pos less (List.length_pos_iff.mpr more)⟩
  | replied => exact ⟨_, .replied here⟩

/-- A worker that listens, with the rest of its number under way, can move. -/
theorem Listening.moves_of_sent {got : List UInt8} {x : BitVec 32}
    (listening : Listening c got (s.process w))
    (bytes : got ++ (s.socket w).toWorker = intBytes x) : ∃ t, WorkerStep c s w .run t := by
  have length := congrArg List.length bytes
  simp only [List.length_append, length_intBytes] at length
  by_cases full : got.length = intSize
  · exact listening.moves (.inl full)
  · refine listening.moves (.inr ⟨by omega, List.length_pos_iff.mp ?_⟩)
    omega

section Links

variable {o : Order} {unsent answer : List UInt8}
  (link : Link c o unsent answer (s.socket w) (s.process w))

include link

/-- Where the socket is full of an order, the worker can read it. -/
theorem Link.reads (open' : (s.socket w).workerEnd = true) (rest : unsent ≠ [])
    (full : (s.socket w).toWorker ≠ []) : ∃ t, WorkerStep c s w .run t := by
  generalize same : s.socket w = k at link open' full
  generalize here : s.process w = p at link
  cases link with
  | free | working | answered | quitting => exact absurd rfl rest
  | asked some listening bytes =>
      subst here
      refine listening.moves (.inr ⟨?_, by rw [same]; exact full⟩)
      have length := congrArg List.length bytes
      have more := List.length_pos_iff.mpr rest
      simp only [List.length_append, length_intBytes] at length
      omega
  | gone closed => rw [closed] at open'; cases open'

/-- Where some of an answer is to come and none is under way, the worker can move. -/
theorem Link.answers {i : Nat} (order : o = .fault i) (sent : unsent = [])
    (open' : (s.socket w).workerEnd = true) (none : (s.socket w).toParent = [])
    (less : answer.length < (c.analyzeAndReply i).length) : ∃ t, WorkerStep c s w .run t := by
  subst order sent
  generalize same : s.socket w = k at link open' none
  generalize here : s.process w = p at link
  cases link with
  | asked some listening bytes =>
      subst here
      rw [List.append_nil] at bytes
      exact listening.moves_of_sent (by rw [same]; exact bytes)
  | @working _ _ inFlight rest bytes =>
      simp only at none
      subst none
      rw [List.append_nil] at bytes
      have more : rest ≠ [] := by
        rintro rfl
        rw [List.append_nil] at bytes
        rw [bytes] at less
        exact Nat.lt_irrefl _ less
      refine ⟨_, .send 1 here Nat.one_pos (List.length_pos_iff.mpr more) ?_ (by rw [same])⟩
      rw [same]
      exact c.room_pos
  | answered bytes =>
      simp only at none
      subst none
      rw [List.append_nil] at bytes
      rw [bytes] at less
      exact absurd less (Nat.lt_irrefl _)
  | gone closed => rw [closed] at open'; cases open'

/-- A worker that has its order to stop can move until it is dead. -/
theorem Link.stops (order : o = .stop) (sent : unsent = []) :
    (∃ t, WorkerStep c s w .run t) ∨ ∃ clean, s.process w = .exited clean := by
  subst order sent
  generalize same : s.socket w = k at link
  generalize here : s.process w = p at link
  cases link with
  | asked some listening bytes =>
      subst here
      rw [List.append_nil] at bytes
      exact .inl (listening.moves_of_sent (by rw [same]; exact bytes))
  | quitting => exact .inl ⟨_, .finished here⟩
  | gone => exact .inr ⟨_, rfl⟩

end Links

namespace Good

/-- Some of an order is to be sent: it can be, or the worker reads what blocks the socket, or is dead. -/
theorem sends {rest : List UInt8} (good : Good c s) (lt : w < s.started c)
    (out : s.phase.outgoing = some (w, rest)) (more : rest ≠ []) : ∃ t, Step c s .run t := by
  have link := good.link w lt
  rw [Phase.unsent_of_outgoing out] at link
  cases open' : (s.socket w).workerEnd with
  | false => exact ⟨_, .parent (.brokenPipe out more open')⟩
  | true =>
      by_cases room : (s.socket w).toWorker.length + 1 ≤ c.room
      · exact ⟨_, .parent (.send 1 out Nat.one_pos (List.length_pos_iff.mpr more) room open')⟩
      · have full : (s.socket w).toWorker ≠ [] := by
          intro none
          rw [none] at room
          exact room c.room_pos
        obtain ⟨t, step⟩ := link.reads open' more full
        exact ⟨t, .worker w step⟩

/-- Some of an answer is to be read: it can be, or the worker moves, or is dead. -/
theorem reads {size i : Nat} (good : Good c s) (lt : w < s.started c)
    (inc : s.phase.incoming = some (w, size)) (more : 0 < size) (order : s.order w = .fault i)
    (unsent : s.phase.unsent w = []) (less : (s.phase.answer w).length < (c.analyzeAndReply i).length) :
    ∃ t, Step c s .run t := by
  by_cases none : (s.socket w).toParent = []
  · cases open' : (s.socket w).workerEnd with
    | false => exact ⟨_, .parent (.hangup inc more none open')⟩
    | true =>
        obtain ⟨t, step⟩ := (good.link w lt).answers order unsent open' none less
        exact ⟨t, .worker w step⟩
  · exact ⟨_, .parent (.receive 1 inc Nat.one_pos more (List.length_pos_iff.mpr none))⟩

/-- `poll` returns, or a worker moves. -/
theorem polls (good : Good c s) (at' : s.phase = .collect) (more : s.pool.completedFaults < c.count)
    (on : s.cancelled = false) : ∃ t, Step c s .run t := by
  have started : s.started c = c.workerCount := by rw [System.started, at']; rfl
  have some : 0 < s.started c := by
    rw [started, Job.workerCount]
    have jobs := c.jobs_pos
    omega
  obtain ⟨w, lt, i, has⟩ := good.books.outstanding some (fun w lt none => by
    refine (good.idle w lt ?_).resolve_right (by rw [at']; simp)
    cases index : (s.pool.workers w).faultIndex with
    | none => rfl
    | some i =>
        refine absurd ?_ (none i)
        rw [System.order, at', index]
        rfl) more
  by_cases ready : s.ready w = true
  · exact ⟨_, .parent (.polled at' more on ⟨w, started ▸ lt, ready⟩)⟩
  · have events : s.pool.events w = true := by
      apply good.asked w lt
      rw [System.order, at'] at has
      rw [Order.ofIndex_eq_fault.mp has]
      simp
    simp only [System.ready, events, Bool.true_and, Bool.or_eq_true, Bool.not_eq_true', not_or,
      Bool.not_eq_false, List.isEmpty_iff] at ready
    have link := good.link w lt
    obtain ⟨t, step⟩ := link.answers has (by rw [at']; rfl) ready.1 ready.2 (by
      rw [at', Job.analyzeAndReply, List.length_append, FaultReply.length_bytes]
      exact Nat.lt_of_lt_of_le (by decide : ([] : List UInt8).length < replySize) (Nat.le_add_right _ _))
    exact ⟨t, .worker w step⟩

end Good

/-- As long as `FaultPoolRun` has not returned, the parent or a worker has a step of its code to take. -/
theorem Inv.progress (inv : Inv c s) (on : ∀ b, s.phase ≠ .returned b) :
    ∃ e t, Step c s e t ∧ e.program := by
  have run : (∃ t, Step c s .run t) → ∃ e t, Step c s e t ∧ e.program :=
    fun ⟨t, step⟩ => ⟨.run, t, step, .inl rfl⟩
  have parent : ∀ {t}, ParentStep c s .run t → ∃ e t, Step c s e t ∧ e.program :=
    fun step => run ⟨_, .parent step⟩
  cases at' : s.phase with
  | entry =>
      by_cases none : c.count = 0
      · exact parent (.empty at' none)
      · exact parent (.install at' none)
  | launch w =>
      have le := (inv.good (by rw [at']; rfl)).here
      rw [System.Here, at'] at le
      rcases Nat.lt_or_eq_of_le le with lt | all
      · exact parent (.started at' lt)
      · exact parent (.launched at' all)
  | assigning w launching =>
      by_cases none : s.pool.nextFault = c.count
      · exact parent (.idle at' none)
      · exact ⟨_, _, .parent (.assigned at' none), .inr ⟨_, _, rfl⟩⟩
  | sending w rest launching =>
      have good := inv.good (by rw [at']; rfl)
      have lt := good.here
      rw [System.Here, at'] at lt
      by_cases none : rest = []
      · subst none
        exact parent (.sent at')
      · refine run (good.sends ?_ (by rw [at']; rfl) none)
        rw [System.started, at']
        cases launching with
        | true => exact Nat.lt_succ_self w
        | false => exact lt
  | collect =>
      by_cases more : s.pool.completedFaults < c.count ∧ s.cancelled = false
      · exact run ((inv.good (by rw [at']; rfl)).polls at' more.1 more.2)
      · exact parent (.collected at' more)
  | scan w =>
      have le := (inv.good (by rw [at']; rfl)).here
      rw [System.Here, at'] at le
      rcases Nat.lt_or_eq_of_le le with lt | all
      · cases ready : s.pool.revents w with
        | false => exact parent (.skipped at' lt ready)
        | true => exact parent (.served at' lt ready)
      · exact parent (.scanned at' all)
  | header w got =>
      have good := inv.good (by rw [at']; rfl)
      have here := good.here
      rw [System.Here, at'] at here
      obtain ⟨lt, small, i, index⟩ := here
      by_cases full : got.length = replySize
      · exact parent (.checked at' full)
      · refine run (good.reads (by rw [System.started, at']; exact lt) (by rw [at']; rfl) (by omega)
          (by rw [System.order, at', index]; rfl) (by rw [at']; rfl) ?_)
        rw [at', Phase.answer, if_pos rfl, Job.analyzeAndReply, List.length_append, FaultReply.length_bytes]
        omega
  | csv w reply got =>
      have good := inv.good (by rw [at']; rfl)
      have here := good.here
      rw [System.Here, at'] at here
      obtain ⟨lt, small, i, index, succeeded, rfl⟩ := here
      by_cases full : got.length = (c.reply i).csvSize.toNat
      · exact parent (.csvReceived at' full)
      · refine run (good.reads (by rw [System.started, at']; exact lt) (by rw [at']; rfl) (by omega)
          (by rw [System.order, at', index]; rfl) (by rw [at']; rfl) ?_)
        have size := (FaultReply.answer_length i succeeded).1
        rw [at', Phase.answer, if_pos rfl, analyzeAndReply_eq i succeeded]
        simp only [List.length_append]
        omega
  | cubes w reply text got =>
      have good := inv.good (by rw [at']; rfl)
      have here := good.here
      rw [System.Here, at'] at here
      obtain ⟨lt, small, i, index, succeeded, rfl, rfl⟩ := here
      by_cases full : got.length = (c.reply i).cubeSize.toNat
      · exact parent (.stored at' full index)
      · refine run (good.reads (by rw [System.started, at']; exact lt) (by rw [at']; rfl) (by omega)
          (by rw [System.order, at', index]; rfl) (by rw [at']; rfl) ?_)
        have size := (FaultReply.answer_length i succeeded).2
        rw [at', Phase.answer, if_pos rfl, analyzeAndReply_eq i succeeded]
        simp only [List.length_append]
        omega
  | output w =>
      by_cases writable : s.writable c
      · exact parent (.wrote at' writable)
      · exact parent (.drained at' writable)
  | outputCube w i => exact parent (.cubeWritten at')
  | stop w rest =>
      have good := inv.good (by rw [at']; rfl)
      have here := good.here
      rw [System.Here, at'] at here
      by_cases none : rest = []
      · subst none
        exact parent (.stopped at')
      · refine run (good.sends ?_ (by rw [at']; rfl) none)
        rw [System.started, at']
        exact here.1
  | terminate => exact parent (.terminated at')
  | wait w succeeded workers =>
      have le : w ≤ c.workerCount := by
        cases succeeded with
        | true =>
            have here := (inv.good (by rw [at']; rfl)).here
            rw [System.Here, at'] at here
            exact here.1
        | false => exact (inv.marked (.inl at')).1
      rcases Nat.lt_or_eq_of_le le with lt | all
      · exact parent (.closed at' lt)
      · exact parent (.finished at' all)
  | reap w succeeded workers =>
      obtain ⟨lt, pid⟩ := inv.reaping at'
      cases succeeded with
      | true =>
          have good := inv.good (by rw [at']; rfl)
          have link := good.link w (by rw [System.started, at']; exact lt)
          rcases link.stops (by rw [System.order, at']; rfl) (by rw [at']; rfl) with
              ⟨t, step⟩ | ⟨clean, gone⟩
          · exact run ⟨t, .worker w step⟩
          · exact parent (.reaped at' gone)
      | false =>
          have signal := (inv.marked (.inr at')).2 w lt pid
          cases process : s.process w with
          | notStarted => exact absurd process (inv.born w pid)
          | exited clean => exact parent (.reaped at' process)
          | _ => exact run ⟨_, .worker w (.killed (by rw [process]; trivial) signal)⟩
  | returned b => exact absurd at' (on b)

/-- In the run a worker died over its work: at some moment it was dead with a bad status, or before the
answer to a fault it had been given was in. -/
def Job.Died (c : Job) (es : List Event) (s : System) : Prop :=
  ∃ es₁ es₂ t, c.Run es₁ t ∧ Transition.Run (Step c) t es₂ s ∧ es = es₁ ++ es₂ ∧
    ∃ w < c.workerCount, ∃ clean, t.process w = .exited clean ∧
      (clean = false ∨ ∃ i, (w, i) ∈ assignments es₁ ∧ (t.pool.results i).ready = false)

/-- What `FaultPoolRun` promises of a run with these events that is now in state `s`. -/
structure Job.Correct (c : Job) (es : List Event) (s : System) : Prop where
  /-- No fault is handed out twice, to one worker or to two. -/
  once : ((assignments es).map Prod.snd).Nodup
  csv : s.files.csv <+: c.csvUpTo c.count
  cubes : s.files.cubes <+: c.cubesUpTo c.count
  /-- A run that returns true has handed out every fault and written what the serial loop writes. -/
  whole : s.phase = .returned true → s.files = ⟨c.csvUpTo c.count, c.cubesUpTo c.count⟩ ∧
    c.serialLoop c.count = (true, s.files) ∧ (assignments es).map Prod.snd = List.range c.count
  fails : ∀ b, s.phase = .returned b → .cancel ∈ es ∨
    (∃ w i, (w, i) ∈ assignments es ∧ (c.task i).succeeded = false) ∨ c.Died es s → b = false
  /-- Until it returns there is a step of the code to take, and a way to the return. -/
  moves : (∀ b, s.phase ≠ .returned b) → ∃ e t, Step c s e t ∧ e.program
  returns : ∃ es' t b, Transition.Run (Step c) s es' t ∧ t.phase = .returned b
  /-- From here on no run goes on for ever but for signals that never cease. -/
  ends : ∀ (state : Nat → System) (event : Nat → Event), state 0 = s →
    (∀ k, Step c (state k) (event k) (state (k + 1))) → ∃ N, ∀ k ≥ N, (event k).quiet

/-- Once the signal has come it stays, unless the run had already failed. -/
theorem cancelled_run {es : List Event} (run : c.Run es s) (mem : .cancel ∈ es) :
    s.phase ≠ .entry ∧ s.cancelled = true := by
  revert mem
  refine run.invariant (fun es s => .cancel ∈ es → s.phase ≠ .entry ∧ s.cancelled = true)
    (fun none => by cases none) ?_
  intro es s e t _ before step mem
  cases step with
  | cancel begun => exact ⟨begun, rfl⟩
  | worker w step =>
      have earlier : .cancel ∈ es := by
        rcases List.mem_append.mp mem with mem | mem
        · exact mem
        · rw [List.mem_singleton] at mem
          subst mem
          cases step
      rw [step.frame.phase, step.frame.cancelled]
      exact before earlier
  | parent step =>
      have earlier : .cancel ∈ es := by
        rcases List.mem_append.mp mem with mem | mem
        · exact mem
        · rw [List.mem_singleton] at mem
          subst mem
          cases step
      obtain ⟨begun, on⟩ := before earlier
      exact ⟨step.begun.1, (step.begun.2 begun).trans on⟩

/-- When the order to stop has begun to reach a worker, all results are in. -/
theorem Inv.ready_of_told (inv : Inv c s) (told : s.phase.told w) :
    ∀ i < s.pool.nextFault, (s.pool.results i).ready = true := by
  have live : s.phase.live = true → s.pool.completedFaults = c.count →
      ∀ i < s.pool.nextFault, (s.pool.results i).ready = true := by
    intro live all i hi
    have books := (inv.good live).books
    exact books.all_ready all i (lt_of_lt_of_le hi books.next_le)
  cases at' : s.phase with
  | stop v rest =>
      have here := (inv.good (by rw [at']; rfl)).here
      rw [System.Here, at'] at here
      exact live (by rw [at']; rfl) here.2
  | wait v succeeded workers | reap v succeeded workers =>
      rw [at'] at told
      obtain rfl : succeeded = true := told
      have here := (inv.good (by rw [at']; rfl)).here
      rw [System.Here, at'] at here
      exact live (by rw [at']; rfl) here.2.1
  | returned b =>
      rw [at'] at told
      obtain rfl : b = true := told
      obtain ⟨-, results, next, -⟩ := inv.returned at'
      exact fun i hi => (results i (next ▸ hi)).2
  | _ =>
      rw [at'] at told
      exact absurd told id

/-- A run in which a worker died over its work does not return true. -/
theorem died_run {es : List Event} (died : c.Died es s) : s.phase ≠ .returned true := by
  obtain ⟨es₁, es₂, t, run, more, -, w, lt, clean, gone, work⟩ := died
  intro returned
  have inv := Inv.run run
  rcases work with rfl | ⟨i, assigned, open'⟩
  · have stays := more.stable (P := fun u => Inv c u ∧ u.process w = .exited false)
      (fun _ _ _ before step => ⟨before.1.step step, before.1.exited_step step before.2⟩) ⟨inv, gone⟩
    have exited := (stays.1.returned returned).2.2.2.2 w lt
    rw [stays.2] at exited
    cases exited
  · have untold : ¬ t.phase.told w := by
      intro told
      have mem : i ∈ (assignments es₁).map Prod.snd := List.mem_map.mpr ⟨_, assigned, rfl⟩
      rw [assignments_run run, List.mem_range] at mem
      rw [inv.ready_of_told told i mem] at open'
      cases open'
    have stays := more.stable (P := fun u => Inv c u ∧ u.process w = .exited clean ∧ ¬ u.phase.told w)
      (fun _ _ _ before step => ⟨before.1.step step, before.1.exited_step step before.2.1,
        before.1.told_step step lt before.2.1 before.2.2⟩) ⟨inv, gone, untold⟩
    rw [returned] at stays
    exact stays.2.2 rfl

/-- `FaultPoolRun`, for every job, every order of steps and every way the sockets cut the bytes. -/
theorem faultPoolRun_spec {es : List Event} (run : c.Run es s) : c.Correct es s := by
  have inv := Inv.run run
  have none := notStarted_run run
  refine ⟨?_, inv.csv, inv.cubes, fun returned => ?_, fun b returned failed => ?_, inv.progress, ?_, ?_⟩
  · rw [assignments_run run]
    exact List.nodup_range
  · obtain ⟨files, succeeded, next, -⟩ := inv.returned returned
    refine ⟨files, ?_, by rw [assignments_run run, next]⟩
    rw [files, c.serialLoop_spec fun i hi => (succeeded i hi).1]
  · cases b with
    | false => rfl
    | true =>
        obtain ⟨-, succeeded, next, on, -⟩ := inv.returned returned
        rcases failed with cancel | ⟨w, i, mem, failed⟩ | died
        · rw [(cancelled_run run cancel).2] at on
          cases on
        · have mem : i ∈ (assignments es).map Prod.snd := List.mem_map.mpr ⟨_, mem, rfl⟩
          rw [assignments_run run, next, List.mem_range] at mem
          rw [(succeeded i mem).1] at failed
          cases failed
        · exact absurd returned (died_run died)
  · have finish : ∃ es' t, Transition.Run (Step c) s es' t ∧
        (Inv c t ∧ ∀ w, c.workerCount ≤ w → t.process w = .notStarted) ∧ ∃ b, t.phase = .returned b := by
      refine Transition.Run.completes (System.rank c)
        (fun s => Inv c s ∧ ∀ w, c.workerCount ≤ w → s.process w = .notStarted)
        (fun s => ∃ b, s.phase = .returned b) ?_ ⟨inv, none⟩
      intro u before on
      obtain ⟨e, v, step, program⟩ := before.1.progress fun b at' => on ⟨b, at'⟩
      refine ⟨e, v, step, ⟨before.1.step step, notStarted_step before.2 step⟩, ?_⟩
      apply (before.1.lowers before.2 step).resolve_right
      intro still
      rcases program with rfl | ⟨w, i, rfl⟩ <;> rcases still.1 with still | still <;> cases still
    obtain ⟨es', t, more, -, b, returned⟩ := finish
    exact ⟨es', t, b, more, returned⟩
  · intro state event first steps
    have all : ∀ k, Inv c (state k) ∧ ∀ w, c.workerCount ≤ w → (state k).process w = .notStarted := by
      intro k
      induction k with
      | zero =>
          rw [first]
          exact ⟨inv, none⟩
      | succ k ih => exact ⟨ih.1.step (steps k), notStarted_step ih.2 (steps k)⟩
    exact Transition.eventually_quiet (System.rank c) fun k =>
      (all k).1.lowers (all k).2 (steps k)

end Pool

end SafRprGen
