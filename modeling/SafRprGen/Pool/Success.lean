/-
Module: SafRprGen.Pool.Success
Layer: Pool
Purpose: `FaultPoolRun` fails only where something fails. In a run in which every task succeeds, the system
  refuses no call, no worker dies before it is told to stop and the signal does not come, the parent takes
  none of its ways to `terminate_workers`, whatever order the steps come in, and it returns true. Two
  workers whose results come in the other order close the module.
Main exports: Event.harmless, Unharmed, Unharmed.step, Unharmed.returns, faultPoolRun_succeeds, duoJob
-/
import SafRprGen.Pool.Returns

namespace SafRprGen

namespace Pool

open Bytes

variable {c : Job} {s t : System} {e : Event} {w : Nat}

/-- A step of the code, or a call that is repeated after a signal. -/
def Event.harmless (e : Event) : Prop := e.program ∨ e = .interrupted

namespace Phase

/-- `wait_for_workers`, and what follows it. -/
def closing : Phase → Prop
  | .wait _ _ _ => True
  | .reap _ _ _ => True
  | .returned _ => True
  | _ => False

/-- Worker `w` has been sent the whole of the order to stop. -/
def stopped (w : Nat) : Phase → Prop
  | .stop v rest => w < v ∨ w = v ∧ rest = []
  | p => p.closing

/-- The scan of the last `poll` has still to come to worker `w`. -/
def visits (w : Nat) : Phase → Prop
  | .scan v => v ≤ w
  | .header v _ => v < w
  | .csv v _ _ => v < w
  | .cubes v _ _ _ => v < w
  | .output v => v < w
  | .outputCube v _ => v < w
  | .assigning v launching => launching = false ∧ v < w
  | .sending v _ launching => launching = false ∧ v < w
  | _ => False

/-- No worker has failed. -/
def clean : Phase → Prop
  | .wait _ _ workers => workers = true
  | .reap _ _ workers => workers = true
  | _ => True

/-- The run has not failed. -/
def sound : Phase → Prop
  | .entry => True
  | .returned succeeded => succeeded = true
  | p => p.live = true ∧ p.clean

end Phase

/-- What holds, beside the invariant, as long as nothing has failed. -/
structure Unharmed (c : Job) (s : System) : Prop where
  inv : Inv c s
  on : s.cancelled = false
  calm : ∀ w, s.signalled w = false
  sound : s.phase.sound
  /-- A worker that has ended has been told to. -/
  exits : ∀ w b, s.process w = .exited b → b = true ∧ s.phase.stopped w
  open' : ∀ w, s.process w ≠ .notStarted → (s.socket w).parentEnd = false → s.phase.closing
  unstarted : ∀ w, c.workerCount ≤ w → s.process w = .notStarted
  /-- A worker that `poll` reported has a fault. -/
  polled : ∀ w < c.workerCount, s.phase.visits w → s.pool.revents w = true →
    (s.pool.workers w).faultIndex ≠ none

namespace Phase

theorem stopped_of_closing {p : Phase} (closing : p.closing) (w : Nat) : p.stopped w := by
  cases p with
  | wait | reap | returned => trivial
  | _ => exact absurd closing id

theorem closing_of_stopped {p : Phase} (stopped : ∀ w, p.stopped w) : p.closing := by
  cases p with
  | stop v rest =>
      rcases stopped (v + 1) with less | ⟨same, -⟩ <;> omega
  | wait | reap | returned => trivial
  | _ => exact absurd (stopped 0) id

/-- The order to stop has been sent. -/
theorem order_of_stopped {p : Phase} {w : Nat} (stopped : p.stopped w) (live : p.live = true)
    (index : Option Nat) : p.order index w = .stop ∧ p.unsent w = [] := by
  cases p with
  | stop v rest =>
      rcases stopped with less | ⟨rfl, rfl⟩
      · exact ⟨if_pos less.le, if_neg less.ne⟩
      · exact ⟨if_pos (le_refl w), if_pos rfl⟩
  | wait | reap => exact ⟨rfl, rfl⟩
  | returned => cases live
  | _ => exact absurd stopped id

theorem stopped_of_order {p : Phase} {w : Nat} {index : Option Nat} (order : p.order index w = .stop)
    (sent : p.unsent w = []) : p.stopped w := by
  cases p with
  | stop v rest =>
      simp only [Phase.order] at order
      split at order
      · rename_i le
        rcases Nat.lt_or_eq_of_le le with less | rfl
        · exact .inl less
        · exact .inr ⟨rfl, (if_pos rfl).symm.trans sent⟩
      · cases order
  | wait | reap => trivial
  | assigning | output | outputCube =>
      simp only [Phase.order] at order
      split at order
      · cases order
      · exact absurd order Order.ofIndex_ne_stop
  | _ => exact absurd order Order.ofIndex_ne_stop

end Phase

theorem System.transferred_on {u : System} {p : Phase} (on : u.cancelled = false) :
    u.transferred p = u.goto p := by
  rw [System.transferred, on]
  rfl

/-- A worker whose end of the socket is closed is dead. -/
theorem Link.exited {o : Order} {unsent answer : List UInt8} {k : Socket} {p : WorkerProcess}
    (link : Link c o unsent answer k p) (closed : k.workerEnd = false) : ∃ b, p = .exited b := by
  cases link with
  | gone => exact ⟨_, rfl⟩
  | free | asked | working | answered | quitting => cases closed

theorem WorkerStep.parentEnd (step : WorkerStep c s w e t) :
    (t.socket w).parentEnd = (s.socket w).parentEnd := by
  cases step with
  | receive | send => rw [System.socket_setProcess, System.socket_setSocket]
  | hangup | brokenPipe | finished | killed | crash => rw [System.socket_exit]
  | received =>
      unfold Job.dispatch
      split
      · rfl
      · split
        · rw [System.socket_exit]
        · rfl
  | replied =>
      split
      · rfl
      · rw [System.socket_exit]

/-- A worker whose tasks succeed ends only when it has been told to. -/
theorem WorkerStep.ends {o : Order} {unsent answer : List UInt8} {b : Bool}
    (all : ∀ i < c.count, (c.task i).succeeded = true) (valid : ∀ i, o = .fault i → i < c.count)
    (link : Link c o unsent answer (s.socket w) (s.process w))
    (open' : (s.socket w).parentEnd = false → o = .stop ∧ unsent = []) (calm : s.signalled w = false)
    (step : WorkerStep c s w e t) (harmless : e.harmless) (gone : t.process w = .exited b) :
    b = true ∧ o = .stop ∧ unsent = [] := by
  cases step with
  | receive | send =>
      rw [System.process_setProcess] at gone
      cases gone
  | hangup here more empty closed =>
      rw [here] at link
      generalize s.socket w = socket at link open' empty closed
      cases link with
      | free | answered => cases closed
      | asked some listening bytes =>
          cases listening with
          | receiving =>
              obtain ⟨-, rfl⟩ := open' closed
              simp only at empty
              subst empty
              rw [List.append_nil, List.append_nil] at bytes
              rw [bytes, length_intBytes] at more
              exact absurd more (Nat.lt_irrefl _)
  | brokenPipe here more closed =>
      rw [here] at link
      generalize s.socket w = socket at link closed
      cases link with
      | free listening =>
          cases listening with
          | replied => exact absurd rfl more
      | asked some listening =>
          cases listening with
          | replied => exact absurd rfl more
      | working => cases closed
  | finished here =>
      rw [System.process_exit] at gone
      cases gone
      rw [here] at link
      generalize s.socket w = socket at link
      cases link with
      | free listening => cases listening
      | asked _ listening => cases listening
      | quitting => exact ⟨rfl, rfl, rfl⟩
  | killed _ signal =>
      rw [calm] at signal
      cases signal
  | crash => rcases harmless with (loud | ⟨_, _, loud⟩) | loud <;> cases loud
  | @received got here full =>
      rw [here] at link
      generalize s.socket w = socket at link
      cases link with
      | free listening =>
          cases listening with
          | receiving => exact absurd full (by decide)
      | @asked _ _ inFlight _ _ _ some listening bytes =>
          cases listening with
          | receiving =>
              have length := congrArg List.length bytes
              simp only [List.length_append, length_intBytes] at length
              obtain rfl : inFlight = [] := List.eq_nil_of_length_eq_zero (by omega)
              obtain rfl : unsent = [] := List.eq_nil_of_length_eq_zero (by omega)
              rw [List.append_nil, List.append_nil] at bytes
              rw [bytes, readWord_intBytes] at gone
              cases o with
              | none => exact absurd rfl some
              | fault i =>
                  rw [show (Order.fault i).number = BitVec.ofNat 32 i from rfl,
                    dispatch_fault s w (valid i rfl), System.process_setProcess] at gone
                  cases gone
              | stop =>
                  rw [show Order.stop.number = noFault from rfl, dispatch_stop,
                    System.process_setProcess] at gone
                  cases gone
      | answered => exact absurd full (by decide)
  | @replied i here =>
      have succeeded : (c.task i).succeeded = true := by
        rw [here] at link
        generalize s.socket w = socket at link
        cases link with
        | free listening =>
            cases listening with
            | replied succeeded => exact succeeded
        | asked some listening =>
            cases listening with
            | replied succeeded => exact succeeded
        | working => exact all i (valid i rfl)
      rw [if_pos succeeded, System.process_setProcess] at gone
      cases gone

namespace Good

/-- A worker the parent sends to or reads from has been started. -/
theorem outgoing_lt {rest : List UInt8} (good : Good c s) (out : s.phase.outgoing = some (w, rest)) :
    w < s.started c := by
  have here := good.here
  unfold System.Here at here
  unfold System.started
  cases at' : s.phase with
  | sending v rest launching =>
      rw [at'] at here out
      cases out
      cases launching with
      | true => exact Nat.lt_succ_self _
      | false => exact here
  | stop v rest =>
      rw [at'] at here out
      cases out
      exact here.1
  | _ => rw [at'] at out; cases out

theorem incoming_order {size : Nat} (good : Good c s) (inc : s.phase.incoming = some (w, size)) :
    w < s.started c ∧ ∃ i, s.order w = .fault i := by
  have here := good.here
  unfold System.Here at here
  unfold System.started System.order
  cases at' : s.phase with
  | header | csv | cubes =>
      rw [at'] at here inc
      cases inc
      obtain ⟨lt, -, i, index⟩ := here
      first
        | exact ⟨lt, i, by rw [index]; rfl⟩
        | exact ⟨lt, i, by rw [index.1]; rfl⟩
  | _ => rw [at'] at inc; cases inc

/-- The header of an answer to a task that succeeds passes the checks. -/
theorem accepts {got : List UInt8} (all : ∀ i < c.count, (c.task i).succeeded = true) (good : Good c s)
    (at' : s.phase = .header w got) (full : got.length = replySize) :
    s.accepts c w (.read got) = true := by
  have here := good.here
  rw [System.Here, at'] at here
  obtain ⟨lt, -, i, index⟩ := here
  have order : s.order w = .fault i := by
    rw [System.order, at', index]
    rfl
  have lt' : w < s.started c := by rw [System.started, at']; exact lt
  have link := good.link w lt'
  rw [order] at link
  have part := link.answer_prefix
  rw [at', Phase.answer, if_pos rfl] at part
  have header : got = (c.reply i).bytes := by
    refine List.IsPrefix.eq_of_length ?_ (full.trans (FaultReply.length_bytes _).symm)
    apply List.prefix_of_prefix_length_le ((List.prefix_append _ _).trans part) (List.prefix_append _ _)
    rw [full, FaultReply.length_bytes]
  have succeeded := all i (good.valid lt' order)
  have pending := good.books.pending w lt' i order
  have csv := (c.task i).csv_lt
  have cubes := c.length_cubes_lt i
  obtain ⟨csvSize, cubeSize⟩ := FaultReply.answer_length (c := c) i succeeded
  rw [System.accepts, index, header, FaultReply.read_bytes]
  have plain : c.saveCubes = true ∨ (c.reply i).cubeSize = 0 := by
    by_cases save : c.saveCubes = true
    · exact .inl save
    · refine .inr ?_
      simp [Job.reply, Job.cubes, save]
  simp only [Bool.and_eq_true, decide_eq_true_eq, Bool.or_eq_true, Bool.not_eq_true']
  exact ⟨⟨⟨⟨⟨by simp [Job.reply, succeeded], by rfl⟩, pending⟩, by omega⟩, by omega⟩, plain⟩

end Good

namespace Unharmed

/-- A worker that has not been told to stop is there. -/
theorem present (un : Unharmed c s) (live : s.phase.live = true) (lt : w < s.started c)
    (untold : ¬ s.phase.stopped w) : (s.socket w).workerEnd = true := by
  by_contra closed
  obtain ⟨b, gone⟩ := ((un.inv.good live).link w lt).exited (Bool.not_eq_true _ ▸ closed)
  exact untold (un.exits w b gone).2

/-- A worker with a fault is there. -/
theorem present_of_fault (un : Unharmed c s) (live : s.phase.live = true) (lt : w < s.started c) {i : Nat}
    (order : s.order w = .fault i) : (s.socket w).workerEnd = true := by
  apply un.present live lt
  intro stopped
  have stop := (Phase.order_of_stopped stopped live (s.pool.workers w).faultIndex).1
  rw [show s.phase.order (s.pool.workers w).faultIndex w = s.order w from rfl, order] at stop
  cases stop

/-- What `poll` reports is a worker with a fault. -/
theorem ready (un : Unharmed c s) (at' : s.phase = .collect) (lt : w < c.workerCount)
    (ready : s.ready w = true) : (s.pool.workers w).faultIndex ≠ none := by
  intro none
  have live : s.phase.live = true := by rw [at']; rfl
  have lt' : w < s.started c := by rw [System.started, at']; exact lt
  have here := un.present live lt' (by rw [at']; exact id)
  have link := (un.inv.good live).link w lt'
  have order : s.order w = .none := by
    rw [System.order, at', none]
    rfl
  rw [order] at link
  rw [System.ready, here, link.of_none.2] at ready
  simp at ready

/-- Nothing makes the parent terminate its workers. -/
theorem sound_parent (all : ∀ i < c.count, (c.task i).succeeded = true) (un : Unharmed c s)
    (step : ParentStep c s e t) (harmless : e.harmless) : t.phase.sound := by
  have sound := un.sound
  cases step with
  | empty => rfl
  | install | started | launched | assigned | polled | scanned | skipped | csvReceived | stored | wrote
    | drained | cubeWritten => exact ⟨rfl, trivial⟩
  | noMemory | flushFailed | startFailed | ioError | pollFailed | noBuffer | writeFailed | cubeFailed
    | waitFailed => rcases harmless with (loud | ⟨_, _, loud⟩) | loud <;> cases loud
  | @idle w launching here => cases launching <;> exact ⟨rfl, trivial⟩
  | @sent w launching here => cases launching <;> exact ⟨rfl, trivial⟩
  | @send w rest k out =>
      rw [System.transferred_on (show (s.setSocket _ _).cancelled = false from un.on)]
      cases at' : s.phase with
      | sending | stop => exact ⟨rfl, trivial⟩
      | _ => rw [at'] at out; cases out
  | @receive w size k inc =>
      rw [System.transferred_on (show (s.setSocket _ _).cancelled = false from un.on)]
      cases at' : s.phase with
      | header | csv | cubes => exact ⟨rfl, trivial⟩
      | _ => rw [at'] at inc; cases inc
  | interrupted =>
      rw [System.transferred_on un.on]
      exact sound
  | pollInterrupted => exact sound
  | brokenPipe out more closed =>
      have live : s.phase.live = true := by
        cases at' : s.phase with
        | sending | stop => rfl
        | _ => rw [at'] at out; cases out
      have lt := (un.inv.good live).outgoing_lt out
      refine absurd (un.present live lt fun stopped => more ?_) (by rw [closed]; decide)
      rw [← Phase.unsent_of_outgoing out]
      exact (Phase.order_of_stopped stopped live none).2
  | hangup inc more empty closed =>
      have live : s.phase.live = true := by
        cases at' : s.phase with
        | header | csv | cubes => rfl
        | _ => rw [at'] at inc; cases inc
      obtain ⟨lt, i, order⟩ := (un.inv.good live).incoming_order inc
      exact absurd (un.present_of_fault live lt order) (by rw [closed]; decide)
  | collected at' done =>
      have books := (un.inv.good (by rw [at']; rfl)).books
      have all : s.pool.completedFaults = c.count := by
        have le : s.pool.completedFaults ≤ c.count := by
          rw [books.completed]
          exact List.countP_le_length.trans_eq List.length_range
        by_contra less
        exact done ⟨by omega, un.on⟩
      rw [if_pos ⟨un.on, all⟩]
      unfold Job.stopAt
      split <;> exact ⟨rfl, by trivial⟩
  | @served w at' lt ready =>
      have some := un.polled w lt (by rw [at']; exact le_refl w) ready
      rw [if_neg (by rw [Option.isNone_iff_eq_none]; exact some)]
      exact ⟨rfl, trivial⟩
  | @checked w got at' full =>
      have good := un.inv.good (by rw [at']; rfl)
      rw [if_pos (good.accepts all at' full)]
      exact ⟨rfl, trivial⟩
  | stopped =>
      unfold Job.stopAt
      split <;> exact ⟨rfl, by trivial⟩
  | terminated at' =>
      rw [at'] at sound
      cases sound.1
  | closed at' =>
      rw [at'] at sound
      split <;> exact sound
  | @reaped w succeeded workers clean at' gone =>
      rw [at'] at sound
      obtain ⟨rfl, -⟩ := un.exits w clean gone
      exact ⟨sound.1, by rw [show workers = true from sound.2]; rfl⟩
  | waitInterrupted at' =>
      rw [un.on]
      exact sound
  | finished at' all =>
      rw [at'] at sound
      obtain ⟨rfl, rfl⟩ := sound
      simp only [System.goto, Phase.sound, un.on, Bool.not_false, Bool.and_self]

/-- The order to stop stays sent. -/
theorem stopped_parent (un : Unharmed c s) (step : ParentStep c s e t) (sound : t.phase.sound)
    (stopped : s.phase.stopped w) : t.phase.stopped w := by
  cases step with
  | noMemory here | flushFailed here | startFailed here | pollFailed here | writeFailed _ here
    | cubeFailed here
    | empty here | install here | started here | launched here | assigned here | idle here | sent here
    | polled here | collected here | scanned here | skipped here | served here | checked here
    | csvReceived here | stored here | wrote here | drained here | cubeWritten here | terminated here =>
      rw [here] at stopped
      exact absurd stopped id
  | brokenPipe | hangup | ioError | noBuffer => cases sound.1
  | @send v rest k out =>
      rw [System.transferred_on (show (s.setSocket _ _).cancelled = false from un.on)]
      cases at' : s.phase with
      | stop v rest =>
          rw [at'] at stopped
          rcases stopped with less | ⟨rfl, rfl⟩
          · exact .inl less
          · exact .inr ⟨rfl, List.drop_nil⟩
      | sending => rw [at'] at stopped; exact absurd stopped id
      | _ => rw [at'] at out; cases out
  | @receive v size k inc =>
      cases at' : s.phase with
      | header | csv | cubes => rw [at'] at stopped; exact absurd stopped id
      | _ => rw [at'] at inc; cases inc
  | interrupted =>
      rw [System.transferred_on un.on]
      exact stopped
  | pollInterrupted => exact stopped
  | @stopped v here =>
      rw [here] at stopped
      simp only [System.goto, Job.stopAt]
      split
      · rcases stopped with less | ⟨rfl, -⟩
        · exact .inl (by omega)
        · exact .inl (Nat.lt_succ_self w)
      · trivial
  | closed => simp only [System.goto]; split <;> trivial
  | reaped | waitFailed | finished => trivial
  | waitInterrupted here =>
      rw [un.on]
      exact stopped

/-- The parent closes no socket before the order to stop has been sent to all workers. -/
theorem closing_parent (un : Unharmed c s) (step : ParentStep c s e t) (sound : t.phase.sound)
    (started : t.process w ≠ .notStarted) (closed : (t.socket w).parentEnd = false) : t.phase.closing := by
  have before : t.phase.closing ∨ s.process w ≠ .notStarted ∧ (s.socket w).parentEnd = false := by
    cases step with
    | @started v here lt =>
        have ne : w ≠ v := by
          rintro rfl
          rw [show ((s.startWorker w).goto _).socket w = ⟨[], [], true, true⟩ from
            Function.update_self _ _ _] at closed
          cases closed
        exact .inr ⟨by rwa [show ((s.startWorker v).goto _).process w = s.process w from
            Function.update_of_ne ne _ _] at started,
          by rwa [show ((s.startWorker v).goto _).socket w = s.socket w from
            Function.update_of_ne ne _ _] at closed⟩
    | @send v rest k =>
        refine .inr ⟨started, ?_⟩
        by_cases same : w = v
        · subst same
          rwa [show ((s.setSocket w _).transferred _).socket w = _ from Function.update_self _ _ _] at closed
        · rwa [show ((s.setSocket v _).transferred _).socket w = s.socket w from
            Function.update_of_ne same _ _] at closed
    | @receive v size k =>
        refine .inr ⟨started, ?_⟩
        by_cases same : w = v
        · subst same
          rwa [show ((s.setSocket w _).transferred _).socket w = _ from Function.update_self _ _ _] at closed
        · rwa [show ((s.setSocket v _).transferred _).socket w = s.socket w from
            Function.update_of_ne same _ _] at closed
    | closed =>
        refine .inl ?_
        simp only [System.goto]
        split <;> trivial
    | waitInterrupted =>
        rw [un.on] at started closed
        exact .inr ⟨started, closed⟩
    | _ => exact .inr ⟨started, closed⟩
  rcases before with here | ⟨started, closed⟩
  · exact here
  · have closing := un.open' w started closed
    exact Phase.closing_of_stopped fun v => un.stopped_parent step sound (Phase.stopped_of_closing closing v)

/-- Up to its own turn in the scan a worker keeps the fault that `poll` found it with. -/
theorem visits_parent (un : Unharmed c s) (step : ParentStep c s e t) (lt : w < c.workerCount)
    (visits : t.phase.visits w) (ready : t.pool.revents w = true) : (t.pool.workers w).faultIndex ≠
      none := by
  have before (visited : s.phase.visits w) (same : s.pool.revents w = true) :
      (s.pool.workers w).faultIndex ≠ none := un.polled w lt visited same
  cases step with
  | polled here => exact un.ready here lt ready
  | empty | noMemory | install | flushFailed | startFailed | launched | brokenPipe | hangup | ioError
    | pollFailed | scanned | noBuffer | writeFailed | cubeFailed | terminated | reaped | waitFailed
    | finished =>
      exact absurd visits id
  | started => cases visits.1
  | pollInterrupted here =>
      rw [here] at visits
      exact absurd visits id
  | collected | stopped =>
      simp only [System.goto, Job.stopAt] at visits
      repeat' split at visits
      all_goals exact absurd visits id
  | closed =>
      simp only [System.goto] at visits
      split at visits <;> exact absurd visits id
  | waitInterrupted here =>
      rw [un.on] at visits
      rw [show (if false = true then s.terminateWorkers c else s) = s from rfl, here] at visits
      exact absurd visits id
  | @assigned v launching here =>
      have ne : w ≠ v := visits.2.ne'
      rw [show ((s.assignNextFault v).goto _).pool.workers w = s.pool.workers w from
        Function.update_of_ne ne _ _]
      exact before (by rw [here]; exact visits) ready
  | @idle v launching here =>
      cases launching with
      | true => exact absurd visits id
      | false =>
          have ne : w ≠ v := by
            rintro rfl
            exact Nat.not_succ_le_self w visits
          rw [show ((s.idleWorker v).goto _).pool.workers w =
            s.pool.workers w from Function.update_of_ne ne _ _]
          exact before (by rw [here]; exact ⟨rfl, visits⟩) ready
  | @sent v launching here =>
      cases launching with
      | true => exact absurd visits id
      | false => exact before (by rw [here]; exact ⟨rfl, visits⟩) ready
  | @send v rest k out =>
      rw [System.transferred_on (show (s.setSocket _ _).cancelled = false from un.on)] at visits ready ⊢
      cases at' : s.phase with
      | sending | stop =>
          rw [at'] at visits
          exact before (by rw [at']; exact visits) ready
      | _ => rw [at'] at out; cases out
  | @receive v size k inc =>
      rw [System.transferred_on (show (s.setSocket _ _).cancelled = false from un.on)] at visits ready ⊢
      cases at' : s.phase with
      | header | csv | cubes =>
          rw [at'] at visits
          exact before (by rw [at']; exact visits) ready
      | _ => rw [at'] at inc; cases inc
  | interrupted =>
      rw [System.transferred_on un.on] at visits ready ⊢
      exact before visits ready
  | @skipped v here => exact before (by rw [here]; exact Nat.le_of_succ_le visits) ready
  | @served v here =>
      simp only [System.goto] at visits
      split at visits
      · exact absurd visits id
      · exact before (by rw [here]; exact Nat.le_of_lt visits) ready
  | @checked v got here =>
      simp only [System.goto] at visits
      split at visits
      · exact before (by rw [here]; exact visits) ready
      · exact absurd visits id
  | csvReceived here | stored here | wrote here | cubeWritten here =>
      exact before (by rw [here]; exact visits) ready
  | drained here => exact before (by rw [here]; exact visits.2) ready

/-- A worker that runs is one that the parent has started and not yet seen the end of. -/
theorem live_of_alive (un : Unharmed c s) (alive : (s.process w).alive) :
    s.phase.live = true ∧ w < s.started c := by
  have sound := un.sound
  have live : s.phase.live = true := by
    cases at' : s.phase with
    | entry =>
        rw [un.inv.entry at'] at alive
        exact absurd alive id
    | returned b =>
        rw [at'] at sound
        obtain rfl : b = true := sound
        by_cases lt : w < c.workerCount
        · rw [(un.inv.returned at').2.2.2.2 w lt] at alive
          exact absurd alive id
        · rw [un.unstarted w (by omega)] at alive
          exact absurd alive id
    | _ =>
        rw [at'] at sound
        exact sound.1
  refine ⟨live, ?_⟩
  by_contra ge
  rw [((un.inv.good live).unborn w (by omega)).1] at alive
  exact alive

/-- No harmless step harms. -/
theorem step (all : ∀ i < c.count, (c.task i).succeeded = true) (un : Unharmed c s) (step : Step c s e t)
    (harmless : e.harmless) : Unharmed c t := by
  have inv := un.inv.step step
  have unstarted := notStarted_step un.unstarted step
  cases step with
  | cancel => rcases harmless with (loud | ⟨_, _, loud⟩) | loud <;> cases loud
  | parent step =>
      have sound := un.sound_parent all step harmless
      refine ⟨inv, ?_, ?_, sound, ?_, fun w => un.closing_parent step sound, unstarted,
        fun w lt => un.visits_parent step lt⟩
      · cases step with
        | install | flushFailed => rfl
        | send | receive | interrupted => unfold System.transferred; split <;> exact un.on
        | waitInterrupted => split <;> exact un.on
        | _ => exact un.on
      · cases step with
        | terminated => cases sound.1
        | send | receive | interrupted => unfold System.transferred; split <;> exact un.calm
        | waitInterrupted =>
            rw [un.on]
            exact un.calm
        | _ => exact un.calm
      · intro w b gone
        rcases step.process with same | ⟨v, -, -, started⟩
        · rw [same] at gone
          obtain ⟨clean, stopped⟩ := un.exits w b gone
          exact ⟨clean, un.stopped_parent step sound stopped⟩
        · by_cases same : w = v
          · subst same
            rw [started, Function.update_self] at gone
            cases gone
          · rw [started, Function.update_of_ne same] at gone
            obtain ⟨clean, stopped⟩ := un.exits w b gone
            exact ⟨clean, un.stopped_parent step sound stopped⟩
  | worker v step =>
      have frame := step.frame
      obtain ⟨live, lt⟩ := un.live_of_alive step.alive
      have good := un.inv.good live
      have running : s.process v ≠ .notStarted := by
        intro none
        have alive := step.alive
        rw [none] at alive
        exact alive
      refine ⟨inv, frame.cancelled.trans un.on, fun w => by rw [frame.signalled]; exact un.calm w,
        by rw [frame.phase]; exact un.sound, ?_, ?_, unstarted,
        by rw [frame.phase, frame.pool]; exact un.polled⟩
      · intro w b gone
        rw [frame.phase]
        by_cases same : w = v
        · subst same
          have told : (s.socket w).parentEnd = false → s.order w = .stop ∧ s.phase.unsent w = [] :=
            fun closed =>
            Phase.order_of_stopped (Phase.stopped_of_closing (un.open' w running closed) w) live _
          obtain ⟨clean, order, sent⟩ := step.ends all (fun i has => good.valid lt has) (good.link w lt) told
            (un.calm w) harmless gone
          exact ⟨clean, Phase.stopped_of_order order sent⟩
        · rw [frame.process w same] at gone
          exact un.exits w b gone
      · intro w started closed
        rw [frame.phase]
        by_cases same : w = v
        · subst same
          exact un.open' w running (step.parentEnd.symm.trans closed)
        · rw [frame.process w same] at started
          rw [frame.socket w same] at closed
          exact un.open' w started closed

theorem start : Unharmed c Job.start where
  inv := Inv.start
  on := rfl
  calm := fun _ => rfl
  sound := trivial
  exits := fun _ _ gone => by cases gone
  open' := fun _ started _ => absurd rfl started
  unstarted := fun _ _ => rfl
  polled := fun _ _ visits => absurd visits id

/-- In every state of such a run nothing has failed. -/
theorem run (all : ∀ i < c.count, (c.task i).succeeded = true) {es : List Event} (run : c.Run es s)
    (harmless : ∀ e ∈ es, e.harmless) : Unharmed c s := by
  revert harmless
  apply run.invariant (fun es s => (∀ e ∈ es, e.harmless) → Unharmed c s) (fun _ => start)
  intro es s e t _ before step harmless
  obtain ⟨earlier, last⟩ := List.forall_mem_append.mp harmless
  exact (before earlier).step all step (last e List.mem_cons_self)

/-- What has not failed has not returned false. -/
theorem right (un : Unharmed c s) {b : Bool} (returned : s.phase = .returned b) : b = true := by
  have sound := un.sound
  rw [returned] at sound
  exact sound

/-- With steps of its code alone the run comes to return true. -/
theorem returns (all : ∀ i < c.count, (c.task i).succeeded = true) (un : Unharmed c s) :
    ∃ es t, Transition.Run (Step c) s es t ∧ (∀ e ∈ es, e.program) ∧ Unharmed c t ∧
      t.phase = .returned true := by
  obtain ⟨es, t, run, un', b, returned⟩ := @Transition.Run.completes System Event
    (fun s e t => Step c s e t ∧ e.program) _ _ _
    (System.rank c) (Unharmed c) (fun s => ∃ b, s.phase = .returned b) (by
      intro u un on
      obtain ⟨e, v, step, program⟩ := un.inv.progress fun b at' => on ⟨b, at'⟩
      refine ⟨e, v, ⟨step, program⟩, un.step all step (.inl program), ?_⟩
      apply (un.inv.lowers un.unstarted step).resolve_right
      intro still
      rcases program with rfl | ⟨w, i, rfl⟩ <;> rcases still.1 with still | still <;> cases still) s un
  obtain rfl := un'.right returned
  obtain ⟨run, program⟩ := @Transition.Run.of_sub System Event (Step c) _ _ _ _ Event.program
    (fun _ _ _ both => both) run
  exact ⟨es, t, run, program, un', returned⟩

end Unharmed

/-- A run without failures does not fail: where every task succeeds, and so far no call was refused, no
worker died and the signal has not come, `FaultPoolRun` has not returned false, and with steps of its code
alone it comes to return true, with the files of the serial loop. -/
theorem faultPoolRun_succeeds (c : Job) (all : ∀ i < c.count, (c.task i).succeeded = true) (es : List Event)
    (s : System) (run : c.Run es s) (harmless : ∀ e ∈ es, e.harmless) :
    (∀ b, s.phase = .returned b → b = true) ∧
    ∃ es' t, Transition.Run (Step c) s es' t ∧ (∀ e ∈ es', e.program) ∧ t.phase = .returned true ∧
      c.serialLoop c.count = (true, t.files) := by
  have un := Unharmed.run all run harmless
  obtain ⟨es', t, more, program, un', returned⟩ := un.returns all
  refine ⟨fun b => un.right, es', t, more, program, returned, ?_⟩
  rw [c.serialLoop_spec all, (un'.inv.returned returned).1]

/-! ### Two workers -/

/-- Two faults with a line each, and two workers. -/
def duoJob (fault : Nat → FNODE) (line : Nat → List UInt8) (small : ∀ i, (line i).length < 2 ^ 64 - 1) :
    Job where
  fault := fault
  count := 2
  jobs := 2
  saveCubes := false
  task := fun i => ⟨true, line i, [], ⟨0, 0, 0⟩, small i, by decide⟩
  plus := fun x _ => x
  room := (line 1).length + 48
  count_lt := by decide
  jobs_pos := by decide
  room_pos := Nat.succ_pos _

/-- The second worker has answered before the first one has read its number. -/
structure Ahead (c : Job) (s : System) : Prop where
  phase : s.phase = .collect
  completed : s.pool.completedFaults = 0
  on : s.cancelled = false
  worker : (s.pool.workers 1).faultIndex = some 1
  asked : s.pool.events 1 = true
  answer : (s.socket 1).toParent = c.analyzeAndReply 1
  silent : s.ready 0 = false
  results : ∀ i, (s.pool.results i).ready = false

section Duo

variable {fault : Nat → FNODE} {line : Nat → List UInt8} {small : ∀ i, (line i).length < 2 ^ 64 - 1}

theorem duoJob_ahead : ∃ es s, (duoJob fault line small).Run es s ∧ (∀ e ∈ es, e.harmless) ∧
    Ahead (duoJob fault line small) s := by
  have size : ((duoJob fault line small).analyzeAndReply 1).length = (line 1).length + 48 := by
    simp [Job.analyzeAndReply, duoJob, Job.cubes, replySize, Nat.add_comm]
  have run : (duoJob fault line small).Run [] Job.start := .refl _
  have run := run.step (.parent (.install rfl (of_decide_eq_true rfl)))
  have run := run.step (.parent (.started rfl (of_decide_eq_true rfl)))
  have run := run.step (.parent (.assigned rfl (of_decide_eq_true rfl)))
  have run := run.step (.parent (.send 4 rfl (by decide) (by decide) (by change 0 + 4 ≤ _ + 48; omega) rfl))
  have run := run.step (.parent (.sent rfl))
  have run := run.step (.parent (.started rfl (of_decide_eq_true rfl)))
  have run := run.step (.parent (.assigned rfl (of_decide_eq_true rfl)))
  have run := run.step (.parent (.send 4 rfl (by decide) (by decide) (by change 0 + 4 ≤ _ + 48; omega) rfl))
  have run := run.step (.parent (.sent rfl))
  have run := run.step (.parent (.launched rfl rfl))
  have run := run.step (.worker 1 (.receive 4 rfl (by decide) (by decide) (by decide)))
  have run := run.step (.worker 1 (.received rfl (by decide)))
  have run := run.step (.worker 1 (@WorkerStep.send _ _ _ 1 ((duoJob fault line small).analyzeAndReply 1)
    ((line 1).length + 48) rfl (Nat.succ_pos _) size.ge (by change 0 + (_ + 48) ≤ _ + 48; omega) rfl))
  rw [List.drop_eq_nil_of_le size.le, List.take_of_length_le size.le] at run
  have run := run.step (.worker 1 (.replied rfl))
  exact ⟨_, _, run, by simp [Event.harmless, Event.program], rfl, rfl, rfl, rfl, rfl, rfl, rfl, fun _ => rfl⟩

/-- The parent stores the answer of the second worker. -/
theorem Ahead.stored {es : List Event} {s : System} (ahead : Ahead (duoJob fault line small) s)
    (some : 0 < (line 1).length) (run : (duoJob fault line small).Run es s)
    (harmless : ∀ e ∈ es, e.harmless) :
    ∃ es' t, (duoJob fault line small).Run es' t ∧ (∀ e ∈ es', e.harmless) ∧
      (t.pool.results 1).ready = true ∧ (t.pool.results 0).ready = false := by
  obtain ⟨phase, completed, on, worker, asked, answer, silent, results⟩ := ahead
  have lineLt := small 1
  have header : ((duoJob fault line small).analyzeAndReply 1).take 48 =
      ((duoJob fault line small).reply 1).bytes := List.take_left' (FaultReply.length_bytes _)
  have rest : ((duoJob fault line small).analyzeAndReply 1).drop 48 = line 1 :=
    (List.drop_left' (FaultReply.length_bytes _)).trans (List.append_nil _)
  have long : 48 ≤ (s.socket 1).toParent.length := by
    rw [answer, Job.analyzeAndReply, List.length_append, FaultReply.length_bytes]
    exact Nat.le_add_right _ _
  have csvSize : ((duoJob fault line small).reply 1).csvSize.toNat = (line 1).length :=
    Nat.mod_eq_of_lt (by change (line 1).length < 2 ^ 64; omega)
  have ready : s.ready 1 = true := by
    have answered : (s.socket 1).toParent.isEmpty = false := by
      rw [List.isEmpty_eq_false_iff, ← List.length_pos_iff]
      omega
    rw [System.ready, asked, answered]
    exact Bool.or_true _
  have run := run.step (.parent (.polled phase (by rw [completed]; exact of_decide_eq_true rfl) on
    ⟨1, of_decide_eq_true rfl, ready⟩))
  have run := run.step (.parent (.skipped rfl (of_decide_eq_true rfl) silent))
  have run := run.step (.parent (.served rfl (of_decide_eq_true rfl) ready))
  simp only [System.goto, System.poll, worker, Option.isNone_some, Bool.false_eq_true, if_false] at run
  have run := run.step (.parent (.receive 48 rfl (by decide) le_rfl long))
  simp only [System.setSocket, System.transferred, System.goto, on, answer, header, rest,
    Bool.false_eq_true, if_false, Phase.received, List.nil_append] at run
  have run := run.step (.parent (.checked rfl (FaultReply.length_bytes _)))
  rw [FaultReply.read_bytes, if_pos (by
    simp only [System.accepts, worker, results, csvSize]
    simp [Job.reply, duoJob, Job.cubes]
    omega)] at run
  have run := run.step (.parent (.receive (line 1).length (congrArg (fun n => Option.some (1, n)) csvSize)
    some le_rfl le_rfl))
  simp only [System.setSocket, System.transferred, System.goto, Function.update_self, List.take_length,
    Bool.false_eq_true, if_false, Phase.received, List.nil_append] at run
  have run := run.step (.parent (.csvReceived rfl csvSize.symm))
  have run := run.step (.parent (.stored rfl rfl worker))
  refine ⟨_, _, run, fun e mem => ?_, rfl, results 0⟩
  simp only [List.mem_append, List.mem_singleton, or_assoc, or_self] at mem
  rcases mem with earlier | rfl
  · exact harmless e earlier
  · exact .inl (.inl rfl)

/-- A run in which the result of the second worker is stored first. -/
theorem duoJob_run (some : 0 < (line 1).length) :
    ∃ es t es' s, (duoJob fault line small).Run es t ∧ (∀ e ∈ es, e.harmless) ∧
      (t.pool.results 1).ready = true ∧ (t.pool.results 0).ready = false ∧
      Transition.Run (Step (duoJob fault line small)) t es' s ∧ s.phase = .returned true := by
  obtain ⟨es, s, run, harmless, ahead⟩ := @duoJob_ahead fault line small
  obtain ⟨es, t, run, harmless, second, first⟩ := ahead.stored some run harmless
  obtain ⟨es', s, more, -, -, returned⟩ := (Unharmed.run (fun _ _ => rfl) run harmless).returns
      fun _ _ => rfl
  exact ⟨es, t, es', s, run, harmless, second, first, more, returned⟩

end Duo

/-- Lines of one byte. -/
def letters (i : Nat) : List UInt8 := [65 + UInt8.ofNat i]

theorem letters_small (i : Nat) : (letters i).length < 2 ^ 64 - 1 := by
  rw [letters, List.length_singleton]
  decide

def letterJob : Job := duoJob (fun _ => ⟨[], [], .SF0, 0, none⟩) letters letters_small

theorem faultPoolRun_spec_duo : ∃ es t es' s, letterJob.Run es t ∧ (t.pool.results 1).ready = true ∧
    (t.pool.results 0).ready = false ∧ Transition.Run (Step letterJob) t es' s ∧
    s.phase = .returned true ∧ letterJob.Correct (es ++ es') s := by
  obtain ⟨es, t, es', s, run, -, second, first, more, returned⟩ :=
    @duoJob_run _ letters letters_small Nat.one_pos
  exact ⟨es, t, es', s, run, second, first, more, returned, faultPoolRun_spec (run.trans more)⟩

theorem faultPoolRun_succeeds_duo : ∃ es s, letterJob.Run es s ∧ (s.pool.results 1).ready = true ∧
    (s.pool.results 0).ready = false ∧ (∀ b, s.phase = .returned b → b = true) ∧
    ∃ es' t, Transition.Run (Step letterJob) s es' t ∧ (∀ e ∈ es', e.program) ∧ t.phase = .returned true ∧
      letterJob.serialLoop letterJob.count = (true, t.files) := by
  obtain ⟨es, s, -, -, run, harmless, second, first, -⟩ := @duoJob_run _ letters letters_small Nat.one_pos
  exact ⟨es, s, run, second, first,
    faultPoolRun_succeeds letterJob (fun _ _ => rfl) es s run harmless⟩

end Pool

end SafRprGen
