/-
Module: SafRprGen.Pool.Progress
Layer: Pool
Purpose: `FaultPoolRun` returns. A rank falls with every step except a signal and a call that is repeated
  after one, so a run goes on for ever only if signals never cease. And as long as the parent has not
  returned, the code itself has a step to take: nobody waits for a message that does not come.
Main exports: System.rank, Event.quiet, Event.program, Inv.lowers, Inv.progress
-/
import Mathlib.Algebra.BigOperators.Group.Finset.Basic
import Mathlib.Algebra.Order.BigOperators.Group.Finset
import SafRprGen.Pool.Run

namespace SafRprGen

namespace Pool

open Bytes

variable {c : Job} {s t : System} {e : Event}

/-- A step that may come again and again without effect: a signal, or a call repeated after one. -/
def Event.quiet (e : Event) : Prop := e = .interrupted ∨ e = .cancel

/-- A step of the code, not one that the surroundings decide on. -/
def Event.program (e : Event) : Prop := e = .run ∨ ∃ w i, e = .assign w i

namespace Phase

/-- How many parts of `FaultPoolRun` are to come. -/
def stage : Phase → Nat
  | .entry => 6
  | .launch _ => 5
  | .assigning _ launching => if launching then 5 else 4
  | .sending _ _ launching => if launching then 5 else 4
  | .stop _ _ => 3
  | .terminate => 2
  | .wait _ _ _ => 1
  | .reap _ _ _ => 1
  | .returned _ => 0
  | _ => 4

/-- How many workers the current loop has still to visit. -/
def left (n : Nat) : Phase → Nat
  | .launch w => n - w
  | .assigning w launching => if launching then n - w else n - w + 1
  | .sending w _ launching => if launching then n - w else n - w + 1
  | .scan w => n - w + 1
  | .header w _ => n - w + 1
  | .csv w _ _ => n - w + 1
  | .cubes w _ _ _ => n - w + 1
  | .output w => n - w + 1
  | .outputCube w _ => n - w + 1
  | .stop w _ => n - w
  | .wait w _ _ => n - w
  | .reap w _ _ => n - w
  | _ => 0

/-- How many places of the loop body are to come. -/
def place : Phase → Nat
  | .launch _ => 9
  | .assigning _ launching => if launching then 8 else 3
  | .sending _ _ launching => if launching then 7 else 2
  | .scan _ => 8
  | .header _ _ => 7
  | .csv _ _ _ => 6
  | .cubes _ _ _ _ => 5
  | .output _ => 4
  | .outputCube _ _ => 4
  | .wait _ _ _ => 1
  | _ => 0

theorem stage_of_outgoing {p : Phase} {w : Nat} {rest : List UInt8} (out : p.outgoing = some (w, rest)) :
    2 < p.stage := by
  cases p with
  | sending v rest launching => cases launching <;> exact Nat.le_of_ble_eq_true rfl
  | stop => exact Nat.le_of_ble_eq_true rfl
  | _ => cases out

theorem stage_of_incoming {p : Phase} {w size : Nat} (inc : p.incoming = some (w, size)) :
    2 < p.stage := by
  cases p with
  | header | csv | cubes => exact Nat.le_of_ble_eq_true rfl
  | _ => cases inc

theorem stage_of_transferring {p : Phase} (due : p.transferring) : 2 < p.stage := by
  rcases due with ⟨_, _, out, -⟩ | ⟨_, _, inc, -⟩
  · exact stage_of_outgoing out
  · exact stage_of_incoming inc

/-- How much of the current transfer, or of the writing, is to come. -/
def rest (toWrite : Nat) : Phase → Nat
  | .sending _ rest _ => rest.length
  | .stop _ rest => rest.length
  | .header _ got => replySize - got.length
  | .csv _ reply got => reply.csvSize.toNat - got.length
  | .cubes _ reply _ got => reply.cubeSize.toNat - got.length
  | .output _ => 2 * toWrite
  | .outputCube _ _ => 2 * toWrite + 1
  | _ => 0

/-- No socket that `poll` reported is left to serve. -/
def served (n : Nat) (revents : Nat → Bool) : Phase → Prop
  | .collect => True
  | .scan w => ∀ v, w ≤ v → v < n → revents v = false
  | .output w => ∀ v, w < v → v < n → revents v = false
  | .outputCube w _ => ∀ v, w < v → v < n → revents v = false
  | .assigning w _ => ∀ v, w < v → v < n → revents v = false
  | .sending w _ _ => ∀ v, w < v → v < n → revents v = false
  | _ => False

end Phase

namespace System

variable (c : Job) (s : System)

open Classical in
/-- The faults to come, and whether the round has served somebody. -/
noncomputable def rounds : Nat :=
  if s.phase.stage = 4 then 2 * (c.count - s.pool.completedFaults) +
    if s.phase.served c.workerCount s.pool.revents then 1 else 0 else 0

/-- More than the steps that the answer to one order takes. -/
def answerSteps : Nat := 4 + ∑ i ∈ Finset.range c.count, (c.analyzeAndReply i).length

/-- The steps a worker can still take. -/
def workerSteps (w : Nat) : Nat :=
  let toWorker := (s.socket w).toWorker.length
  match s.process w with
  | .notStarted => 0
  | .receiving got => 2 + toWorker + answerSteps c * ((got.length + toWorker) / intSize)
  | .replying _ rest => 3 + rest.length + toWorker + answerSteps c * (toWorker / intSize)
  | .finishing => 1
  | .exited _ => 0

/-- What every step lowers that does not leave everything as it is. -/
noncomputable def rank : ℕ ×ₗ ℕ ×ₗ ℕ ×ₗ ℕ ×ₗ ℕ ×ₗ ℕ :=
  toLex (s.phase.stage, toLex (s.rounds c, toLex (s.phase.left c.workerCount, toLex (s.phase.place,
    toLex (s.phase.rest (c.count - s.pool.nextOutput),
      ∑ w ∈ Finset.range c.workerCount, s.workerSteps c w)))))

end System

theorem rank_lt_iff : t.rank c < s.rank c ↔
    t.phase.stage < s.phase.stage ∨ t.phase.stage = s.phase.stage ∧
      (t.rounds c < s.rounds c ∨ t.rounds c = s.rounds c ∧
        (t.phase.left c.workerCount < s.phase.left c.workerCount ∨
          t.phase.left c.workerCount = s.phase.left c.workerCount ∧
            (t.phase.place < s.phase.place ∨ t.phase.place = s.phase.place ∧
              (t.phase.rest (c.count - t.pool.nextOutput) < s.phase.rest (c.count - s.pool.nextOutput) ∨
                t.phase.rest (c.count - t.pool.nextOutput) = s.phase.rest (c.count - s.pool.nextOutput) ∧
                  ∑ w ∈ Finset.range c.workerCount, t.workerSteps c w <
                    ∑ w ∈ Finset.range c.workerCount, s.workerSteps c w)))) := by
  simp only [System.rank, Prod.Lex.toLex_lt_toLex]

theorem rounds_on (collecting : s.phase.stage = 4) {toCome : Nat}
    (completed : c.count - s.pool.completedFaults = toCome) :
    (s.phase.served c.workerCount s.pool.revents → s.rounds c = 2 * toCome + 1) ∧
      (¬ s.phase.served c.workerCount s.pool.revents → s.rounds c = 2 * toCome) := by
  constructor
  · intro none
    rw [System.rounds, if_pos collecting, if_pos none, completed]
  · intro some
    rw [System.rounds, if_pos collecting, if_neg some, completed]
    rfl

/-- The parent goes from phase `p` to phase `q` of the same part, and completes no fault. -/
structure Onward (c : Job) (s t : System) (p q : Phase) : Prop where
  at' : s.phase = p
  reached : t.phase = q
  stage : q.stage = p.stage
  completed : t.pool.completedFaults = s.pool.completedFaults
  served : p.stage = 4 → (q.served c.workerCount t.pool.revents ↔ p.served c.workerCount s.pool.revents)

theorem Onward.rounds {p q : Phase} (on : Onward c s t p q) : t.rounds c = s.rounds c := by
  unfold System.rounds
  rw [on.at', on.reached, on.stage, on.completed]
  by_cases four : p.stage = 4
  · rw [if_pos four, if_pos four]
    by_cases none : p.served c.workerCount s.pool.revents
    · rw [if_pos none, if_pos ((on.served four).mpr none)]
    · rw [if_neg none, if_neg fun h => none ((on.served four).mp h)]
  · rw [if_neg four, if_neg four]

theorem lower_stage (less : t.phase.stage < s.phase.stage) : t.rank c < s.rank c :=
  rank_lt_iff.mpr (.inl less)

theorem Onward.left {p q : Phase} (on : Onward c s t p q)
    (less : q.left c.workerCount < p.left c.workerCount) : t.rank c < s.rank c := by
  refine rank_lt_iff.mpr (.inr ⟨?_, .inr ⟨on.rounds, .inl ?_⟩⟩)
  · rw [on.at', on.reached, on.stage]
  · rw [on.at', on.reached]
    exact less

theorem Onward.place {p q : Phase} (on : Onward c s t p q)
    (left : q.left c.workerCount = p.left c.workerCount) (less : q.place < p.place) :
    t.rank c < s.rank c := by
  refine rank_lt_iff.mpr (.inr ⟨?_, .inr ⟨on.rounds, .inr ⟨?_, .inl ?_⟩⟩⟩)
  · rw [on.at', on.reached, on.stage]
  · rw [on.at', on.reached, left]
  · rw [on.at', on.reached]
    exact less

theorem Onward.rest {p q : Phase} (on : Onward c s t p q)
    (left : q.left c.workerCount = p.left c.workerCount) (place : q.place = p.place)
    (less : q.rest (c.count - t.pool.nextOutput) < p.rest (c.count - s.pool.nextOutput)) :
    t.rank c < s.rank c := by
  refine rank_lt_iff.mpr (.inr ⟨?_, .inr ⟨on.rounds, .inr ⟨?_, .inr ⟨?_, .inl ?_⟩⟩⟩⟩)
  · rw [on.at', on.reached, on.stage]
  · rw [on.at', on.reached, left]
  · rw [on.at', on.reached, place]
  · rw [on.at', on.reached]
    exact less

/-- A step of a worker takes one from what the workers can still do. -/
theorem lower_workers (phase : t.phase = s.phase) (pool : t.pool = s.pool) {w : Nat}
    (lt : w < c.workerCount) (others : ∀ v ≠ w, t.workerSteps c v = s.workerSteps c v)
    (less : t.workerSteps c w < s.workerSteps c w) : t.rank c < s.rank c := by
  have on : Onward c s t s.phase s.phase :=
    ⟨rfl, phase, rfl, by rw [pool], fun _ => by rw [pool]⟩
  refine rank_lt_iff.mpr (.inr ⟨by rw [phase], .inr ⟨on.rounds, .inr ⟨by rw [phase],
    .inr ⟨by rw [phase], .inr ⟨by rw [phase, pool], ?_⟩⟩⟩⟩⟩)
  refine Finset.sum_lt_sum (fun v _ => ?_) ⟨w, Finset.mem_range.mpr lt, less⟩
  by_cases same : v = w
  · subst same
    exact less.le
  · exact (others v same).le

/-- A fault's answer takes fewer steps than the rank provides for an order. -/
theorem answerSteps_gt {i : Nat} (lt : i < c.count) :
    3 + (c.analyzeAndReply i).length < System.answerSteps c := by
  have le : (c.analyzeAndReply i).length ≤ ∑ j ∈ Finset.range c.count, (c.analyzeAndReply j).length :=
    Finset.single_le_sum (f := fun j => (c.analyzeAndReply j).length) (fun _ _ => Nat.zero_le _)
      (Finset.mem_range.mpr lt)
  unfold System.answerSteps
  omega

theorem WorkerProcess.exists_of_alive {p : WorkerProcess} (alive : p.alive) :
    (∃ got, p = .receiving got) ∨ (∃ i rest, p = .replying i rest) ∨ p = .finishing := by
  cases p with
  | receiving got => exact .inl ⟨got, rfl⟩
  | replying i rest => exact .inr (.inl ⟨i, rest, rfl⟩)
  | finishing => exact .inr (.inr rfl)
  | _ => exact absurd alive id

theorem workerSteps_exit {w : Nat} {clean : Bool} (alive : (s.process w).alive) :
    (s.exit w clean).workerSteps c w < s.workerSteps c w := by
  have gone : (s.exit w clean).workerSteps c w = 0 := by
    rw [System.workerSteps, System.process_exit]
  rw [gone, System.workerSteps]
  rcases WorkerProcess.exists_of_alive alive with ⟨got, here⟩ | ⟨i, rest, here⟩ | here
  · simp only [here]
    omega
  · simp only [here]
    omega
  · simp only [here]
    omega

/-- Every step of a worker takes one from what it can still do. -/
theorem WorkerStep.lowers {w : Nat} (step : WorkerStep c s w e t) :
    t.workerSteps c w < s.workerSteps c w := by
  have alive := step.alive
  cases step with
  | @receive got k here pos le available =>
      simp only [System.workerSteps, System.process_setProcess, System.socket_setProcess,
        System.socket_setSocket, here, List.length_append, List.length_take, List.length_drop,
        Nat.min_eq_left available]
      have same : got.length + k + ((s.socket w).toWorker.length - k) =
          got.length + (s.socket w).toWorker.length := by omega
      rw [same]
      omega
  | hangup | brokenPipe | finished | killed | crash => exact workerSteps_exit alive
  | @received got here full =>
      have more : (intSize + (s.socket w).toWorker.length) / intSize =
          (s.socket w).toWorker.length / intSize + 1 := Nat.add_div_left _ (by decide)
      unfold Job.dispatch
      split
      · simp only [System.workerSteps, System.process_setProcess, here]
        omega
      · split
        · exact workerSteps_exit alive
        · rename_i valid
          have lt : (readWord 4 got).toNat < c.count := by
            rw [not_or, not_lt, not_le] at valid
            have value := BitVec.toInt_eq_toNat_cond (readWord 4 got)
            have size := (readWord 4 got).isLt
            split at value <;> omega
          have enough := answerSteps_gt lt
          simp only [System.workerSteps, System.process_setProcess, System.socket_setProcess, here,
            full, more, Nat.mul_succ]
          omega
  | @send i rest k here pos le =>
      simp only [System.workerSteps, System.process_setProcess, System.socket_setProcess,
        System.socket_setSocket, here, List.length_drop]
      omega
  | @replied i here =>
      split
      · simp only [System.workerSteps, System.process_setProcess, System.socket_setProcess, here,
          List.length_nil, Nat.zero_add]
        omega
      · exact workerSteps_exit alive

theorem workerSteps_congr {w : Nat} (process : t.process w = s.process w)
    (socket : t.socket w = s.socket w) :
    t.workerSteps c w = s.workerSteps c w := by
  rw [System.workerSteps, System.workerSteps, process, socket]

namespace Inv

theorem lowers_terminate (above : 2 < s.phase.stage) : (s.goto .terminate).rank c < s.rank c :=
  lower_stage above

theorem lowers_transferred {p : Phase} (above : 2 < s.phase.stage)
    (less : (t.goto p).rank c < s.rank c) : (t.transferred p).rank c < s.rank c := by
  unfold System.transferred
  split
  · exact lower_stage above
  · exact less

/-- `assign_next_fault` has done its part for worker `w`. -/
theorem lowers_resume {w : Nat} {launching : Bool} (lt : w < c.workerCount)
    (at' : s.phase = .assigning w launching ∨ s.phase = .sending w [] launching)
    (reached : t.phase = .resume w launching) (completed : t.pool.completedFaults = s.pool.completedFaults)
    (revents : t.pool.revents = s.pool.revents) : t.rank c < s.rank c := by
  have less : (Phase.resume w launching).left c.workerCount <
      (Phase.assigning w launching).left c.workerCount := by
    cases launching with
    | true => exact (by omega : c.workerCount - (w + 1) < c.workerCount - w)
    | false => exact (by omega : c.workerCount - (w + 1) + 1 < c.workerCount - w + 1)
  rcases at' with at' | at'
  · refine Onward.left ⟨at', reached, ?_, completed, ?_⟩ less
    · cases launching <;> rfl
    · rw [revents]
      cases launching with
      | true => exact fun four => by cases four
      | false => exact fun _ => Iff.rfl
  · refine Onward.left ⟨at', reached, ?_, completed, ?_⟩ less
    · cases launching <;> rfl
    · rw [revents]
      cases launching with
      | true => exact fun four => by cases four
      | false => exact fun _ => Iff.rfl

/-- Every step of the parent takes it further, unless a signal interrupts a call that it then repeats. -/
theorem parent_lowers (inv : Inv c s) (step : ParentStep c s e t) :
    t.rank c < s.rank c ∨ e.quiet ∧ t.rank c ≤ s.rank c := by
  cases step with
  | empty here | noMemory here | install here | flushFailed here | startFailed here | launched here
    | pollFailed here | terminated here =>
      exact .inl (lower_stage (by rw [here]; exact Nat.le_of_ble_eq_true rfl))
  | started here lt =>
      exact .inl (Onward.place ⟨here, rfl, rfl, rfl, fun four => by cases four⟩ rfl
        (Nat.le_of_ble_eq_true rfl))
  | @assigned w launching here left =>
      refine .inl (Onward.place ⟨here, rfl, rfl, rfl, fun _ => Iff.rfl⟩ rfl ?_)
      cases launching <;> exact Nat.le_of_ble_eq_true rfl
  | idle here none =>
      have lt := (inv.good (by rw [here]; rfl)).here
      rw [System.Here, here] at lt
      exact .inl (lowers_resume lt (.inl here) rfl rfl rfl)
  | sent here =>
      have lt := (inv.good (by rw [here]; rfl)).here
      rw [System.Here, here] at lt
      exact .inl (lowers_resume lt (.inr here) rfl rfl rfl)
  | @send w rest k here pos le room open' =>
      refine .inl ?_
      cases at' : s.phase with
      | sending v rest' launching =>
          rw [at'] at here
          cases here
          apply lowers_transferred (by rw [at']; cases launching <;> exact Nat.le_of_ble_eq_true rfl)
          refine Onward.rest (q := .sending w (rest.drop k) launching)
            ⟨at', rfl, rfl, rfl, fun _ => Iff.rfl⟩ rfl rfl ?_
          simp only [Phase.rest, List.length_drop]
          omega
      | stop v rest' =>
          rw [at'] at here
          cases here
          apply lowers_transferred (by rw [at']; exact Nat.le_of_ble_eq_true rfl)
          refine Onward.rest (q := .stop w (rest.drop k))
            ⟨at', rfl, rfl, rfl, fun _ => Iff.rfl⟩ rfl rfl ?_
          simp only [Phase.rest, List.length_drop]
          omega
      | _ => rw [at'] at here; cases here
  | @receive w size k here pos le available =>
      refine .inl ?_
      have got : ∀ n, n ≤ (s.socket w).toParent.length → ((s.socket w).toParent.take n).length = n :=
        fun n le => by rw [List.length_take, Nat.min_eq_left le]
      cases at' : s.phase with
      | header v got' =>
          rw [at'] at here
          cases here
          apply lowers_transferred (by rw [at']; exact Nat.le_of_ble_eq_true rfl)
          refine Onward.rest (q := .header w (got' ++ (s.socket w).toParent.take k))
            ⟨at', rfl, rfl, rfl, fun _ => Iff.rfl⟩ rfl rfl ?_
          simp only [Phase.rest, List.length_append, got k available]
          omega
      | csv v reply got' =>
          rw [at'] at here
          cases here
          apply lowers_transferred (by rw [at']; exact Nat.le_of_ble_eq_true rfl)
          refine Onward.rest (q := .csv w reply (got' ++ (s.socket w).toParent.take k))
            ⟨at', rfl, rfl, rfl, fun _ => Iff.rfl⟩ rfl rfl ?_
          simp only [Phase.rest, List.length_append, got k available]
          omega
      | cubes v reply text got' =>
          rw [at'] at here
          cases here
          apply lowers_transferred (by rw [at']; exact Nat.le_of_ble_eq_true rfl)
          refine Onward.rest (q := .cubes w reply text (got' ++ (s.socket w).toParent.take k))
            ⟨at', rfl, rfl, rfl, fun _ => Iff.rfl⟩ rfl rfl ?_
          simp only [Phase.rest, List.length_append, got k available]
          omega
      | _ => rw [at'] at here; cases here
  | brokenPipe here => exact .inl (lowers_terminate (Phase.stage_of_outgoing here))
  | hangup here => exact .inl (lowers_terminate (Phase.stage_of_incoming here))
  | ioError here => exact .inl (lowers_terminate (Phase.stage_of_transferring here))
  | interrupted here =>
      refine .inr ⟨.inl rfl, ?_⟩
      unfold System.transferred
      split
      · exact (lowers_terminate (Phase.stage_of_transferring here)).le
      · exact le_refl _
  | polled here more on ready =>
      refine .inl (rank_lt_iff.mpr (.inr ⟨by rw [here]; rfl, .inl ?_⟩))
      obtain ⟨w, lt, ready⟩ := ready
      have some : ¬ (Phase.scan 0).served c.workerCount s.ready := by
        intro none
        rw [none w (Nat.zero_le w) lt] at ready
        cases ready
      have after := (rounds_on (c := c) (s := s.poll.goto (.scan 0)) rfl rfl).2 some
      have before := (rounds_on (c := c) (s := s) (by rw [here]; rfl) rfl).1 (by rw [here]; trivial)
      rw [after, before]
      exact Nat.lt_succ_self _
  | pollInterrupted => exact .inr ⟨.inl rfl, le_refl _⟩
  | collected here =>
      refine .inl (lower_stage ?_)
      rw [here]
      split
      · unfold Job.stopAt
        split <;> exact Nat.le_of_ble_eq_true rfl
      · exact Nat.le_of_ble_eq_true rfl
  | @scanned w here all =>
      refine .inl (Onward.left ⟨here, rfl, rfl, rfl, fun _ => ⟨fun _ => ?_, fun _ => trivial⟩⟩ ?_)
      · intro v le lt
        omega
      · exact Nat.succ_pos _
  | @skipped w here lt quiet =>
      refine .inl (Onward.left ⟨here, rfl, rfl, rfl, fun _ => ⟨fun none => ?_, fun none => ?_⟩⟩ ?_)
      · intro v le lt'
        rcases Nat.eq_or_lt_of_le le with rfl | less
        · exact quiet
        · exact none v less lt'
      · intro v le lt'
        exact none v (Nat.le_of_succ_le le) lt'
      · exact (by omega : c.workerCount - (w + 1) + 1 < c.workerCount - w + 1)
  | @served w here lt ready =>
      split
      · exact .inl (lowers_terminate (by rw [here]; exact Nat.le_of_ble_eq_true rfl))
      · refine .inl (Onward.place ⟨here, rfl, rfl, rfl, fun _ => ⟨False.elim, fun none => ?_⟩⟩ rfl
          (Nat.le_of_ble_eq_true rfl))
        rw [none w (le_refl w) lt] at ready
        cases ready
  | checked here full =>
      split
      · exact .inl (Onward.place ⟨here, rfl, rfl, rfl, fun _ => Iff.rfl⟩ rfl (Nat.le_of_ble_eq_true rfl))
      · exact .inl (lowers_terminate (by rw [here]; exact Nat.le_of_ble_eq_true rfl))
  | csvReceived here =>
      exact .inl (Onward.place ⟨here, rfl, rfl, rfl, fun _ => Iff.rfl⟩ rfl (Nat.le_of_ble_eq_true rfl))
  | noBuffer here =>
      refine .inl (lowers_terminate ?_)
      rcases here with here | ⟨text, here, -⟩
      · rw [here]
        exact Nat.le_of_ble_eq_true rfl
      · rw [here]
        exact Nat.le_of_ble_eq_true rfl
  | @stored w i reply text got here full index =>
      refine .inl (rank_lt_iff.mpr (.inr ⟨by rw [here]; rfl, .inl ?_⟩))
      have good := inv.good (by rw [here]; rfl)
      have at' := good.here
      rw [System.Here, here] at at'
      have has : s.order w = .fault i := by
        rw [System.order, here, index]
        rfl
      have less := good.books.completed_lt (by rw [System.started, here]; exact at'.1) has
      have before := (rounds_on (c := c) (s := s) (by rw [here]; rfl) rfl).2 (by rw [here]; exact id)
      have after := rounds_on (c := c) (s := (s.storeResult c i reply text got).goto (.output w)) rfl
        (show _ = c.count - (s.pool.completedFaults + 1) from rfl)
      rw [before]
      by_cases none : (Phase.output w).served c.workerCount s.pool.revents
      · rw [after.1 none]
        omega
      · rw [after.2 none]
        omega
  | wrote here writable =>
      refine .inl (Onward.rest ⟨here, rfl, rfl, rfl, fun _ => Iff.rfl⟩ rfl rfl ?_)
      have lt := writable.1
      simp only [Phase.rest, System.goto, System.writeCsv]
      omega
  | writeFailed k here | cubeFailed here =>
      exact .inl (lower_stage (by rw [here]; exact Nat.le_of_ble_eq_true rfl))
  | drained here =>
      exact .inl (Onward.place ⟨here, rfl, rfl, rfl, fun _ => Iff.rfl⟩ rfl (Nat.le_of_ble_eq_true rfl))
  | cubeWritten here =>
      exact .inl (Onward.rest ⟨here, rfl, rfl, rfl, fun _ => Iff.rfl⟩ rfl rfl (Nat.lt_succ_self _))
  | @stopped w here =>
      have at' := (inv.good (by rw [here]; rfl)).here
      rw [System.Here, here] at at'
      refine .inl ?_
      unfold Job.stopAt
      split
      · exact Onward.left ⟨here, rfl, rfl, rfl, fun _ => Iff.rfl⟩
          (by omega : c.workerCount - (w + 1) < c.workerCount - w)
      · exact lower_stage (by rw [here]; exact Nat.le_of_ble_eq_true rfl)
  | @closed w succeeded workers here lt =>
      refine .inl ?_
      split
      · exact Onward.place ⟨here, rfl, rfl, rfl, fun _ => Iff.rfl⟩ rfl (Nat.le_of_ble_eq_true rfl)
      · exact Onward.left ⟨here, rfl, rfl, rfl, fun _ => Iff.rfl⟩
          (by omega : c.workerCount - (w + 1) < c.workerCount - w)
  | @reaped w succeeded workers clean here | @waitFailed w succeeded workers here =>
      have lt := (inv.reaping here).1
      exact .inl (Onward.left ⟨here, rfl, rfl, rfl, fun _ => Iff.rfl⟩
        (by omega : c.workerCount - (w + 1) < c.workerCount - w))
  | waitInterrupted here =>
      refine .inr ⟨.inl rfl, ?_⟩
      split
      · exact le_refl _
      · exact le_refl _
  | finished here => exact .inl (lower_stage (by rw [here]; exact Nat.le_of_ble_eq_true rfl))

/-- Every step lowers the rank, or is quiet and does not raise it. -/
theorem lowers (inv : Inv c s) (none : ∀ w, c.workerCount ≤ w → s.process w = .notStarted)
    (step : Step c s e t) : t.rank c < s.rank c ∨ e.quiet ∧ t.rank c ≤ s.rank c := by
  cases step with
  | parent step => exact inv.parent_lowers step
  | cancel => exact .inr ⟨.inr rfl, le_refl _⟩
  | worker w step =>
      have frame := step.frame
      have lt : w < c.workerCount := by
        by_contra ge
        have alive := step.alive
        rw [none w (Nat.not_lt.mp ge)] at alive
        exact absurd alive WorkerProcess.not_alive_notStarted
      exact .inl (lower_workers frame.phase frame.pool lt
        (fun v ne => workerSteps_congr (frame.process v ne) (frame.socket v ne)) step.lowers)

end Inv

end Pool

end SafRprGen
