/-
Module: SafRprGen.Pool.Run
Layer: Pool
Purpose: Every step of the pool keeps the invariant, so it holds in every state of every run. What follows
  for whole runs: faults are handed out in the order of the list, each once; a worker that is dead stays
  dead, and one that dies before the order to stop has begun never gets it.
Main exports: Inv.step, Inv.run, assignments, assignments_run, Phase.told, Inv.exited_step, Inv.told_step
-/
import SafRprGen.Pool.Parent

namespace SafRprGen

namespace Pool

open Bytes

variable {c : Job} {s t : System} {e : Event}

theorem Phase.cubesDone_le (good : Good c s) : s.phase.cubesDone s.pool.nextOutput ≤ c.count := by
  have le := good.books.output_le
  have here := good.here
  cases at' : s.phase with
  | outputCube w i =>
      rw [System.Here, at'] at here
      have next := here.2.1
      rw [Phase.cubesDone]
      omega
  | _ => exact le

namespace Inv

theorem of_good (good : Good c s) (live : s.phase.live = true) : Inv c s := by
  refine ⟨?_, ?_, ?_, fun _ => good, ?_, ?_, ?_, ?_⟩
  · rw [good.csv]
    exact c.csvUpTo_prefix good.books.output_le
  · rw [good.cubes]
    exact c.cubesUpTo_prefix (Phase.cubesDone_le good)
  · intro at'
    rw [at'] at live
    cases live
  · intro w pid none
    by_cases hw : w < s.started c
    · have link := good.link w hw
      rw [none] at link
      exact link.not_notStarted
    · have unborn := good.unborn w (Nat.not_lt.mp hw)
      rw [pid] at unborn
      exact absurd unborn.2 (by decide)
  · rintro v workers (at' | at')
    · rw [at'] at live
      cases live
    · rw [at'] at live
      cases live
  · intro v succeeded workers at'
    have here := good.here
    rw [System.Here, at'] at here
    refine ⟨here.1, (good.pid v ?_).resolve_right ?_⟩
    · rw [System.started, at']
      exact here.1
    · rw [at']
      exact Nat.lt_irrefl v
  · intro at'
    rw [at'] at live
    cases live

/-- A state whose phase is `terminate`. -/
theorem at_terminate (csv : s.files.csv <+: c.csvUpTo c.count)
    (cubes : s.files.cubes <+: c.cubesUpTo c.count)
    (born : ∀ w, (s.pool.workers w).pid = true → s.process w ≠ .notStarted) (at' : s.phase = .terminate) :
    Inv c s := by
  refine ⟨csv, cubes, ?_, ?_, born, ?_, ?_, ?_⟩
  · rw [at']
    simp
  · rw [at']
    simp [Phase.live]
  · rw [at']
    simp
  · rw [at']
    simp
  · rw [at']
    simp

theorem fail (inv : Inv c s) : Inv c (s.goto .terminate) :=
  at_terminate inv.csv inv.cubes inv.born rfl

/-- A read or write of the parent that moved bytes, or was interrupted. -/
theorem transferred {p : Phase} (inv : Inv c s) (files : t.files = s.files) (pool : t.pool = s.pool)
    (process : t.process = s.process) (next : Inv c (t.goto p)) : Inv c (t.transferred p) := by
  unfold System.transferred
  split
  · refine at_terminate (by rw [System.goto, files]; exact inv.csv)
      (by rw [System.goto, files]; exact inv.cubes)
      (fun w pid => ?_) rfl
    rw [System.goto, pool] at pid
    rw [System.goto, process]
    exact inv.born w pid
  · exact next

theorem worker {w : Nat} (inv : Inv c s) (step : WorkerStep c s w e t) : Inv c t := by
  have frame := step.frame
  have alive := step.alive
  refine ⟨?_, ?_, ?_, ?_, ?_, ?_, ?_, ?_⟩
  · rw [frame.files]
    exact inv.csv
  · rw [frame.files]
    exact inv.cubes
  · intro at'
    rw [frame.phase] at at'
    rw [inv.entry at'] at alive
    exact absurd alive WorkerProcess.not_alive_notStarted
  · intro live
    rw [frame.phase] at live
    exact (inv.good live).worker step
  · intro v pid
    rw [frame.pool] at pid
    by_cases same : v = w
    · subst same
      exact step.process_ne
    · rw [frame.process v same]
      exact inv.born v pid
  · intro v workers at'
    rw [frame.phase] at at'
    rw [frame.pool, frame.signalled]
    exact inv.marked at'
  · intro v succeeded workers at'
    rw [frame.phase] at at'
    rw [frame.pool]
    exact inv.reaping at'
  · intro at'
    rw [frame.phase] at at'
    rw [frame.files, frame.pool, frame.cancelled]
    obtain ⟨files, results, next, on, exited⟩ := inv.returned at'
    refine ⟨files, results, next, on, fun v hv => ?_⟩
    by_cases same : v = w
    · subst same
      rw [exited v hv] at alive
      exact absurd alive (WorkerProcess.not_alive_exited _)
    · rw [frame.process v same]
      exact exited v hv

theorem cancel (inv : Inv c s) (begun : s.phase ≠ .entry) (on : ∀ b, s.phase ≠ .returned b) :
    Inv c { s with cancelled := true } := by
  refine ⟨inv.csv, inv.cubes, fun at' => absurd at' begun, fun live => ?_, inv.born, inv.marked,
    inv.reaping, fun at' => absurd at' (on true)⟩
  have good := inv.good live
  exact ⟨good.here, good.link, good.unborn, good.books, good.csv, good.cubes, good.drained, good.idle,
    good.asked, good.pid⟩

/-- `install_pool_signal_handlers` and the first `fflush`. -/
theorem install : Inv c ({ Job.start with cancelled := false }.goto (.launch 0)) := by
  refine of_good ⟨Nat.zero_le _, ?_, ?_, ?_, rfl, rfl, ?_, ?_, ?_, ?_⟩ rfl
  · exact fun w hw => absurd hw (Nat.not_lt_zero w)
  · exact fun w _ => ⟨rfl, rfl⟩
  · refine ⟨Nat.zero_le _, ?_, ?_, ?_, ?_, ?_, ?_, ?_⟩
    · intro i
      refine ⟨fun lt => absurd lt (Nat.not_lt_zero i), ?_⟩
      rintro (ready | ⟨w, hw, -⟩)
      · cases ready
      · exact absurd hw (Nat.not_lt_zero w)
    · exact fun w hw => absurd hw (Nat.not_lt_zero w)
    · exact fun w hw => absurd hw (Nat.not_lt_zero w)
    · exact (List.countP_eq_zero.mpr fun i _ => Bool.false_ne_true).symm
    · exact fun i ready => by cases ready
    · exact fun i ready => by cases ready
    · exact fun i lt => absurd lt (Nat.not_lt_zero i)
  · intro _ writable
    cases writable.2
  · exact fun w hw => absurd hw (Nat.not_lt_zero w)
  · exact fun w hw => absurd hw (Nat.not_lt_zero w)
  · exact fun w hw => absurd hw (Nat.not_lt_zero w)

/-- The parent signals workers; nothing but the list of signalled workers changes. -/
theorem terminateWorkers (inv : Inv c s) : Inv c (s.terminateWorkers c) := by
  refine ⟨inv.csv, inv.cubes, ?_, fun live => ?_, inv.born, fun at' => ?_, inv.reaping, inv.returned⟩
  · intro at'
    rw [inv.entry at']
    simp [System.terminateWorkers, Job.start]
  · have good := inv.good live
    exact ⟨good.here, good.link, good.unborn, good.books, good.csv, good.cubes, good.drained, good.idle,
      good.asked, good.pid⟩
  · obtain ⟨le, signalled⟩ := inv.marked at'
    refine ⟨le, fun w hw pid => ?_⟩
    have before : s.signalled w = true := signalled w hw pid
    simp [System.terminateWorkers, before]

/-- `wait_for_workers` goes on after a failure. -/
theorem waiting {v : Nat} {workers : Bool} {pool : FaultPool} (inv : Inv c s)
    (at' : ∃ v workers, s.phase = .wait v false workers ∨ s.phase = .reap v false workers)
    (pids : ∀ w, (pool.workers w).pid = true → (s.pool.workers w).pid = true)
    (phase : t.phase = .wait v false workers) (le : v ≤ c.workerCount) (files : t.files = s.files)
    (same : t.pool = pool) (process : t.process = s.process) (signalled : t.signalled = s.signalled) :
    Inv c t := by
  subst same
  obtain ⟨u, before, at'⟩ := at'
  refine ⟨?_, ?_, ?_, ?_, ?_, ?_, ?_, ?_⟩
  · rw [files]
    exact inv.csv
  · rw [files]
    exact inv.cubes
  · rw [phase]
    simp
  · rw [phase]
    simp [Phase.live]
  · intro w pid
    rw [process]
    exact inv.born w (pids w pid)
  · intro v' workers' at''
    rw [phase] at at''
    rcases at'' with at'' | at''
    · cases at''
      refine ⟨le, fun w hw pid => ?_⟩
      rw [signalled]
      exact (inv.marked at').2 w hw (pids w pid)
    · cases at''
  · rw [phase]
    simp
  · rw [phase]
    simp

/-- `FaultPoolRun` returns. -/
theorem finished {w : Nat} {succeeded workers : Bool} (inv : Inv c s)
    (at' : s.phase = .wait w succeeded workers) (all : w = c.workerCount) :
    Inv c (s.goto (.returned (succeeded && workers && !s.cancelled))) := by
  refine ⟨inv.csv, inv.cubes, by simp [System.goto], by simp [System.goto, Phase.live], inv.born, ?_, ?_, ?_⟩
  · simp [System.goto]
  · simp [System.goto]
  · intro returned
    simp only [System.goto, Phase.returned.injEq, Bool.and_eq_true, Bool.not_eq_true'] at returned
    obtain ⟨⟨rfl, rfl⟩, on⟩ := returned
    have good := inv.good (by rw [at']; rfl)
    have here := good.here
    rw [System.Here, at'] at here
    obtain ⟨-, completed, exited⟩ := here
    have ready := good.books.all_ready completed
    have output := good.books.output_eq completed (good.drained (by rw [at']; rfl))
    have next : s.pool.nextFault = c.count := by
      apply Nat.le_antisymm good.books.next_le
      by_contra less
      have lt : s.pool.nextFault < c.count := by omega
      exact absurd ((good.books.given _).mpr (.inl (ready _ lt))) (Nat.lt_irrefl _)
    refine ⟨?_, fun i hi => ⟨good.books.succeeded i (ready i hi), ready i hi⟩, next, on,
      fun v hv => exited rfl v (all ▸ hv)⟩
    have csv := good.csv
    have cubes := good.cubes
    rw [output] at csv
    rw [at', Phase.cubesDone, output] at cubes
    · rw [← csv, ← cubes]
      rfl
    · simp

theorem return_ {b : Bool} (files : s.files = ⟨[], []⟩) (born : ∀ w, (s.pool.workers w).pid = false)
    (at' : s.phase = .returned b) (well : b = true → s.files = ⟨c.csvUpTo c.count, c.cubesUpTo c.count⟩ ∧
      (∀ i < c.count, (c.task i).succeeded = true ∧ (s.pool.results i).ready = true) ∧
        s.pool.nextFault = c.count ∧ s.cancelled = false ∧ ∀ w < c.workerCount, s.process w = .exited true) :
    Inv c s := by
  refine ⟨?_, ?_, ?_, ?_, ?_, ?_, ?_, ?_⟩
  · rw [files]
    exact List.nil_prefix
  · rw [files]
    exact List.nil_prefix
  · rw [at']
    simp
  · rw [at']
    simp [Phase.live]
  · intro w pid
    rw [born w] at pid
    cases pid
  · rw [at']
    simp
  · rw [at']
    simp
  · intro returned
    rw [at'] at returned
    cases returned
    exact well rfl

/-- Every step of the parent keeps the invariant. -/
theorem parent (inv : Inv c s) (step : ParentStep c s e t) : Inv c t := by
  cases step with
  | empty here none =>
      rw [inv.entry here]
      have nobody : c.workerCount = 0 := by rw [Job.workerCount, none, Nat.min_zero]
      apply return_ rfl (fun _ => rfl) rfl
      intro _
      rw [none, nobody]
      exact ⟨rfl, fun i hi => absurd hi (Nat.not_lt_zero i), rfl, rfl,
        fun w hw => absurd hw (Nat.not_lt_zero w)⟩
  | noMemory here =>
      rw [inv.entry here]
      exact return_ rfl (fun _ => rfl) rfl fun well => by cases well
  | install here =>
      rw [inv.entry here]
      exact install
  | flushFailed here =>
      rw [inv.entry here]
      exact at_terminate List.nil_prefix List.nil_prefix (fun w pid => by cases pid) rfl
  | started here lt => exact of_good ((inv.good (by rw [here]; rfl)).launch here lt) rfl
  | @launched w here all =>
      have good := inv.good (by rw [here]; rfl)
      exact of_good (good.alike here ⟨all.symm, fun _ _ => rfl, fun _ => rfl, fun _ => rfl, fun _ => rfl,
        by simp, fun _ => id⟩ trivial fun _ => good.drained (by rw [here]; rfl)) rfl
  | assigned here left => exact of_good ((inv.good (by rw [here]; rfl)).assign here left) rfl
  | @idle w launching here none =>
      exact of_good ((inv.good (by rw [here]; rfl)).idleWorker here none) (by cases launching <;> rfl)
  | @sent w launching here =>
      have good := inv.good (by rw [here]; rfl)
      have at' := good.here
      rw [System.Here, here] at at'
      cases launching with
      | false =>
          refine of_good (good.alike here ⟨rfl, fun _ _ => rfl, fun v => ?_, fun _ => rfl, fun _ => rfl,
            by simp, fun _ => id⟩ at' fun _ => good.drained (by rw [here]; rfl)) rfl
          rw [Phase.unsent, ite_self]
          rfl
      | true =>
          refine of_good (good.alike here ⟨rfl, fun _ _ => rfl, fun v => ?_, fun _ => rfl, fun _ => rfl,
            by simp, fun _ => id⟩ at' fun _ => good.drained (by rw [here]; rfl)) rfl
          rw [Phase.unsent, ite_self]
          rfl
  | @send w rest k here pos le room open' =>
      have live : s.phase.live = true ∧ (s.phase.sent k).live = true := by
        cases phase : s.phase with
        | sending | stop => exact ⟨rfl, rfl⟩
        | _ => rw [phase] at here; cases here
      exact inv.transferred rfl rfl rfl (of_good ((inv.good live.1).send k here) live.2)
  | @receive w size k here pos le available =>
      have live : s.phase.live = true ∧
          (s.phase.received ((s.socket w).toParent.take k)).live = true := by
        cases phase : s.phase with
        | header | csv | cubes => exact ⟨rfl, rfl⟩
        | _ => rw [phase] at here; cases here
      exact inv.transferred rfl rfl rfl (of_good ((inv.good live.1).receive k here le) live.2)
  | interrupted here => exact inv.transferred rfl rfl rfl inv
  | startFailed | brokenPipe | hangup | ioError | pollFailed | noBuffer => exact inv.fail
  | polled here =>
      have good := (inv.good (by rw [here]; rfl)).poll
      exact of_good (good.alike here ⟨rfl, fun _ _ => rfl, fun _ => rfl, fun _ => rfl, fun _ => rfl,
        by simp, fun _ => id⟩ (Nat.zero_le _) fun _ =>
          good.drained (by rw [show s.poll.phase = s.phase from rfl, here]; rfl)) rfl
  | pollInterrupted => exact inv
  | collected here =>
      split
      · rename_i well
        apply of_good ((inv.good (by rw [here]; rfl)).collected here well.2)
        unfold Job.stopAt
        split <;> rfl
      · exact inv.fail
  | scanned here all =>
      have good := inv.good (by rw [here]; rfl)
      exact of_good (good.alike here ⟨rfl, fun _ _ => rfl, fun _ => rfl, fun _ => rfl, fun _ => rfl,
        by simp, fun _ => id⟩ trivial fun _ => good.drained (by rw [here]; rfl)) rfl
  | skipped here lt quiet =>
      have good := inv.good (by rw [here]; rfl)
      exact of_good (good.alike here ⟨rfl, fun _ _ => rfl, fun _ => rfl, fun _ => rfl, fun _ => rfl,
        by simp, fun _ => id⟩ lt fun _ => good.drained (by rw [here]; rfl)) rfl
  | @served w here lt ready =>
      split
      · exact inv.fail
      · rename_i busy
        have good := inv.good (by rw [here]; rfl)
        have has : ∃ i, (s.pool.workers w).faultIndex = some i :=
          Option.isSome_iff_exists.mp (by simpa [Option.isSome_iff_ne_none] using busy)
        refine of_good (good.alike here ⟨rfl, fun _ _ => rfl, fun _ => rfl, fun v => ?_, fun _ => rfl,
          by simp, fun _ => id⟩ ⟨lt, Nat.zero_le _, has⟩ fun _ => good.drained (by rw [here]; rfl)) rfl
        rw [Phase.answer, ite_self]
        rfl
  | checked here full =>
      split
      · rename_i accepted
        exact of_good ((inv.good (by rw [here]; rfl)).checked here full accepted) rfl
      · exact inv.fail
  | csvReceived here full => exact of_good ((inv.good (by rw [here]; rfl)).csvReceived here full) rfl
  | stored here full index => exact of_good ((inv.good (by rw [here]; rfl)).stored here full index) rfl
  | wrote here writable => exact of_good ((inv.good (by rw [here]; rfl)).wrote here writable) rfl
  | writeFailed k here writable less =>
      have good := inv.good (by rw [here]; rfl)
      refine at_terminate ?_ inv.cubes inv.born rfl
      have csv := (good.books.contents _ writable.2 (le_refl _)).1
      refine List.IsPrefix.trans ?_ (c.csvUpTo_prefix (Nat.succ_le_of_lt writable.1))
      rw [Job.csvUpTo_succ, ← csv]
      simp only [System.goto, System.writeCsv, good.csv]
      exact (List.prefix_append_right_inj _).mpr (List.take_prefix _ _)
  | drained here done =>
      have good := inv.good (by rw [here]; rfl)
      have at' := good.here
      rw [System.Here, here] at at'
      exact of_good (good.alike here ⟨rfl, fun _ _ => rfl, fun _ => rfl, fun _ => rfl, fun _ => rfl,
        by simp, fun _ => id⟩ at' fun _ => done) rfl
  | cubeWritten here => exact of_good ((inv.good (by rw [here]; rfl)).cubeWritten here) rfl
  | @cubeFailed w i here some =>
      have good := inv.good (by rw [here]; rfl)
      have at' := good.here
      rw [System.Here, here] at at'
      have done := good.books.output_le
      refine at_terminate ?_ ?_ inv.born rfl
      · have same : (s.writeCube c i).files.csv = s.files.csv := by
          simp only [System.writeCube, writeCubeFile]
          split <;> rfl
        exact same ▸ inv.csv
      · rw [show ((s.writeCube c i).goto .terminate).files.cubes = _ from good.writeCube_files here]
        exact c.cubesUpTo_prefix (by omega)
  | stopped here =>
      apply of_good ((inv.good (by rw [here]; rfl)).stopped here)
      unfold Job.stopAt
      split <;> rfl
  | terminated here =>
      refine ⟨inv.csv, inv.cubes, by simp [System.goto], by simp [System.goto, Phase.live], inv.born, ?_,
        by simp [System.goto], by simp [System.goto]⟩
      intro v workers at'
      rcases at' with at' | at'
      · cases at'
        refine ⟨Nat.zero_le _, fun w hw pid => ?_⟩
        have pid' : (s.pool.workers w).pid = true := pid
        simp [System.goto, System.terminateWorkers, hw, pid']
      · cases at'
  | @closed w succeeded workers here lt =>
      cases succeeded with
      | true =>
          obtain ⟨pid, good⟩ := (inv.good (by rw [here]; rfl)).closed here lt
          rw [if_pos pid]
          exact of_good good rfl
      | false =>
          split
          · rename_i pid
            obtain ⟨-, signalled⟩ := inv.marked (.inl here)
            refine ⟨inv.csv, inv.cubes, by simp [System.goto], by simp [System.goto, Phase.live], inv.born,
              ?_, ?_, by simp [System.goto]⟩
            · intro v workers at'
              rcases at' with at' | at'
              · cases at'
              · cases at'
                exact ⟨lt.le, signalled⟩
            · intro v succeeded workers at'
              cases at'
              exact ⟨lt, pid⟩
          · exact inv.waiting ⟨_, _, .inl here⟩ (fun _ => id) rfl lt rfl rfl rfl rfl
  | @reaped w succeeded workers clean here gone =>
      cases succeeded with
      | true =>
          refine of_good ((inv.good (by rw [here]; rfl)).reaped here ?_) rfl
          rintro rfl
          exact gone
      | false =>
          exact inv.waiting ⟨_, _, .inr here⟩ (fun v => s.forget_pid w v) rfl (inv.reaping here).1
            rfl rfl rfl rfl
  | @waitFailed w succeeded workers here =>
      cases succeeded with
      | true =>
          have good : Good c ((s.forget w).goto (.wait (w + 1) true (workers && false))) :=
            (inv.good (by rw [here]; rfl)).reaped here (by simp)
          rw [Bool.and_false] at good
          exact of_good good rfl
      | false =>
          exact inv.waiting ⟨_, _, .inr here⟩ (fun v => s.forget_pid w v) rfl (inv.reaping here).1
            rfl rfl rfl rfl
  | waitInterrupted here =>
      split
      · exact inv.terminateWorkers
      · exact inv
  | finished here all => exact inv.finished here all

theorem step (inv : Inv c s) (step : Step c s e t) : Inv c t := by
  cases step with
  | parent step => exact inv.parent step
  | worker w step => exact inv.worker step
  | cancel begun on => exact inv.cancel begun on

theorem start : Inv c Job.start :=
  ⟨List.nil_prefix, List.nil_prefix, fun _ => rfl, fun live => (by cases live), fun w pid => (by cases pid),
    fun at' => (by rcases at' with at' | at' <;> cases at'), fun at' => (by cases at'),
    fun at' => (by cases at')⟩

/-- The invariant holds in every state of every run. -/
theorem run {es : List Event} (run : c.Run es s) : Inv c s :=
  run.stable (fun _ _ _ inv step => inv.step step) start

end Inv

/-- The assignments that a run makes: worker and fault. -/
def assignments (events : List Event) : List (Nat × Nat) :=
  events.filterMap fun
    | .assign w i => some (w, i)
    | _ => none

/-- Only an assignment changes `next_fault`. -/
theorem Step.nextFault (step : Step c s e t) :
    (∃ w, e = .assign w s.pool.nextFault ∧ t.pool.nextFault = s.pool.nextFault + 1) ∨
      assignments [e] = [] ∧ t.pool.nextFault = s.pool.nextFault := by
  cases step with
  | worker w step =>
      have frame := step.frame
      rw [frame.pool]
      cases step <;> exact .inr ⟨rfl, rfl⟩
  | cancel => exact .inr ⟨rfl, rfl⟩
  | parent step =>
      cases step with
      | assigned => exact .inl ⟨_, rfl, rfl⟩
      | closed | reaped | waitFailed => exact .inr ⟨rfl, rfl⟩
      | waitInterrupted => refine .inr ⟨rfl, ?_⟩; split <;> rfl
      | _ => exact .inr ⟨rfl, rfl⟩

/-- The faults are handed out one by one in the order of the list. -/
theorem assignments_run {es : List Event} (run : c.Run es s) :
    (assignments es).map Prod.snd = List.range s.pool.nextFault := by
  apply run.invariant (fun es s => (assignments es).map Prod.snd = List.range s.pool.nextFault) rfl
  intro es s e t _ before step
  have split : assignments (es ++ [e]) = assignments es ++ assignments [e] := List.filterMap_append
  rw [split, List.map_append, before]
  rcases step.nextFault with ⟨w, rfl, next⟩ | ⟨none, next⟩
  · rw [next, List.range_succ]
    rfl
  · rw [none, next, List.map_nil, List.append_nil]

/-- Only `start_worker` starts a process. -/
theorem ParentStep.process (step : ParentStep c s e t) :
    t.process = s.process ∨ ∃ w < c.workerCount, s.phase = .launch w ∧
      t.process = Function.update s.process w (.receiving []) := by
  cases step with
  | started here lt => exact .inr ⟨_, lt, here, rfl⟩
  | waitInterrupted => left; split <;> rfl
  | _ => exact .inl rfl

/-- After its return the parent takes no step. -/
theorem ParentStep.not_returned (step : ParentStep c s e t) (b : Bool) : s.phase ≠ .returned b := by
  intro at'
  cases step with
  | send _ here | brokenPipe here | receive _ here | hangup here =>
      rw [at'] at here
      cases here
  | ioError here | interrupted here =>
      rw [at'] at here
      rcases here with ⟨_, _, out, -⟩ | ⟨_, _, inc, -⟩
      · cases out
      · cases inc
  | noBuffer here =>
      rw [at'] at here
      rcases here with here | ⟨_, here, -⟩
      · cases here
      · cases here
  | empty here | noMemory here | install here | flushFailed here | started here | startFailed here
    | launched here | assigned here | idle here | sent here | polled here | pollInterrupted here
    | pollFailed here | collected here | scanned here | skipped here | served here | checked here
    | csvReceived here | stored here | wrote here | writeFailed _ here | drained here | cubeWritten here
    | cubeFailed here | stopped here | terminated here | closed here | reaped here | waitFailed here
    | waitInterrupted here | finished here =>
      rw [at'] at here
      cases here

/-- Nothing leads back to the beginning, and only the beginning takes the signal back. -/
theorem ParentStep.begun (step : ParentStep c s e t) :
    t.phase ≠ .entry ∧ (s.phase ≠ .entry → t.cancelled = s.cancelled) := by
  cases step with
  | install here | flushFailed here => exact ⟨by simp [System.goto], fun begun => absurd here begun⟩
  | @idle w launching | @sent w launching =>
      cases launching with
      | true => exact ⟨by simp [System.goto, Phase.resume], fun _ => rfl⟩
      | false => exact ⟨by simp [System.goto, Phase.resume], fun _ => rfl⟩
  | send _ here =>
      unfold System.transferred
      split
      · exact ⟨by simp [System.goto], fun _ => rfl⟩
      · refine ⟨?_, fun _ => rfl⟩
        cases at' : s.phase with
        | sending | stop => simp [System.goto, Phase.sent]
        | _ => rw [at'] at here; cases here
  | receive _ here =>
      unfold System.transferred
      split
      · exact ⟨by simp [System.goto], fun _ => rfl⟩
      · refine ⟨?_, fun _ => rfl⟩
        cases at' : s.phase with
        | header | csv | cubes => simp [System.goto, Phase.received]
        | _ => rw [at'] at here; cases here
  | interrupted here =>
      unfold System.transferred
      split
      · exact ⟨by simp [System.goto], fun _ => rfl⟩
      · refine ⟨fun at' => ?_, fun _ => rfl⟩
        rw [show s.phase = .entry from at'] at here
        rcases here with ⟨_, _, out, -⟩ | ⟨_, _, inc, -⟩
        · cases out
        · cases inc
  | pollInterrupted here => exact ⟨by rw [here]; simp, fun _ => rfl⟩
  | collected | stopped =>
      refine ⟨?_, fun _ => rfl⟩
      simp only [System.goto, Job.stopAt]
      split
      · first
          | (split <;> simp)
          | simp
      · simp
  | served | checked | closed =>
      refine ⟨?_, fun _ => rfl⟩
      simp only [System.goto]
      split <;> simp
  | waitInterrupted here =>
      split
      · exact ⟨by rw [show (s.terminateWorkers c).phase = s.phase from rfl, here]; simp, fun _ => rfl⟩
      · exact ⟨by rw [here]; simp, fun _ => rfl⟩
  | _ => exact ⟨by simp [System.goto], fun _ => rfl⟩

/-- Beyond `worker_count` nothing is ever started. -/
theorem notStarted_step (none : ∀ w, c.workerCount ≤ w → s.process w = .notStarted) (step : Step c s e t) :
    ∀ w, c.workerCount ≤ w → t.process w = .notStarted := by
  intro w le
  cases step with
  | cancel => exact none w le
  | worker v step =>
      by_cases same : w = v
      · subst same
        have alive := step.alive
        rw [none w le] at alive
        exact absurd alive WorkerProcess.not_alive_notStarted
      · rw [step.frame.process w same, none w le]
  | parent step =>
      rcases step.process with same | ⟨v, lt, -, started⟩
      · rw [same, none w le]
      · have ne : w ≠ v := by omega
        rw [started, Function.update_of_ne ne, none w le]

theorem notStarted_run {es : List Event} (run : c.Run es s) :
    ∀ w, c.workerCount ≤ w → s.process w = .notStarted :=
  run.stable (P := fun s => ∀ w, c.workerCount ≤ w → s.process w = .notStarted)
    (fun _ _ _ none step => notStarted_step none step) fun _ _ => rfl

namespace Inv

/-- A worker that is dead stays dead. -/
theorem exited_step {w : Nat} {clean : Bool} (inv : Inv c s) (step : Step c s e t)
    (gone : s.process w = .exited clean) : t.process w = .exited clean := by
  cases step with
  | cancel => exact gone
  | worker v step =>
      by_cases same : w = v
      · subst same
        have alive := step.alive
        rw [gone] at alive
        exact absurd alive (WorkerProcess.not_alive_exited _)
      · rw [step.frame.process w same, gone]
  | parent step =>
      rcases step.process with same | ⟨v, -, here, started⟩
      · rw [same, gone]
      · have good := inv.good (by rw [here]; rfl)
        have fresh := (good.unborn v (by rw [System.started, here]; exact le_refl v)).1
        have ne : w ≠ v := by
          rintro rfl
          rw [gone] at fresh
          cases fresh
        rw [started, Function.update_of_ne ne, gone]

end Inv

/-- The order to stop has begun to reach worker `w`, or the run has ended well. -/
def Phase.told (w : Nat) : Phase → Prop
  | .stop v rest => w < v ∨ w = v ∧ rest.length < intSize
  | .wait _ succeeded _ => succeeded = true
  | .reap _ succeeded _ => succeeded = true
  | .returned succeeded => succeeded = true
  | _ => False

theorem not_told_stopAt {w v : Nat} (lt : w < c.workerCount) (le : v ≤ w) : ¬ (c.stopAt v).told w := by
  rw [Job.stopAt, if_pos (by omega), Phase.told, length_intBytes]
  omega

theorem not_told_resume {w v : Nat} {launching : Bool} : ¬ (Phase.resume v launching).told w := by
  cases launching <;> exact id

namespace Inv

/-- A dead worker never gets an order. -/
theorem closed_of_exited {w : Nat} {clean : Bool} (inv : Inv c s) (live : s.phase.live = true)
    (lt : w < s.started c) (gone : s.process w = .exited clean) : (s.socket w).workerEnd = false := by
  have link := (inv.good live).link w lt
  rw [gone] at link
  exact link.closed

/-- The order to stop does not begin to reach a dead worker. -/
theorem told_step {w : Nat} {clean : Bool} (inv : Inv c s) (step : Step c s e t) (lt : w < c.workerCount)
    (gone : s.process w = .exited clean) (untold : ¬ s.phase.told w) : ¬ t.phase.told w := by
  have some : c.count ≠ 0 := by
    rintro none
    rw [Job.workerCount, none, Nat.min_zero] at lt
    exact Nat.not_lt_zero w lt
  cases step with
  | cancel => exact untold
  | worker v step =>
      rw [step.frame.phase]
      exact untold
  | parent step =>
      cases step with
      | empty here none => exact absurd none some
      | noMemory => exact Bool.false_ne_true
      | idle | sent => exact not_told_resume
      | @send v rest k here pos le room open' =>
          unfold System.transferred
          split
          · exact id
          · cases phase : s.phase with
            | sending => exact id
            | stop v' rest' =>
                rw [phase] at here untold
                cases here
                rw [Phase.told, not_or, not_and] at untold
                rintro (less | ⟨rfl, -⟩)
                · exact untold.1 less
                · have live : s.phase.live = true := by rw [phase]; rfl
                  have closed := inv.closed_of_exited live (by rw [System.started, phase]; exact lt) gone
                  rw [open'] at closed
                  cases closed
            | _ => rw [phase] at here; cases here
      | @receive v size k here =>
          unfold System.transferred
          split
          · exact id
          · cases phase : s.phase with
            | header | csv | cubes => exact id
            | _ => rw [phase] at here; cases here
      | interrupted here =>
          unfold System.transferred
          split
          · exact id
          · exact untold
      | pollInterrupted => exact untold
      | collected =>
          split
          · exact not_told_stopAt lt (Nat.zero_le w)
          · exact id
      | served => split <;> exact id
      | checked => split <;> exact id
      | @stopped v here =>
          rw [here, Phase.told, not_or, not_and] at untold
          apply not_told_stopAt lt
          by_contra less
          rcases Nat.lt_or_ge w v with before | after
          · exact untold.1 before
          · exact untold.2 (by omega) (by decide)
      | terminated => exact Bool.false_ne_true
      | @closed v succeeded workers here =>
          rw [here] at untold
          split <;> exact untold
      | reaped here =>
          rw [here] at untold
          exact untold
      | waitFailed here =>
          rw [here] at untold
          exact untold
      | waitInterrupted here =>
          split <;> exact untold
      | @finished v succeeded workers here =>
          rw [here] at untold
          intro told
          simp only [System.goto, Phase.told, Bool.and_eq_true] at told
          exact untold told.1.1
      | _ => exact id

end Inv

end Pool

end SafRprGen
