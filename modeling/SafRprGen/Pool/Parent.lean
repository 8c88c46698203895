/-
Module: SafRprGen.Pool.Parent
Layer: Pool
Purpose: The parent keeps the invariant while nothing fails: one lemma for each place of `FaultPoolRun`,
  `assign_next_fault`, `transfer_bytes`, `receive_fault_result`, `write_ready_results`,
  `send_stop_requests` and `wait_for_workers`.
Main exports: Good.launch, Good.assign, Good.send, Good.receive, Good.checked, Good.store, Good.write,
  Good.writeCube, Good.stopAt, Good.close, Good.reap
-/
import SafRprGen.Pool.Invariant

namespace SafRprGen

namespace Pool

open Bytes

variable {c : Job} {s : System}

theorem FaultReply.answer_length (i : Nat) (succeeded : (c.task i).succeeded = true) :
    (c.reply i).csvSize.toNat = (c.task i).csv.length ∧ (c.reply i).cubeSize.toNat = (c.cubes i).length := by
  have csv := (c.task i).csv_lt
  have cubes := c.length_cubes_lt i
  simp only [Job.reply, succeeded, if_true, BitVec.toNat_ofNat]
  exact ⟨Nat.mod_eq_of_lt (by omega), Nat.mod_eq_of_lt (by omega)⟩

/-- The answer of a task that succeeded. -/
theorem analyzeAndReply_eq (i : Nat) (succeeded : (c.task i).succeeded = true) :
    c.analyzeAndReply i = (c.reply i).bytes ++ ((c.task i).csv ++ c.cubes i) := by
  rw [Job.analyzeAndReply, if_pos succeeded]

namespace Phase

/-- Phase `q` is phase `p` after more bytes have moved on the socket of worker `w`. -/
structure Along (p q : Phase) (w : Nat) : Prop where
  started : ∀ n, q.started n = p.started n
  order : ∀ index v, q.order index v = p.order index v
  unsent : ∀ v ≠ w, q.unsent v = p.unsent v
  answer : ∀ v ≠ w, q.answer v = p.answer v
  cubesDone : ∀ next, q.cubesDone next = p.cubesDone next
  writing : p.writing = false
  settled : ∀ v, p ≠ .assigning v true
  reaped : ∀ v, p.reaped v → q.reaped v

variable {p : Phase} {w : Nat} {rest bytes : List UInt8} {size : Nat}

theorem along_sent (out : p.outgoing = some (w, rest)) (k : Nat) : p.Along (p.sent k) w := by
  cases p with
  | sending v more launching =>
      cases out
      exact ⟨fun n => by cases launching <;> rfl, fun _ _ => rfl,
        fun v ne => by simp [sent, unsent, ne], fun _ _ => rfl, fun _ => rfl, rfl, by simp, fun _ => id⟩
  | stop v more =>
      cases out
      exact ⟨fun _ => rfl, fun _ _ => rfl, fun v ne => by simp [sent, unsent, ne], fun _ _ => rfl,
        fun _ => rfl, rfl, by simp, fun _ => id⟩
  | _ => cases out

theorem unsent_of_outgoing (out : p.outgoing = some (w, rest)) : p.unsent w = rest := by
  cases p with
  | sending | stop => cases out; simp [unsent]
  | _ => cases out

theorem unsent_sent (out : p.outgoing = some (w, rest)) (k : Nat) : (p.sent k).unsent w = rest.drop k := by
  cases p with
  | sending | stop => cases out; simp [sent, unsent]
  | _ => cases out

theorem answer_sent (p : Phase) (k w : Nat) : (p.sent k).answer w = p.answer w := by
  cases p <;> rfl

theorem along_received (inc : p.incoming = some (w, size)) (bytes : List UInt8) :
    p.Along (p.received bytes) w := by
  cases p with
  | header | csv | cubes =>
      cases inc
      exact ⟨fun _ => rfl, fun _ _ => rfl, fun _ _ => rfl, fun v ne => by simp [received, answer, ne],
        fun _ => rfl, rfl, by simp, fun _ => id⟩
  | _ => cases inc

theorem answer_received (inc : p.incoming = some (w, size)) :
    (p.received bytes).answer w = p.answer w ++ bytes := by
  cases p with
  | header | csv | cubes => cases inc; simp [received, answer]
  | _ => cases inc

theorem unsent_received (p : Phase) (bytes : List UInt8) (w : Nat) :
    (p.received bytes).unsent w = p.unsent w := by
  cases p <;> rfl

end Phase

namespace Good

/-- `start_worker`. -/
theorem launch {w : Nat} (good : Good c s) (at' : s.phase = .launch w) (lt : w < c.workerCount) :
    Good c ((s.startWorker w).goto (.assigning w true)) := by
  have started : s.started c = w := by rw [System.started, at']; rfl
  set t := (s.startWorker w).goto (.assigning w true)
  have other : ∀ v, v ≠ w → t.pool.workers v = s.pool.workers v := fun v ne => Function.update_of_ne ne _ _
  have own : t.pool.workers w = ⟨true, none⟩ := Function.update_self _ _ _
  have order : ∀ v, v ≠ w → t.order v = s.order v := by
    intro v ne
    rw [System.order, other v ne, System.order, at']
    simp [t, System.goto, Phase.order, ne]
  have free : t.order w = .none := by simp [t, System.order, System.goto, Phase.order]
  refine ⟨lt, ?_, ?_, ?_, good.csv, ?_, ?_, ?_, ?_, ?_⟩
  · intro v hv
    rcases Nat.lt_succ_iff_lt_or_eq.mp hv with hv | rfl
    · have ne : v ≠ w := by omega
      have link := good.link v (by omega)
      have process : t.process v = s.process v := Function.update_of_ne ne _ _
      have socket : t.socket v = s.socket v := Function.update_of_ne ne _ _
      rw [order v ne, process, socket]
      rw [at'] at link
      exact link
    · have process : t.process v = .receiving [] := Function.update_self _ _ _
      have socket : t.socket v = ⟨[], [], true, true⟩ := Function.update_self _ _ _
      rw [free, process, socket]
      exact .free (.receiving [])
  · intro v hv
    have gt : w < v := hv
    have ne : v ≠ w := by omega
    have unborn := good.unborn v (by omega)
    exact ⟨(Function.update_of_ne ne _ _).trans unborn.1, by rw [other v ne]; exact unborn.2⟩
  · have books := good.books.congr t.order fun v hv i => by rw [order v (by omega)]
    rw [started] at books
    exact (books.grow fun i => by rw [free]; simp).of_pool rfl rfl rfl rfl
  · exact good.cubes.trans (by rw [at']; rfl)
  · intro _
    exact good.drained (by rw [at']; rfl)
  · intro v hv none
    rcases Nat.lt_succ_iff_lt_or_eq.mp hv with hv | rfl
    · rw [other v (by omega)] at none
      refine .inl ((good.idle v (by omega) none).resolve_right ?_)
      rw [at']
      simp
    · exact .inr rfl
  · intro v hv some
    rcases Nat.lt_succ_iff_lt_or_eq.mp hv with hv | rfl
    · rw [other v (by omega)] at some
      exact good.asked v (by omega) some
    · exact absurd (by rw [own]) some
  · intro v hv
    rcases Nat.lt_succ_iff_lt_or_eq.mp hv with hv | rfl
    · rw [other v (by omega)]
      refine .inl ((good.pid v (by omega)).resolve_right ?_)
      rw [at']
      exact id
    · exact .inl (by rw [own])

/-- `assign_next_fault` hands out the next fault. -/
theorem assign {w : Nat} {launching : Bool} (good : Good c s) (at' : s.phase = .assigning w launching)
    (left : s.pool.nextFault ≠ c.count) :
    Good c ((s.assignNextFault w).goto
      (.sending w (intBytes (BitVec.ofNat 32 s.pool.nextFault)) launching)) := by
  have lt : w < c.workerCount := by
    have here := good.here
    rwa [System.Here, at'] at here
  have started : (Phase.sending w (intBytes (BitVec.ofNat 32 s.pool.nextFault)) launching).started
      c.workerCount = s.started c := by
    rw [System.started, at']
    cases launching <;> rfl
  have hw : w < s.started c := by
    rw [← started]
    cases launching
    · exact lt
    · exact Nat.lt_succ_self w
  have below : s.pool.nextFault < c.count := lt_of_le_of_ne good.books.next_le left
  have free : s.order w = .none := by simp [System.order, at', Phase.order]
  set t := (s.assignNextFault w).goto (.sending w (intBytes (BitVec.ofNat 32 s.pool.nextFault)) launching)
  have other : ∀ v, v ≠ w → t.pool.workers v = s.pool.workers v := fun v ne => Function.update_of_ne ne _ _
  have own : t.pool.workers w = { s.pool.workers w with faultIndex := some s.pool.nextFault } :=
    Function.update_self _ _ _
  have order : ∀ v, v ≠ w → t.order v = s.order v := by
    intro v ne
    rw [System.order, other v ne, System.order, at']
    simp [t, System.goto, Phase.order, ne]
  have gets : t.order w = .fault s.pool.nextFault := by
    rw [System.order, own]
    rfl
  refine ⟨lt, ?_, ?_, ?_, good.csv, ?_, ?_, ?_, ?_, ?_⟩
  · intro v hv
    have link := good.link v (started ▸ hv)
    by_cases same : v = w
    · subst same
      simp only [free, at', Phase.unsent, Phase.answer] at link
      have given := link.order (o := .fault s.pool.nextFault) (by simp)
      rw [gets]
      simpa [t, System.goto, Phase.unsent, Phase.answer, System.assignNextFault, Order.number] using given
    · rw [order v same]
      simpa [t, System.goto, Phase.unsent, Phase.answer, System.assignNextFault, at', same] using link
  · intro v hv
    have unborn := good.unborn v (started ▸ hv)
    have ne : v ≠ w := by
      rintro rfl
      exact absurd hw (Nat.not_lt.mpr (started ▸ hv))
    exact ⟨unborn.1, by rw [other v ne]; exact unborn.2⟩
  · have books : Books c t.pool t.order (s.started c) := good.books.assign hw
      (fun i => by rw [free]; simp) below rfl rfl rfl rfl gets order
    rw [← started] at books
    exact books
  · exact good.cubes.trans (by rw [at']; rfl)
  · intro _
    exact good.drained (by rw [at']; rfl)
  · intro v hv none
    by_cases same : v = w
    · subst same
      rw [own] at none
      cases none
    · rw [other v same] at none
      rcases good.idle v (started ▸ hv) none with all | here
      · exact absurd all left
      · rw [at'] at here
        cases here
        exact absurd rfl same
  · intro v hv some
    by_cases same : v = w
    · subst same
      exact Function.update_self _ _ _
    · rw [other v same] at some
      exact (Function.update_of_ne same _ _).trans (good.asked v (started ▸ hv) some)
  · intro v hv
    refine .inl ?_
    have pid := (good.pid v (started ▸ hv)).resolve_right (by rw [at']; exact id)
    by_cases same : v = w
    · subst same
      rw [own]
      exact pid
    · rw [other v same]
      exact pid

/-- `assign_next_fault` when all faults have been handed out. -/
theorem idleWorker {w : Nat} {launching : Bool} (good : Good c s) (at' : s.phase = .assigning w launching)
    (none : s.pool.nextFault = c.count) : Good c ((s.idleWorker w).goto (.resume w launching)) := by
  have lt : w < c.workerCount := by
    have here := good.here
    rwa [System.Here, at'] at here
  have started : (Phase.resume w launching).started c.workerCount = s.started c := by
    rw [System.started, at']
    cases launching <;> rfl
  set t := (s.idleWorker w).goto (.resume w launching)
  have other : ∀ v, v ≠ w → t.pool.workers v = s.pool.workers v := fun v ne => Function.update_of_ne ne _ _
  have own : t.pool.workers w = { s.pool.workers w with faultIndex := Option.none } :=
    Function.update_self _ _ _
  have plain : ∀ index v, (Phase.resume w launching).order index v = .ofIndex index := by
    intro index v
    cases launching <;> rfl
  have order : ∀ v, t.order v = s.order v := by
    intro v
    rw [System.order, show t.phase = .resume w launching from rfl, plain, System.order, at']
    by_cases same : v = w
    · subst same
      rw [own]
      simp [Phase.order]
    · rw [other v same]
      simp [Phase.order, same]
  have unsent : ∀ v, t.phase.unsent v = s.phase.unsent v := by
    intro v
    rw [show t.phase = .resume w launching from rfl, at']
    cases launching <;> rfl
  have answer : ∀ v, t.phase.answer v = s.phase.answer v := by
    intro v
    rw [show t.phase = .resume w launching from rfl, at']
    cases launching <;> rfl
  refine ⟨?_, ?_, ?_, ?_, good.csv, ?_, ?_, ?_, ?_, ?_⟩
  · cases launching <;> exact lt
  · intro v hv
    rw [order v, unsent v, answer v]
    exact good.link v (started ▸ hv)
  · intro v hv
    have unborn := good.unborn v (started ▸ hv)
    by_cases same : v = w
    · subst same
      exact ⟨unborn.1, by rw [own]; exact unborn.2⟩
    · exact ⟨unborn.1, by rw [other v same]; exact unborn.2⟩
  · have books := good.books.congr t.order fun v _ i => by rw [order v]
    rw [← started] at books
    exact books.of_pool rfl rfl rfl rfl
  · exact good.cubes.trans (by rw [at']; cases launching <;> rfl)
  · intro _
    exact good.drained (by rw [at']; rfl)
  · intro v _ _
    exact .inl none
  · intro v hv some
    by_cases same : v = w
    · subst same
      rw [own] at some
      exact absurd rfl some
    · rw [other v same] at some
      exact (Function.update_of_ne same _ _).trans (good.asked v (started ▸ hv) some)
  · intro v hv
    refine .inl ?_
    have pid := (good.pid v (started ▸ hv)).resolve_right (by rw [at']; exact id)
    by_cases same : v = w
    · subst same
      rw [own]
      exact pid
    · rw [other v same]
      exact pid

/-- The parent moves bytes on the socket of worker `w`: only what is left to send and what has been read
changes, for this worker alone. -/
theorem transfer {p : Phase} {w : Nat} {socket : Socket} (good : Good c s) (along : s.phase.Along p w)
    (link : w < s.started c → Link c (s.order w) (p.unsent w) (p.answer w) socket (s.process w))
    (here : ((s.setSocket w socket).goto p).Here c) : Good c ((s.setSocket w socket).goto p) := by
  have started : p.started c.workerCount = s.started c := along.started _
  have order : ((s.setSocket w socket).goto p).order = s.order := by
    funext v
    exact along.order _ v
  refine ⟨here, ?_, ?_, ?_, good.csv, ?_, fun _ => good.drained along.writing, ?_, ?_, ?_⟩
  · intro v hv
    have hv' : v < s.started c := started ▸ hv
    rw [order]
    by_cases here : v = w
    · subst here
      simpa [System.goto, System.setSocket] using link hv'
    · have old := good.link v hv'
      rw [← along.unsent v here, ← along.answer v here] at old
      have other : ((s.setSocket w socket).goto p).socket v = s.socket v := Function.update_of_ne here _ _
      rw [other]
      exact old
  · intro v hv
    exact good.unborn v (started ▸ hv)
  · have books := good.books
    rw [← order, ← started] at books
    exact books
  · exact good.cubes.trans (by rw [← along.cubesDone]; rfl)
  · intro v hv none
    exact .inl ((good.idle v (started ▸ hv) none).resolve_right (along.settled v))
  · intro v hv
    exact good.asked v (started ▸ hv)
  · intro v hv
    exact (good.pid v (started ▸ hv)).imp_right (along.reaped v)

/-- A `write` of the parent. -/
theorem send {w : Nat} {rest : List UInt8} (good : Good c s) (k : Nat)
    (out : s.phase.outgoing = some (w, rest)) :
    Good c ((s.setSocket w { s.socket w with
      toWorker := (s.socket w).toWorker ++ rest.take k }).goto (s.phase.sent k)) := by
  apply good.transfer (Phase.along_sent out k)
  · intro hw
    have link := (good.link w hw).send k
    rw [Phase.unsent_of_outgoing out] at link
    rw [Phase.unsent_sent out, Phase.answer_sent]
    exact link
  · have here := good.here
    unfold System.Here at here ⊢
    cases at' : s.phase with
    | sending | stop => rw [at'] at here; exact here
    | _ => rw [at'] at out; cases out

/-- A `read` of the parent. -/
theorem receive {w size : Nat} (good : Good c s) (k : Nat) (inc : s.phase.incoming = some (w, size))
    (le : k ≤ size) : Good c ((s.setSocket w { s.socket w with
      toParent := (s.socket w).toParent.drop k }).goto
        (s.phase.received ((s.socket w).toParent.take k))) := by
  apply good.transfer (Phase.along_received inc _)
  · intro hw
    have link := (good.link w hw).receive k
    rw [Phase.unsent_received, Phase.answer_received inc]
    exact link
  · have here := good.here
    have taken := List.length_take_le k (s.socket w).toParent
    unfold System.Here at here ⊢
    cases at' : s.phase with
    | header | csv | cubes =>
        rw [at'] at here inc
        cases inc
        refine ⟨here.1, ?_, here.2.2⟩
        rw [List.length_append]
        have small := here.2.1
        omega
    | _ => rw [at'] at inc; cases inc

/-- The header has been read and passes the checks. -/
theorem checked {w : Nat} {got : List UInt8} (good : Good c s) (at' : s.phase = .header w got)
    (full : got.length = replySize) (accepted : s.accepts c w (.read got) = true) :
    Good c (s.goto (.csv w (.read got) [])) := by
  have here := good.here
  rw [System.Here, at'] at here
  obtain ⟨hw, -, i, index⟩ := here
  have hw' : w < s.started c := by rw [System.started, at']; exact hw
  have order : s.order w = .fault i := by
    rw [System.order, at', index]
    rfl
  have link := good.link w hw'
  rw [order] at link
  have part := link.answer_prefix
  rw [at', Phase.answer, if_pos rfl] at part
  have header : got = (c.reply i).bytes := by
    refine List.IsPrefix.eq_of_length ?_ (full.trans (FaultReply.length_bytes _).symm)
    apply List.prefix_of_prefix_length_le ((List.prefix_append _ _).trans part) (List.prefix_append _ _)
    rw [full, FaultReply.length_bytes]
  have reply : FaultReply.read got = c.reply i := by rw [header, FaultReply.read_bytes]
  have succeeded : (c.task i).succeeded = true := by
    rw [System.accepts, index, reply] at accepted
    by_contra failed
    simp [Job.reply, failed] at accepted
  refine good.alike at' ⟨rfl, fun _ _ => rfl, fun _ => rfl, fun v => ?_, fun _ => rfl, by simp, fun _ => id⟩
    ⟨hw, Nat.zero_le _, i, index, succeeded, reply⟩ fun _ => good.drained (by rw [at']; rfl)
  rw [Phase.answer, Phase.answer, reply, header, List.append_nil]

/-- The text for the CSV file has been read. -/
theorem csvReceived {w : Nat} {reply : FaultReply} {got : List UInt8} (good : Good c s)
    (at' : s.phase = .csv w reply got) (full : got.length = reply.csvSize.toNat) :
    Good c (s.goto (.cubes w reply got [])) := by
  have here := good.here
  rw [System.Here, at'] at here
  obtain ⟨hw, -, i, index, succeeded, rfl⟩ := here
  have hw' : w < s.started c := by rw [System.started, at']; exact hw
  have order : s.order w = .fault i := by
    rw [System.order, at', index]
    rfl
  have link := good.link w hw'
  rw [order] at link
  have part := link.answer_prefix
  rw [at', Phase.answer, if_pos rfl, analyzeAndReply_eq i succeeded, List.append_assoc,
    List.prefix_append_right_inj] at part
  rw [(FaultReply.answer_length i succeeded).1] at full
  have text : got = (c.task i).csv := by
    refine List.IsPrefix.eq_of_length ?_ full
    exact List.prefix_of_prefix_length_le ((List.prefix_append _ _).trans part) (List.prefix_append _ _)
      full.le
  refine good.alike at' ⟨rfl, fun _ _ => rfl, fun _ => rfl, fun v => ?_, fun _ => rfl, by simp, fun _ => id⟩
    ⟨hw, Nat.zero_le _, i, index, succeeded, rfl, text⟩ fun _ => good.drained (by rw [at']; rfl)
  rw [Phase.answer, Phase.answer, List.append_nil]

/-- The answer has been read in full. -/
theorem stored {w i : Nat} {reply : FaultReply} {text got : List UInt8} (good : Good c s)
    (at' : s.phase = .cubes w reply text got) (full : got.length = reply.cubeSize.toNat)
    (index : (s.pool.workers w).faultIndex = some i) :
    Good c ((s.storeResult c i reply text got).goto (.output w)) := by
  have here := good.here
  rw [System.Here, at'] at here
  obtain ⟨hw, -, j, index', succeeded, rfl, rfl⟩ := here
  rw [index, Option.some.injEq] at index'
  subst index'
  have hw' : w < s.started c := by rw [System.started, at']; exact hw
  have has : s.order w = .fault i := by
    rw [System.order, at', index]
    rfl
  have link := good.link w hw'
  rw [has] at link
  have part := link.answer_prefix
  rw [at', Phase.answer, if_pos rfl, analyzeAndReply_eq i succeeded, List.append_assoc, List.append_assoc,
    List.prefix_append_right_inj, List.prefix_append_right_inj] at part
  rw [(FaultReply.answer_length i succeeded).2] at full
  obtain rfl : got = c.cubes i := by
    refine List.IsPrefix.eq_of_length ?_ full
    exact (List.prefix_append _ _).trans part
  set t := (s.storeResult c i (c.reply i) (c.task i).csv (c.cubes i)).goto (.output w)
  have order : ∀ v ≠ w, t.order v = s.order v := by
    intro v ne
    rw [System.order, System.order, at']
    simp [t, System.goto, Phase.order, ne, System.storeResult]
  have free : t.order w = .none := by simp [t, System.order, System.goto, Phase.order]
  refine ⟨hw, ?_, ?_, ?_, good.csv, ?_, ?_, ?_, ?_, ?_⟩
  · intro v hv
    by_cases same : v = w
    · subst same
      have heard : (Phase.cubes v (c.reply i) (c.task i).csv (c.cubes i)).answer v =
          c.analyzeAndReply i := by
        rw [Phase.answer, if_pos rfl, analyzeAndReply_eq i succeeded]
      rw [at', heard] at link
      rw [free]
      exact link.finish succeeded
    · have old := good.link v (by rw [System.started, at']; exact hv)
      rw [at', Phase.answer, if_neg same] at old
      rw [order v same]
      exact old
  · intro v hv
    exact good.unborn v (by rw [System.started, at']; exact hv)
  · have books : Books c t.pool t.order (s.started c) :=
      good.books.store hw' has succeeded rfl rfl rfl rfl (fun j => by rw [free]; simp) order
    rw [System.started, at'] at books
    exact books
  · exact good.cubes.trans (by rw [at']; rfl)
  · intro absurd
    cases absurd
  · intro v hv none
    refine .inl ((good.idle v (by rw [System.started, at']; exact hv) none).resolve_right ?_)
    rw [at']
    simp
  · intro v hv
    exact good.asked v (by rw [System.started, at']; exact hv)
  · intro v hv
    refine .inl ((good.pid v (by rw [System.started, at']; exact hv)).resolve_right ?_)
    rw [at']
    exact id

/-- `write_ready_results` writes the next result. -/
theorem wrote {w : Nat} (good : Good c s) (at' : s.phase = .output w) (writable : s.writable c) :
    Good c ((s.writeCsv (s.pool.results s.pool.nextOutput).csv).goto (.outputCube w s.pool.nextOutput)) := by
  have here := good.here
  rw [System.Here, at'] at here
  obtain ⟨lt, ready⟩ := writable
  obtain ⟨csv, cubes⟩ := good.books.contents _ ready (le_refl _)
  have started : s.started c = c.workerCount := by rw [System.started, at']; rfl
  set t := (s.writeCsv (s.pool.results s.pool.nextOutput).csv).goto (.outputCube w s.pool.nextOutput)
  have order : t.order = s.order := by
    funext v
    rw [System.order, System.order, at']
    rfl
  refine ⟨⟨here, rfl, cubes⟩, ?_, ?_, ?_, ?_, ?_, ?_, ?_, ?_, ?_⟩
  · intro v hv
    have link := good.link v (started ▸ hv)
    rw [at'] at link
    rw [order]
    exact link
  · intro v hv
    exact good.unborn v (started ▸ hv)
  · rw [order]
    have books : Books c t.pool s.order (s.started c) := good.books.wrote ready rfl rfl rfl rfl
    rw [started] at books
    exact books
  · calc t.files.csv = s.files.csv ++ (s.pool.results s.pool.nextOutput).csv := rfl
      _ = c.csvUpTo (s.pool.nextOutput + 1) := by rw [good.csv, csv, Job.csvUpTo_succ]
  · exact good.cubes.trans (by rw [at']; rfl)
  · intro absurd
    cases absurd
  · intro v hv none
    refine .inl ((good.idle v (started ▸ hv) none).resolve_right ?_)
    rw [at']
    simp
  · intro v hv
    exact good.asked v (started ▸ hv)
  · intro v hv
    refine .inl ((good.pid v (started ▸ hv)).resolve_right ?_)
    rw [at']
    exact id

/-- What `WriteCubeFile` is called with is the next entry of the whole output. -/
theorem writeCube_files {w i : Nat} (good : Good c s) (at' : s.phase = .outputCube w i) :
    (s.writeCube c i).files.cubes = c.cubesUpTo (i + 1) := by
  have here := good.here
  rw [System.Here, at'] at here
  have before := good.cubes
  rw [at'] at before
  rw [Job.cubesUpTo_succ, System.writeCube]
  simp only [writeCubeFile, here.2.2]
  split
  · rw [before, List.append_nil]
    rfl
  · rw [before]
    rfl

/-- `write_ready_results` after a call of `WriteCubeFile`. -/
theorem cubeWritten {w i : Nat} (good : Good c s) (at' : s.phase = .outputCube w i) :
    Good c ((s.writeCube c i).goto (.output w)) := by
  have here := good.here
  rw [System.Here, at'] at here
  obtain ⟨hw, next, -⟩ := here
  have started : s.started c = c.workerCount := by rw [System.started, at']; rfl
  set t := (s.writeCube c i).goto (.output w) with ht
  have order : t.order = s.order := by
    funext v
    rw [System.order, System.order, at']
    rfl
  refine ⟨hw, ?_, ?_, ?_, ?_, ?_, ?_, ?_, ?_, ?_⟩
  · intro v hv
    have link := good.link v (started ▸ hv)
    rw [at'] at link
    rw [order]
    exact link
  · intro v hv
    exact good.unborn v (started ▸ hv)
  · rw [order]
    have results : t.pool.results =
        Function.update s.pool.results i { s.pool.results i with csv := [], cubes := [] } := rfl
    have books := good.books.freed (by omega) (by rfl) (by rfl) results rfl rfl
    rw [started] at books
    exact books
  · have same : t.files.csv = s.files.csv := by
      simp only [ht, System.goto, System.writeCube, writeCubeFile]
      split <;> rfl
    rw [same]
    exact good.csv
  · have written := good.writeCube_files at'
    rw [← next] at written
    exact written
  · intro absurd
    cases absurd
  · intro v hv none
    refine .inl ((good.idle v (started ▸ hv) none).resolve_right ?_)
    rw [at']
    simp
  · intro v hv
    exact good.asked v (started ▸ hv)
  · intro v hv
    refine .inl ((good.pid v (started ▸ hv)).resolve_right ?_)
    rw [at']
    exact id

/-- `poll` changes what the scan will look at. -/
theorem poll (good : Good c s) : Good c s.poll :=
  ⟨good.here, good.link, good.unborn, good.books.of_pool rfl rfl rfl rfl, good.csv, good.cubes,
    good.drained, good.idle, good.asked, good.pid⟩

/-- `send_stop_requests` comes to worker `w`: the ones before it have their order to stop. -/
theorem stopAt {w : Nat} (good : Good c s) (le : w ≤ c.workerCount)
    (started : s.started c = c.workerCount)
    (order : ∀ v < c.workerCount, s.order v = if v < w then .stop else .none)
    (sent : ∀ v < c.workerCount, s.phase.unsent v = []) (heard : ∀ v < c.workerCount, s.phase.answer v = [])
    (all : s.pool.completedFaults = c.count)
    (cubesDone : s.phase.cubesDone s.pool.nextOutput = s.pool.nextOutput) (writing : s.phase.writing = false)
    (settled : ∀ v, s.phase ≠ .assigning v true) (reaped : ∀ v, ¬ s.phase.reaped v) :
    Good c (s.goto (c.stopAt w)) := by
  by_cases lt : w < c.workerCount
  · rw [Job.stopAt, if_pos lt]
    set t := s.goto (.stop w (intBytes noFault))
    have orders : ∀ v, t.order v = if v ≤ w then .stop else .none := fun _ => rfl
    refine ⟨⟨lt, all⟩, ?_, ?_, ?_, good.csv, good.cubes.trans (by rw [cubesDone]; rfl), ?_, ?_, ?_, ?_⟩
    · intro v hv
      have link := good.link v (started ▸ hv)
      rw [order v hv, sent v hv, heard v hv] at link
      rw [orders]
      by_cases here : v = w
      · subst here
        rw [if_neg (Nat.lt_irrefl v)] at link
        have given := link.order (o := .stop) (by simp)
        simpa [t, System.goto, Phase.unsent, Phase.answer, Order.number] using given
      · have both : (v ≤ w) = (v < w) := propext ⟨fun h => by omega, fun h => by omega⟩
        have nothing : t.phase.unsent v = [] := by simp [t, System.goto, Phase.unsent, here]
        rw [nothing]
        simp only [both]
        exact link
    · intro v hv
      exact good.unborn v (started ▸ hv)
    · have books := good.books.congr t.order fun v hv i => by
        rw [started] at hv
        rw [orders, order v hv]
        constructor
        · intro has
          split at has <;> cases has
        · intro has
          split at has <;> cases has
      rw [started] at books
      exact books
    · intro _
      exact good.drained writing
    · intro v hv none
      exact .inl ((good.idle v (started ▸ hv) none).resolve_right (settled v))
    · intro v hv
      exact good.asked v (started ▸ hv)
    · intro v hv
      exact .inl ((good.pid v (started ▸ hv)).resolve_right (reaped v))
  · obtain rfl : w = c.workerCount := by omega
    rw [Job.stopAt, if_neg lt]
    refine good.goto started.symm ?_ ?_ ?_ ⟨Nat.zero_le _, all, fun _ v hv => absurd hv (Nat.not_lt_zero v)⟩
      cubesDone.symm (fun _ => good.drained writing) settled fun v gone => absurd gone (reaped v)
    · intro v hv
      rw [started] at hv
      rw [order v hv, if_pos hv]
      rfl
    · intro v hv
      rw [sent v (started ▸ hv)]
      rfl
    · intro v hv
      rw [heard v (started ▸ hv)]
      rfl

/-- `collect_fault_results` ends well. -/
theorem collected (good : Good c s) (at' : s.phase = .collect)
    (all : s.pool.completedFaults = c.count) : Good c (s.goto (c.stopAt 0)) := by
  have started : s.started c = c.workerCount := by rw [System.started, at']; rfl
  refine good.stopAt (Nat.zero_le _) started ?_ ?_ ?_ all (by rw [at']; rfl) (by rw [at']; rfl)
    (by rw [at']; simp) (by rw [at']; exact fun _ => id)
  · intro v hv
    have nobody := good.books.no_fault all (started ▸ hv)
    rw [if_neg (Nat.not_lt_zero v)]
    rw [System.order, at'] at nobody ⊢
    cases index : (s.pool.workers v).faultIndex with
    | none => rfl
    | some i => exact absurd (by rw [index]; rfl) (nobody i)
  · intro v _
    rw [at']
    rfl
  · intro v _
    rw [at']
    rfl

/-- A worker has its order to stop; the next one comes. -/
theorem stopped {w : Nat} (good : Good c s) (at' : s.phase = .stop w []) :
    Good c (s.goto (c.stopAt (w + 1))) := by
  have here := good.here
  rw [System.Here, at'] at here
  have started : s.started c = c.workerCount := by rw [System.started, at']; rfl
  refine good.stopAt here.1 started ?_ ?_ ?_ here.2 (by rw [at']; rfl) (by rw [at']; rfl)
    (by rw [at']; simp) (by rw [at']; exact fun _ => id)
  · intro v _
    rw [System.order, at']
    simp only [Phase.order, Nat.lt_succ_iff]
  · intro v _
    rw [at']
    simp [Phase.unsent]
  · intro v _
    rw [at']
    rfl

/-- `wait_for_workers` closes the socket of the next worker. -/
theorem closed {w : Nat} {workers : Bool} (good : Good c s) (at' : s.phase = .wait w true workers)
    (lt : w < c.workerCount) :
    (s.pool.workers w).pid = true ∧ Good c ((s.closeSocket w).goto (.reap w true workers)) := by
  have started : s.started c = c.workerCount := by rw [System.started, at']; rfl
  have here := good.here
  rw [System.Here, at'] at here
  have pid : (s.pool.workers w).pid = true := by
    apply (good.pid w (started ▸ lt)).resolve_right
    rw [at']
    exact Nat.lt_irrefl w
  refine ⟨pid, good.transfer ⟨?_, ?_, ?_, ?_, ?_, ?_, ?_, ?_⟩ ?_ ⟨lt, here.2⟩⟩
  all_goals try rw [at']
  · exact fun _ => rfl
  · exact fun _ _ => rfl
  · exact fun _ _ => rfl
  · exact fun _ _ => rfl
  · exact fun _ => rfl
  · rfl
  · simp
  · exact fun _ => id
  · intro hw
    have link := good.link w hw
    have order : s.order w = .stop := by
      rw [System.order, at']
      rfl
    rw [order] at link ⊢
    rw [at'] at link
    exact link.close

/-- `waitpid` has returned. -/
theorem reaped {w : Nat} {workers clean : Bool} (good : Good c s) (at' : s.phase = .reap w true workers)
    (gone : clean = true → s.process w = .exited true) :
    Good c ((s.forget w).goto (.wait (w + 1) true (workers && clean))) := by
  have started : s.started c = c.workerCount := by rw [System.started, at']; rfl
  have here := good.here
  rw [System.Here, at'] at here
  obtain ⟨lt, all, exited⟩ := here
  set t := (s.forget w).goto (.wait (w + 1) true (workers && clean))
  have other : ∀ v, v ≠ w → t.pool.workers v = s.pool.workers v := fun v ne => Function.update_of_ne ne _ _
  have own : t.pool.workers w = { s.pool.workers w with pid := false } := Function.update_self _ _ _
  have index : ∀ v, (t.pool.workers v).faultIndex = (s.pool.workers v).faultIndex := by
    intro v
    by_cases same : v = w
    · subst same
      rw [own]
    · rw [other v same]
  have order : t.order = s.order := by
    funext v
    rw [System.order, System.order, at']
    rfl
  refine ⟨⟨lt, all, ?_⟩, ?_, ?_, ?_, good.csv, ?_, ?_, ?_, ?_, ?_⟩
  · intro both v hv
    rw [Bool.and_eq_true] at both
    rcases Nat.lt_succ_iff_lt_or_eq.mp hv with hv | rfl
    · exact exited both.1 v hv
    · exact gone both.2
  · intro v hv
    have link := good.link v (started ▸ hv)
    rw [at'] at link
    rw [order]
    exact link
  · intro v hv
    have unborn := good.unborn v (started ▸ hv)
    have ne : v ≠ w := by
      rintro rfl
      exact absurd lt (Nat.not_lt.mpr hv)
    exact ⟨unborn.1, by rw [other v ne]; exact unborn.2⟩
  · have books := good.books
    rw [← order, started] at books
    exact books.of_pool rfl rfl rfl rfl
  · exact good.cubes.trans (by rw [at']; rfl)
  · intro _
    exact good.drained (by rw [at']; rfl)
  · intro v hv none
    rw [index] at none
    refine .inl ((good.idle v (started ▸ hv) none).resolve_right ?_)
    rw [at']
    simp
  · intro v hv some
    rw [index] at some
    exact good.asked v (started ▸ hv) some
  · intro v hv
    rcases Nat.lt_trichotomy v w with less | rfl | more
    · exact .inr (Nat.lt_succ_of_lt less)
    · exact .inr (Nat.lt_succ_self v)
    · have pid := good.pid v (started ▸ hv)
      rw [at'] at pid
      rw [other v (by omega)]
      exact .inl (pid.resolve_right fun less => absurd more (Nat.lt_asymm less))

end Good

end Pool

end SafRprGen
