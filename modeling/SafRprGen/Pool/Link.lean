/-
Module: SafRprGen.Pool.Link
Layer: Pool
Purpose: What the parent and one worker know of each other. `Link` relates the order the worker has been
  given, the bytes of that order the parent still has to send, the bytes of the answer the parent has
  already read, the bytes under way in the socket and the place of the worker in its loop. No step of a
  worker breaks the link, so whatever way the bytes are cut, an answer read in full is the answer to the
  order.
Main exports: Order, Link, WorkerStep.frame, WorkerStep.link, Link.answer_prefix, Link.alive_moves
-/
import SafRprGen.Pool.Model

namespace SafRprGen

namespace Pool

open Bytes

/-- What a worker has been asked for. -/
inductive Order where
  | none
  | fault (i : Nat)
  | stop
deriving DecidableEq

namespace Order

/-- A worker with a fault works on it. -/
def ofIndex : Option Nat → Order
  | Option.none => .none
  | some i => .fault i

/-- The number that carries an order. -/
def number : Order → BitVec 32
  | .fault i => BitVec.ofNat 32 i
  | _ => noFault

@[simp] theorem ofIndex_eq_fault {index : Option Nat} {i : Nat} : ofIndex index = .fault i ↔
    index = some i := by
  cases index <;> simp [ofIndex]

@[simp] theorem ofIndex_eq_none {index : Option Nat} : ofIndex index = .none ↔ index = Option.none := by
  cases index <;> simp [ofIndex]

@[simp] theorem ofIndex_ne_stop {index : Option Nat} : ofIndex index ≠ .stop := by
  cases index <;> simp [ofIndex]

end Order

namespace WorkerProcess

@[simp] theorem alive_receiving (got : List UInt8) : (WorkerProcess.receiving got).alive := trivial
@[simp] theorem alive_replying (i : Nat) (rest : List UInt8) : (WorkerProcess.replying i rest).alive :=
    trivial
@[simp] theorem alive_finishing : WorkerProcess.finishing.alive := trivial
@[simp] theorem not_alive_exited (clean : Bool) : ¬ (WorkerProcess.exited clean).alive := id
@[simp] theorem not_alive_notStarted : ¬ WorkerProcess.notStarted.alive := id

end WorkerProcess

/-- A worker that waits for a number, or is about to after an answer, with what it has of the number. -/
inductive Listening (c : Job) : List UInt8 → WorkerProcess → Prop where
  | receiving (got : List UInt8) : Listening c got (.receiving got)
  | replied {i : Nat} (succeeded : (c.task i).succeeded = true) : Listening c [] (.replying i [])

/-- One worker as the parent sees it: the order it has, what of the order is `unsent`, what of the
`answer` has been read, its socket and its place in the loop. -/
inductive Link (c : Job) : Order → List UInt8 → List UInt8 → Socket → WorkerProcess → Prop where
  | free {process : WorkerProcess} (listening : Listening c [] process) :
      Link c .none [] [] ⟨[], [], true, true⟩ process
  | asked {o : Order} {got inFlight unsent : List UInt8} {p : Bool} {process : WorkerProcess}
      (some : o ≠ .none) (listening : Listening c got process)
      (bytes : got ++ inFlight ++ unsent = intBytes o.number) (open' : o ≠ .stop → p = true) :
      Link c o unsent [] ⟨inFlight, [], true, p⟩ process
  | working {i : Nat} {answer inFlight rest : List UInt8}
      (bytes : answer ++ inFlight ++ rest = c.analyzeAndReply i) :
      Link c (.fault i) [] answer ⟨[], inFlight, true, true⟩ (.replying i rest)
  | answered {i : Nat} {answer inFlight : List UInt8} (bytes : answer ++ inFlight = c.analyzeAndReply i)
      (succeeded : (c.task i).succeeded = true) :
      Link c (.fault i) [] answer ⟨[], inFlight, true, true⟩ (.receiving [])
  | quitting {p : Bool} : Link c .stop [] [] ⟨[], [], true, p⟩ .finishing
  | gone {o : Order} {unsent answer : List UInt8} {socket : Socket} {clean : Bool}
      (closed : socket.workerEnd = false)
      (part : ∀ i, o = .fault i → answer ++ socket.toParent <+: c.analyzeAndReply i)
      (none : o = .none → answer = [] ∧ socket.toParent = []) :
      Link c o unsent answer socket (.exited clean)

section Numbers

variable {c : Job} {i : Nat}

theorem toNat_ofNat_index (lt : i < c.count) : (BitVec.ofNat 32 i).toNat = i := by
  have small := c.count_lt
  rw [BitVec.toNat_ofNat]
  exact Nat.mod_eq_of_lt (by omega)

theorem toInt_ofNat_index (lt : i < c.count) : (BitVec.ofNat 32 i).toInt = i := by
  have small := c.count_lt
  have value := toNat_ofNat_index lt
  rw [BitVec.toInt_eq_toNat_of_lt (by omega), value]

theorem ofNat_index_ne (lt : i < c.count) : BitVec.ofNat 32 i ≠ noFault := by
  intro same
  have value := toInt_ofNat_index lt
  rw [same] at value
  exact absurd value (by
    have sign : noFault.toInt = -1 := by decide
    omega)

/-- A worker takes the number of a fault as that fault. -/
theorem dispatch_fault (s : System) (w : Nat) (lt : i < c.count) :
    c.dispatch s w (BitVec.ofNat 32 i) = s.setProcess w (.replying i (c.analyzeAndReply i)) := by
  unfold Job.dispatch
  have value := toInt_ofNat_index lt
  rw [if_neg (ofNat_index_ne lt), if_neg (by omega), toNat_ofNat_index lt]

theorem dispatch_stop (s : System) (w : Nat) : c.dispatch s w noFault = s.setProcess w .finishing := by
  unfold Job.dispatch
  rw [if_pos rfl]

end Numbers

namespace System

variable (s : System) (w v : Nat)

@[simp] theorem process_setProcess (p : WorkerProcess) : (s.setProcess w p).process w = p :=
  Function.update_self _ _ _

@[simp] theorem socket_setProcess (p : WorkerProcess) : (s.setProcess w p).socket = s.socket := rfl

@[simp] theorem socket_setSocket (k : Socket) : (s.setSocket w k).socket w = k :=
  Function.update_self _ _ _

@[simp] theorem process_setSocket (k : Socket) : (s.setSocket w k).process = s.process := rfl

@[simp] theorem process_exit (clean : Bool) : (s.exit w clean).process w = .exited clean :=
  Function.update_self _ _ _

@[simp] theorem socket_exit (clean : Bool) :
    (s.exit w clean).socket w = { s.socket w with workerEnd := false } :=
  Function.update_self _ _ _

end System

/-- What a step of worker `w` leaves alone. -/
structure SameBut (w : Nat) (s t : System) : Prop where
  phase : t.phase = s.phase
  pool : t.pool = s.pool
  files : t.files = s.files
  cancelled : t.cancelled = s.cancelled
  signalled : t.signalled = s.signalled
  process : ∀ v ≠ w, t.process v = s.process v
  socket : ∀ v ≠ w, t.socket v = s.socket v

namespace SameBut

variable {s : System} {w : Nat}

theorem setProcess (p : WorkerProcess) : SameBut w s (s.setProcess w p) :=
  ⟨rfl, rfl, rfl, rfl, rfl, fun _ ne => Function.update_of_ne ne _ _, fun _ _ => rfl⟩

theorem setSocket (k : Socket) : SameBut w s (s.setSocket w k) :=
  ⟨rfl, rfl, rfl, rfl, rfl, fun _ _ => rfl, fun _ ne => Function.update_of_ne ne _ _⟩

theorem trans {t u : System} (one : SameBut w s t) (two : SameBut w t u) : SameBut w s u :=
  ⟨two.phase.trans one.phase, two.pool.trans one.pool, two.files.trans one.files,
    two.cancelled.trans one.cancelled, two.signalled.trans one.signalled,
    fun v ne => (two.process v ne).trans (one.process v ne),
    fun v ne => (two.socket v ne).trans (one.socket v ne)⟩

theorem exit (clean : Bool) : SameBut w s (s.exit w clean) :=
  (setProcess _).trans (setSocket _)

theorem dispatch (c : Job) (x : BitVec 32) : SameBut w s (c.dispatch s w x) := by
  unfold Job.dispatch
  split
  · exact setProcess _
  · split
    · exact exit _
    · exact setProcess _

end SameBut

variable {c : Job} {s t : System} {w : Nat} {e : Event}

theorem WorkerStep.frame (step : WorkerStep c s w e t) : SameBut w s t := by
  cases step with
  | receive | send => exact (SameBut.setSocket _).trans (SameBut.setProcess _)
  | hangup | brokenPipe | finished | killed | crash => exact .exit _
  | received => exact .dispatch c _
  | replied =>
      split
      · exact .setProcess _
      · exact .exit _

theorem WorkerStep.alive (step : WorkerStep c s w e t) : (s.process w).alive := by
  cases step with
  | receive _ here | hangup here | received here | send _ here | brokenPipe here | replied here
    | finished here => rw [here]; trivial
  | killed alive | crash _ alive => exact alive

theorem WorkerStep.process_ne (step : WorkerStep c s w e t) : t.process w ≠ .notStarted := by
  cases step with
  | receive | send =>
      rw [System.process_setProcess]
      simp
  | hangup | brokenPipe | finished | killed | crash =>
      rw [System.process_exit]
      simp
  | received =>
      unfold Job.dispatch
      split
      · rw [System.process_setProcess]
        simp
      · split
        · rw [System.process_exit]
          simp
        · rw [System.process_setProcess]
          simp
  | replied =>
      split
      · rw [System.process_setProcess]
        simp
      · rw [System.process_exit]
        simp

namespace Link

variable {o : Order} {unsent answer : List UInt8} {k : Socket} {p : WorkerProcess}

/-- Whatever has arrived of an answer is the beginning of the answer. -/
theorem answer_prefix {i : Nat} (link : Link c (.fault i) unsent answer k p) :
    answer ++ k.toParent <+: c.analyzeAndReply i := by
  cases link with
  | asked => exact List.nil_prefix
  | working bytes => exact ⟨_, bytes⟩
  | answered bytes => exact ⟨[], (List.append_nil _).trans bytes⟩
  | gone _ part => exact part i rfl

/-- A worker without an order has nothing to say. -/
theorem of_none (link : Link c .none unsent answer k p) : answer = [] ∧ k.toParent = [] := by
  cases link with
  | free => exact ⟨rfl, rfl⟩
  | asked some => exact absurd rfl some
  | gone _ _ none => exact none rfl

/-- A worker that ends leaves the link as it is. -/
theorem exit (link : Link c o unsent answer k p) (clean : Bool) :
    Link c o unsent answer { k with workerEnd := false } (.exited clean) :=
  .gone rfl (fun i order => by subst order; exact link.answer_prefix)
    fun order => by subst order; exact link.of_none

theorem not_notStarted (link : Link c o unsent answer k .notStarted) : False := by
  cases link with
  | free listening => cases listening
  | asked _ listening => cases listening

/-- The end of a dead worker is closed. -/
theorem closed {clean : Bool} (link : Link c o unsent answer k (.exited clean)) : k.workerEnd = false := by
  cases link with
  | free listening => cases listening
  | asked _ listening => cases listening
  | gone closed => exact closed

/-- A worker without an order gets one. -/
theorem order (link : Link c .none [] [] k p) (some : o ≠ .none) :
    Link c o (intBytes o.number) [] k p := by
  cases link with
  | free listening => exact .asked some listening rfl fun _ => rfl
  | asked none => exact absurd rfl none
  | gone closed _ none =>
      refine .gone closed (fun _ _ => ?_) fun none => absurd none some
      rw [(none rfl).2]
      exact List.nil_prefix

/-- The parent sends some more of an order. -/
theorem send (link : Link c o unsent answer k p) (n : Nat) :
    Link c o (unsent.drop n) answer { k with toWorker := k.toWorker ++ unsent.take n } p := by
  cases link with
  | free listening =>
      rw [List.drop_nil, List.take_nil]
      exact .free listening
  | asked some listening bytes open' =>
      refine .asked some listening ?_ open'
      rw [List.append_assoc, List.append_assoc, List.take_append_drop, ← List.append_assoc, bytes]
  | working bytes =>
      rw [List.drop_nil, List.take_nil]
      exact .working bytes
  | answered bytes succeeded =>
      rw [List.drop_nil, List.take_nil]
      exact .answered bytes succeeded
  | quitting =>
      rw [List.drop_nil, List.take_nil]
      exact .quitting
  | gone closed part none => exact .gone closed part none

/-- The parent reads some more of an answer. -/
theorem receive (link : Link c o unsent answer k p) (n : Nat) :
    Link c o unsent (answer ++ k.toParent.take n) { k with toParent := k.toParent.drop n } p := by
  cases link with
  | free listening =>
      rw [List.drop_nil, List.take_nil]
      exact .free listening
  | asked some listening bytes open' =>
      rw [List.drop_nil, List.take_nil]
      exact .asked some listening bytes open'
  | working bytes =>
      refine .working ?_
      rw [List.append_assoc answer, List.take_append_drop, bytes]
  | answered bytes succeeded =>
      refine .answered ?_ succeeded
      rw [List.append_assoc, List.take_append_drop, bytes]
  | quitting =>
      rw [List.drop_nil, List.take_nil]
      exact .quitting
  | gone closed part none =>
      refine .gone closed (fun i same => ?_) fun same => ?_
      · rw [List.append_assoc, List.take_append_drop]
        exact part i same
      · rw [(none same).1, (none same).2]
        exact ⟨List.take_nil, List.drop_nil⟩

/-- An answer that has been read in full, to a task that succeeded, leaves the worker without an order. -/
theorem finish {i : Nat} (link : Link c (.fault i) [] (c.analyzeAndReply i) k p)
    (succeeded : (c.task i).succeeded = true) : Link c .none [] [] k p := by
  cases link with
  | working bytes =>
      rw [List.append_assoc] at bytes
      obtain ⟨rfl, rfl⟩ := List.append_eq_nil_iff.mp (List.append_right_eq_self.mp bytes)
      exact .free (.replied succeeded)
  | answered bytes =>
      obtain rfl := List.append_right_eq_self.mp bytes
      exact .free (.receiving [])
  | gone closed part _ =>
      refine .gone closed (fun _ same => by cases same) fun _ => ⟨rfl, ?_⟩
      have all := (part i rfl).length_le
      rw [List.length_append] at all
      exact List.eq_nil_of_length_eq_zero (by omega)

/-- The parent closes its end after the order to stop. -/
theorem close (link : Link c .stop unsent answer k p) :
    Link c .stop unsent answer { k with parentEnd := false } p := by
  cases link with
  | asked some listening bytes _ => exact .asked some listening bytes fun ne => absurd rfl ne
  | quitting => exact .quitting
  | gone closed part none => exact .gone closed part none

end Link

/-- No step of a worker breaks its link. -/
theorem WorkerStep.link {o : Order} {unsent answer : List UInt8} (valid : ∀ i, o = .fault i → i < c.count)
    (link : Link c o unsent answer (s.socket w) (s.process w)) (step : WorkerStep c s w e t) :
    Link c o unsent answer (t.socket w) (t.process w) := by
  have alive := step.alive
  cases step with
  | @receive got k here pos le available =>
      generalize s.socket w = socket at link available ⊢
      simp only [System.process_setProcess, System.socket_setProcess, System.socket_setSocket]
      rw [here] at link
      cases link with
      | free => exact absurd available (by simp; omega)
      | @asked _ _ inFlight _ _ _ some listening bytes open' =>
          cases listening with
          | receiving =>
              refine .asked some (.receiving _) ?_ open'
              rw [List.append_assoc got, List.take_append_drop, bytes]
      | answered => exact absurd available (by simp; omega)
  | hangup | brokenPipe | finished | killed | crash =>
      rw [System.socket_exit, System.process_exit]
      exact link.exit _
  | @received got here full =>
      rw [here] at link
      generalize same : s.socket w = socket at link
      cases link with
      | free listening =>
          cases listening with
          | receiving => exact absurd full (by decide)
      | @asked _ _ inFlight _ _ _ some listening bytes open' =>
          cases listening with
          | receiving =>
              have length := congrArg List.length bytes
              simp only [List.length_append, length_intBytes] at length
              obtain rfl : inFlight = [] := List.eq_nil_of_length_eq_zero (by omega)
              obtain rfl : unsent = [] := List.eq_nil_of_length_eq_zero (by omega)
              rw [List.append_nil, List.append_nil] at bytes
              rw [bytes, readWord_intBytes]
              cases o with
              | none => exact absurd rfl some
              | fault i =>
                  rw [show (Order.fault i).number = BitVec.ofNat 32 i from rfl,
                    dispatch_fault s w (valid i rfl), System.process_setProcess, System.socket_setProcess,
                    same, open' (by simp)]
                  exact .working rfl
              | stop =>
                  rw [show Order.stop.number = noFault from rfl, dispatch_stop, System.process_setProcess,
                    System.socket_setProcess, same]
                  exact .quitting
      | answered => exact absurd full (by decide)
  | @send i rest k here pos le room open' =>
      generalize s.socket w = socket at link room open' ⊢
      simp only [System.process_setProcess, System.socket_setProcess, System.socket_setSocket]
      rw [here] at link
      cases link with
      | free listening =>
          cases listening with
          | replied => exact absurd le (by simp; omega)
      | asked _ listening =>
          cases listening with
          | replied => exact absurd le (by simp; omega)
      | working bytes =>
          refine .working ?_
          rw [← bytes, List.append_assoc, List.append_assoc, List.take_append_drop, List.append_assoc]
  | @replied i here =>
      rw [here] at link
      generalize same : s.socket w = socket at link
      split
      · rename_i succeeded
        rw [System.process_setProcess, System.socket_setProcess, same]
        cases link with
        | free => exact .free (.receiving [])
        | asked some listening bytes open' =>
            cases listening with
            | replied => exact .asked some (.receiving []) bytes open'
        | working bytes => exact .answered (by rwa [List.append_nil] at bytes) succeeded
      · rw [System.process_exit, System.socket_exit, same]
        exact link.exit _

end Pool

end SafRprGen
