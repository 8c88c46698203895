/-
Module: SafRprGen.Analysis.Worklists
Layer: Analysis
Purpose: The worklists of `InlineXID` in any process that analyses faults. The loop of `Xfilling` ends
  with nothing waiting and never reads an empty level. A queue holds `n_net` nets, but nothing keeps a net
  from waiting there twice: a queue overflows exactly when a pass begins without room for the nets that it
  has to put there, and in one circuit a pass does.
Main exports: xfilling_worklists, xidQueues_fit, xidQueues_overflow
-/
import SafRprGen.Analysis.Density
import SafRprGen.Xid.Capacity

namespace SafRprGen

open Dimacs

variable {k : Circuit} {p : Process} {f : FNODE}

/-- The loop of `Xfilling` for a model of the current fault: where it starts. -/
theorem ProcessReady.enters (ready : ProcessReady k p) {lits : List Int}
    (current : p.target = some (f, lits)) {M : Nat → Bool} (models : Models M (parse lits)) :
    ∃ start, (∀ st, k.netlist.Enters p.globals f M p.statics st ↔ st = start) ∧
      k.netlist.XfillInv f (fun i => M (k.netlist.varsgc k.netlist.pi[i]))
        p.globals.normalScopeRequiredNet start ∧
      k.netlist.PathInv f [] start ∧ k.netlist.potential start.xid ≤ 8 * k.netlist.nNet ∧
      start.xid.exited = false ∧ f.netptr < k.netlist.nNet ∧
      (∀ n i, p.globals.normalScopeRequiredNet n = true → i ∈ k.netlist.ins n →
        p.globals.normalScopeRequiredNet i = true) ∧
      ∀ r, k.netlist.inlineXID p.globals f M p.statics = some r →
        ∃ popped t, k.netlist.XfillRun p.globals f (fun _ => True) start popped t ∧
          k.netlist.xfillingPass p.globals f (some t) = none ∧ r.2.xid.exited = t.xid.exited := by
  obtain ⟨fault, built, total, units, base, essential, readBack⟩ := ready.target f lits current
  rw [readBack] at models
  have agree : k.netlist.Extends M fun i => M (k.netlist.varsgc k.netlist.pi[i]) := fun _ _ => rfl
  have det := base.detects_of_model k.wellFormed fault agree models
  obtain ⟨r, poId, only, started, hpo, clean, idle, exited⟩ :=
    Netlist.enters_spec k.wellFormed fault base built det agree (ready.scratch.congr rfl rfl)
  refine ⟨_, only, started.inv, Netlist.pathInv_start f clean idle, started.low,
    (Netlist.xfillingStart_exited f poId (Nat.zero_lt_of_lt hpo)).trans (exited.trans ready.running.2),
    fault.netLt,
    fun n i => base.required_ins, ?_⟩
  intro r' call
  obtain ⟨start, popped, t, enters, run, ended, same⟩ :=
    Netlist.inlineXID_exited k.wellFormed fault base built det agree (ready.scratch.congr rfl rfl) call
  obtain rfl := (only start).mp enters
  have pass : k.netlist.xfillingPass p.globals f =
      k.netlist.xfillingPass { p.globals with totalVars := total } f := rfl
  exact ⟨popped, t, run.congr pass, pass ▸ ended, same⟩

/-- The X-filling ends: in every state of a process and for every model of the current clause set the loop
is entered in one state and ends after at most `8 * n_net` passes. In every state of its run no empty level
is read, the cursor is at or above every level in use and only falls, and the fault site leaves the X-path
once at most, with nothing left there to drain. At the end it has left, and nothing waits anywhere. -/
theorem xfilling_worklists (k : Circuit) (p : Process) (reached : Reached k p) (f : FNODE)
    (lits : List Int) (current : p.target = some (f, lits)) (M : Nat → Bool)
    (models : Models M (parse lits)) :
    ∃ start, (∀ st, k.netlist.Enters p.globals f M p.statics st ↔ st = start) ∧
      (∃ t, Loop.whileLoop (k.netlist.xfillingPass p.globals f) (8 * k.netlist.nNet + 1) (some start) =
        some (some t)) ∧
      ∀ popped st, k.netlist.XfillRun p.globals f (fun _ => True) start popped st →
        k.netlist.xfillingPass p.globals f (some st) ≠ some none ∧
        (∀ l, st.xid.xidLev.lev l ≠ [] → l ≤ st.eventLev) ∧
        (∀ st', k.netlist.xfillingPass p.globals f (some st) = some (some st') →
          st'.eventLev ≤ st.eventLev) ∧
        popped.count f.netptr ≤ 1 ∧
        (∀ left, Netlist.poppedXpath st = some (f.netptr, left) → left.total = 0) ∧
        (k.netlist.xfillingPass p.globals f (some st) = none →
          popped.count f.netptr = 1 ∧ (∀ q, (st.xid.queue q).count = 0) ∧ st.xid.xidLev = .empty) := by
  obtain ⟨start, only, inv, path, low, -, hsite, closed, -⟩ := (reached_ready reached).enters current models
  refine ⟨start, only, ?_, ?_⟩
  · obtain ⟨t, -, loop, -⟩ :=
      Netlist.XfillRun.ends k.wellFormed hsite closed inv path (Nat.lt_succ_of_le low)
    exact ⟨t, loop⟩
  · intro popped st run
    obtain ⟨inv, path⟩ := run.spec k.wellFormed hsite closed inv path
    have once := path.once
    refine ⟨?_, fun l used => inv.cursor used, ?_, by omega, ?_, ?_⟩
    · intro null
      rcases Netlist.xfillingPass_spec k.wellFormed hsite closed inv with ⟨st', next, -⟩ | ⟨exit, -⟩
      · rw [null] at next
        cases next
      · rw [null] at exit
        cases exit
    · exact fun st' next => (Netlist.PathInv.pass k.wellFormed hsite inv path next).2
    · intro left taken
      unfold Netlist.poppedXpath at taken
      split at taken
      · cases taken
      · rename_i idle
        push Not at idle
        exact Netlist.site_last k.wellFormed hsite inv path idle.2.2.2 taken
    · intro exit
      rcases Netlist.xfillingPass_spec k.wellFormed hsite closed inv with ⟨st', next, -⟩ | ⟨-, queues, zero⟩
      · rw [next] at exit
        cases exit
      · have none := inv.inv.levels.eq_nil zero
        rw [none, List.count_nil, Nat.add_zero] at once
        exact ⟨once, queues, LevelStack.ext (funext none) zero⟩

theorem xfilling_worklists_and :
    ∃ p lits M, Reached andCircuit p ∧ p.target = some (andFault, lits) ∧ Models M (parse lits) ∧
      ∃ start, andCircuit.netlist.Enters p.globals andFault M p.statics start ∧
        ∃ t, Loop.whileLoop (andCircuit.netlist.xfillingPass p.globals andFault)
          (8 * andCircuit.netlist.nNet + 1) (some start) = some (some t) := by
  have det : andCircuit.netlist.Detects andCircuit.model andFault fun _ => true := by decide
  obtain ⟨p, lits, M, reached, current, -, models⟩ :=
    (Reached.start (fun _ => resetInfo false) fun _ _ => 0).exists_model andFault_isFault det
  obtain ⟨start, only, ends, -⟩ := xfilling_worklists andCircuit p reached andFault lits current M models
  exact ⟨p, lits, M, reached, current, models, start, (only start).mpr rfl, ends⟩

/-! ### The capacity of the queues -/

/-- A queue overflows exactly when a pass begins without room for the nets it puts there. In every state of
a run `enqueue` has found less than `n_net` nets each time if and only if each pass so far began with room;
and `InlineXID` does not end the program if and only if every pass of its run begins with room. The netlists
that are read and ready for the analysis are `Branched`. -/
theorem xidQueues_fit (k : Circuit) (branched : k.netlist.Branched) (p : Process) (reached : Reached k p)
    (f : FNODE) (lits : List Int) (current : p.target = some (f, lits)) (M : Nat → Bool)
    (models : Models M (parse lits)) :
    (∀ start popped st, k.netlist.Enters p.globals f M p.statics start →
      k.netlist.XfillRun p.globals f (fun _ => True) start popped st →
      (st.xid.exited = false ↔
        k.netlist.XfillRun p.globals f (k.netlist.Room p.globals f) start popped st)) ∧
    ∀ r, k.netlist.inlineXID p.globals f M p.statics = some r →
      (r.2.xid.exited = false ↔
        ∀ start popped st, k.netlist.Enters p.globals f M p.statics start →
          k.netlist.XfillRun p.globals f (fun _ => True) start popped st →
          k.netlist.Room p.globals f st) := by
  obtain ⟨start, only, inv, path, -, running, hsite, closed, ends⟩ :=
    (reached_ready reached).enters current models
  constructor
  · intro start' popped st enters run
    obtain rfl := (only start').mp enters
    exact run.fits_iff k.wellFormed hsite closed inv path branched running
  · intro r call
    obtain ⟨popped, t, run, ended, same⟩ := ends r call
    rw [same, run.ended_fits_iff k.wellFormed hsite closed inv path branched running ended]
    constructor
    · intro room start' popped' st enters reached'
      obtain rfl := (only start').mp enters
      exact room popped' st reached'
    · exact fun room popped' st reached' => room start popped' st ((only start).mpr rfl) reached'

/-- With an AND gate every pass has room; in the circuit with 43 nets some pass has not. -/
theorem xidQueues_fit_and :
    (∃ p lits M start, Reached andCircuit p ∧ p.target = some (andFault, lits) ∧ Models M (parse lits) ∧
      andCircuit.netlist.Enters p.globals andFault M p.statics start ∧
      ∀ popped st, andCircuit.netlist.XfillRun p.globals andFault (fun _ => True) start popped st →
        andCircuit.netlist.Room p.globals andFault st) ∧
    ∃ p lits M start, Reached overflowCircuit p ∧ p.target = some (overflowFault, lits) ∧
      Models M (parse lits) ∧ overflowNetlist.Enters p.globals overflowFault M p.statics start ∧
      ∃ popped st, overflowNetlist.XfillRun p.globals overflowFault (fun _ => True) start popped st ∧
        ¬ overflowNetlist.Room p.globals overflowFault st := by
  constructor
  · have det : andCircuit.netlist.Detects andCircuit.model andFault fun _ => true := by decide
    have fits : andCircuit.netlist.xidOverflows andCircuit.model andFault (fun _ => true) = false := by
      decide +kernel
    obtain ⟨p, lits, M, reached, current, agree, models⟩ :=
      (Reached.start (fun _ => resetInfo false) fun _ _ => 0).exists_model andFault_isFault det
    have ready := reached_ready reached
    obtain ⟨cube, st, call, -⟩ := ready.call current models
    obtain ⟨start, only, -⟩ := ready.enters current models
    have room := (xidQueues_fit andCircuit ⟨by decide, by decide⟩ p reached andFault lits current M
      models).2 _ call
    rw [exited_eq_overflows ready current agree call, fits] at room
    have enters := (only start).mpr rfl
    exact ⟨p, lits, M, start, reached, current, models, enters, fun popped st =>
      room.mp rfl start popped st enters⟩
  · have fault : overflowNetlist.IsFault .SAF overflowFault := ⟨by decide, fun _ => rfl, fun h => by cases h⟩
    have det : overflowNetlist.Detects .SAF overflowFault fun _ => false := by decide +kernel
    obtain ⟨p, lits, M, reached, current, agree, models⟩ := (Reached.start (k := overflowCircuit)
      (fun _ => resetInfo false) fun _ _ => 0).exists_model fault det
    have ready := reached_ready reached
    obtain ⟨cube, st, call, -⟩ := ready.call current models
    obtain ⟨start, only, -⟩ := ready.enters current models
    have branched : overflowNetlist.Branched := ⟨by decide +kernel, by decide +kernel⟩
    have room := (xidQueues_fit overflowCircuit branched p reached overflowFault lits current M
      models).2 _ call
    rw [exited_eq_overflows ready current agree call] at room
    have enters := (only start).mpr rfl
    refine ⟨p, lits, M, start, reached, current, models, enters, ?_⟩
    by_contra full
    push Not at full
    have fits := room.mpr fun start' popped st enters' run => by
      obtain rfl := (only start').mp enters'
      exact full popped st run
    exact Bool.false_ne_true (fits.symm.trans overflowFault_overflows)

/-- In the circuit with 43 nets a run puts 44 of them on the forward queue. -/
theorem xidQueues_overflow :
    ¬ ∀ (k : Circuit) (p : Process), Reached k p → ∀ (f : FNODE) (lits : List Int),
      p.target = some (f, lits) → ∀ M : Nat → Bool, Models M (parse lits) →
        ∀ start popped st, k.netlist.Enters p.globals f M p.statics start →
          k.netlist.XfillRun p.globals f (fun _ => True) start popped st → st.xid.exited = false := by
  intro fits
  have fault : overflowNetlist.IsFault .SAF overflowFault := ⟨by decide, fun _ => rfl, fun h => by cases h⟩
  have det : overflowNetlist.Detects .SAF overflowFault fun _ => false := by decide +kernel
  obtain ⟨p, lits, M, reached, current, agree, models⟩ := (Reached.start (k := overflowCircuit)
    (fun _ => resetInfo false) fun _ _ => 0).exists_model fault det
  have ready := reached_ready reached
  obtain ⟨cube, st, call, -⟩ := ready.call current models
  obtain ⟨start, only, -, -, -, -, -, -, ends⟩ := ready.enters current models
  obtain ⟨popped, t, run, -, same⟩ := ends _ call
  have overflows := (exited_eq_overflows ready current agree call).trans overflowFault_overflows
  rw [same, fits overflowCircuit p reached overflowFault lits current M models start popped t
    ((only start).mpr rfl) run] at overflows
  cases overflows

end SafRprGen
