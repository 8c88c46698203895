/-
Module: SafRprGen.Analysis.History
Layer: Analysis
Purpose: The analysis of a fault does not depend on the faults analysed before it in the process. Any
  two states of any two processes agree on the literals of the next fault, and while they analyse the
  same fault they agree on the cube of every model.
Main exports: analysis_history_independent
-/
import SafRprGen.Analysis.Process
import SafRprGen.Fdp.History
import SafRprGen.Xid.History

namespace SafRprGen

open Dimacs

variable {k : Circuit} {p q : Process} {f : FNODE}

/-- The literals of the current fault were sent by a run of `WriteTPGModel` on a new solver. -/
theorem Reached.written (reached : Reached k p) {lits : List Int}
    (current : p.target = some (f, lits)) :
    ∃ g g' : Globals, g.stack = [] ∧ k.netlist.IsFault k.model f ∧
      k.netlist.writeTPGModel k.model f { g with solver := [] } = some (true, g') ∧
      lits = g'.literals := by
  induction reached with
  | start info cells => cases current
  | @target p f' g' before fault run _ =>
      cases current
      exact ⟨p.globals, g', (reached_ready before).idle, fault, run, rfl⟩
  | cube _ _ _ _ _ ih => exact ih current

/-- Two runs of `WriteTPGModel` from states of processes send the same literals. -/
theorem write_alike (fault : k.netlist.IsFault k.model f) {g g' h h' : Globals} (idle : g.stack = [])
    (idle' : g'.stack = [])
    (run : k.netlist.writeTPGModel k.model f { g with solver := [] } = some (true, h))
    (run' : k.netlist.writeTPGModel k.model f { g' with solver := [] } = some (true, h')) :
    h'.literals = h.literals := by
  unfold Globals.literals
  have start : ({ g with solver := [] } : Globals).stack = [] := idle
  have start' : ({ g' with solver := [] } : Globals).stack = [] := idle'
  rw [Netlist.writeTPGModel_alike k.wellFormed fault start start' rfl run run']

/-- What `InlineXID` returns, and whether it ends the program, is determined by the fault and by the
values of the inputs. -/
theorem inlineXID_determined {c : Netlist} {m : FaultModel} (wf : c.WellFormed m)
    (fault : c.IsFault m f) {g g' : Globals} (total total' : Nat)
    (base : c.TpgBase m f { g with totalVars := total })
    (base' : c.TpgBase m f { g' with totalVars := total' }) (built : g.instances ≠ 0)
    (built' : g'.instances ≠ 0) {st st' : XidStatics} (ready : c.XidReady g st)
    (ready' : c.XidReady g' st') (running : st.xid.exited = false) (running' : st'.xid.exited = false)
    {x : c.Assignment} {M M' : Nat → Bool} (agree : c.Extends M x) (agree' : c.Extends M' x) :
    Option.Rel (fun r r' => r'.1 = r.1 ∧ r'.2.xid.exited = r.2.xid.exited)
      (c.inlineXID g f M st) (c.inlineXID g' f M' st') := by
  obtain ⟨-, -, tpo, scope, -⟩ := base.determined base'
  have scope : g'.normalScopeRequiredNet = g.normalScopeRequiredNet := scope
  have closed : ∀ n i, g.normalScopeRequiredNet n = true → i ∈ c.ins n →
      g.normalScopeRequiredNet i = true := fun n i => base.required_ins
  obtain ⟨_, rfl, clean, info, -, exited, -⟩ :=
    Netlist.normalScopeModelValues_spec wf closed agree built ready
  rw [← scope] at closed
  obtain ⟨_, rfl, clean', info', -, exited', -⟩ :=
    Netlist.normalScopeModelValues_spec wf closed agree' built' ready'
  apply Netlist.inlineXID_alike scope tpo (Nat.zero_lt_of_lt fault.netLt)
  refine ⟨?_, ?_, ?_⟩
  · rw [info, info']
    funext n
    rw [Netlist.scopeInfo, Netlist.scopeInfo, scope]
  · rw [clean.idle, clean'.idle]
  · rw [exited, exited', running, running']

/-- Two processes with the same target and clauses make the same cube of a model. -/
theorem inlineXID_processes (reached : Reached k p) (reached' : Reached k q) {lits lits' : List Int}
    (current : p.target = some (f, lits)) (current' : q.target = some (f, lits')) {M : Nat → Bool}
    (models : Models M (parse lits)) :
    ∃ cube st st', k.netlist.inlineXID p.globals f M p.statics = some (some cube, st) ∧
      k.netlist.inlineXID q.globals f M q.statics = some (some cube, st') ∧
      st'.xid.exited = st.xid.exited := by
  have ready := reached_ready reached
  have ready' := reached_ready reached'
  obtain ⟨fault, built, total, units, base, -, -⟩ := ready.target f _ current
  obtain ⟨-, built', total', units', base', -, -⟩ := ready'.target f _ current'
  have agree : k.netlist.Extends M fun i => M (k.netlist.varsgc k.netlist.pi[i]) := fun _ _ => rfl
  obtain ⟨cube, st, xid, -, -, -⟩ := ready.call current models
  have both := inlineXID_determined k.wellFormed fault _ _ base base' built built' ready.scratch
    ready'.scratch ready.running.2 ready'.running.2 agree agree
  rw [xid] at both
  generalize k.netlist.inlineXID q.globals f M q.statics = r' at both ⊢
  cases both with
  | @some _ r' related =>
      obtain ⟨pattern, st'⟩ := r'
      obtain ⟨rfl, exited⟩ := related
      exact ⟨cube, st, st', xid, rfl, exited⟩

/-- History independence: whatever two processes analysed before, they send the same literals for the
next fault, and while they analyse the same fault `InlineXID` gives the same cube for every model. One
of the two may be a new process that analyses the fault first. -/
theorem analysis_history_independent (k : Circuit) (p q : Process) (reached : Reached k p)
    (reached' : Reached k q) (f : FNODE) :
    (k.netlist.IsFault k.model f →
      ∃ g g', k.netlist.writeTPGModel k.model f { p.globals with solver := [] } = some (true, g) ∧
        k.netlist.writeTPGModel k.model f { q.globals with solver := [] } = some (true, g') ∧
        g'.literals = g.literals) ∧
    ∀ lits lits', p.target = some (f, lits) → q.target = some (f, lits') →
      lits' = lits ∧
      ∀ M, Models M (parse lits) →
        ∃ cube st st', k.netlist.inlineXID p.globals f M p.statics = some (some cube, st) ∧
          k.netlist.inlineXID q.globals f M q.statics = some (some cube, st') ∧
          st'.xid.exited = st.xid.exited := by
  have ready := reached_ready reached
  have ready' := reached_ready reached'
  constructor
  · intro fault
    obtain ⟨g, run, -⟩ := ready.write fault
    obtain ⟨g', run', -⟩ := ready'.write fault
    exact ⟨g, g', run, run', write_alike fault ready.idle ready'.idle run run'⟩
  · intro lits lits' current current'
    obtain ⟨g, h, idle, fault, run, rfl⟩ := reached.written current
    obtain ⟨g', h', idle', -, run', rfl⟩ := reached'.written current'
    have same := write_alike fault idle idle' run run'
    exact ⟨same, fun M models => inlineXID_processes reached reached' current current' models⟩

theorem analysis_history_independent_and :
    ∃ p q lits M, Reached andCircuit p ∧ Reached andCircuit q ∧
      p.target = some (andFault, lits) ∧ q.target = some (andFault, lits) ∧ Models M (parse lits) ∧
      ∃ cube st st', andCircuit.netlist.inlineXID p.globals andFault M p.statics =
          some (some cube, st) ∧
        andCircuit.netlist.inlineXID q.globals andFault M q.statics = some (some cube, st') ∧
        st'.xid.exited = st.xid.exited := by
  -- one process starts with the fault, the other analyses the opposite fault first
  let other : FNODE := { andFault with type := .SF1 }
  have isFault : andCircuit.netlist.IsFault andCircuit.model other :=
    ⟨andFault_isFault.netLt, andFault_isFault.saf, andFault_isFault.tdf⟩
  have det : andCircuit.netlist.Detects andCircuit.model andFault fun _ => true := by decide
  have detOther : andCircuit.netlist.Detects andCircuit.model other fun _ => false := by decide
  have fresh : Reached andCircuit (andCircuit.netlist.startProcess (fun _ => resetInfo false)
      fun _ _ => 0) :=
    .start _ _
  obtain ⟨p, lits, M, reached, current, -, models⟩ := fresh.exists_model andFault_isFault det
  obtain ⟨o, -, -, reachedO, -, -, -⟩ := fresh.exists_model isFault detOther
  obtain ⟨q, lits', -, reached', current', -, -⟩ := reachedO.exists_model andFault_isFault det
  obtain ⟨same, cubes⟩ :=
    (analysis_history_independent andCircuit p q reached reached' andFault).2 lits lits' current current'
  exact ⟨p, q, lits, M, reached, reached', current, same ▸ current', models, cubes M models⟩

end SafRprGen
