/-
Module: SafRprGen.Analysis.Simulation
Layer: Analysis
Purpose: The two semantics of the circuit agree. For a model of the clauses of a fault, in any state of a
  process, the compiled simulation gives the values of the good-circuit variables and the event-driven
  fault simulation those of the faulty-circuit variables.
Main exports: xidFsim_agrees
-/
import SafRprGen.Analysis.Process

namespace SafRprGen

open Dimacs

/-- For every model of the current clause set: the simulations end without an error exit or a read past the
level stacks, every net of the scope has the value of its good-circuit variable, every net of the fanout in
the detection cone that of its faulty-circuit variable, and `detect_po` lists the observed nets of the
fanout whose values differ, each once. So it is not empty, and `InlineXID` returns a cube. -/
theorem xidFsim_agrees (k : Circuit) (p : Process) (reached : Reached k p) (f : FNODE)
    (lits : List Int) (current : p.target = some (f, lits)) (M : Nat → Bool)
    (models : Models M (parse lits)) :
    ∃ st r, k.netlist.normalScopeModelValues p.globals M p.statics = st ∧
      st.xid.exited = false ∧
      k.netlist.xidFsim p.globals f.netptr st.xid = some (some r) ∧
      (∀ n < k.netlist.nNet, k.netlist.level n ≤ k.netlist.xidMaxLevel) ∧
      (∀ n < k.netlist.nNet, p.globals.normalScopeRequiredNet n = true →
        r.xid.value2 n .normal = M (k.netlist.varsgc n)) ∧
      (∀ n < k.netlist.nNet, p.globals.tfo n = true → p.globals.normalScopeInDetectionCone n = true →
        r.xid.inVal n = M (p.globals.varsfc n)) ∧
      (∀ o, o ∈ r.detectPo ↔
        p.globals.tpo o = true ∧ r.xid.value2 o .normal ≠ r.xid.inVal o) ∧
      r.detectPo.Nodup ∧ r.detectPo ≠ [] ∧
      ∃ cube st', k.netlist.inlineXID p.globals f M p.statics = some (some cube, st') := by
  have ready := reached_ready reached
  have wf := k.wellFormed
  obtain ⟨fault, built, total, units, base, essential, readBack⟩ := ready.target f lits current
  obtain ⟨cube, st', xid, -, -, -⟩ := ready.call current models
  rw [readBack] at models
  have agree : k.netlist.Extends M fun i => M (k.netlist.varsgc k.netlist.pi[i]) := fun _ _ => rfl
  have det := base.detects_of_model wf fault agree models
  obtain ⟨-, -, good, faulty⟩ := base.values_of_model wf fault agree models
  -- the site and an observed net differ, and both are in the scope
  obtain ⟨o, ho, differs, -⟩ := wf.detects_end fault det
  have ho' := wf.observedLt o ho
  have tpo : p.globals.tpo o = true := by
    apply (base.tpo o).mpr
    refine ⟨ho, (base.tfo o).mpr ?_⟩
    by_contra out
    exact differs (wf.good_eq_faulty o ho' out)
  obtain ⟨atSite, chain⟩ := wf.dchain o ho' differs
  have scopeSite : p.globals.normalScopeRequiredNet f.netptr = true :=
    base.required_of_detection (Netlist.OnChain.inCone wf base fault.netLt ⟨atSite, o, tpo, chain⟩)
  have closed : ∀ n i, p.globals.normalScopeRequiredNet n = true → i ∈ k.netlist.ins n →
      p.globals.normalScopeRequiredNet i = true := fun n i => base.required_ins
  obtain ⟨st, values, ready₁, info, -, exited, -⟩ :=
    Netlist.normalScopeModelValues_spec wf closed agree built ready.scratch
  obtain ⟨r, fsim, sim⟩ :=
    Netlist.xidFsim_spec wf closed fault.netLt scopeSite atSite info ready₁.idle
  have observed : ∀ {o}, p.globals.tpo o = true → o < k.netlist.nNet ∧
      p.globals.normalScopeRequiredNet o = true := by
    intro o tpo
    exact ⟨wf.observedLt o ((base.tpo o).mp tpo).1, (base.needed o).mpr (.root (.inl tpo))⟩
  have listed : ∀ o, o ∈ r.detectPo ↔
      p.globals.tpo o = true ∧ r.xid.value2 o .normal ≠ r.xid.inVal o := by
    intro o
    constructor
    · intro mem
      obtain ⟨tpo, differs⟩ := sim.sound o mem
      obtain ⟨lt, required⟩ := observed tpo
      rw [sim.normal o lt required, sim.inVal o lt required]
      exact ⟨tpo, differs⟩
    · rintro ⟨tpo, differs⟩
      obtain ⟨lt, required⟩ := observed tpo
      rw [sim.normal o lt required, sim.inVal o lt required] at differs
      exact sim.complete o lt required tpo differs
  refine ⟨st, r, values, exited.trans ready.running.2, fsim,
    fun n hn => k.netlist.level_le_xidMaxLevel hn, ?_, ?_, listed, sim.nodup, ?_, cube, st', xid⟩
  · intro n hn required
    rw [sim.normal n hn required, good n hn required]
  · intro n hn _ inCone
    rw [sim.inVal n hn (base.required_of_detection inCone)]
    exact (faulty n hn inCone).symm
  · exact List.ne_nil_of_mem (sim.complete o ho' (observed tpo).2 tpo differs)

theorem xidFsim_agrees_and :
    ∃ p lits M, Reached andCircuit p ∧ p.target = some (andFault, lits) ∧ Models M (parse lits) ∧
      ∃ st r, andNetlist.normalScopeModelValues p.globals M p.statics = st ∧
        andNetlist.xidFsim p.globals andFault.netptr st.xid = some (some r) ∧
        r.detectPo.Nodup ∧ r.detectPo ≠ [] := by
  have det : andCircuit.netlist.Detects andCircuit.model andFault fun _ => true := by decide
  obtain ⟨p, lits, M, reached, current, -, models⟩ :=
    (Reached.start (fun _ => resetInfo false) fun _ _ => 0).exists_model andFault_isFault det
  obtain ⟨st, r, values, -, fsim, -, -, -, -, nodup, some, -⟩ :=
    xidFsim_agrees andCircuit p reached andFault lits current M models
  exact ⟨p, lits, M, reached, current, models, st, r, values, fsim, nodup, some⟩

end SafRprGen
