/-
Module: SafRprGen.Analysis.Process
Layer: Analysis
Purpose: A process that analyses one fault after the other (`analysis.c`). Between faults it keeps the
  globals and the statics of XID; `Reached` are the states that any sequence of faults, with any models
  the solver may return, leads to. In each of them a cube of the current fault is sound.
Main exports: Process, Reached, ProcessReady, reached_ready, inlineXID_sound
-/
import SafRprGen.Xid.Xfilling

namespace SafRprGen

open Dimacs Search

/-- What a process keeps between faults, and the fault being analysed with the literals that
`WriteTPGModel` added for it. -/
structure Process where
  globals : Globals
  statics : XidStatics
  target : Option (FNODE × List Int)

namespace Netlist

variable (c : Netlist)

/-- The literal of `AddBlockingClauseFromCube` for one input. -/
def blockingLiteral (cube : CStr) (index : Nat) : Int :=
  match cube[index]? with
  | some '0' => lit true (c.varsgc (c.pi.getD index 0))
  | some '1' => lit false (c.varsgc (c.pi.getD index 0))
  | _ => 0

/-- The clause of `AddBlockingClauseFromCube`. -/
def blockingClause (cube : CStr) : Clause :=
  ((List.range c.nPi).map (c.blockingLiteral cube)).filter (· ≠ 0)

/-- `AddBlockingClauseFromCube`. -/
def addBlockingClauseFromCube (cube : CStr) (g : Globals) : Globals :=
  g.ccadicalAdd (c.blockingClause cube)

/-- A process after `InitGlobalVars`. The scratch of XID comes from `malloc`: the entries of the nets and
the cells of the queues may have any content. -/
def startProcess (info : Nat → XidVarInfo) (cells : XidQueue → Nat → Nat) : Process where
  globals := initGlobalVars
  statics :=
    { sim := ⟨none, fun _ => false, [], [], 0⟩
      xid :=
        { varInfo := fun n => if n < c.nNet then info n else resetInfo false
          queue := fun q => ⟨cells q, 0, 0, 0⟩
          xidLev := .empty
          exited := false } }
  target := none

end Netlist

/-- The states of a process that analyses faults of the circuit. -/
inductive Reached (k : Circuit) : Process → Prop where
  | start (info : Nat → XidVarInfo) (cells : XidQueue → Nat → Nat) :
      Reached k (k.netlist.startProcess info cells)
  /-- A new solver and `WriteTPGModel` for the next fault. -/
  | target {p : Process} {f : FNODE} {g : Globals} (reached : Reached k p)
      (fault : k.netlist.IsFault k.model f)
      (run : k.netlist.writeTPGModel k.model f { p.globals with solver := [] } = some (true, g)) :
      Reached k ⟨g, p.statics, some (f, g.literals)⟩
  /-- The solver returns a model, `InlineXID` a cube, and the cube is blocked. -/
  | cube {p : Process} {f : FNODE} {lits : List Int} {M : Nat → Bool} {cube : CStr} {st : XidStatics}
      (reached : Reached k p) (current : p.target = some (f, lits)) (models : Models M (parse lits))
      (run : k.netlist.inlineXID p.globals f M p.statics = some (some cube, st))
      (running : st.xid.exited = false) :
      Reached k ⟨k.netlist.addBlockingClauseFromCube cube p.globals, st, p.target⟩

/-- What holds of the current fault: the globals describe it, and the literals are its clause set. -/
structure TargetReady (k : Circuit) (g : Globals) (f : FNODE) (lits : List Int) : Prop where
  fault : k.netlist.IsFault k.model f
  built : g.instances ≠ 0
  /-- `totalVars` has grown with the clauses since the searches. -/
  clauses : ∃ total units,
    k.netlist.TpgBase k.model f { g with totalVars := total } ∧
    k.netlist.EssentialUnits k.model f { g with totalVars := total } units ∧
    parse lits = k.netlist.tpgClauses f { g with totalVars := total } units

/-- The invariant of a process. -/
structure ProcessReady (k : Circuit) (p : Process) : Prop where
  idle : p.globals.stack = []
  running : p.globals.exited = false ∧ p.statics.xid.exited = false
  scratch : k.netlist.XidReady p.globals p.statics
  target : ∀ f lits, p.target = some (f, lits) → TargetReady k p.globals f lits

variable {k : Circuit} {p : Process} {f : FNODE}

theorem start_ready (info : Nat → XidVarInfo) (cells : XidQueue → Nat → Nat) :
    ProcessReady k (k.netlist.startProcess info cells) where
  idle := rfl
  running := ⟨rfl, rfl⟩
  scratch := by
    refine ⟨.inl rfl, le_refl _, fun _ nonzero => absurd rfl nonzero, ?_, rfl⟩
    intro n hn
    exact if_neg (Nat.not_lt.mpr hn)
  target := by
    rintro f lits h
    cases h

/-- XID reads the scope and its generation only. -/
theorem Netlist.XidReady.congr {c : Netlist} {g g' : Globals} {st : XidStatics} (ready : c.XidReady g st)
    (instances : g'.instances = g.instances)
    (scope : g'.normalScopeRequiredNet = g.normalScopeRequiredNet) : c.XidReady g' st where
  gates := ready.gates
  generation := instances ▸ ready.generation
  current := by
    rw [instances, scope]
    exact ready.current
  beyond := ready.beyond
  idle := ready.idle

/-- `WriteTPGModel` makes a process ready for the next fault. -/
theorem ProcessReady.write (ready : ProcessReady k p) (fault : k.netlist.IsFault k.model f) :
    ∃ g, k.netlist.writeTPGModel k.model f { p.globals with solver := [] } = some (true, g) ∧
      ProcessReady k ⟨g, p.statics, some (f, g.literals)⟩ := by
  obtain ⟨g₂, g, units, run, base, essential, solver, frame, stack, exited, instances⟩ :=
    Netlist.writeTPGModel_spec k.wellFormed fault (g := { p.globals with solver := [] }) ready.idle
  refine ⟨g, run, stack, ⟨exited.trans ready.running.1, ready.running.2⟩, ?_, ?_⟩
  · obtain ⟨gates, generation, -, beyond, idle⟩ := ready.scratch
    have older : p.statics.sim.scopeGeneration < g.instances := by
      rw [instances]
      exact Nat.lt_succ_of_le generation
    exact ⟨gates, older.le, fun same => absurd same older.ne, beyond, idle⟩
  · rintro f' lits h
    cases h
    have same : { g with totalVars := g₂.totalVars } = { g₂ with
        que := g.que, logicValue := g.logicValue, eaFlag := g.eaFlag
        uniqueFlag := g.uniqueFlag, solver := g.solver } := by
      rw [frame]
    refine ⟨fault, ?_, g₂.totalVars, units, ?_, ?_, ?_⟩
    · rw [instances]
      exact Nat.succ_ne_zero _
    · rw [same]
      exact ⟨base.fp, base.tfo, base.vars, base.tpo, base.count, base.detection, base.needed⟩
    · rw [same]
      exact essential
    · rw [same, Globals.literals, solver, List.nil_append]
      exact parse_stream _ (base.ne_zero k.wellFormed fault essential)

/-- A call of `InlineXID` for a model of the clause set. -/
theorem ProcessReady.call (ready : ProcessReady k p) {lits : List Int}
    (current : p.target = some (f, lits)) {M : Nat → Bool} (models : Models M (parse lits)) :
    ∃ cube st, k.netlist.inlineXID p.globals f M p.statics = some (some cube, st) ∧
      k.netlist.XidReady p.globals st ∧
      k.netlist.XidCube p.globals (fun i => M (k.netlist.varsgc k.netlist.pi[i])) cube ∧
      (st.xid.exited = false →
        ∀ y, k.netlist.CubeAgrees cube y → k.netlist.Detects k.model f y) := by
  obtain ⟨fault, built, total, units, base, essential, readBack⟩ := ready.target f lits current
  rw [readBack] at models
  have agree : k.netlist.Extends M fun i => M (k.netlist.varsgc k.netlist.pi[i]) := fun _ _ => rfl
  have det := base.detects_of_model k.wellFormed fault agree models
  obtain ⟨cube, st, run, scratch, shape, sound⟩ :=
    Netlist.inlineXID_spec k.wellFormed fault base built det agree (ready.scratch.congr rfl rfl)
  exact ⟨cube, st, run, scratch.congr rfl rfl,
    ⟨shape.length, shape.chars, shape.agrees, shape.outside⟩, sound⟩

/-- Blocking a cube changes the clauses of the solver only. -/
theorem ProcessReady.block (ready : ProcessReady k p) (cube : CStr) {st : XidStatics}
    (scratch : k.netlist.XidReady p.globals st) (running : st.xid.exited = false) :
    ProcessReady k ⟨k.netlist.addBlockingClauseFromCube cube p.globals, st, p.target⟩ where
  idle := ready.idle
  running := ⟨ready.running.1, running⟩
  scratch := scratch.congr rfl rfl
  target := by
    intro f lits h
    obtain ⟨fault, built, total, units, base, essential, readBack⟩ := ready.target f lits h
    exact ⟨fault, built, total, units,
      ⟨base.fp, base.tfo, base.vars, base.tpo, base.count, base.detection, base.needed⟩, essential,
      readBack⟩

theorem reached_ready (reached : Reached k p) : ProcessReady k p := by
  induction reached with
  | start info cells => exact start_ready info cells
  | target _ fault run ih =>
      obtain ⟨g, run', ready⟩ := ih.write fault
      rw [run] at run'
      cases run'
      exact ready
  | @cube p f lits M cube st _ current models run running ih =>
      obtain ⟨cube', st', run', scratch, -, -⟩ := ih.call current models
      rw [run] at run'
      cases run'
      exact ih.block cube scratch running

/-- Every fault of the circuit can be the current one, and its detecting assignments extend to models. -/
theorem Reached.exists_model (reached : Reached k p) (fault : k.netlist.IsFault k.model f)
    {x : k.netlist.Assignment} (det : k.netlist.Detects k.model f x) :
    ∃ q lits M, Reached k q ∧ q.target = some (f, lits) ∧ k.netlist.Extends M x ∧
      Models M (parse lits) := by
  obtain ⟨g, run, ready⟩ := (reached_ready reached).write fault
  obtain ⟨-, -, total, units, base, essential, readBack⟩ := ready.target f g.literals rfl
  obtain ⟨M, agree, models⟩ :=
    (Netlist.tpg_models_iff k.wellFormed base fault essential x).mpr det
  exact ⟨_, g.literals, M, reached.target fault run, rfl, agree, readBack ▸ models⟩

/-- Don't-care identification is sound: in every state of a process and for every model of the current
clause set, `InlineXID` returns a cube whose fixed positions are the model's values, and unless a queue
overflowed every assignment that agrees with the cube detects the fault. -/
theorem inlineXID_sound (k : Circuit) (p : Process) (reached : Reached k p) (f : FNODE)
    (lits : List Int) (current : p.target = some (f, lits)) (M : Nat → Bool)
    (models : Models M (parse lits)) :
    ∃ cube st, k.netlist.inlineXID p.globals f M p.statics = some (some cube, st) ∧
      cube.length = k.netlist.nPi ∧
      (∀ i : Fin k.netlist.nPi,
        (cube[(i : Nat)]? = some '0' → M (k.netlist.varsgc k.netlist.pi[i]) = false) ∧
        (cube[(i : Nat)]? = some '1' → M (k.netlist.varsgc k.netlist.pi[i]) = true)) ∧
      (st.xid.exited = false →
        ∀ y, k.netlist.CubeAgrees cube y → k.netlist.Detects k.model f y) := by
  obtain ⟨cube, st, run, -, shape, sound⟩ := (reached_ready reached).call current models
  exact ⟨cube, st, run, shape.length, shape.agrees, sound⟩

theorem inlineXID_sound_and :
    ∃ p lits M, Reached andCircuit p ∧ p.target = some (andFault, lits) ∧ Models M (parse lits) ∧
      ∃ cube st, andCircuit.netlist.inlineXID p.globals andFault M p.statics =
          some (some cube, st) ∧
        cube.length = andCircuit.netlist.nPi ∧
        (∀ i : Fin andCircuit.netlist.nPi,
          (cube[(i : Nat)]? = some '0' →
            M (andCircuit.netlist.varsgc andCircuit.netlist.pi[i]) = false) ∧
          (cube[(i : Nat)]? = some '1' →
            M (andCircuit.netlist.varsgc andCircuit.netlist.pi[i]) = true)) ∧
        (st.xid.exited = false → ∀ y, andCircuit.netlist.CubeAgrees cube y →
          andCircuit.netlist.Detects andCircuit.model andFault y) := by
  have det : andCircuit.netlist.Detects andCircuit.model andFault fun _ => true := by decide
  obtain ⟨p, lits, M, reached, current, -, models⟩ :=
    (Reached.start (fun _ => resetInfo false) fun _ _ => 0).exists_model andFault_isFault det
  exact ⟨p, lits, M, reached, current, models,
    inlineXID_sound andCircuit p reached andFault lits current M models⟩

end SafRprGen
