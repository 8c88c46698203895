/-
Module: SafRprGen.Analysis.Serial
Layer: Analysis
Purpose: One process that analyses all targets, one after the other, and keeps its globals between them
  (`AnalyzeSerialFault` and the serial loop of `AnalyzeIndependentFaults`). What `AnalyzeOneFault` reports
  does not depend on the state it starts from, so the loop reports for each target what a new process would.
Main exports: analyzeFault, analyzeFault_reached, analyzeOneFault_history, analyzeSerial, analyzeSerial_spec,
  analyzeSerial_alone
-/
import SafRprGen.Analysis.Density

namespace SafRprGen

open Dimacs

/-- How the loop over the targets ends. -/
inductive RunEnd where
  | done
  | failed
  | exited
deriving DecidableEq, Repr

namespace Circuit

variable (k : Circuit) (gbm : Cudd k.netlist.nPi) (limit : Int)

/-- `AnalyzeOneFault` with the process it leaves. -/
def analyzeFault (solver : CCaDiCaL) (f : FNODE) (p : Process) (fuel : Nat) :
    Option (FaultOutcome × Process) :=
  match k.netlist.writeTPGModel k.model f { p.globals with solver := [] } with
  | none => some (.exited, p)
  | some (false, g) => some (.failed, ⟨g, p.statics, some (f, g.literals)⟩)
  | some (true, g) =>
      (Loop.whileLoop (analyzePass k gbm solver limit f) fuel ⟨g, p.statics, [], none⟩).bind fun s =>
        s.outcome.map fun outcome => (outcome, ⟨s.globals, s.statics, some (f, g.literals)⟩)

/-- The loop of `AnalyzeIndependentFaults` without workers: the results up to the first target without
one, each with its target. Every fault has a solver of its own. -/
def analyzeSerial (solver : FNODE → CCaDiCaL) (fuel : Nat) :
    List FNODE → Process → Option (List (FNODE × FaultResult) × RunEnd)
  | [], _ => some ([], .done)
  | f :: rest, p =>
      (k.analyzeFault gbm limit (solver f) f p fuel).bind fun (outcome, q) =>
        match outcome with
        | .reported result =>
            (analyzeSerial solver fuel rest q).map fun (results, last) => ((f, result) :: results, last)
        | .failed => some ([], .failed)
        | .exited => some ([], .exited)

end Circuit

section Serial

variable {k : Circuit} {gbm : Cudd k.netlist.nPi} {limit : Int} {solver : CCaDiCaL} {f : FNODE}
    {p q : Process}

theorem analyzeFault_outcome (fuel : Nat) :
    (k.analyzeFault gbm limit solver f p fuel).map (·.1) = k.analyzeOneFault gbm solver limit f p fuel := by
  unfold Circuit.analyzeFault Circuit.analyzeOneFault
  cases k.netlist.writeTPGModel k.model f { p.globals with solver := [] } with
  | none => rfl
  | some written =>
      obtain ⟨okay, g⟩ := written
      cases okay with
      | false => rfl
      | true =>
          dsimp only
          rw [Option.map_bind]
          congr 1
          funext s
          rw [Function.comp_apply, Option.map_map]
          exact Option.map_id'

theorem analyzeFault_mono {fuel : Nat} {result : FaultOutcome × Process}
    (run : k.analyzeFault gbm limit solver f p fuel = some result) (more : Nat) :
    k.analyzeFault gbm limit solver f p (fuel + more) = some result := by
  unfold Circuit.analyzeFault at run ⊢
  cases written : k.netlist.writeTPGModel k.model f { p.globals with solver := [] } with
  | none =>
      rw [written] at run
      exact run
  | some w =>
      obtain ⟨okay, g⟩ := w
      rw [written] at run
      cases okay with
      | false => exact run
      | true =>
          obtain ⟨s, loop, outcome⟩ := Option.bind_eq_some_iff.mp run
          exact Option.bind_eq_some_iff.mpr ⟨s, Loop.whileLoop_mono fuel loop more, outcome⟩

/-! ### One pass -/

/-- The limit is reached. -/
def LimitHit (limit : Int) (s : EnumState) : Prop := 0 < limit ∧ limit ≤ s.cubes.length

theorem limitHit_iff {s : EnumState} :
    (!decide (limit ≤ 0) && decide (limit ≤ s.cubes.length)) = true ↔ LimitHit limit s := by
  rw [Bool.and_eq_true, Bool.not_eq_true', decide_eq_false_iff_not, decide_eq_true_eq, not_le]
  rfl

/-- What a pass does: it ends the loop with a report, ends it without one, or blocks one more cube, which
`InlineXID` made of a model of all clauses. -/
theorem analyzePass_cases {s s' : EnumState} (running : s.outcome = none)
    (pass : k.analyzePass gbm solver limit f s = some s') :
    (solver.solve s.cubes.length (parse s.globals.literals) = none ∧
      s' = { s with outcome := some (k.emitFaultResult gbm s.cubes false) }) ∨
    ((solver.solve s.cubes.length (parse s.globals.literals)).isSome = true ∧ LimitHit limit s ∧
      s' = { s with outcome := some (k.emitFaultResult gbm s.cubes true) }) ∨
    s'.outcome = some .failed ∨ s'.outcome = some .exited ∨
    ∃ M cube st, solver.solve s.cubes.length (parse s.globals.literals) = some M ∧ ¬ LimitHit limit s ∧
      k.netlist.inlineXID s.globals f M s.statics = some (some cube, st) ∧ st.xid.exited = false ∧
      s' = ⟨k.netlist.addBlockingClauseFromCube cube s.globals, st, s.cubes ++ [cube], none⟩ := by
  unfold Circuit.analyzePass at pass
  rw [running] at pass
  simp only [Option.isSome_none, Bool.false_eq_true, if_false] at pass
  cases status : solver.solve s.cubes.length (parse s.globals.literals) with
  | none =>
      rw [status] at pass
      cases pass
      exact .inl ⟨rfl, rfl⟩
  | some M =>
      rw [status] at pass
      dsimp only at pass
      split at pass
      · rename_i hit
        cases pass
        exact .inr (.inl ⟨rfl, limitHit_iff.mp hit, rfl⟩)
      · rename_i below
        cases xid : k.netlist.inlineXID s.globals f M s.statics with
        | none =>
            rw [xid] at pass
            cases pass
            exact .inr (.inr (.inr (.inl rfl)))
        | some r =>
            obtain ⟨pattern, st⟩ := r
            rw [xid] at pass
            cases pattern with
            | none =>
                cases pass
                exact .inr (.inr (.inl rfl))
            | some cube =>
                dsimp only at pass
                split at pass
                · cases pass
                  exact .inr (.inr (.inr (.inl rfl)))
                · rename_i stays
                  cases pass
                  exact .inr (.inr
                    (.inr (.inr ⟨M, cube, st, rfl, fun hit => below (limitHit_iff.mpr hit), xid,
                    Bool.not_eq_true _ ▸ stays, rfl⟩)))

/-- A model of all clauses is one of those of the fault. -/
theorem EnumInv.base_models {base : List Clause} {s : EnumState} (inv : EnumInv k limit f base s)
    (clauses : FaultClauses k f base) {M : Nat → Bool} (models : Models M (parse s.globals.literals)) :
    Models M (parse (stream base)) := by
  rw [inv.parse_literals clauses, models_append] at models
  rw [parse_stream _ clauses.ne_zero]
  exact models.1

/-- The process of a state of the loop. -/
def EnumState.process (s : EnumState) (f : FNODE) (base : List Clause) : Process :=
  ⟨s.globals, s.statics, some (f, stream base)⟩

/-- The states of the loop that a process goes through. -/
structure Enumerating (k : Circuit) (limit : Int) (f : FNODE) (base : List Clause)
    (s : EnumState) : Prop where
  inv : EnumInv k limit f base s
  reached : Reached k (s.process f base)

/-- A pass that does not end the loop leaves another such state, and one that reports changes nothing
else. -/
theorem Enumerating.pass {base : List Clause} {s s' : EnumState} (on : Enumerating k limit f base s)
    (clauses : FaultClauses k f base) (pass : k.analyzePass gbm solver limit f s = some s') :
    (s'.outcome = none → Enumerating k limit f base s') ∧
      ∀ r, s'.outcome = some (.reported r) → Reached k (s'.process f base) := by
  rcases analyzePass_cases on.inv.running pass with ⟨-, rfl⟩ | ⟨-, -, rfl⟩ | failed | exited |
      ⟨M, cube, st, status, -, xid, stays, rfl⟩
  · exact ⟨fun running => (by cases running), fun _ _ => on.reached⟩
  · exact ⟨fun running => (by cases running), fun _ _ => on.reached⟩
  · rw [failed]
    exact ⟨fun h => (by cases h), fun _ h => by cases h⟩
  · rw [exited]
    exact ⟨fun h => (by cases h), fun _ h => by cases h⟩
  · have models := on.inv.base_models clauses (solver.sound _ _ _ status)
    have next := Reached.cube on.reached rfl models xid stays
    refine ⟨fun running => ⟨?_, next⟩, fun r reported => ?_⟩
    · obtain ⟨s'', pass', step⟩ := on.inv.pass gbm solver clauses
      rw [pass] at pass'
      cases pass'
      rcases step with ⟨outcome, ended, -⟩ | ⟨inv, -⟩
      · rw [running] at ended
        cases ended
      · exact inv
    · cases reported

/-- The state in which the loop is entered. -/
theorem start_enumerating (limit : Int) (reached : Reached k p) (fault : k.netlist.IsFault k.model f) :
    ∃ g base, k.netlist.writeTPGModel k.model f { p.globals with solver := [] } = some (true, g) ∧
      g.literals = stream base ∧ FaultClauses k f base ∧
      Enumerating k limit f base ⟨g, p.statics, [], none⟩ := by
  obtain ⟨g, base, run, inv, clauses⟩ := start_inv limit reached fault
  have solver : g.solver = base := by
    have same := inv.solver
    rwa [List.map_nil, List.append_nil] at same
  have literals : g.literals = stream base := by rw [Globals.literals, solver]
  refine ⟨g, base, run, literals, clauses, inv, ?_⟩
  rw [EnumState.process, ← literals]
  exact .target reached fault run

/-- A process that has reported a fault can go on with the next one. -/
theorem analyzeFault_reached (reached : Reached k p) (fault : k.netlist.IsFault k.model f) {fuel : Nat}
    {result : FaultResult} (run : k.analyzeFault gbm limit solver f p fuel = some (.reported result, q)) :
    Reached k q := by
  obtain ⟨g, base, written, literals, clauses, on⟩ := start_enumerating limit reached fault
  unfold Circuit.analyzeFault at run
  rw [written] at run
  dsimp only at run
  obtain ⟨s, loop, ended⟩ := Option.bind_eq_some_iff.mp run
  obtain ⟨final, -⟩ := Loop.whileLoop_inv
    (fun s => (s.outcome = none → Enumerating k limit f base s) ∧
      ∀ r, s.outcome = some (.reported r) → Reached k (s.process f base))
    (fun s s' before pass => by
      cases running : s.outcome with
      | none => exact (before.1 running).pass clauses pass
      | some outcome =>
          unfold Circuit.analyzePass at pass
          rw [running] at pass
          cases pass)
    fuel ⟨g, p.statics, [], none⟩ s ⟨fun _ => on, fun _ reported => by cases reported⟩ loop
  obtain ⟨outcome, reported, same⟩ := Option.map_eq_some_iff.mp ended
  rw [Prod.mk.injEq] at same
  obtain ⟨rfl, rfl⟩ := same
  rw [literals]
  exact final.2 result reported

/-! ### History -/

/-- Two runs of the loop with the same cubes that have ended alike or are both in states of processes. -/
def Alike (k : Circuit) (limit : Int) (f : FNODE) (base : List Clause) (s t : EnumState) : Prop :=
  s.cubes = t.cubes ∧ s.outcome = t.outcome ∧
    (s.outcome = none → Enumerating k limit f base s ∧ Enumerating k limit f base t)

/-- A pass keeps two runs alike: the solver gets the same clauses, and `InlineXID` makes the same cube of
the model it returns. -/
theorem Alike.pass {base : List Clause} {s t : EnumState} (alike : Alike k limit f base s t)
    (gbm : Cudd k.netlist.nPi) (solver : CCaDiCaL) (clauses : FaultClauses k f base) :
    Option.Rel (Alike k limit f base) (k.analyzePass gbm solver limit f s)
      (k.analyzePass gbm solver limit f t) := by
  obtain ⟨cubes, outcome, on⟩ := alike
  cases running : s.outcome with
  | some ended =>
      have running' : t.outcome = some ended := outcome ▸ running
      unfold Circuit.analyzePass
      rw [running, running']
      exact .none
  | none =>
      have running' : t.outcome = none := outcome ▸ running
      obtain ⟨onS, onT⟩ := on running
      have sent : t.globals.literals = s.globals.literals := by
        unfold Globals.literals
        rw [onT.inv.solver, onS.inv.solver, cubes]
      obtain ⟨s', passS, -⟩ := onS.inv.pass gbm solver clauses
      obtain ⟨t', passT, -⟩ := onT.inv.pass gbm solver clauses
      have nextS := (onS.pass clauses passS).1
      have nextT := (onT.pass clauses passT).1
      suffices same : s'.cubes = t'.cubes ∧ s'.outcome = t'.outcome by
        rw [passS, passT]
        exact .some ⟨same.1, same.2, fun h => ⟨nextS h, nextT (same.2 ▸ h)⟩⟩
      unfold Circuit.analyzePass at passS passT
      rw [running] at passS
      rw [running', ← cubes, sent] at passT
      simp only [Option.isSome_none, Bool.false_eq_true, if_false] at passS passT
      cases status : solver.solve s.cubes.length (parse s.globals.literals) with
      | none =>
          rw [status] at passS passT
          cases passS
          cases passT
          exact ⟨rfl, rfl⟩
      | some M =>
          rw [status] at passS passT
          dsimp only at passS passT
          split at passS
          · rename_i hit
            rw [if_pos hit] at passT
            cases passS
            cases passT
            exact ⟨rfl, rfl⟩
          · rename_i below
            rw [if_neg below] at passT
            have models := onS.inv.base_models clauses (solver.sound _ _ _ status)
            obtain ⟨cube, st, st', xidS, xidT, exited⟩ :=
              inlineXID_processes onS.reached onT.reached rfl rfl models
            rw [show k.netlist.inlineXID s.globals f M s.statics = _ from xidS] at passS
            rw [show k.netlist.inlineXID t.globals f M t.statics = _ from xidT] at passT
            dsimp only at passS passT
            rw [exited] at passT
            split at passS
            · rename_i overflow
              rw [if_pos overflow] at passT
              cases passS
              cases passT
              exact ⟨rfl, rfl⟩
            · rename_i stays
              rw [if_neg stays] at passT
              cases passS
              cases passT
              exact ⟨rfl, rfl⟩

/-- `AnalyzeOneFault` reports the same from every state of every process. -/
theorem analyzeOneFault_history (reached : Reached k p) (reached' : Reached k q)
    (fault : k.netlist.IsFault k.model f) (fuel : Nat) :
    k.analyzeOneFault gbm solver limit f p fuel = k.analyzeOneFault gbm solver limit f q fuel := by
  obtain ⟨g, base, written, literals, clauses, on⟩ := start_enumerating limit reached fault
  obtain ⟨g', base', written', literals', clauses', on'⟩ := start_enumerating limit reached' fault
  have sent : g'.literals = g.literals :=
    write_alike fault (reached_ready reached).idle (reached_ready reached').idle written written'
  have bases : base' = base := by
    rw [← parse_stream base clauses.ne_zero, ← parse_stream base' clauses'.ne_zero, ← literals,
      ← literals', sent]
  subst bases
  have start : Alike k limit f base' ⟨g, p.statics, [], none⟩ ⟨g', q.statics, [], none⟩ :=
    ⟨rfl, rfl, fun _ => ⟨on, on'⟩⟩
  have both := Loop.whileLoop_lockstep (Alike k limit f base')
    (fun s t alike => alike.pass gbm solver clauses) fuel _ _ start
  unfold Circuit.analyzeOneFault
  rw [written, written']
  dsimp only
  generalize Loop.whileLoop (k.analyzePass gbm solver limit f) fuel ⟨g, p.statics, [], none⟩ = s at both ⊢
  generalize Loop.whileLoop (k.analyzePass gbm solver limit f) fuel ⟨g', q.statics, [], none⟩ = t at both ⊢
  cases both with
  | none => rfl
  | some alike => exact alike.2.1

/-! ### The serial loop -/

/-- A target that is analysed in a reached state is reported rightly, or its analysis ends the program. -/
theorem analyzeFault_ends (gbm : Cudd k.netlist.nPi) (solver : CCaDiCaL) (limit : Int)
    (reached : Reached k p) (fault : k.netlist.IsFault k.model f) :
    ∃ fuel outcome q, k.analyzeFault gbm limit solver f p fuel = some (outcome, q) ∧
      Ended k limit f outcome := by
  obtain ⟨fuel, outcome, run, ended⟩ := analyzeOneFault_ends gbm solver limit reached fault
  rw [← analyzeFault_outcome] at run
  obtain ⟨⟨outcome', q⟩, run', rfl⟩ := Option.map_eq_some_iff.mp run
  exact ⟨fuel, outcome', q, run', ended⟩

/-- Whatever is reported is right. -/
theorem analyzeFault_correct (reached : Reached k p) (fault : k.netlist.IsFault k.model f) {fuel : Nat}
    {r : FaultResult} (run : k.analyzeFault gbm limit solver f p fuel = some (.reported r, q)) :
    k.ResultCorrect limit f r := by
  obtain ⟨fuel', outcome, q', run', ended⟩ := analyzeFault_ends gbm solver limit reached fault
  have more := analyzeFault_mono run fuel'
  rw [Nat.add_comm fuel fuel', analyzeFault_mono run' fuel] at more
  cases more
  rcases ended with ⟨r', same, right⟩ | ⟨exited, -⟩
  · cases same
    exact right
  · cases exited

variable {solvers : FNODE → CCaDiCaL}

theorem analyzeSerial_mono {fuel : Nat} {targets : List FNODE} :
    ∀ {p : Process} {result : List (FNODE × FaultResult) × RunEnd},
      k.analyzeSerial gbm limit solvers fuel targets p = some result →
        ∀ more, k.analyzeSerial gbm limit solvers (fuel + more) targets p = some result := by
  induction targets with
  | nil => exact fun run _ => run
  | cons f rest ih =>
      intro p result run more
      obtain ⟨⟨outcome, q⟩, one, next⟩ := Option.bind_eq_some_iff.mp run
      refine Option.bind_eq_some_iff.mpr ⟨_, analyzeFault_mono one more, ?_⟩
      cases outcome with
      | reported r =>
          obtain ⟨later, rest, rfl⟩ := Option.map_eq_some_iff.mp next
          exact Option.map_eq_some_iff.mpr ⟨later, ih rest more, rfl⟩
      | failed => exact next
      | exited => exact next

/-- The serial loop ends. Its results are those of the first targets, in their order, and each is right;
a target without a result overflows a queue of the X-filling with one of its detecting assignments. -/
theorem analyzeSerial_spec (k : Circuit) (gbm : Cudd k.netlist.nPi) (limit : Int)
    (solvers : FNODE → CCaDiCaL) (targets : List FNODE) :
    ∀ (_ : ∀ f ∈ targets, k.netlist.IsFault k.model f) (p : Process) (_ : Reached k p),
    ∃ fuel results last, k.analyzeSerial gbm limit solvers fuel targets p = some (results, last) ∧
      (∀ e ∈ results, k.ResultCorrect limit e.1 e.2) ∧
      ((last = .done ∧ results.map (·.1) = targets) ∨
        (last = .exited ∧ ∃ f rest, targets = results.map (·.1) ++ f :: rest ∧
          ∃ x, k.netlist.Detects k.model f x ∧ k.netlist.xidOverflows k.model f x = true)) := by
  induction targets with
  | nil => exact fun _ p _ => ⟨0, [], .done, rfl, fun _ mem => (by cases mem), .inl ⟨rfl, rfl⟩⟩
  | cons f rest ih =>
      intro faults p reached
      obtain ⟨fault, faults⟩ := List.forall_mem_cons.mp faults
      obtain ⟨fuel, outcome, q, run, ⟨r, rfl, right⟩ | ⟨rfl, overflow⟩⟩ :=
        analyzeFault_ends gbm (solvers f) limit reached fault
      · obtain ⟨fuel', results, last, run', all, ended⟩ :=
          ih faults q (analyzeFault_reached reached fault run)
        refine ⟨fuel + fuel', (f, r) :: results, last, ?_, List.forall_mem_cons.mpr ⟨right, all⟩, ?_⟩
        · refine Option.bind_eq_some_iff.mpr ⟨_, analyzeFault_mono run fuel', ?_⟩
          have later := analyzeSerial_mono run' fuel
          rw [Nat.add_comm fuel' fuel] at later
          exact Option.map_eq_some_iff.mpr ⟨_, later, rfl⟩
        · rcases ended with ⟨rfl, whole⟩ | ⟨rfl, f', rest', split, overflow⟩
          · exact .inl ⟨rfl, by rw [List.map_cons, whole]⟩
          · exact .inr ⟨rfl, f', rest', by rw [List.map_cons, List.cons_append, ← split], overflow⟩
      · refine ⟨fuel, [], .exited, ?_, fun _ mem => (by cases mem), .inr ⟨rfl, f, rest, rfl, overflow⟩⟩
        exact Option.bind_eq_some_iff.mpr ⟨_, run, rfl⟩

/-- Every result of the serial loop is one of `AnalyzeOneFault` in a state that the loop reaches. -/
theorem mem_analyzeSerial {fuel : Nat} {targets : List FNODE} :
    ∀ {p : Process}, Reached k p → (∀ f ∈ targets, k.netlist.IsFault k.model f) →
      ∀ {results : List (FNODE × FaultResult)} {last : RunEnd},
        k.analyzeSerial gbm limit solvers fuel targets p = some (results, last) →
          ∀ e ∈ results, k.netlist.IsFault k.model e.1 ∧ ∃ p' q', Reached k p' ∧
            k.analyzeFault gbm limit (solvers e.1) e.1 p' fuel = some (.reported e.2, q') := by
  induction targets with
  | nil =>
      intro p _ _ results last run e mem
      cases run
      cases mem
  | cons f rest ih =>
      intro p reached faults results last run e mem
      obtain ⟨fault, faults⟩ := List.forall_mem_cons.mp faults
      obtain ⟨⟨outcome, p'⟩, one, next⟩ := Option.bind_eq_some_iff.mp run
      cases outcome with
      | reported r =>
          obtain ⟨⟨later, last'⟩, more, same⟩ := Option.map_eq_some_iff.mp next
          rw [Prod.mk.injEq] at same
          obtain ⟨rfl, rfl⟩ := same
          rcases List.mem_cons.mp mem with rfl | mem
          · exact ⟨fault, p, p', reached, one⟩
          · exact ih (analyzeFault_reached reached fault one) faults more e mem
      | failed =>
          cases next
          cases mem
      | exited =>
          cases next
          cases mem

/-- The results of the serial loop are those of the first targets, in their order: of all of them, or of
those before the target whose X-filling ends the program. Each target has the result that it has alone, in
any state of any process. -/
theorem analyzeSerial_alone {fuel : Nat} {targets : List FNODE} {p : Process} (reached : Reached k p)
    (faults : ∀ f ∈ targets, k.netlist.IsFault k.model f) {results : List (FNODE × FaultResult)}
    {last : RunEnd} (run : k.analyzeSerial gbm limit solvers fuel targets p = some (results, last)) :
    ((last = .done ∧ results.map (·.1) = targets) ∨
      (last = .exited ∧ ∃ f rest, targets = results.map (·.1) ++ f :: rest ∧
        ∃ x, k.netlist.Detects k.model f x ∧ k.netlist.xidOverflows k.model f x = true)) ∧
    ∀ e ∈ results, ∀ q, Reached k q →
      k.analyzeOneFault gbm (solvers e.1) limit e.1 q fuel = some (.reported e.2) := by
  constructor
  · obtain ⟨fuel', results', last', run', -, ended⟩ :=
      analyzeSerial_spec k gbm limit solvers targets faults p reached
    have same := analyzeSerial_mono run' fuel
    rw [Nat.add_comm, analyzeSerial_mono run fuel', Option.some.injEq, Prod.mk.injEq] at same
    obtain ⟨rfl, rfl⟩ := same
    exact ended
  · intro e mem q reached'
    obtain ⟨fault, p', q', reachedAt, one⟩ := mem_analyzeSerial reached faults run e mem
    rw [analyzeOneFault_history reached' reachedAt fault, ← analyzeFault_outcome, one]
    rfl

theorem analyzeSerial_alone_and : ∃ fuel r r₁, andCircuit.analyzeSerial (.functions andCircuit.netlist.nPi) 0
      (fun _ => .preferring fun _ => true) fuel [andFault, andFault₁]
      (andCircuit.netlist.startProcess (fun _ => resetInfo false) fun _ _ => 0) =
        some ([(andFault, r), (andFault₁, r₁)], .done) ∧
    ∀ q, Reached andCircuit q →
      andCircuit.analyzeOneFault (.functions andCircuit.netlist.nPi)
        (.preferring fun _ => true) 0 andFault q fuel =
        some (.reported r) ∧
      andCircuit.analyzeOneFault (.functions andCircuit.netlist.nPi)
        (.preferring fun _ => true) 0 andFault₁ q fuel =
        some (.reported r₁) := by
  have fits : ∀ f ∈ [andFault, andFault₁], ∀ x,
      andCircuit.netlist.xidOverflows andCircuit.model f x = false := by decide +kernel
  have faults : ∀ f ∈ [andFault, andFault₁], andCircuit.netlist.IsFault andCircuit.model f :=
    List.forall_mem_cons.mpr ⟨andFault_isFault, List.forall_mem_singleton.mpr andFault₁_isFault⟩
  have start : Reached andCircuit (andCircuit.netlist.startProcess (fun _ => resetInfo false)
      fun _ _ => 0) :=
    .start _ _
  obtain ⟨fuel, results, last, run, -⟩ := analyzeSerial_spec andCircuit (.functions _) 0
    (fun _ => .preferring fun _ => true) [andFault, andFault₁] faults _ start
  obtain ⟨⟨rfl, whole⟩ | ⟨-, f, rest, split, x, -, overflow⟩, alone⟩ := analyzeSerial_alone start faults run
  · obtain ⟨⟨f, r⟩, later, rfl, rfl, second⟩ := List.map_eq_cons_iff.mp whole
    obtain ⟨⟨f₁, r₁⟩, rfl, rfl⟩ := List.map_eq_singleton_iff.mp second
    exact ⟨fuel, r, r₁, run, fun q reached => ⟨alone _ List.mem_cons_self q reached,
      alone _ (List.mem_cons_of_mem _ List.mem_cons_self) q reached⟩⟩
  · rw [fits f (split ▸ List.mem_append_right _ List.mem_cons_self)] at overflow
    cases overflow

end Serial

end SafRprGen
