/-
Module: SafRprGen.Analysis.Limit
Layer: Analysis
Purpose: The same fault under two limits. The loop of `AnalyzeOneFault` looks at the limit only after the
  solver has answered, so that a lower limit cuts the list of cubes off and changes nothing before the cut.
Main exports: Cut, limit_cuts
-/
import Mathlib.Algebra.Order.Field.Basic
import Mathlib.Tactic.Positivity
import SafRprGen.Analysis.Serial

namespace SafRprGen

open Dimacs

section Limit

variable {k : Circuit} {gbm : Cudd k.netlist.nPi} {solver : CCaDiCaL} {f : FNODE} {limit limit' : Int}

/-- The result `r'` is the result `r` with the cubes beyond the limit left out. -/
structure Cut (limit : Int) (r r' : FaultResult) : Prop where
  cubes : r'.cubes = r.cubes.take limit.toNat
  complete : r'.complete = true ↔ r.complete = true ∧ (r.cubes.length : Int) ≤ limit

theorem analyzePass_unsat {s : EnumState} (running : s.outcome = none)
    (unsat : solver.solve s.cubes.length (parse s.globals.literals) = none) :
    k.analyzePass gbm solver limit f s =
      some { s with outcome := some (k.emitFaultResult gbm s.cubes false) } := by
  unfold Circuit.analyzePass
  rw [running, unsat]
  rfl

theorem analyzePass_limit {s : EnumState} (running : s.outcome = none)
    (sat : (solver.solve s.cubes.length (parse s.globals.literals)).isSome = true) (hit : LimitHit limit s) :
    k.analyzePass gbm solver limit f s =
      some { s with outcome := some (k.emitFaultResult gbm s.cubes true) } := by
  obtain ⟨M, status⟩ := Option.isSome_iff_exists.mp sat
  unfold Circuit.analyzePass
  rw [running, status]
  exact if_pos (limitHit_iff.mpr hit)

theorem analyzePass_cube {s : EnumState} (running : s.outcome = none) {M : Nat → Bool} {cube : CStr}
    {st : XidStatics} (status : solver.solve s.cubes.length (parse s.globals.literals) = some M)
    (below : ¬ LimitHit limit s) (xid : k.netlist.inlineXID s.globals f M s.statics = some (some cube, st))
    (stays : st.xid.exited = false) : k.analyzePass gbm solver limit f s =
      some ⟨k.netlist.addBlockingClauseFromCube cube s.globals, st, s.cubes ++ [cube], none⟩ := by
  unfold Circuit.analyzePass
  rw [running, status]
  dsimp only
  rw [if_neg (fun h => below (limitHit_iff.mp h)), xid]
  dsimp only
  rw [stays]
  rfl

/-- A loop that has ended stays as it is. -/
theorem whileLoop_ended {s t : EnumState} {outcome : FaultOutcome} (ended : s.outcome = some outcome)
    {fuel : Nat}
    (run : Loop.whileLoop (k.analyzePass gbm solver limit f) fuel s = some t) : t = s ∧ 0 < fuel := by
  cases fuel with
  | zero => cases run
  | succ fuel =>
      have exit : k.analyzePass gbm solver limit f s = none := by
        unfold Circuit.analyzePass
        rw [ended]
        rfl
      rw [Loop.whileLoop_exit exit] at run
      cases run
      exact ⟨rfl, Nat.succ_pos fuel⟩

theorem whileLoop_ends {s : EnumState} {outcome : FaultOutcome} (ended : s.outcome = some outcome)
    {fuel : Nat}
    (pos : 0 < fuel) : Loop.whileLoop (k.analyzePass gbm solver limit f) fuel s = some s := by
  obtain ⟨fuel, rfl⟩ := Nat.exists_eq_succ_of_ne_zero pos.ne'
  refine Loop.whileLoop_exit ?_ fuel
  unfold Circuit.analyzePass
  rw [ended]
  rfl

/-- The report on the cubes so far. -/
theorem EnumInv.emit {base : List Clause} {s : EnumState} (inv : EnumInv k limit f base s)
    (gbm : Cudd k.netlist.nPi) (limitHit : Bool) :
    ∃ density, k.emitFaultResult gbm s.cubes limitHit =
      .reported ⟨s.cubes, s.cubes.length, !limitHit, density⟩ := by
  refine ⟨((k.netlist.covered s.cubes).card : ℚ) / 2 ^ k.netlist.nPi, ?_⟩
  unfold Circuit.emitFaultResult
  rw [Netlist.runBDD_eq gbm inv.text]

/-- A loop that reports goes on from the cubes it has. -/
theorem Enumerating.extends {base : List Clause} (clauses : FaultClauses k f base) {fuel : Nat} :
    ∀ {s t : EnumState} {r : FaultResult}, Enumerating k limit f base s →
      Loop.whileLoop (k.analyzePass gbm solver limit f) fuel s = some t → t.outcome = some (.reported r) →
        s.cubes <+: r.cubes ∧ 0 < fuel := by
  induction fuel with
  | zero =>
      intro s t r _ run
      cases run
  | succ fuel ih =>
      intro s t r on run reported
      refine ⟨?_, Nat.succ_pos fuel⟩
      obtain ⟨s', pass, -⟩ := on.inv.pass gbm solver clauses
      rw [Loop.whileLoop_pass pass] at run
      have emits : ∀ limitHit, t = { s with outcome := some (k.emitFaultResult gbm s.cubes limitHit) } →
          s.cubes <+: r.cubes := by
        rintro limitHit rfl
        obtain ⟨density, emitted⟩ := on.inv.emit gbm limitHit
        rw [emitted] at reported
        cases reported
        exact List.prefix_rfl
      rcases analyzePass_cases on.inv.running pass with ⟨-, rfl⟩ | ⟨-, -, rfl⟩ | failed | exited |
          ⟨M, cube, st, -, -, -, -, rfl⟩
      · exact emits false (whileLoop_ended rfl run).1
      · exact emits true (whileLoop_ended rfl run).1
      · rw [(whileLoop_ended failed run).1, failed] at reported
        cases reported
      · rw [(whileLoop_ended exited run).1, exited] at reported
        cases reported
      · exact (List.prefix_append _ _).trans (ih ((on.pass clauses pass).1 rfl) run reported).1

/-- From a state within the lower limit, what the loop reports under that limit is what it reports under
the higher one, cut off. -/
theorem limited_loop {base : List Clause} (clauses : FaultClauses k f base) (positive : 0 < limit)
    (lower : limit' ≤ 0 ∨ limit ≤ limit') (fuel : Nat) :
    ∀ {s t : EnumState} {r : FaultResult}, Enumerating k limit' f base s → (s.cubes.length : Int) ≤ limit →
      Loop.whileLoop (k.analyzePass gbm solver limit' f) fuel s = some t → t.outcome = some (.reported r) →
        s.cubes <+: r.cubes ∧ ∃ t' r', Loop.whileLoop (k.analyzePass gbm solver limit f) fuel s = some t' ∧
          t'.outcome = some (.reported r') ∧ Cut limit r r' := by
  induction fuel with
  | zero =>
      intro s t r _ _ run
      cases run
  | succ fuel ih =>
      intro s t r on within run reported
      have running := on.inv.running
      obtain ⟨s', pass, -⟩ := on.inv.pass gbm solver clauses
      rw [Loop.whileLoop_pass pass] at run
      rcases analyzePass_cases running pass with ⟨unsat, rfl⟩ | ⟨sat, hit, rfl⟩ | failed | exited |
          ⟨M, cube, st, status, below, xid, stays, rfl⟩
      · -- no model is left: both report all cubes
        obtain ⟨rfl, pos⟩ := whileLoop_ended rfl run
        obtain ⟨density, emitted⟩ := on.inv.emit gbm false
        rw [emitted] at reported
        cases reported
        refine ⟨List.prefix_rfl, { s with outcome := some (k.emitFaultResult gbm s.cubes false) }, _, ?_,
          congrArg some emitted, ?_, ?_⟩
        · rw [Loop.whileLoop_pass (analyzePass_unsat running unsat)]
          exact whileLoop_ends rfl pos
        · exact (List.take_of_length_le (show s.cubes.length ≤ limit.toNat by omega)).symm
        · exact ⟨fun h => ⟨h, within⟩, fun h => h.1⟩
      · -- both limits are reached, so they are the same
        have same : (s.cubes.length : Int) = limit := by
          obtain ⟨pos, le⟩ := hit
          omega
        have here : LimitHit limit s := ⟨positive, by omega⟩
        obtain ⟨rfl, pos⟩ := whileLoop_ended rfl run
        obtain ⟨density, emitted⟩ := on.inv.emit gbm true
        rw [emitted] at reported
        cases reported
        refine ⟨List.prefix_rfl, { s with outcome := some (k.emitFaultResult gbm s.cubes true) }, _, ?_,
          congrArg some emitted, ?_, ?_⟩
        · rw [Loop.whileLoop_pass (analyzePass_limit running sat here)]
          exact whileLoop_ends rfl pos
        · exact (List.take_of_length_le (show s.cubes.length ≤ limit.toNat by omega)).symm
        · exact ⟨fun h => (by cases h), fun h => by cases h.1⟩
      · obtain ⟨rfl, -⟩ := whileLoop_ended failed run
        rw [failed] at reported
        cases reported
      · obtain ⟨rfl, -⟩ := whileLoop_ended exited run
        rw [exited] at reported
        cases reported
      · have next := (on.pass clauses pass).1 rfl
        by_cases here : LimitHit limit s
        · -- the lower limit is reached: one more cube follows under the higher one
          have same : (s.cubes.length : Int) = limit := le_antisymm within here.2
          obtain ⟨density, emitted⟩ := on.inv.emit gbm true
          obtain ⟨more, pos⟩ := next.extends clauses run reported
          obtain ⟨rest, whole⟩ := more
          refine ⟨(List.prefix_append _ _).trans ⟨rest, whole⟩,
            { s with outcome := some (k.emitFaultResult gbm s.cubes true) }, _, ?_,
            congrArg some emitted, ?_, ?_⟩
          · rw [Loop.whileLoop_pass
              (analyzePass_limit running (Option.isSome_iff_exists.mpr ⟨M, status⟩) here)]
            exact whileLoop_ends rfl pos
          · dsimp only
            rw [← whole, List.append_assoc, ← same, Int.toNat_natCast, List.take_left]
          · refine ⟨fun h => (by cases h), fun h => ?_⟩
            have length := h.2
            rw [← whole] at length
            simp only [List.length_append, List.length_singleton] at length
            omega
        · have more : ((s.cubes ++ [cube]).length : Int) ≤ limit := by
            have below : ¬ limit ≤ s.cubes.length := fun le => here ⟨positive, le⟩
            rw [List.length_append, List.length_singleton]
            push_cast
            omega
          obtain ⟨longer, t', r', run', reported', cut⟩ := ih next more run reported
          refine ⟨(List.prefix_append _ _).trans longer, t', r', ?_, reported', cut⟩
          rw [Loop.whileLoop_pass (analyzePass_cube running status here xid stays)]
          exact run'

/-- A lower `-limit` cuts the cubes off: what is reported under the higher limit, or without one, begins
with the cubes reported under the lower one, whose density is no greater. It is reported as complete
exactly when nothing was cut off a complete result. -/
theorem limit_cuts (k : Circuit) (gbm : Cudd k.netlist.nPi) (solver : CCaDiCaL) (p : Process)
    (reached : Reached k p) (f : FNODE) (fault : k.netlist.IsFault k.model f) (limit limit' : Int)
    (positive : 0 < limit) (lower : limit' ≤ 0 ∨ limit ≤ limit') (fuel : Nat) (r : FaultResult)
    (run : k.analyzeOneFault gbm solver limit' f p fuel = some (.reported r)) :
    ∃ r', k.analyzeOneFault gbm solver limit f p fuel = some (.reported r') ∧ Cut limit r r' ∧
      r'.density ≤ r.density := by
  obtain ⟨g, base, written, -, clauses, on⟩ := start_enumerating limit' reached fault
  have cutRun : ∃ r', k.analyzeOneFault gbm solver limit f p fuel = some (.reported r') ∧
      Cut limit r r' := by
    unfold Circuit.analyzeOneFault at run ⊢
    rw [written] at run ⊢
    dsimp only at run ⊢
    obtain ⟨t, loop, reported⟩ := Option.bind_eq_some_iff.mp run
    have empty : (([] : List CStr).length : Int) ≤ limit := positive.le
    obtain ⟨-, t', r', loop', reported', cut⟩ :=
      limited_loop clauses positive lower fuel on empty loop reported
    exact ⟨r', Option.bind_eq_some_iff.mpr ⟨t', loop', reported'⟩, cut⟩
  obtain ⟨r', run', cut⟩ := cutRun
  refine ⟨r', run', cut, ?_⟩
  have right : ∀ {limit r}, k.analyzeOneFault gbm solver limit f p fuel = some (.reported r) →
      k.ResultCorrect limit f r := by
    intro limit r run
    rw [← analyzeFault_outcome] at run
    obtain ⟨⟨outcome, q⟩, run, rfl⟩ := Option.map_eq_some_iff.mp run
    exact analyzeFault_correct reached fault run
  rw [(right run).density, (right run').density, cut.cubes]
  have sub : k.netlist.covered (r.cubes.take limit.toNat) ⊆ k.netlist.covered r.cubes := by
    intro y mem
    obtain ⟨cube, isCube, agrees⟩ := Netlist.mem_covered.mp mem
    exact Netlist.mem_covered.mpr ⟨cube, List.mem_of_mem_take isCube, agrees⟩
  exact div_le_div_of_nonneg_right (Nat.cast_le.mpr (Finset.card_le_card sub)) (by positivity)

/-- No cube alone covers the three assignments that detect the stuck-at-1 fault of an AND gate. -/
theorem two_cubes {cubes : List CStr}
    (whole : andCircuit.netlist.covered cubes = andCircuit.detecting andFault₁) : 2 ≤ cubes.length := by
  have mem : ∀ y, andCircuit.netlist.Detects .SAF andFault₁ y ↔
      ∃ cube ∈ cubes, andCircuit.netlist.CubeAgrees cube y := by
    intro y
    rw [← Netlist.mem_covered, whole, Circuit.detecting, Finset.mem_filter,
      and_iff_right (Finset.mem_univ y)]
    rfl
  obtain ⟨cube, isCube, left⟩ := (mem fun i => decide (i.val = 0)).mp (by decide)
  obtain ⟨cube', isCube', right⟩ := (mem fun i => decide (i.val = 1)).mp (by decide)
  rcases cubes with _ | ⟨first, _ | ⟨second, rest⟩⟩
  · cases isCube
  · obtain rfl := List.mem_singleton.mp isCube
    obtain rfl := List.mem_singleton.mp isCube'
    -- the cube fixes no input to 0, so it covers the assignment that does not detect
    have both : andCircuit.netlist.CubeAgrees cube' fun _ => true := by
      intro i
      refine ⟨fun zero => ?_, fun _ => rfl⟩
      have notLeft := (left i).1 zero
      have notRight := (right i).1 zero
      have low : i.val < 2 := i.isLt
      simp only [decide_eq_false_iff_not] at notLeft notRight
      omega
    exact absurd ((mem _).mpr ⟨cube', isCube, both⟩) (by decide)
  · simp only [List.length_cons]
    omega

theorem limit_cuts_and : ∃ fuel r, andCircuit.analyzeOneFault (.functions andCircuit.netlist.nPi)
      (.preferring fun _ => true) 0 andFault₁ (andCircuit.netlist.startProcess (fun _ => resetInfo false)
        fun _ _ => 0)
      fuel = some (.reported r) ∧ 2 ≤ r.cubes.length ∧
    ∃ r', andCircuit.analyzeOneFault (.functions andCircuit.netlist.nPi)
      (.preferring fun _ => true) 1 andFault₁
        (andCircuit.netlist.startProcess (fun _ => resetInfo false) fun _ _ => 0) fuel =
          some (.reported r') ∧
      Cut 1 r r' ∧ r'.density ≤ r.density := by
  have fits : ∀ x, andCircuit.netlist.xidOverflows andCircuit.model andFault₁ x = false := by
    decide +kernel
  obtain ⟨fuel, outcome, run, ⟨r, rfl, right⟩ | ⟨-, x, -, overflow⟩⟩ :=
    analyzeOneFault_ends (.functions andCircuit.netlist.nPi) (.preferring fun _ => true) 0
      (.start (fun _ => resetInfo false) fun _ _ => 0) andFault₁_isFault
  · refine ⟨fuel, r, run, two_cubes ?_, limit_cuts andCircuit (.functions _) (.preferring fun _ => true) _
      (.start _ _) andFault₁ andFault₁_isFault 1 0 (by decide) (.inl le_rfl) fuel r run⟩
    have density := right.density.symm.trans (right.unlimited le_rfl)
    rw [div_left_inj' (by positivity), Nat.cast_inj] at density
    exact Finset.eq_of_subset_of_card_le right.sound density.ge
  · rw [fits x] at overflow
    cases overflow

end Limit

end SafRprGen
