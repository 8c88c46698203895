/-
Module: SafRprGen.Analysis.Density
Layer: Analysis
Purpose: The loop of `AnalyzeOneFault` (`analysis.c`): solve, fill, block, until the solver finds no
  further model or the limit is reached, then report the density of the cubes. The solver is any sound
  and complete one. The report is right whenever no queue of the X-filling overflows; an overflow ends
  the program, and the model that causes it may be the first one.
Main exports: CCaDiCaL, analyzeOneFault, ResultCorrect, xidOverflows, analyzeOneFault_iff
-/
import SafRprGen.Analysis.History
import SafRprGen.Analysis.Probability

namespace SafRprGen

open Dimacs

/-- The solver: on the clauses it was given it answers with a model, or there is none. The first argument
is the number of models it has returned before, so that it may answer the calls in any way. -/
structure CCaDiCaL where
  solve : Nat → List Clause → Option (Nat → Bool)
  sound : ∀ i cls M, solve i cls = some M → Models M cls
  complete : ∀ i cls, solve i cls = none → ¬ ∃ M, Models M cls

/-- `FaultResult`, with the cubes that `WriteFaultCubes` writes. -/
structure FaultResult where
  cubes : List CStr
  cubeCnt : Nat
  complete : Bool
  density : ℚ

/-- How the analysis of a fault ends: with a result, with `return false`, or with the end of the program. -/
inductive FaultOutcome where
  | reported (result : FaultResult)
  | failed
  | exited

/-- The variables of the loop; `outcome` is set by its `break`. -/
structure EnumState where
  globals : Globals
  statics : XidStatics
  cubes : List CStr
  outcome : Option FaultOutcome

namespace Circuit

variable (k : Circuit) (gbm : Cudd k.netlist.nPi) (solver : CCaDiCaL) (limit : Int)

/-- `EmitFaultResult`. -/
def emitFaultResult (cubes : List CStr) (limitHit : Bool) : FaultOutcome :=
  match gbm.runBDD cubes with
  | none => .exited
  | some density => .reported ⟨cubes, cubes.length, !limitHit, density⟩

/-- One pass of the loop. The solver is called before the limit is looked at. -/
def analyzePass (f : FNODE) (s : EnumState) : Option EnumState :=
  if s.outcome.isSome then none
  else
    let status := solver.solve s.cubes.length (parse s.globals.literals)
    let unlimited := decide (limit ≤ 0)
    match status with
    | none => some { s with outcome := some (emitFaultResult k gbm s.cubes false) }
    | some M =>
        if !unlimited && decide (limit ≤ s.cubes.length) then
          some { s with outcome := some (emitFaultResult k gbm s.cubes true) }
        else
          match k.netlist.inlineXID s.globals f M s.statics with
          | none => some { s with outcome := some .exited }
          | some (none, st) => some { s with statics := st, outcome := some .failed }
          | some (some pattern, st) =>
              if st.xid.exited then some { s with statics := st, outcome := some .exited }
              else
                some { s with
                  globals := k.netlist.addBlockingClauseFromCube pattern s.globals
                  statics := st
                  cubes := s.cubes ++ [pattern] }

/-- `AnalyzeOneFault` in a process; `none` when the fuel runs out. -/
def analyzeOneFault (f : FNODE) (p : Process) (fuel : Nat) : Option FaultOutcome :=
  match k.netlist.writeTPGModel k.model f { p.globals with solver := [] } with
  | none => some .exited
  | some (false, _) => some .failed
  | some (true, g) =>
      (Loop.whileLoop (analyzePass k gbm solver limit f) fuel ⟨g, p.statics, [], none⟩).bind (·.outcome)

/-- The assignments that detect the fault. -/
def detecting (f : FNODE) : Finset k.netlist.Assignment :=
  Finset.univ.filter fun y => k.netlist.Detects k.model f y

/-- What the report says: the density of the union of the cubes, that they detect, that the limit is
kept, and whether they are all. -/
structure ResultCorrect (f : FNODE) (r : FaultResult) : Prop where
  cubeCnt : r.cubeCnt = r.cubes.length
  density : r.density = ((k.netlist.covered r.cubes).card : ℚ) / 2 ^ k.netlist.nPi
  sound : k.netlist.covered r.cubes ⊆ detecting k f
  limited : 0 < limit → (r.cubes.length : Int) ≤ limit
  complete : r.complete = true ↔ k.netlist.covered r.cubes = detecting k f
  unlimited : limit ≤ 0 → r.density = ((detecting k f).card : ℚ) / 2 ^ k.netlist.nPi

end Circuit

namespace Netlist

variable (c : Netlist)

/-- A model of the input variables. -/
def inputVals (x : c.Assignment) (v : Nat) : Bool :=
  if h : v - 1 < c.nPi then x ⟨v - 1, h⟩ else false

/-- Filling in the don't-cares of an assignment that detects the fault puts more nets on a queue than
the netlist has: `enqueue` ends the program. -/
def xidOverflows (m : FaultModel) (f : FNODE) (x : c.Assignment) : Bool :=
  match (c.searchTFO f { initGlobalVars with totalVars := c.constVars }).bind
      (c.normalScopeBuild m f) with
  | none => false
  | some g =>
      match c.inlineXID g f (c.inputVals x)
          (c.startProcess (fun _ => resetInfo false) fun _ _ => 0).statics with
      | none => false
      | some (_, st) => st.xid.exited

variable {c} {m : FaultModel} {f : FNODE}

theorem inputVals_extends (wf : c.WellFormed m) (x : c.Assignment) : c.Extends (c.inputVals x) x := by
  intro i hi
  unfold inputVals
  rw [wf.varsgc_pi hi]
  simp [hi]

theorem blockingLiteral_holds (wf : c.WellFormed m) (cube : CStr) {M : Nat → Bool} {x : c.Assignment}
    (agree : c.Extends M x) {i : Nat} (hi : i < c.nPi) :
    (c.blockingLiteral cube i ≠ 0 ∧ LitHolds M (c.blockingLiteral cube i)) ↔
      (cube[i]? = some '0' ∧ x ⟨i, hi⟩ = true) ∨ (cube[i]? = some '1' ∧ x ⟨i, hi⟩ = false) := by
  have pos : 0 < c.varsgc c.pi[i] := by
    rw [wf.varsgc_pi hi]
    exact Nat.succ_pos i
  have read : c.pi.getD i 0 = c.pi[i] := List.getD_eq_getElem _ _ hi
  unfold blockingLiteral
  split
  · rename_i char
    rw [read, litHolds_lit pos, agree i hi, char]
    simp [lit_ne_zero pos]
  · rename_i char
    rw [read, litHolds_lit pos, agree i hi, char]
    simp [lit_ne_zero pos]
  · rename_i not0 not1
    simpa using ⟨fun char => (not0 char).elim, fun char => (not1 char).elim⟩

/-- A cube is blocked: the models of its clause disagree with it. -/
theorem blockingClause_holds (wf : c.WellFormed m) (cube : CStr) {M : Nat → Bool} {x : c.Assignment}
    (agree : c.Extends M x) :
    (c.blockingClause cube).Holds M ↔ ¬ c.CubeAgrees cube x := by
  have literal : (c.blockingClause cube).Holds M ↔
      ∃ i, ∃ hi : i < c.nPi, (cube[i]? = some '0' ∧ x ⟨i, hi⟩ = true) ∨
        (cube[i]? = some '1' ∧ x ⟨i, hi⟩ = false) := by
    constructor
    · rintro ⟨l, hl, holds⟩
      obtain ⟨hl, nonzero⟩ := List.mem_filter.mp hl
      obtain ⟨i, hi, rfl⟩ := List.mem_map.mp hl
      have hi := List.mem_range.mp hi
      exact ⟨i, hi, (blockingLiteral_holds wf cube agree hi).mp ⟨of_decide_eq_true nonzero, holds⟩⟩
    · rintro ⟨i, hi, differs⟩
      obtain ⟨nonzero, holds⟩ := (blockingLiteral_holds wf cube agree hi).mpr differs
      refine ⟨_, List.mem_filter.mpr ⟨List.mem_map.mpr ⟨i, List.mem_range.mpr hi, rfl⟩, ?_⟩, holds⟩
      exact decide_eq_true nonzero
  rw [literal]
  constructor
  · rintro ⟨i, hi, ⟨char, value⟩ | ⟨char, value⟩⟩ agrees
    · rw [(agrees ⟨i, hi⟩).1 char] at value
      cases value
    · rw [(agrees ⟨i, hi⟩).2 char] at value
      cases value
  · intro disagrees
    by_contra none
    push Not at none
    refine disagrees fun i => ⟨fun char => ?_, fun char => ?_⟩
    · simpa using (none i i.isLt).1 char
    · simpa using (none i i.isLt).2 char

theorem blockingClause_ne_zero (cube : CStr) : ∀ l ∈ c.blockingClause cube, l ≠ 0 := by
  intro l hl
  exact of_decide_eq_true (List.mem_filter.mp hl).2

end Netlist

/-! ### The loop -/

section Loop

variable {k : Circuit} {gbm : Cudd k.netlist.nPi} {solver : CCaDiCaL} {limit : Int} {f : FNODE}

/-- What `InlineXID` does in the process is what decides `xidOverflows`. -/
theorem exited_eq_overflows {p : Process} (ready : ProcessReady k p) {lits : List Int}
    (current : p.target = some (f, lits)) {M : Nat → Bool} {x : k.netlist.Assignment}
    (agree : k.netlist.Extends M x)
    {r : Option CStr × XidStatics} (run : k.netlist.inlineXID p.globals f M p.statics = some r) :
    r.2.xid.exited = k.netlist.xidOverflows k.model f x := by
  obtain ⟨fault, built, total, units, base, -, -⟩ := ready.target f lits current
  obtain ⟨g₁, g₂, search, build, base₂, frame⟩ :=
    Netlist.searches_spec k.wellFormed fault (g := initGlobalVars) rfl
  have fresh := start_ready (k := k) (fun _ => resetInfo false) fun _ _ => 0
  have generation : g₂.instances = 1 := by rw [frame]; rfl
  have clean : k.netlist.XidReady g₂
      (k.netlist.startProcess (fun _ => resetInfo false) fun _ _ => 0).statics := by
    obtain ⟨gates, -, -, beyond, idle⟩ := fresh.scratch
    refine ⟨gates, Nat.zero_le _, fun same => ?_, beyond, idle⟩
    rw [generation] at same
    cases same
  have both := inlineXID_determined k.wellFormed fault _ g₂.totalVars base base₂ built
    (by rw [generation]; decide) ready.scratch clean ready.running.2 fresh.running.2 agree
    (Netlist.inputVals_extends k.wellFormed x)
  unfold Netlist.xidOverflows
  rw [search, Option.bind_some, build]
  rw [run] at both
  dsimp only
  generalize k.netlist.inlineXID g₂ f _ _ = r' at both ⊢
  cases both with
  | some related => exact related.2.symm

/-- Between two passes: the process is in a state of the fault, the solver has the clause set of the fault
and the blocking clauses, and every cube is sound. -/
structure EnumInv (k : Circuit) (limit : Int) (f : FNODE) (base : List Clause) (s : EnumState) : Prop where
  running : s.outcome = none
  ready : ProcessReady k ⟨s.globals, s.statics, some (f, stream base)⟩
  solver : s.globals.solver = base ++ s.cubes.map k.netlist.blockingClause
  text : ∀ cube ∈ s.cubes, k.netlist.CubeText cube
  sound : ∀ cube ∈ s.cubes, ∀ y, k.netlist.CubeAgrees cube y → k.netlist.Detects k.model f y
  limited : 0 < limit → (s.cubes.length : Int) ≤ limit

/-- The clause set of the fault: nonzero literals, and its models are the detecting assignments. -/
structure FaultClauses (k : Circuit) (f : FNODE) (base : List Clause) : Prop where
  ne_zero : ∀ cl ∈ base, ∀ l ∈ cl, l ≠ 0
  models : ∀ x, (∃ M, k.netlist.Extends M x ∧ Models M base) ↔ k.netlist.Detects k.model f x

/-- What the loop may end with. -/
def Ended (k : Circuit) (limit : Int) (f : FNODE) (outcome : FaultOutcome) : Prop :=
  (∃ r, outcome = .reported r ∧ k.ResultCorrect limit f r) ∨
    (outcome = .exited ∧
      ∃ x, k.netlist.Detects k.model f x ∧ k.netlist.xidOverflows k.model f x = true)

/-- The detecting assignments that no cube contains yet. -/
def remaining (k : Circuit) (f : FNODE) (cubes : List CStr) : Nat :=
  (k.detecting f \ k.netlist.covered cubes).card

theorem EnumInv.parse_literals {base : List Clause} {s : EnumState} (inv : EnumInv k limit f base s)
    (clauses : FaultClauses k f base) :
    parse s.globals.literals = base ++ s.cubes.map k.netlist.blockingClause := by
  unfold Globals.literals
  rw [inv.solver]
  apply parse_stream
  intro cl hcl
  rcases List.mem_append.mp hcl with hcl | hcl
  · exact clauses.ne_zero cl hcl
  · obtain ⟨cube, -, rfl⟩ := List.mem_map.mp hcl
    exact Netlist.blockingClause_ne_zero cube

/-- A model of all the clauses is a detecting assignment outside the cubes. -/
theorem EnumInv.models_iff {base : List Clause} {s : EnumState} (inv : EnumInv k limit f base s)
    (clauses : FaultClauses k f base) (x : k.netlist.Assignment) :
    (∃ M, k.netlist.Extends M x ∧ Models M (parse s.globals.literals)) ↔
      x ∈ k.detecting f \ k.netlist.covered s.cubes := by
  have blocked : ∀ {M}, k.netlist.Extends M x →
      (Models M (s.cubes.map k.netlist.blockingClause) ↔ x ∉ k.netlist.covered s.cubes) := by
    intro M agree
    rw [Netlist.mem_covered]
    constructor
    · rintro models ⟨cube, mem, agrees⟩
      exact (Netlist.blockingClause_holds k.wellFormed cube agree).mp
        (models _ (List.mem_map_of_mem mem)) agrees
    · intro outside cl hcl
      obtain ⟨cube, mem, rfl⟩ := List.mem_map.mp hcl
      exact (Netlist.blockingClause_holds k.wellFormed cube agree).mpr
        fun agrees => outside ⟨cube, mem, agrees⟩
  rw [inv.parse_literals clauses, Finset.mem_sdiff, Circuit.detecting, Finset.mem_filter]
  constructor
  · rintro ⟨M, agree, models⟩
    rw [models_append] at models
    exact ⟨⟨Finset.mem_univ _, (clauses.models x).mp ⟨M, agree, models.1⟩⟩,
      (blocked agree).mp models.2⟩
  · rintro ⟨⟨-, det⟩, outside⟩
    obtain ⟨M, agree, models⟩ := (clauses.models x).mpr det
    exact ⟨M, agree, (models_append _ _ _).mpr ⟨models, (blocked agree).mpr outside⟩⟩

theorem EnumInv.covered_sub {base : List Clause} {s : EnumState} (inv : EnumInv k limit f base s) :
    k.netlist.covered s.cubes ⊆ k.detecting f := by
  intro y hy
  obtain ⟨cube, mem, agrees⟩ := Netlist.mem_covered.mp hy
  exact Finset.mem_filter.mpr ⟨Finset.mem_univ _, inv.sound cube mem y agrees⟩

/-- The report, when `limitHit` says truly whether a detecting assignment is left. -/
theorem EnumInv.report {base : List Clause} {s : EnumState} (inv : EnumInv k limit f base s)
    {limitHit : Bool} (left : limitHit = false ↔ k.netlist.covered s.cubes = k.detecting f)
    (bounded : limit ≤ 0 → limitHit = false) :
    Ended k limit f (k.emitFaultResult gbm s.cubes limitHit) := by
  refine .inl ⟨⟨s.cubes, s.cubes.length, !limitHit,
    ((k.netlist.covered s.cubes).card : ℚ) / 2 ^ k.netlist.nPi⟩, ?_, rfl, rfl, inv.covered_sub,
    inv.limited, ?_, ?_⟩
  · unfold Circuit.emitFaultResult
    rw [Netlist.runBDD_eq gbm inv.text]
  · rw [Bool.not_eq_true', left]
  · intro unlimited
    rw [← left.mp (bounded unlimited)]

/-- The state before the first pass. -/
theorem start_inv (limit : Int) {p : Process} (reached : Reached k p) (fault : k.netlist.IsFault k.model f) :
    ∃ g base, k.netlist.writeTPGModel k.model f { p.globals with solver := [] } = some (true, g) ∧
      EnumInv k limit f base ⟨g, p.statics, [], none⟩ ∧ FaultClauses k f base := by
  obtain ⟨g, run, ready⟩ := (reached_ready reached).write fault
  obtain ⟨g₂, g', units, run', base, essential, solver, -⟩ := Netlist.writeTPGModel_spec k.wellFormed
    fault (g := { p.globals with solver := [] }) (reached_ready reached).idle
  rw [run] at run'
  cases run'
  refine ⟨g, g.solver, run, ⟨rfl, ready, by simp, ?_, ?_, fun positive => positive.le⟩, ?_, ?_⟩
  · intro cube h
    exact absurd h List.not_mem_nil
  · intro cube h
    exact absurd h List.not_mem_nil
  · rw [solver]
    exact base.ne_zero k.wellFormed fault essential
  · intro x
    rw [solver]
    exact Netlist.tpg_models_iff k.wellFormed base fault essential x

/-- One pass ends the loop rightly or takes at least one assignment away from those left. -/
theorem EnumInv.pass {base : List Clause} {s : EnumState} (inv : EnumInv k limit f base s)
    (gbm : Cudd k.netlist.nPi) (solver : CCaDiCaL) (clauses : FaultClauses k f base) :
    ∃ s', k.analyzePass gbm solver limit f s = some s' ∧
      ((∃ outcome, s'.outcome = some outcome ∧ Ended k limit f outcome) ∨
        (EnumInv k limit f base s' ∧ remaining k f s'.cubes < remaining k f s.cubes)) := by
  unfold Circuit.analyzePass
  rw [inv.running]
  simp only [Option.isSome_none, Bool.false_eq_true, if_false]
  cases status : solver.solve s.cubes.length (parse s.globals.literals) with
  | none =>
      refine ⟨_, rfl, .inl ⟨_, rfl, inv.report ?_ fun _ => rfl⟩⟩
      -- no model is left, so no detecting assignment is
      refine ⟨fun _ => Finset.Subset.antisymm inv.covered_sub ?_, fun _ => rfl⟩
      intro x hx
      by_contra outside
      obtain ⟨M, -, models⟩ :=
        (inv.models_iff clauses x).mpr (Finset.mem_sdiff.mpr ⟨hx, outside⟩)
      exact solver.complete _ _ status ⟨M, models⟩
  | some M =>
      have models := solver.sound _ _ _ status
      have agree : k.netlist.Extends M fun i => M (k.netlist.varsgc k.netlist.pi[i]) := fun _ _ => rfl
      have fresh := (inv.models_iff clauses _).mp ⟨M, agree, models⟩
      have det := (Finset.mem_filter.mp (Finset.mem_sdiff.mp fresh).1).2
      dsimp only
      by_cases reached : (!decide (limit ≤ 0) && decide (limit ≤ s.cubes.length)) = true
      · rw [if_pos reached]
        refine ⟨_, rfl, .inl ⟨_, rfl, inv.report ?_ ?_⟩⟩
        · refine ⟨fun h => (by cases h), fun same => ?_⟩
          rw [same, Finset.sdiff_self] at fresh
          exact absurd fresh (Finset.notMem_empty _)
        · intro unlimited
          simp [unlimited] at reached
      · rw [if_neg reached]
        have baseModels : Models M (parse (stream base)) := by
          rw [inv.parse_literals clauses, models_append] at models
          rw [parse_stream _ clauses.ne_zero]
          exact models.1
        obtain ⟨cube, st, run, scratch, shape, sound⟩ := inv.ready.call rfl baseModels
        have exit := exited_eq_overflows inv.ready rfl agree run
        rw [run]
        dsimp only at exit ⊢
        by_cases overflow : st.xid.exited = true
        · rw [if_pos overflow]
          exact ⟨_, rfl, .inl ⟨_, rfl, .inr ⟨rfl, _, det, exit ▸ overflow⟩⟩⟩
        · rw [if_neg overflow]
          rw [Bool.not_eq_true] at overflow
          refine ⟨_, rfl, .inr ⟨⟨rfl, inv.ready.block cube scratch overflow, ?_, ?_, ?_, ?_⟩, ?_⟩⟩
          · change s.globals.solver ++ [k.netlist.blockingClause cube] = _
            rw [inv.solver, List.map_append, List.append_assoc]
            rfl
          · intro q hq
            rcases List.mem_append.mp hq with old | new
            · exact inv.text q old
            · rw [List.mem_singleton.mp new]
              exact ⟨shape.length, shape.chars⟩
          · intro q hq
            rcases List.mem_append.mp hq with old | new
            · exact inv.sound q old
            · rw [List.mem_singleton.mp new]
              exact sound overflow
          · intro positive
            have below : ¬ limit ≤ s.cubes.length := by
              intro le
              exact reached (by simp [le, not_le.mpr positive])
            rw [List.length_append, List.length_singleton]
            push_cast
            omega
          · apply Finset.card_lt_card
            refine ⟨fun y hy => ?_, fun sub => ?_⟩
            · obtain ⟨detects, outside⟩ := Finset.mem_sdiff.mp hy
              refine Finset.mem_sdiff.mpr ⟨detects, fun inside => outside ?_⟩
              obtain ⟨q, mem, agrees⟩ := Netlist.mem_covered.mp inside
              exact Netlist.mem_covered.mpr ⟨q, List.mem_append_left _ mem, agrees⟩
            · -- the cube contains the model it was made from
              have gone := (Finset.mem_sdiff.mp (sub fresh)).2
              exact gone (Netlist.mem_covered.mpr
                ⟨cube, List.mem_append_right _ List.mem_cons_self, shape.agrees⟩)

/-- The loop ends: each pass but the last takes a detecting assignment away from those left. -/
theorem analyzeOneFault_ends (gbm : Cudd k.netlist.nPi) (solver : CCaDiCaL) (limit : Int)
    {p : Process} (reached : Reached k p)
    (fault : k.netlist.IsFault k.model f) :
    ∃ fuel outcome, k.analyzeOneFault gbm solver limit f p fuel = some outcome ∧
      Ended k limit f outcome := by
  obtain ⟨g, base, run, inv, clauses⟩ := start_inv limit reached fault
  obtain ⟨t, loop, final, exit⟩ := @Loop.whileLoop_total _ (k.analyzePass gbm solver limit f)
    (fun s => EnumInv k limit f base s ∨ ∃ outcome, s.outcome = some outcome ∧ Ended k limit f outcome)
    (fun s => if s.outcome.isSome then 0 else remaining k f s.cubes + 1)
    (by
      rintro s s' (inv | ⟨outcome, ended, -⟩) next
      · obtain ⟨s'', run, step⟩ := inv.pass gbm solver clauses
        rw [run] at next
        cases next
        rcases step with ⟨outcome, ended, right⟩ | ⟨inv', less⟩
        · exact ⟨.inr ⟨outcome, ended, right⟩, by simp [ended, inv.running]⟩
        · exact ⟨.inl inv', by simp [inv'.running, inv.running, less]⟩
      · simp [Circuit.analyzePass, ended] at next)
    (remaining k f [] + 2) ⟨g, p.statics, [], none⟩ (.inl inv) (by simp)
  rcases final with inv | ⟨outcome, ended, right⟩
  · obtain ⟨s', next, -⟩ := inv.pass gbm solver clauses
    rw [next] at exit
    cases exit
  · refine ⟨remaining k f [] + 2, outcome, ?_, right⟩
    unfold Circuit.analyzeOneFault
    rw [run]
    dsimp only
    rw [loop, Option.bind_some, ended]

open Classical in
/-- A solver that returns the given model as long as it is one. -/
noncomputable def CCaDiCaL.preferring (M : Nat → Bool) : CCaDiCaL where
  solve := fun _ cls =>
    if Models M cls then some M else if h : ∃ M, Models M cls then some h.choose else none
  sound := by
    intro _ cls M' h
    split at h
    · rename_i models
      cases h
      exact models
    · split at h
      · rename_i some
        cases h
        exact some.choose_spec
      · cases h
  complete := by
    intro _ cls h
    split at h
    · cases h
    · split at h
      · cases h
      · rename_i none
        exact none

/-- When an assignment overflows a queue, some solver ends the program with its first model. -/
theorem analyzeOneFault_exits (gbm : Cudd k.netlist.nPi) (limit : Int) {p : Process} (reached : Reached k p)
    (fault : k.netlist.IsFault k.model f) {x : k.netlist.Assignment}
    (det : k.netlist.Detects k.model f x) (overflow : k.netlist.xidOverflows k.model f x = true) :
    ∃ solver, ∀ fuel outcome, k.analyzeOneFault gbm solver limit f p fuel = some outcome →
      outcome = .exited := by
  obtain ⟨g, base, run, inv, clauses⟩ := start_inv limit reached fault
  obtain ⟨M, agree, models⟩ := (inv.models_iff clauses x).mpr (by
    simp [Circuit.detecting, det, Netlist.covered])
  refine ⟨.preferring M, fun fuel outcome ends => ?_⟩
  have baseModels : Models M (parse (stream base)) := by
    have models := models
    rw [inv.parse_literals clauses, models_append] at models
    rw [parse_stream _ clauses.ne_zero]
    exact models.1
  obtain ⟨cube, st, xid, -, -, -⟩ := inv.ready.call rfl baseModels
  have exit := (exited_eq_overflows inv.ready rfl agree xid).trans overflow
  have first : k.analyzePass gbm (.preferring M) limit f ⟨g, p.statics, [], none⟩ =
      some ⟨g, st, [], some .exited⟩ := by
    have answer : (CCaDiCaL.preferring M).solve 0 (parse g.literals) = some M := if_pos models
    have below : (!decide (limit ≤ 0) && decide (limit ≤ ((0 : Nat) : Int))) = false := by
      cases h : decide (limit ≤ 0) <;> simp_all
    simp only [Circuit.analyzePass, Option.isSome_none, Bool.false_eq_true, if_false, List.length_nil,
      answer, below]
    rw [show k.netlist.inlineXID g f M p.statics = _ from xid]
    exact if_pos exit
  unfold Circuit.analyzeOneFault at ends
  rw [run] at ends
  dsimp only at ends
  cases fuel with
  | zero => cases ends
  | succ fuel =>
      rw [Loop.whileLoop_pass first] at ends
      cases fuel with
      | zero => cases ends
      | succ fuel =>
          rw [Loop.whileLoop_exit (by simp [Circuit.analyzePass])] at ends
          cases ends
          rfl

end Loop

/-- The loop of `AnalyzeOneFault` ends, whatever models the solver chooses: with a right report, or with
the end of the program after a detecting assignment that overflows a queue of the X-filling. So it
always reports, and rightly, exactly when no detecting assignment does. -/
theorem analyzeOneFault_iff (k : Circuit) (gbm : Cudd k.netlist.nPi) (limit : Int) (p : Process)
    (reached : Reached k p) (f : FNODE) (fault : k.netlist.IsFault k.model f) :
    (∀ solver, ∃ fuel outcome, k.analyzeOneFault gbm solver limit f p fuel = some outcome ∧
      ((∃ r, outcome = .reported r ∧ k.ResultCorrect limit f r) ∨
        (outcome = .exited ∧
          ∃ x, k.netlist.Detects k.model f x ∧ k.netlist.xidOverflows k.model f x = true))) ∧
    ((∀ solver, ∃ fuel r, k.analyzeOneFault gbm solver limit f p fuel = some (.reported r) ∧
        k.ResultCorrect limit f r) ↔
      ∀ x, k.netlist.Detects k.model f x → k.netlist.xidOverflows k.model f x = false) := by
  refine ⟨fun solver => analyzeOneFault_ends gbm solver limit reached fault, fun reports x det => ?_, ?_⟩
  · by_contra overflow
    rw [Bool.not_eq_false] at overflow
    obtain ⟨solver, exits⟩ := analyzeOneFault_exits gbm limit reached fault det overflow
    obtain ⟨fuel, r, run, -⟩ := reports solver
    cases exits fuel _ run
  · intro fits solver
    obtain ⟨fuel, outcome, run, ⟨r, rfl, right⟩ | ⟨-, x, det, overflow⟩⟩ :=
      analyzeOneFault_ends gbm solver limit reached fault
    · exact ⟨fuel, r, run, right⟩
    · rw [fits x det] at overflow
      cases overflow

theorem analyzeOneFault_iff_and :
    (∀ x, andCircuit.netlist.xidOverflows andCircuit.model andFault x = false) ∧
    ∀ solver, ∃ fuel r, andCircuit.analyzeOneFault (.functions andCircuit.netlist.nPi) solver 0 andFault
        (andCircuit.netlist.startProcess (fun _ => resetInfo false) fun _ _ => 0) fuel =
          some (.reported r) ∧
      andCircuit.ResultCorrect 0 andFault r := by
  have fits : ∀ x, andCircuit.netlist.xidOverflows andCircuit.model andFault x = false := by
    decide +kernel
  refine ⟨fits, ?_⟩
  apply (analyzeOneFault_iff andCircuit (.functions _) 0 _ (.start _ _) andFault andFault_isFault).2.mpr
  intro x _
  exact fits x

/-! ### A circuit whose X-filling overflows a queue -/

/-- The branch of a stem `s` at pin `pin` of gate `g`. -/
def branchNet (s g : CStr) (pin : Char) (stem gate : Nat) : NLIST :=
  ⟨s ++ '_' :: g ++ ['_', pin], .FOUT, [stem], [gate], none⟩

/-- The names of the outputs. -/
def outputName (i : Nat) : CStr := ['v', Char.ofNat (97 + i)]

/-- The netlist of `p = AND(s, r)`, `r = BUF(s)`, `q = OR(s, t)`, `t = BUF(s)`, eleven outputs
`va = AND(p, q)` to `vk = AND(p, q)`, and the input `s`, which is an output too. -/
def overflowNetlist : Netlist where
  nl :=
    [⟨"s_stem".toList, .IN, [], [16, 17, 18, 19, 20], none⟩,
      ⟨['r'], .BUF, [18], [2], none⟩,
      ⟨['p'], .AND, [16, 1], (List.range 11).map fun i => 21 + 2 * i, none⟩,
      ⟨['t'], .BUF, [20], [4], none⟩,
      ⟨['q'], .OR, [19, 3], (List.range 11).map fun i => 22 + 2 * i, none⟩] ++
    ((List.range 11).map fun i => ⟨outputName i, .AND, [21 + 2 * i, 22 + 2 * i], [], none⟩) ++
    [branchNet ['s'] ['p'] 'A' 0 2,
      ⟨['s'], .FOUT, [0], [], none⟩,
      branchNet "s_stem".toList ['r'] 'A' 0 1,
      branchNet "s_stem".toList ['q'] 'A' 0 4,
      branchNet "s_stem".toList ['t'] 'A' 0 3] ++
    (List.range 11).flatMap fun i =>
      [branchNet ['p'] (outputName i) 'A' 2 (5 + i), branchNet ['q'] (outputName i) 'B' 4 (5 + i)]
  pi := [0]
  po := 17 :: (List.range 11).map fun i => 5 + i
  ppo := []

/-- Inputs, then the branches of `s`, the buffers, their gates, the branches and the outputs. -/
def overflowRank (n : Nat) : Nat :=
  if n = 0 then 0 else if n = 2 ∨ n = 4 then 3 else if n = 1 ∨ n = 3 then 2 else if n < 16 then 5
  else if n < 21 then 1 else 4

theorem overflowNetlist_wellFormed : overflowNetlist.WellFormed .SAF where
  arity := by decide +kernel
  fanin := by decide +kernel
  insLt := by decide +kernel
  outsLt := by decide +kernel
  inverse := by decide +kernel
  acyclic := ⟨overflowRank, by decide +kernel⟩
  piNodup := by decide
  piMem := by
    intro n
    by_cases low : n < 43
    · revert n
      decide +kernel
    · refine iff_of_false (fun h => low ?_) fun h => low h.1
      rw [List.mem_singleton.mp h]
      decide
  observedLt := by decide +kernel
  observedEnd := by decide +kernel
  peerLt := by decide +kernel
  peerIn := by decide +kernel

def overflowCircuit : Circuit := ⟨overflowNetlist, .SAF, overflowNetlist_wellFormed⟩

/-- The input stuck at 1. -/
def overflowFault : FNODE := ⟨"SA1 s_stem".toList, "s_stem".toList, .SF1, 0, none⟩

/-- The assignment that detects the fault puts 44 nets on the forward queue, which holds 43. -/
theorem overflowFault_overflows :
    overflowNetlist.xidOverflows .SAF overflowFault (fun _ => false) = true := by decide +kernel

/-- A solver that returns this assignment ends the program, so no density is reported. -/
theorem analyzeOneFault_not_total :
    ¬ ∀ (k : Circuit) (gbm : Cudd k.netlist.nPi) (solver : CCaDiCaL) (limit : Int) (p : Process),
      Reached k p → ∀ f, k.netlist.IsFault k.model f →
        ∃ fuel r, k.analyzeOneFault gbm solver limit f p fuel = some (.reported r) ∧
          k.ResultCorrect limit f r := by
  intro total
  have reached : Reached overflowCircuit
      (overflowNetlist.startProcess (fun _ => resetInfo false) fun _ _ => 0) := .start _ _
  have fault : overflowNetlist.IsFault .SAF overflowFault := ⟨by decide, fun _ => rfl, fun h => by cases h⟩
  have det : overflowNetlist.Detects .SAF overflowFault fun _ => false := by decide +kernel
  obtain ⟨solver, exits⟩ := analyzeOneFault_exits (k := overflowCircuit)
    (Cudd.functions overflowNetlist.nPi) 0 reached fault det overflowFault_overflows
  obtain ⟨fuel, r, run, -⟩ :=
    total overflowCircuit (Cudd.functions overflowNetlist.nPi) solver 0 _ reached overflowFault fault
  cases exits fuel _ run

end SafRprGen
