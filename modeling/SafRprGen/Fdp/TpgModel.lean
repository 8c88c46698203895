/-
Module: SafRprGen.Fdp.TpgModel
Layer: Fdp
Purpose: The clause set of one fault (`CreateConsFC` and `tpg_model.c`) and what it means: its models,
  restricted to the inputs, are the assignments that detect the fault. From a model the good and the
  faulty values follow up the circuit; from a detecting assignment a model is built whose D-chain
  variables mark the differing nets that lead to an observed one.
Main exports: writeTPGModel, writeTPGModel_spec, TpgBase, tpg_models_iff
-/
import SafRprGen.Fdp.DetectionCircuit
import SafRprGen.Fdp.EssentialAssignment

namespace SafRprGen

open Dimacs Search

namespace Netlist

variable (c : Netlist)

/-- `CreateConsFC`; the Boolean is its return value. -/
def createConsFC (m : FaultModel) (f : FNODE) (g : Globals) : Option (Bool × Globals) :=
  let g := { g with totalVars := c.constVars }
  (c.searchTFO f g).bind fun g =>
  (c.normalScopeBuild m f g).bind fun g =>
    if g.numtranpo = 0 then some (true, g.ccadicalAdd [])
    else
      match c.createConsFCGates g with
      | none => some (false, g)
      | some g =>
          let g := c.createConsDC f (c.createConsProp f g)
          (c.essentialAssignment f g).map fun g => (true, g)

/-- The clauses `LoadNormalDefinition` sends for one net. -/
def normalClauses (g : Globals) (i : Nat) : List Clause :=
  match c.consgc i with
  | none => []
  | some cls => if g.normalScopeRequiredNet i then cls else []

/-- `LoadNormalDefinition`. -/
def loadNormalDefinition (g : Globals) : Globals :=
  (List.range c.nNet).foldl (fun g i => g.ccadicalAddAll (c.normalClauses g i)) g

/-- `WriteTPGModel`; the Boolean is its return value. -/
def writeTPGModel (m : FaultModel) (f : FNODE) (g : Globals) : Option (Bool × Globals) :=
  (c.createConsFC m f g).map fun (ok, g) => if ok then (true, c.loadNormalDefinition g) else (false, g)

variable {c} {m : FaultModel} {f : FNODE}

/-- The globals after the two searches: the fanout of the fault with its variables and the scope. -/
structure TpgBase (c : Netlist) (m : FaultModel) (f : FNODE) (g : Globals) : Prop where
  fp : ∀ n, g.fp n = true ↔ n = f.netptr
  tfo : ∀ n, g.tfo n = true ↔ c.InFanout f n
  vars : ConeVars c c.constVars g.tfo g.varsfc g.varprop g.totalVars
  tpo : ∀ n, g.tpo n = true ↔ n ∈ c.observed m ∧ g.tfo n = true
  count : g.numtranpo = (c.comparedNets g).length
  detection : ∀ n, g.normalScopeInDetectionCone n = true ↔ Reach c.ins (fun o => g.tpo o = true) n
  needed : ∀ n, g.normalScopeRequiredNet n = true ↔
    Reach c.ins (fun o => g.tpo o = true ∨ f.excNetptr = some o) n

/-- The clause set of a fault, with the units of the essential assignment. -/
def tpgClauses (c : Netlist) (f : FNODE) (g : Globals) (units : List Clause) : List Clause :=
  (if g.numtranpo = 0 then [[]]
  else
    (List.range c.nNet).flatMap (c.fcClauses g) ++
      ([lit true (g.varprop f.netptr)] :: (List.range c.nNet).flatMap (c.propClauses g)) ++
      c.comparatorClauses f g ++ units) ++
    (List.range c.nNet).flatMap (c.normalClauses g)

/-- Unit clauses for essential values of nets in the scope. -/
def EssentialUnits (c : Netlist) (m : FaultModel) (f : FNODE) (g : Globals) (units : List Clause) :
    Prop :=
  ∀ cl ∈ units, ∃ n v, n < c.nNet ∧ g.normalScopeRequiredNet n = true ∧ c.Essential m f n v ∧
    cl = [lit v (c.varsgc n)]

theorem exc_lt (wf : c.WellFormed m) (fault : c.IsFault m f) : ∀ e ∈ f.excNetptr, e < c.nNet := by
  intro e he
  cases m with
  | SAF =>
      rw [fault.saf rfl] at he
      cases he
  | TDF =>
      rw [(fault.tdf rfl).1] at he
      exact wf.peerLt f.netptr fault.netLt e he

/-- The two searches together. -/
theorem searches_spec (wf : c.WellFormed m) (fault : c.IsFault m f) {g : Globals}
    (idle : g.stack = []) :
    ∃ g₁ g₂, c.searchTFO f { g with totalVars := c.constVars } = some g₁ ∧
      c.normalScopeBuild m f g₁ = some g₂ ∧ TpgBase c m f g₂ ∧
      g₂ = { g with
        fp := g₂.fp, tfo := g₂.tfo, tpo := g₂.tpo, varsfc := g₂.varsfc, varprop := g₂.varprop
        totalVars := g₂.totalVars, numtranpo := g₂.numtranpo, needed := g₂.needed
        detection := g₂.detection, instances := g.instances + 1 } := by
  obtain ⟨g₁, search, searched⟩ :=
    searchTFO_spec (g := { g with totalVars := c.constVars }) wf.searchable fault.netLt idle
  obtain ⟨g₂, build, built⟩ := normalScopeBuild_spec wf.searchable (exc_lt wf fault) g₁
  refine ⟨g₁, g₂, search, build, ?_, ?_⟩
  · have fp : g₂.fp = g₁.fp := by rw [built.frame]
    have tfo : g₂.tfo = g₁.tfo := by rw [built.frame]
    have varsfc : g₂.varsfc = g₁.varsfc := by rw [built.frame]
    have varprop : g₂.varprop = g₁.varprop := by rw [built.frame]
    have total : g₂.totalVars = g₁.totalVars := by rw [built.frame]
    refine ⟨?_, ?_, ?_, ?_, built.count, built.detection, built.needed⟩
    · intro n
      rw [fp, searched.frame]
      simp
    · rw [tfo]
      exact searched.tfo
    · rw [tfo, varsfc, varprop, total]
      exact searched.vars
    · rw [tfo]
      exact built.tpo
  · apply Globals.ext <;> first | rfl | rw [built.frame, searched.frame]

theorem loadNormalDefinition_eq (g : Globals) :
    c.loadNormalDefinition g =
      g.ccadicalAddAll ((List.range c.nNet).flatMap (c.normalClauses g)) :=
  foldl_ccadicalAddAll c.normalClauses (fun _ _ _ => rfl) _ g

theorem TpgBase.varsfc_pos {g : Globals} (base : TpgBase c m f g) (wf : c.WellFormed m) :
    ∀ n < c.nNet, 0 < g.varsfc n := by
  intro n hn
  cases tfo : g.tfo n with
  | true =>
      obtain ⟨k, h, -⟩ := base.vars.pair n tfo
      omega
  | false =>
      rw [base.vars.outside n tfo]
      exact wf.varsgc_pos hn

theorem TpgBase.comparatorVars {g : Globals} (base : TpgBase c m f g) (wf : c.WellFormed m)
    (fault : c.IsFault m f) (some : g.numtranpo ≠ 0) : ComparatorVars c f g where
  gc := fun _ hn => wf.varsgc_pos hn
  fc := base.varsfc_pos wf
  site := fault.netLt
  exc := fun e he => exc_lt wf fault e (by rw [he]; rfl)
  some := by
    have := base.count
    omega

/-- `WriteTPGModel` succeeds from any idle state, and sends the clause set of the fault. -/
theorem writeTPGModel_spec (wf : c.WellFormed m) (fault : c.IsFault m f) {g : Globals}
    (idle : g.stack = []) :
    ∃ g₂ g' units, c.writeTPGModel m f g = some (true, g') ∧ TpgBase c m f g₂ ∧
      EssentialUnits c m f g₂ units ∧ g'.solver = g.solver ++ c.tpgClauses f g₂ units ∧
      g' = { g₂ with
        que := g'.que, logicValue := g'.logicValue, eaFlag := g'.eaFlag
        uniqueFlag := g'.uniqueFlag, totalVars := g'.totalVars, solver := g'.solver } ∧
      g'.stack = [] ∧ g'.exited = g.exited ∧ g'.instances = g.instances + 1 := by
  obtain ⟨g₁, g₂, search, build, base, frame⟩ := searches_spec wf fault idle
  have stack : g₂.stack = [] := by rw [frame, idle]
  have exited : g₂.exited = g.exited := by rw [frame]
  have instances : g₂.instances = g.instances + 1 := by rw [frame]
  have solver : g₂.solver = g.solver := by rw [frame]
  by_cases none : g₂.numtranpo = 0
  · refine ⟨g₂, c.loadNormalDefinition (g₂.ccadicalAdd []), [], ?_, base, by simp [EssentialUnits],
      ?_, ?_, ?_, ?_, ?_⟩
    · simp [writeTPGModel, createConsFC, search, build, none]
    · rw [loadNormalDefinition_eq]
      simp only [Globals.ccadicalAddAll, Globals.ccadicalAdd, tpgClauses, none, if_true, solver,
        List.append_assoc]
      rfl
    all_goals rw [loadNormalDefinition_eq]
    · rfl
    · exact stack
    · exact exited
    · exact instances
  · let g₃ := g₂.ccadicalAddAll ((List.range c.nNet).flatMap (c.fcClauses g₂))
    have gates : c.createConsFCGates g₂ = some g₃ := createConsFCGates_eq wf (base.varsfc_pos wf)
    let g₄ := g₃.ccadicalAddAll ([lit true (g₂.varprop f.netptr)] ::
      (List.range c.nNet).flatMap (c.propClauses g₂))
    have prop : c.createConsProp f g₃ = g₄ := createConsProp_eq f g₃
    let g₅ : Globals := { g₄ with
      totalVars := c.detectVar g₂, solver := g₄.solver ++ c.comparatorClauses f g₂ }
    have comparator : c.createConsDC f g₄ = g₅ := createConsDC_eq (g := g₄) base.count
    obtain ⟨g₆, assigned, added⟩ := essentialAssignment_spec (wf.eaRules fault) g₅
    obtain ⟨units, unitsEq, units_ok⟩ := added.units
    refine ⟨g₂, c.loadNormalDefinition g₆, units, ?_, base, units_ok, ?_, ?_, ?_, ?_, ?_⟩
    · simp [writeTPGModel, createConsFC, search, build, none, gates, prop, comparator, assigned]
    · have same : c.normalClauses g₆ = c.normalClauses g₂ := by
        rw [added.frame]
        rfl
      rw [loadNormalDefinition_eq, same]
      simp only [Globals.ccadicalAddAll, unitsEq, g₅, g₄, g₃, tpgClauses, none, if_false, solver,
        List.append_assoc]
    all_goals rw [loadNormalDefinition_eq]
    · apply Globals.ext <;> first | rfl | (simp only [Globals.ccadicalAddAll]; rw [added.frame]; rfl)
    · simp only [Globals.ccadicalAddAll]
      rw [added.frame]
      exact stack
    · simp only [Globals.ccadicalAddAll]
      rw [added.frame]
      exact exited
    · simp only [Globals.ccadicalAddAll]
      rw [added.frame]
      exact instances

/-! ### From a model to a detecting assignment -/

/-- `M` gives the input variables the values of `x`. -/
def Extends (c : Netlist) (M : Nat → Bool) (x : c.Assignment) : Prop :=
  ∀ k (h : k < c.nPi), M (c.varsgc c.pi[k]) = x ⟨k, h⟩

theorem piValue_of_mem {n : Nat} (hn : n ∈ c.pi) (x : c.Assignment) :
    ∃ k, ∃ h : k < c.nPi, c.pi[k] = n ∧ c.piValue x n = x ⟨k, h⟩ := by
  have h : c.pi.idxOf n < c.nPi := List.idxOf_lt_length_iff.mpr hn
  exact ⟨c.pi.idxOf n, h, List.getElem_idxOf h, by rw [piValue, dif_pos h]⟩

theorem TpgBase.required_ins {g : Globals} (base : TpgBase c m f g) {n i : Nat}
    (h : g.normalScopeRequiredNet n = true) (hi : i ∈ c.ins n) :
    g.normalScopeRequiredNet i = true :=
  (base.needed i).mpr (((base.needed n).mp h).edge hi)

/-- The scope holds nets of the netlist only. -/
theorem TpgBase.required_lt {g : Globals} (base : TpgBase c m f g) (wf : c.WellFormed m)
    (fault : c.IsFault m f) {n : Nat} (h : g.normalScopeRequiredNet n = true) : n < c.nNet := by
  refine Reach.induction (P := (· < c.nNet)) ?_ ?_ ((base.needed n).mp h)
  · rintro r (tpo | exc)
    · exact wf.observedLt r ((base.tpo r).mp tpo).1
    · exact exc_lt wf fault r exc
  · exact fun a b _ ha hb => wf.insLt a ha b hb

theorem TpgBase.detection_ins {g : Globals} (base : TpgBase c m f g) {n i : Nat}
    (h : g.normalScopeInDetectionCone n = true)
    (hi : i ∈ c.ins n) : g.normalScopeInDetectionCone i = true :=
  (base.detection i).mpr (((base.detection n).mp h).edge hi)

theorem TpgBase.required_of_detection {g : Globals} (base : TpgBase c m f g) {n : Nat}
    (h : g.normalScopeInDetectionCone n = true) :
    g.normalScopeRequiredNet n = true :=
  (base.needed n).mpr (((base.detection n).mp h).mono fun _ hr => .inl hr)

/-- A model of the comparator has a difference at some observed net of the fanout. -/
theorem ComparatorModel.some_difference {g : Globals} {M : Nat → Bool} (vars : ComparatorVars c f g)
    (models : ComparatorModel c f g M) :
    ∃ n ∈ c.comparedNets g, M (c.varsgc n) ≠ M (g.varsfc n) := by
  have found : ∃ v ∈ List.range' (g.totalVars + 1) (c.comparedNets g).length, M v = true := by
    by_cases several : 1 < (c.comparedNets g).length
    · exact (models.disj several).mp models.detect
    · have one : (c.comparedNets g).length = 1 := by
        have := vars.some
        omega
      have last := models.detect
      rw [detectVar, if_neg several, one] at last
      exact ⟨g.totalVars + 1, by rw [one]; simp, last⟩
  obtain ⟨v, hv, value⟩ := found
  obtain ⟨low, high⟩ := List.mem_range'_1.mp hv
  have hi : v - (g.totalVars + 1) < (c.comparedNets g).length := by omega
  have mem : ((c.comparedNets g)[v - (g.totalVars + 1)], v) ∈
      (c.comparedNets g).zipIdx (g.totalVars + 1) := by
    rw [List.mk_mem_zipIdx_iff_le_and_getElem?_sub]
    exact ⟨low, List.getElem?_eq_getElem hi⟩
  have differ := models.diff _ mem
  rw [value] at differ
  exact ⟨_, List.getElem_mem hi, Bool.xor_iff_ne.mp differ.symm⟩

section Semantics

variable {g : Globals} (wf : c.WellFormed m)

include wf

/-- The normal clauses of one net in the scope say that its variable has the gate's value. -/
theorem normalClauses_models {n : Nat} (hn : n < c.nNet) (M : Nat → Bool) :
    Models M (c.normalClauses g n) ↔
      (g.normalScopeRequiredNet n = true → c.type n ≠ .IN →
        M (c.varsgc n) = (c.type n).fn ((c.ins n).map fun i => M (c.varsgc i))) := by
  by_cases gate : c.type n = .IN
  · simp [normalClauses, consgc, gate]
  · obtain ⟨cls, eq, -, models⟩ := wf.consgc_spec hn gate
    rw [normalClauses, eq]
    simp only
    split
    · rename_i required
      rw [models M]
      exact ⟨fun h _ _ => h, fun h => h required gate⟩
    · rename_i out
      exact ⟨fun _ h => absurd h out, fun _ => models_nil M⟩

variable (base : TpgBase c m f g)

include base

/-- In a model the good-circuit variables of the scope have the good values. -/
theorem TpgBase.good_of_model {M : Nat → Bool} {x : c.Assignment} (agree : Extends c M x)
    (normal : ∀ n < c.nNet, Models M (c.normalClauses g n)) :
    ∀ n < c.nNet, g.normalScopeRequiredNet n = true → M (c.varsgc n) = c.good x n := by
  refine wf.induction ?_
  intro n hn ih required
  by_cases isIN : c.type n = .IN
  · obtain ⟨k, hk, rfl, value⟩ := piValue_of_mem ((wf.piMem n).mpr ⟨hn, isIN⟩) x
    rw [agree k hk, wf.good_IN hn isIN, value]
  · rw [(normalClauses_models wf hn M).mp (normal n hn) required isIN, wf.good_gate hn isIN]
    congr 1
    exact List.map_congr_left fun i hi => ih i hi (base.required_ins required hi)

theorem fcClauses_models {n : Nat} (hn : n < c.nNet) (M : Nat → Bool) :
    Models M (c.fcClauses g n) ↔
      (g.tfo n = true → n ≠ f.netptr → g.normalScopeInDetectionCone n = true → c.type n ≠ .IN →
        M (g.varsfc n) = (c.type n).fn ((c.ins n).map fun i => M (g.varsfc i))) := by
  obtain ⟨cls, eq, -, models⟩ := gateCons_spec g.varsfc (wf.arity n hn)
    (base.varsfc_pos wf n hn) (fun i hi => base.varsfc_pos wf i (wf.insLt n hn i hi))
  have site : (!g.fp n) = true ↔ n ≠ f.netptr := by
    rw [Bool.not_eq_true', ← Bool.not_eq_true, not_iff_not]
    exact base.fp n
  unfold fcClauses
  split
  · rename_i all
    simp only [Bool.and_eq_true, site] at all
    rw [eq, Option.getD_some, models M]
    exact ⟨fun h _ _ _ => h, fun h => h all.1.1 all.1.2 all.2⟩
  · rename_i notAll
    simp only [Bool.and_eq_true, site] at notAll
    exact ⟨fun _ h1 h2 h3 => absurd ⟨⟨h1, h2⟩, h3⟩ notAll, fun _ => models_nil M⟩

/-- In a model the faulty-circuit variables of the detection cone have the faulty values. -/
theorem TpgBase.faulty_of_model {M : Nat → Bool} {x : c.Assignment} (fault : c.IsFault m f)
    (good : ∀ n < c.nNet, g.normalScopeRequiredNet n = true → M (c.varsgc n) = c.good x n)
    (site : M (g.varsfc f.netptr) = f.type.stuck)
    (gates : ∀ n < c.nNet, Models M (c.fcClauses g n)) :
    ∀ n < c.nNet, g.normalScopeInDetectionCone n = true → M (g.varsfc n) = c.faulty f x n := by
  refine wf.induction ?_
  intro n hn ih inCone
  by_cases reached : c.InFanout f n
  · by_cases here : n = f.netptr
    · rw [here, site, wf.faulty_site fault.netLt]
    · have isGate : c.type n ≠ .IN := fun h => here (wf.inFanout_IN fault.netLt reached h)
      rw [(fcClauses_models wf base hn M).mp (gates n hn) ((base.tfo n).mpr reached) here inCone isGate,
        wf.faulty_gate hn here isGate]
      congr 1
      exact List.map_congr_left fun i hi => ih i hi (base.detection_ins inCone hi)
  · have notTfo : g.tfo n = false := by
      rw [← Bool.not_eq_true]
      exact fun h => reached ((base.tfo n).mp h)
    rw [base.vars.outside n notTfo, good n hn (base.required_of_detection inCone),
      wf.good_eq_faulty n hn reached]

/-- What a model of the clause set says: the variables have the good and the faulty values, and the
comparator holds. -/
theorem TpgBase.values_of_model {M : Nat → Bool} {x : c.Assignment} (fault : c.IsFault m f)
    (agree : Extends c M x) {units : List Clause} (models : Models M (c.tpgClauses f g units)) :
    ComparatorVars c f g ∧ ComparatorModel c f g M ∧
      (∀ n < c.nNet, g.normalScopeRequiredNet n = true → M (c.varsgc n) = c.good x n) ∧
      (∀ n < c.nNet, g.normalScopeInDetectionCone n = true → M (g.varsfc n) = c.faulty f x n) := by
  rw [tpgClauses, models_append, models_flatMap] at models
  obtain ⟨faultPart, normal⟩ := models
  by_cases none : g.numtranpo = 0
  · rw [if_pos none] at faultPart
    exact absurd (faultPart [] List.mem_cons_self) (not_holds_nil M)
  · rw [if_neg none, models_append, models_append, models_append, models_flatMap] at faultPart
    obtain ⟨⟨⟨gates, -⟩, comparator⟩, -⟩ := faultPart
    have vars := base.comparatorVars wf fault none
    have cmp := (comparator_models vars M).mp comparator
    have good := base.good_of_model wf agree fun n hn => normal n (List.mem_range.mpr hn)
    exact ⟨vars, cmp, good, base.faulty_of_model wf fault good cmp.faulty
      fun n hn => gates n (List.mem_range.mpr hn)⟩

/-- Every model restricts to a detecting assignment. -/
theorem TpgBase.detects_of_model {M : Nat → Bool} {x : c.Assignment} (fault : c.IsFault m f)
    (agree : Extends c M x) {units : List Clause} (models : Models M (c.tpgClauses f g units)) :
    c.Detects m f x := by
  obtain ⟨vars, cmp, good, faulty⟩ := base.values_of_model wf fault agree models
  obtain ⟨n, hn, differ⟩ := cmp.some_difference vars
  obtain ⟨hlt, tpo⟩ := List.mem_filter.mp hn
  have hlt := List.mem_range.mp hlt
  have inCone : g.normalScopeInDetectionCone n = true := (base.detection n).mpr (.root tpo)
  rw [good n hlt (base.required_of_detection inCone), faulty n hlt inCone] at differ
  refine ⟨⟨n, ((base.tpo n).mp tpo).1, differ⟩, fun e he => ?_⟩
  have required : g.normalScopeRequiredNet e = true :=
    (base.needed e).mpr (.root (.inr he))
  have excited := (wf.dchain n hlt differ).1
  rw [Differs, wf.faulty_site fault.netLt] at excited
  exact ⟨by rw [← good e (exc_lt wf fault e he) required]; exact cmp.exc e he,
    Bool.eq_not.mpr excited⟩

end Semantics

/-! ### From a detecting assignment to a model -/

/-- The net lies on a D-chain to an observed net. -/
def OnChain (c : Netlist) (f : FNODE) (g : Globals) (x : c.Assignment) (n : Nat) : Prop :=
  c.Differs f x n ∧ ∃ t, g.tpo t = true ∧ Relation.ReflTransGen (c.ChainStep f x) n t

/-- The variables that are true when the inputs have the values of `x`. -/
def ChainTrue (c : Netlist) (f : FNODE) (g : Globals) (x : c.Assignment) (v : Nat) : Prop :=
  (∃ n < c.nNet, c.varsgc n = v ∧ c.good x n = true) ∨
    (∃ n, g.tfo n = true ∧ g.varsfc n = v ∧ c.faulty f x n = true) ∨
    (∃ n, g.tfo n = true ∧ g.varprop n = v ∧ OnChain c f g x n) ∨
    (∃ p ∈ (c.comparedNets g).zipIdx (g.totalVars + 1), p.2 = v ∧ c.Differs f x p.1) ∨
    v = g.totalVars + (c.comparedNets g).length + 1

open Classical in
/-- The model that a detecting assignment extends to. -/
noncomputable def chainModel (c : Netlist) (f : FNODE) (g : Globals) (x : c.Assignment) (v : Nat) :
    Bool :=
  decide (ChainTrue c f g x v)

theorem chainModel_iff {g : Globals} {x : c.Assignment} {v : Nat} :
    chainModel c f g x v = true ↔ ChainTrue c f g x v := by
  classical
  exact decide_eq_true_iff

section ChainModel

variable {g : Globals} {x : c.Assignment} (wf : c.WellFormed m) (base : TpgBase c m f g)

include base

omit base in
private theorem compared_range {p : Nat × Nat}
    (hp : p ∈ (c.comparedNets g).zipIdx (g.totalVars + 1)) :
    g.totalVars < p.2 ∧ p.2 ≤ g.totalVars + (c.comparedNets g).length := by
  have low := List.le_snd_of_mem_zipIdx hp
  have high := List.snd_lt_add_of_mem_zipIdx hp
  omega

include wf

theorem chainModel_gc {n : Nat} (hn : n < c.nNet) :
    chainModel c f g x (c.varsgc n) = c.good x n := by
  have le := wf.varsgc_le n
  have bound : c.constVars ≤ g.totalVars := by
    obtain ⟨k, hk⟩ := base.vars.even
    omega
  rw [Bool.eq_iff_iff, chainModel_iff]
  constructor
  · rintro (⟨k, hk, same, value⟩ | ⟨k, hk, same, -⟩ | ⟨k, hk, same, -⟩ | ⟨p, hp, same, -⟩ | same)
    · rwa [← wf.varsgc_inj hk same]
    · obtain ⟨j, h1, -, -⟩ := base.vars.pair k hk
      omega
    · obtain ⟨j, -, h2, -⟩ := base.vars.pair k hk
      omega
    · have := compared_range hp
      omega
    · omega
  · exact fun value => .inl ⟨n, hn, rfl, value⟩

theorem chainModel_fc {n : Nat} (hn : g.tfo n = true) :
    chainModel c f g x (g.varsfc n) = c.faulty f x n := by
  obtain ⟨j, h1, h2, h3⟩ := base.vars.pair n hn
  rw [Bool.eq_iff_iff, chainModel_iff]
  constructor
  · rintro (⟨k, hk, same, -⟩ | ⟨k, hk, same, value⟩ | ⟨k, hk, same, -⟩ | ⟨p, hp, same, -⟩ | same)
    · have := wf.varsgc_le k
      omega
    · rwa [← base.vars.inj k n hk hn same]
    · obtain ⟨i, -, h, -⟩ := base.vars.pair k hk
      omega
    · have := compared_range hp
      omega
    · omega
  · exact fun value => .inr (.inl ⟨n, hn, rfl, value⟩)

theorem chainModel_prop {n : Nat} (hn : g.tfo n = true) :
    chainModel c f g x (g.varprop n) = true ↔ OnChain c f g x n := by
  obtain ⟨j, h1, h2, h3⟩ := base.vars.pair n hn
  rw [chainModel_iff]
  constructor
  · rintro (⟨k, hk, same, -⟩ | ⟨k, hk, same, -⟩ | ⟨k, hk, same, chain⟩ | ⟨p, hp, same, -⟩ | same)
    · have := wf.varsgc_le k
      omega
    · obtain ⟨i, h, -, -⟩ := base.vars.pair k hk
      omega
    · obtain ⟨i, h, h', -⟩ := base.vars.pair k hk
      rwa [← base.vars.inj k n hk hn (by omega)]
    · have := compared_range hp
      omega
    · omega
  · exact fun chain => .inr (.inr (.inl ⟨n, hn, rfl, chain⟩))

theorem chainModel_diff {p : Nat × Nat} (hp : p ∈ (c.comparedNets g).zipIdx (g.totalVars + 1)) :
    chainModel c f g x p.2 = true ↔ c.Differs f x p.1 := by
  have range := compared_range hp
  have bound : c.constVars ≤ g.totalVars := by
    obtain ⟨k, hk⟩ := base.vars.even
    omega
  rw [chainModel_iff]
  constructor
  · rintro (⟨k, hk, same, -⟩ | ⟨k, hk, same, -⟩ | ⟨k, hk, same, -⟩ | ⟨q, hq, same, differs⟩ | same)
    · have := wf.varsgc_le k
      omega
    · obtain ⟨i, h1, h2, h3⟩ := base.vars.pair k hk
      omega
    · obtain ⟨i, h1, h2, h3⟩ := base.vars.pair k hk
      omega
    · have hp' := (List.mem_zipIdx_iff_le_and_getElem?_sub.mp hp).2
      have hq' := (List.mem_zipIdx_iff_le_and_getElem?_sub.mp hq).2
      rw [same] at hq'
      rwa [← Option.some.inj (hq'.symm.trans hp')]
    · omega
  · exact fun differs => .inr (.inr (.inr (.inl ⟨p, hp, rfl, differs⟩)))

omit wf base in
theorem chainModel_last : chainModel c f g x (g.totalVars + (c.comparedNets g).length + 1) = true := by
  rw [chainModel_iff]
  exact .inr (.inr (.inr (.inr rfl)))

/-- The faulty-circuit variables have the faulty values everywhere: outside the fanout both agree. -/
theorem chainModel_varsfc {n : Nat} (hn : n < c.nNet) :
    chainModel c f g x (g.varsfc n) = c.faulty f x n := by
  cases tfo : g.tfo n with
  | true => exact chainModel_fc wf base tfo
  | false =>
      rw [base.vars.outside n tfo, chainModel_gc wf base hn]
      apply wf.good_eq_faulty n hn
      intro reached
      rw [(base.tfo n).mpr reached] at tfo
      cases tfo

/-- A net on a chain is in the detection cone. -/
theorem OnChain.inCone {n : Nat} (hn : n < c.nNet) (chain : OnChain c f g x n) :
    g.normalScopeInDetectionCone n = true := by
  obtain ⟨-, t, tpo, path⟩ := chain
  rw [base.detection]
  have ht : t < c.nNet := wf.observedLt t ((base.tpo t).mp tpo).1
  induction path using Relation.ReflTransGen.head_induction_on with
  | refl => exact .root tpo
  | @head a b step rest ih =>
      have hb : b < c.nNet := wf.outsLt a hn b step.1
      exact (ih hb).edge ((wf.mem_outs_iff hn hb).mp step.1)

/-- The D-chain clauses hold: a net on a chain differs, and unless it is observed the chain goes on. -/
theorem chainModel_propClauses {n : Nat} (hn : n < c.nNet) :
    Models (chainModel c f g x) (c.propClauses g n) := by
  unfold propClauses
  split
  · rename_i inside
    simp only [Bool.and_eq_true] at inside
    have tfo := inside.1
    obtain ⟨j, h1, h2, h3⟩ := base.vars.pair n tfo
    have posProp : ∀ k, g.tfo k = true → 0 < g.varprop k := by
      intro k hk
      obtain ⟨i, -, h, -⟩ := base.vars.pair k hk
      omega
    have posFc : 0 < g.varsfc n := by omega
    have posGc := wf.varsgc_pos hn
    have gc := chainModel_gc (f := f) (x := x) wf base hn
    have fc := chainModel_fc (x := x) wf base tfo
    have prop := chainModel_prop (x := x) wf base tfo
    rw [models_append]
    constructor
    · split
      · rename_i goesOn
        simp only [Bool.and_eq_true, Bool.not_eq_true', List.isEmpty_eq_false_iff] at goesOn
        rw [models_cons]
        refine ⟨?_, models_nil _⟩
        rw [holds_cons, litHolds_lit (posProp n tfo)]
        by_cases chain : OnChain c f g x n
        · right
          obtain ⟨t, tpo, path⟩ := chain.2
          rcases Relation.ReflTransGen.cases_head path with rfl | ⟨b, step, rest⟩
          · rw [tpo] at goesOn
            cases goesOn.2
          · have hb : b < c.nNet := wf.outsLt n hn b step.1
            have tfoB : g.tfo b = true :=
              (base.tfo b).mpr (((base.tfo n).mp tfo).edge step.1)
            have chainB : OnChain c f g x b := ⟨step.2, t, tpo, rest⟩
            refine ⟨lit true (g.varprop b), List.mem_map.mpr ⟨b, ?_, rfl⟩, ?_⟩
            · exact List.mem_filter.mpr ⟨step.1, chainB.inCone wf base hb⟩
            · rw [litHolds_lit (posProp b tfoB)]
              exact (chainModel_prop wf base tfoB).mpr chainB
        · left
          rw [← Bool.not_eq_true]
          exact fun h => chain (prop.mp h)
      · exact models_nil _
    · simp only [models_cons, models_nil, and_true, holds_cons, holds_nil_iff, or_false,
        litHolds_lit (posProp n tfo), litHolds_lit posGc, litHolds_lit posFc, gc, fc]
      by_cases chain : OnChain c f g x n
      · have differs := chain.1
        rw [Differs] at differs
        cases hg : c.good x n <;> cases hf : c.faulty f x n <;> simp_all
      · have off : chainModel c f g x (g.varprop n) = false := by
          rw [← Bool.not_eq_true]
          exact fun h => chain (prop.mp h)
        simp [off]
  · exact models_nil _

theorem chainModel_comparator (fault : c.IsFault m f) (det : c.Detects m f x)
    (vars : ComparatorVars c f g) : ComparatorModel c f g (chainModel c f g x) := by
  obtain ⟨⟨o, ho, differs⟩, excited⟩ := id det
  have ho' := wf.observedLt o ho
  have atSite := (wf.dchain o ho' differs).1
  have reached : c.InFanout f o := by
    by_contra out
    exact differs (wf.good_eq_faulty o ho' out)
  have compared : o ∈ c.comparedNets g :=
    List.mem_filter.mpr ⟨List.mem_range.mpr ho',
      (base.tpo o).mpr ⟨ho, (base.tfo o).mpr reached⟩⟩
  obtain ⟨i, hi, hio⟩ := List.getElem_of_mem compared
  have mem : (o, g.totalVars + 1 + i) ∈ (c.comparedNets g).zipIdx (g.totalVars + 1) := by
    rw [List.mk_mem_zipIdx_iff_le_and_getElem?_sub]
    refine ⟨by omega, ?_⟩
    rw [Nat.add_sub_cancel_left, List.getElem?_eq_getElem hi, hio]
  have diffTrue := (chainModel_diff (x := x) wf base mem).mpr differs
  have detect : chainModel c f g x (c.detectVar g) = true := by
    unfold detectVar
    split
    · exact chainModel_last
    · rename_i several
      have last : g.totalVars + (c.comparedNets g).length = g.totalVars + 1 + i := by omega
      rw [last]
      exact diffTrue
  refine ⟨?_, ?_, ?_, ?_, ?_, detect⟩
  · intro p hp
    have hlt : p.1 < c.nNet :=
      List.mem_range.mp (List.mem_filter.mp (List.fst_mem_of_mem_zipIdx hp)).1
    rw [chainModel_gc wf base hlt, chainModel_varsfc wf base hlt, Bool.eq_iff_iff,
      chainModel_diff wf base hp, Bool.xor_iff_ne]
    rfl
  · intro _
    refine iff_of_true detect ⟨g.totalVars + 1 + i, ?_, diffTrue⟩
    exact List.mem_range'_1.mpr ⟨by omega, by omega⟩
  · rw [chainModel_gc wf base fault.netLt]
    rw [Differs, wf.faulty_site fault.netLt] at atSite
    exact Bool.eq_not.mpr atSite
  · rw [chainModel_varsfc wf base fault.netLt, wf.faulty_site fault.netLt]
  · intro e he
    rw [chainModel_gc wf base (vars.exc e he)]
    exact (excited e (by rw [he]; rfl)).1

/-- Every detecting assignment extends to a model. -/
theorem TpgBase.model_of_detects (fault : c.IsFault m f) (det : c.Detects m f x)
    {units : List Clause} (essential : EssentialUnits c m f g units) :
    Models (chainModel c f g x) (c.tpgClauses f g units) := by
  have normal : ∀ n ∈ List.range c.nNet, Models (chainModel c f g x) (c.normalClauses g n) := by
    intro n hn
    have hn := List.mem_range.mp hn
    rw [normalClauses_models wf hn]
    intro _ gate
    rw [chainModel_gc wf base hn, wf.good_gate hn gate]
    congr 1
    exact List.map_congr_left fun i hi => (chainModel_gc wf base (wf.insLt n hn i hi)).symm
  obtain ⟨o, ho, differs, -⟩ := wf.detects_end fault det
  have ho' := wf.observedLt o ho
  have reached : c.InFanout f o := by
    by_contra out
    exact differs (wf.good_eq_faulty o ho' out)
  have tpo : g.tpo o = true := (base.tpo o).mpr ⟨ho, (base.tfo o).mpr reached⟩
  have some : g.numtranpo ≠ 0 := by
    rw [base.count]
    exact (List.length_pos_of_mem (List.mem_filter.mpr ⟨List.mem_range.mpr ho', tpo⟩)).ne'
  obtain ⟨atSite, path⟩ := wf.dchain o ho' differs
  have siteTfo : g.tfo f.netptr = true := (base.tfo _).mpr (.root rfl)
  rw [tpgClauses, models_append, models_flatMap, if_neg some, models_append, models_append,
    models_append, models_flatMap, models_cons, models_flatMap]
  refine ⟨⟨⟨⟨?_, ?_, ?_⟩, ?_⟩, ?_⟩, normal⟩
  · intro n hn
    have hn := List.mem_range.mp hn
    rw [fcClauses_models wf base hn]
    intro _ other _ gate
    rw [chainModel_varsfc wf base hn, wf.faulty_gate hn other gate]
    congr 1
    exact List.map_congr_left fun i hi => (chainModel_varsfc wf base (wf.insLt n hn i hi)).symm
  · obtain ⟨j, -, h, -⟩ := base.vars.pair _ siteTfo
    rw [holds_cons, litHolds_lit (by omega)]
    exact .inl ((chainModel_prop wf base siteTfo).mpr ⟨atSite, o, tpo, path⟩)
  · exact fun n hn => chainModel_propClauses wf base (List.mem_range.mp hn)
  · have vars := base.comparatorVars wf fault some
    exact (comparator_models vars _).mpr (chainModel_comparator wf base fault det vars)
  · intro cl hcl
    obtain ⟨n, v, hn, -, value, rfl⟩ := essential cl hcl
    rw [holds_cons, litHolds_lit (wf.varsgc_pos hn), chainModel_gc wf base hn]
    exact .inl (value x det)

/-- The model gives the inputs their values. -/
theorem chainModel_extends : Extends c (chainModel c f g x) x := by
  intro k hk
  have mem : c.pi[k] ∈ c.pi := List.getElem_mem hk
  obtain ⟨hn, isIN⟩ := (wf.piMem _).mp mem
  rw [chainModel_gc wf base hn, wf.good_IN hn isIN, wf.piValue_pi x hk]

end ChainModel

/-! ### The clause set of a fault -/

/-- No literal of the clause set is 0, so the solver reads back the clauses that were sent. -/
theorem TpgBase.ne_zero {g : Globals} (wf : c.WellFormed m) (base : TpgBase c m f g)
    (fault : c.IsFault m f) {units : List Clause} (essential : EssentialUnits c m f g units) :
    ∀ cl ∈ c.tpgClauses f g units, ∀ l ∈ cl, l ≠ 0 := by
  have posProp : ∀ n, g.tfo n = true → 0 < g.varprop n := by
    intro n hn
    obtain ⟨k, -, h, -⟩ := base.vars.pair n hn
    omega
  have fcPart : ∀ n < c.nNet, ∀ cl ∈ c.fcClauses g n, ∀ l ∈ cl, l ≠ 0 := by
    intro n hn cl hcl
    obtain ⟨cls, eq, nonzero, -⟩ := gateCons_spec g.varsfc (wf.arity n hn)
      (base.varsfc_pos wf n hn) (fun i hi => base.varsfc_pos wf i (wf.insLt n hn i hi))
    unfold fcClauses at hcl
    split at hcl
    · rw [eq, Option.getD_some] at hcl
      exact nonzero cl hcl
    · exact absurd hcl List.not_mem_nil
  have propPart : ∀ n < c.nNet, ∀ cl ∈ c.propClauses g n, ∀ l ∈ cl, l ≠ 0 := by
    intro n hn cl hcl l hl
    unfold propClauses at hcl
    split at hcl
    · rename_i inside
      simp only [Bool.and_eq_true] at inside
      have prop := posProp n inside.1
      rcases List.mem_append.mp hcl with hcl | hcl
      · split at hcl
        · rw [List.mem_singleton.mp hcl] at hl
          rcases List.mem_cons.mp hl with rfl | hl
          · exact lit_ne_zero prop
          · obtain ⟨o, ho, rfl⟩ := List.mem_map.mp hl
            have tfo : g.tfo o = true :=
              (base.tfo o).mpr (((base.tfo n).mp inside.1).edge (List.mem_filter.mp ho).1)
            exact lit_ne_zero (posProp o tfo)
        · exact absurd hcl List.not_mem_nil
      · rcases List.mem_pair.mp hcl with rfl | rfl <;>
          simp only [List.mem_cons, List.not_mem_nil, or_false] at hl <;>
          rcases hl with rfl | rfl | rfl <;>
          first
          | exact lit_ne_zero prop
          | exact lit_ne_zero (wf.varsgc_pos hn)
          | exact lit_ne_zero (base.varsfc_pos wf n hn)
    · exact absurd hcl List.not_mem_nil
  have normalPart : ∀ n < c.nNet, ∀ cl ∈ c.normalClauses g n, ∀ l ∈ cl, l ≠ 0 := by
    intro n hn cl hcl
    by_cases gate : c.type n = .IN
    · simp [normalClauses, consgc, gate] at hcl
    · obtain ⟨cls, eq, nonzero, -⟩ := wf.consgc_spec hn gate
      rw [normalClauses, eq] at hcl
      simp only at hcl
      split at hcl
      · exact nonzero cl hcl
      · exact absurd hcl List.not_mem_nil
  intro cl hcl l hl
  rcases List.mem_append.mp hcl with hcl | hcl
  · split at hcl
    · rw [List.mem_singleton.mp hcl] at hl
      exact absurd hl List.not_mem_nil
    · rename_i some
      simp only [List.mem_append, List.mem_cons] at hcl
      rcases hcl with ((hcl | rfl | hcl) | hcl) | hcl
      · obtain ⟨n, hn, hcl⟩ := List.mem_flatMap.mp hcl
        exact fcPart n (List.mem_range.mp hn) cl hcl l hl
      · rw [List.mem_singleton.mp hl]
        exact lit_ne_zero (posProp _ ((base.tfo _).mpr (.root rfl)))
      · obtain ⟨n, hn, hcl⟩ := List.mem_flatMap.mp hcl
        exact propPart n (List.mem_range.mp hn) cl hcl l hl
      · exact comparator_ne_zero (base.comparatorVars wf fault some) cl hcl l hl
      · obtain ⟨n, v, hn, -, -, rfl⟩ := essential cl hcl
        rw [List.mem_singleton.mp hl]
        exact lit_ne_zero (wf.varsgc_pos hn)
  · obtain ⟨n, hn, hcl⟩ := List.mem_flatMap.mp hcl
    exact normalPart n (List.mem_range.mp hn) cl hcl l hl

/-- The models of the clause set, restricted to the inputs, are the detecting assignments. -/
theorem tpg_models_iff {g : Globals} (wf : c.WellFormed m) (base : TpgBase c m f g)
    (fault : c.IsFault m f) {units : List Clause} (essential : EssentialUnits c m f g units)
    (x : c.Assignment) :
    (∃ M, Extends c M x ∧ Models M (c.tpgClauses f g units)) ↔ c.Detects m f x :=
  ⟨fun ⟨_, agree, models⟩ => base.detects_of_model wf fault agree models,
    fun det => ⟨_, chainModel_extends wf base, base.model_of_detects wf fault det essential⟩⟩

end Netlist

/-- `WriteTPGModel` encodes detection: run on a fresh solver in any idle state it succeeds, and an input
assignment extends to a model of the clauses it sent exactly when it detects the fault. When the fault
reaches no observed net the clauses have no model at all. -/
theorem writeTPGModel_encodes (k : Circuit) (f : FNODE) (fault : k.netlist.IsFault k.model f)
    (g : Globals) (idle : g.stack = []) :
    ∃ g', k.netlist.writeTPGModel k.model f { g with solver := [] } = some (true, g') ∧
      g'.exited = g.exited ∧
      (∀ x, (∃ M, k.netlist.Extends M x ∧ Models M (parse g'.literals)) ↔
        k.netlist.Detects k.model f x) ∧
      ((∀ o ∈ k.netlist.observed k.model, ¬ k.netlist.InFanout f o) →
        ¬ ∃ M, Models M (parse g'.literals)) := by
  have wf := k.wellFormed
  obtain ⟨g₂, g', units, run, base, essential, solver, -, -, exited, -⟩ :=
    Netlist.writeTPGModel_spec wf fault (g := { g with solver := [] }) idle
  have readBack : parse g'.literals = k.netlist.tpgClauses f g₂ units := by
    rw [Globals.literals, solver, List.nil_append]
    exact parse_stream _ (base.ne_zero wf fault essential)
  refine ⟨g', run, exited, fun x => ?_, ?_⟩
  · rw [readBack]
    exact Netlist.tpg_models_iff wf base fault essential x
  rintro unobserved ⟨M, models⟩
  rw [readBack] at models
  have agree : k.netlist.Extends M fun i => M (k.netlist.varsgc (k.netlist.pi.get i)) :=
    fun _ _ => rfl
  obtain ⟨⟨o, ho, differs⟩, -⟩ := base.detects_of_model wf fault agree models
  exact differs (wf.good_eq_faulty o (wf.observedLt o ho) (unobserved o ho))

theorem writeTPGModel_encodes_and :
    ∃ g', andCircuit.netlist.writeTPGModel andCircuit.model andFault initGlobalVars =
        some (true, g') ∧
      g'.exited = false ∧
      (∀ x, (∃ M, andCircuit.netlist.Extends M x ∧ Models M (parse g'.literals)) ↔
        andCircuit.netlist.Detects andCircuit.model andFault x) ∧
      ((∀ o ∈ andCircuit.netlist.observed andCircuit.model,
          ¬ andCircuit.netlist.InFanout andFault o) →
        ¬ ∃ M, Models M (parse g'.literals)) :=
  writeTPGModel_encodes andCircuit andFault andFault_isFault initGlobalVars rfl

end SafRprGen
