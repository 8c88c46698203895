/-
Module: SafRprGen.Fdp.History
Layer: Fdp
Purpose: The clauses of a fault do not depend on what the globals were used for before. The searches
  overwrite all they read except the D-chain variables outside the fanout; the essential assignment
  overwrites all it reads except the dead cells of its queue. Two runs stay alike step by step.
Main exports: TfoAlike, TargetAlike, EaAlike, writeTPGModel_alike
-/
import SafRprGen.Fdp.TpgModel

namespace SafRprGen

open Dimacs Search

namespace Netlist

variable {c : Netlist} {m : FaultModel} {f : FNODE} {g g' : Globals}

/-! ### The searches -/

/-- Two states of `SearchTFO` that agree on what it reads; the D-chain variables of nets outside the
fanout may be left over from other faults. -/
structure TfoAlike (g g' : Globals) : Prop where
  stack : g'.stack = g.stack
  tfo : g'.tfo = g.tfo
  totalVars : g'.totalVars = g.totalVars
  varsfc : g'.varsfc = g.varsfc
  varprop : ∀ n, g.tfo n = true → g'.varprop n = g.varprop n

theorem TfoAlike.push (alike : TfoAlike g g') (n : Nat) :
    TfoAlike (c.stackPUSH g n) (c.stackPUSH g' n) where
  stack := congrArg (n :: ·) alike.stack
  tfo := alike.tfo
  totalVars := alike.totalVars
  varsfc := alike.varsfc
  varprop := alike.varprop

theorem TfoAlike.pass (alike : TfoAlike g g') :
    Option.Rel TfoAlike (c.searchTFOPass g) (c.searchTFOPass g') := by
  obtain ⟨stack, tfo, totalVars, varsfc, varprop⟩ := alike
  unfold searchTFOPass
  rw [stack]
  cases g.stack with
  | nil => exact .none
  | cons n rest =>
      dsimp only
      rw [tfo]
      cases seen : g.tfo n with
      | true => exact .some ⟨rfl, rfl, totalVars, varsfc, varprop⟩
      | false =>
          apply Option.Rel.some
          apply List.foldl_rel
          · refine ⟨rfl, rfl, ?_, ?_, ?_⟩
            · simp only [totalVars]
            · simp only [varsfc, totalVars]
            · intro k hk
              by_cases here : k = n
              · simp only [here, Function.update_self, totalVars]
              · simp only [Function.update_of_ne here] at hk ⊢
                exact varprop k hk
          · exact fun o _ h h' related => related.push o

theorem searchTFO_alike (f : FNODE) (idle : g.stack = []) (idle' : g'.stack = [])
    (total : g'.totalVars = g.totalVars) :
    Option.Rel TfoAlike (c.searchTFO f g) (c.searchTFO f g') := by
  unfold searchTFO
  apply Loop.whileLoop_lockstep TfoAlike
  · exact fun _ _ alike => alike.pass
  apply TfoAlike.push
  exact ⟨idle'.trans idle.symm, rfl, total, rfl, fun _ h => by cases h⟩

/-- Two states that agree on all that describes the current fault. -/
structure TargetAlike (g g' : Globals) : Prop where
  fp : g'.fp = g.fp
  tfo : g'.tfo = g.tfo
  tpo : g'.tpo = g.tpo
  totalVars : g'.totalVars = g.totalVars
  varsfc : g'.varsfc = g.varsfc
  varprop : ∀ n, g.tfo n = true → g'.varprop n = g.varprop n
  numtranpo : g'.numtranpo = g.numtranpo
  needed : g'.normalScopeRequiredNet = g.normalScopeRequiredNet
  detection : g'.normalScopeInDetectionCone = g.normalScopeInDetectionCone

/-- The fault determines its fanout, its observed nets and its scope. -/
theorem TpgBase.determined (base : TpgBase c m f g) (base' : TpgBase c m f g') :
    g'.fp = g.fp ∧ g'.tfo = g.tfo ∧ g'.tpo = g.tpo ∧
      g'.normalScopeRequiredNet = g.normalScopeRequiredNet ∧
      g'.normalScopeInDetectionCone = g.normalScopeInDetectionCone := by
  have tfo : g'.tfo = g.tfo := by
    funext n
    rw [Bool.eq_iff_iff, base'.tfo, base.tfo]
  have tpo : g'.tpo = g.tpo := by
    funext n
    rw [Bool.eq_iff_iff, base'.tpo, base.tpo, tfo]
  refine ⟨?_, tfo, tpo, ?_, ?_⟩
  · funext n
    rw [Bool.eq_iff_iff, base'.fp, base.fp]
  · funext n
    rw [Bool.eq_iff_iff, base'.needed, base.needed, tpo]
  · funext n
    rw [Bool.eq_iff_iff, base'.detection, base.detection, tpo]

theorem searches_alike (wf : c.WellFormed m) (fault : c.IsFault m f) (idle : g.stack = [])
    (idle' : g'.stack = []) {g₁ g₂ g₁' g₂' : Globals}
    (search : c.searchTFO f { g with totalVars := c.constVars } = some g₁)
    (search' : c.searchTFO f { g' with totalVars := c.constVars } = some g₁')
    (build : c.normalScopeBuild m f g₁ = some g₂) (build' : c.normalScopeBuild m f g₁' = some g₂')
    (base : TpgBase c m f g₂) (base' : TpgBase c m f g₂') : TargetAlike g₂ g₂' := by
  have kept : ∀ {h h₂ : Globals}, c.normalScopeBuild m f h = some h₂ →
      h₂.varsfc = h.varsfc ∧ h₂.varprop = h.varprop ∧ h₂.totalVars = h.totalVars ∧ h₂.tfo = h.tfo := by
    intro h h₂ run
    obtain ⟨h', run', built⟩ := normalScopeBuild_spec wf.searchable (exc_lt wf fault) h
    rw [run] at run'
    cases run'
    exact ⟨by rw [built.frame], by rw [built.frame], by rw [built.frame], by rw [built.frame]⟩
  have both := @searchTFO_alike c { g with totalVars := c.constVars }
    { g' with totalVars := c.constVars } f idle idle' rfl
  rw [search, search'] at both
  cases both with
  | some alike =>
      obtain ⟨varsfc, varprop, total, tfo⟩ := kept build
      obtain ⟨varsfc', varprop', total', tfo'⟩ := kept build'
      obtain ⟨sameFp, sameTfo, sameTpo, needed, detection⟩ := base.determined base'
      refine ⟨sameFp, sameTfo, sameTpo, ?_, ?_, ?_, ?_, needed, detection⟩
      · rw [total', total, alike.totalVars]
      · rw [varsfc', varsfc, alike.varsfc]
      · intro n hn
        rw [varprop', varprop]
        exact alike.varprop n (tfo ▸ hn)
      · rw [base'.count, base.count, comparedNets, comparedNets, sameTpo]

/-! ### The clauses -/

/-- Every part of the clause set but the units reads only what describes the fault. -/
theorem TargetAlike.clauses (alike : TargetAlike g g') (base : TpgBase c m f g) :
    c.fcClauses g' = c.fcClauses g ∧ g'.varprop f.netptr = g.varprop f.netptr ∧
      c.propClauses g' = c.propClauses g ∧ c.comparatorClauses f g' = c.comparatorClauses f g := by
  obtain ⟨fp, tfo, tpo, total, varsfc, varprop, -, -, detection⟩ := alike
  have compared : c.comparedNets g' = c.comparedNets g := by
    unfold comparedNets
    rw [tpo]
  have detect : c.detectVar g' = c.detectVar g := by
    unfold detectVar
    rw [compared, total]
  refine ⟨?_, ?_, ?_, ?_⟩
  · funext n
    unfold fcClauses
    rw [fp, tfo, varsfc, detection]
  · exact varprop _ ((base.tfo _).mpr (.root rfl))
  · funext n
    unfold propClauses
    rw [tfo, tpo, varsfc, detection]
    cases inside : g.tfo n with
    | false => rfl
    | true =>
        -- the outputs of a net of the fanout are in the fanout as well
        have outs : ((c.outs n).filter g.normalScopeInDetectionCone).map
              (fun o => lit true (g'.varprop o)) =
            ((c.outs n).filter g.normalScopeInDetectionCone).map fun o => lit true (g.varprop o) := by
          apply List.map_congr_left
          intro o ho
          rw [varprop o ((base.tfo o).mpr (((base.tfo n).mp inside).edge (List.mem_filter.mp ho).1))]
        rw [outs, varprop n inside]
  · rw [comparatorClauses_split, comparatorClauses_split, compared, total, detect, varsfc]
    simp only [exciteClauses]

/-! ### The essential assignment -/

/-- Two states of the essential assignment that agree on what it reads and writes. -/
structure EaAlike (c : Netlist) (g g' : Globals) : Prop where
  scope : g'.normalScopeRequiredNet = g.normalScopeRequiredNet
  logicValue : g'.logicValue = g.logicValue
  eaFlag : g'.eaFlag = g.eaFlag
  uniqueFlag : g'.uniqueFlag = g.uniqueFlag
  que : RingQueue.Alike c.queMaxnum g.que g'.que
  solver : g'.solver = g.solver

theorem EaAlike.queENQ (alike : EaAlike c g g') (n : Nat) :
    EaAlike c (c.queENQ g n) (c.queENQ g' n) := by
  obtain ⟨scope, logicValue, eaFlag, uniqueFlag, que, solver⟩ := alike
  unfold Netlist.queENQ
  rw [que.count]
  split
  · exact ⟨scope, logicValue, eaFlag, uniqueFlag, que, solver⟩
  · rename_i space
    exact ⟨scope, logicValue, eaFlag, uniqueFlag, que.enqueue (Nat.lt_of_not_le space) n, solver⟩

theorem EaAlike.assign (alike : EaAlike c g g') (n : Nat) (v : Bool) :
    EaAlike c (c.assignEaValue g n v) (c.assignEaValue g' n v) := by
  obtain ⟨scope, logicValue, eaFlag, uniqueFlag, que, solver⟩ := id alike
  unfold assignEaValue
  rw [eaFlag]
  split
  · exact alike
  · have marked : EaAlike c
        { g with
          eaFlag := Function.update g.eaFlag n true
          logicValue := Function.update g.logicValue n v }
        { g' with
          eaFlag := Function.update g.eaFlag n true
          logicValue := Function.update g'.logicValue n v } :=
      ⟨scope, by simp only [logicValue], rfl, uniqueFlag, que, solver⟩
    dsimp only
    rw [marked.scope]
    split
    · apply EaAlike.queENQ
      exact ⟨marked.scope, marked.logicValue, marked.eaFlag, marked.uniqueFlag, marked.que,
        congrArg (· ++ _) solver⟩
    · exact marked.queENQ n

theorem EaAlike.assignUnique (alike : EaAlike c g g') (t uniqueIdx : Nat) :
    EaAlike c (c.assignUniqueValue g t uniqueIdx) (c.assignUniqueValue g' t uniqueIdx) := by
  unfold assignUniqueValue
  split
  · exact alike
  · cases (c.type t).ctrl with
    | none => exact alike
    | some v =>
        apply List.foldl_rel alike
        intro i _ h h' related
        dsimp only
        rw [related.uniqueFlag, related.eaFlag]
        split
        · exact related
        · exact related.assign _ _

/-- Two states of the walk. -/
structure UniqueAlike (c : Netlist) (s s' : UniqueState) : Prop where
  ea : EaAlike c s.g s'.g
  que2 : s'.que2 = s.que2
  obsSeen : s'.obsSeen = s.obsSeen

theorem EaAlike.flag (alike : EaAlike c g g') (n : Nat) (flag : UniqueFlag) :
    EaAlike c { g with uniqueFlag := Function.update g.uniqueFlag n flag }
      { g' with uniqueFlag := Function.update g'.uniqueFlag n flag } :=
  ⟨alike.scope, alike.logicValue, alike.eaFlag, by simp only [alike.uniqueFlag], alike.que,
    alike.solver⟩

theorem uniquePush_alike {s s' : Globals × RingQueue Nat} (ea : EaAlike c s.1 s'.1)
    (que2 : s'.2 = s.2) (o : Nat) :
    EaAlike c (c.uniquePush s o).1 (c.uniquePush s' o).1 ∧
      (c.uniquePush s' o).2 = (c.uniquePush s o).2 := by
  unfold uniquePush
  rw [ea.uniqueFlag]
  split
  · exact ⟨ea, que2⟩
  · simp only [que2Enq, que2, and_true]
    exact ⟨ea.scope, ea.logicValue, ea.eaFlag, by simp only [ea.uniqueFlag], ea.que, ea.solver⟩

theorem uniqueExpand_alike {s s' : UniqueState} (alike : UniqueAlike c s s') (t : Nat) :
    Option.Rel (UniqueAlike c) (c.uniqueExpand t s) (c.uniqueExpand t s') := by
  have pushed := List.foldl_rel (l := c.outs t) (f := c.uniquePush) (g := c.uniquePush)
    (a := (s.g, s.que2)) (b := (s'.g, s'.que2))
    (r := fun p p' => EaAlike c p.1 p'.1 ∧ p'.2 = p.2) ⟨alike.ea, alike.que2⟩
    (fun o _ p p' related => uniquePush_alike related.1 related.2 o)
  unfold uniqueExpand
  dsimp only
  rw [pushed.2, alike.obsSeen]
  cases c.que2Sort ((c.outs t).foldl c.uniquePush (s.g, s.que2)).2 with
  | none => exact .none
  | some que2 => exact .some ⟨pushed.1, rfl, rfl⟩

theorem uniqueTake_alike {s s' : UniqueState} (alike : UniqueAlike c s s') :
    (c.uniqueTake s').1 = (c.uniqueTake s).1 ∧
      UniqueAlike c (c.uniqueTake s).2 (c.uniqueTake s').2 := by
  unfold uniqueTake
  dsimp only
  rw [alike.que2]
  exact ⟨rfl, alike.ea.flag _ _, rfl, alike.obsSeen⟩

theorem uniqueAssign_alike {s s' : UniqueState} (alike : UniqueAlike c s s') (t : Nat) :
    UniqueAlike c (c.uniqueAssign t s) (c.uniqueAssign t s') := by
  unfold uniqueAssign
  rw [alike.que2, alike.obsSeen, alike.ea.uniqueFlag]
  split
  · cases (List.range (c.ins t).length).find?
        fun i => s.g.uniqueFlag ((c.ins t).getD i 0) = .MIDDLE with
    | none => exact alike
    | some idx => exact ⟨alike.ea.assignUnique t idx, rfl, rfl⟩
  · exact alike

theorem uniquePass_alike {o o' : Option UniqueState} (alike : Option.Rel (UniqueAlike c) o o') :
    Option.Rel (Option.Rel (UniqueAlike c)) (c.uniquePass o) (c.uniquePass o') := by
  cases alike with
  | none => exact .none
  | @some s s' alike =>
      unfold uniquePass
      dsimp only
      rw [alike.que2]
      split
      · exact .none
      · obtain ⟨same, taken⟩ := uniqueTake_alike alike
        rw [same]
        exact .some (uniqueExpand_alike (uniqueAssign_alike taken _) _)

theorem uniqueSensitization_alike (alike : EaAlike c g g') (que2 : RingQueue Nat) :
    Option.Rel (EaAlike c) (c.uniqueSensitization g que2) (c.uniqueSensitization g' que2) := by
  have start : UniqueAlike c ⟨g, que2, false⟩ ⟨g', que2, false⟩ := ⟨alike, rfl, rfl⟩
  obtain ⟨same, taken⟩ := uniqueTake_alike start
  have both := Loop.whileLoop_lockstep (Option.Rel (UniqueAlike c))
    (fun _ _ related => uniquePass_alike related) (c.nNet + 2) _ _
    (uniqueExpand_alike taken (c.uniqueTake ⟨g, que2, false⟩).1)
  unfold uniqueSensitization
  dsimp only
  rw [same]
  generalize Loop.whileLoop c.uniquePass (c.nNet + 2) _ = r at both ⊢
  generalize Loop.whileLoop c.uniquePass (c.nNet + 2) _ = r' at both ⊢
  cases both with
  | none => exact .none
  | some inner =>
      cases inner with
      | none => exact .none
      | some related => exact .some related.ea

theorem EaAlike.assignAll (alike : EaAlike c g g') (ns : List Nat) (v : Bool) :
    EaAlike c (ns.foldl (fun g i => c.assignEaValue g i v) g)
      (ns.foldl (fun g i => c.assignEaValue g i v) g') :=
  List.foldl_rel alike fun _ _ _ _ related => related.assign _ _

theorem EaAlike.back (alike : EaAlike c g g') (t : Nat) :
    EaAlike c (c.backImplication g t) (c.backImplication g' t) := by
  unfold backImplication
  dsimp only
  rw [alike.logicValue]
  split
  case h_1 | h_2 | h_3 | h_4 =>
    split
    · exact alike.assignAll _ _
    · exact alike
  case h_5 | h_6 | h_7 => exact alike.assign _ _
  case h_8 => exact alike

theorem EaAlike.forward (alike : EaAlike c g g') (t : Nat) :
    EaAlike c (c.forwardImplication g t) (c.forwardImplication g' t) := by
  apply List.foldl_rel alike
  intro out _ h h' related
  have implied : c.impliedValue h' out = c.impliedValue h out := by
    unfold impliedValue
    rw [related.eaFlag, related.logicValue]
  rw [related.eaFlag, implied]
  split
  · exact related
  · cases c.impliedValue h out with
    | none => exact related
    | some v => exact related.assign _ _

theorem EaAlike.pass (alike : EaAlike c g g') :
    Option.Rel (EaAlike c) (c.implicationPass g) (c.implicationPass g') := by
  unfold implicationPass
  rw [alike.que.count]
  split
  · exact .none
  · rename_i some
    obtain ⟨same, rest⟩ := alike.que.dequeue (Nat.pos_of_ne_zero some)
    have taken : EaAlike c (c.queDEQ g).2 (c.queDEQ g').2 :=
      ⟨alike.scope, alike.logicValue, alike.eaFlag, alike.uniqueFlag, rest, alike.solver⟩
    have net : (c.queDEQ g').1 = (c.queDEQ g).1 := same
    dsimp only
    rw [net]
    exact .some ((taken.back _).forward _)

theorem essentialAssignment_alike (hque : 0 < c.queMaxnum) (f : FNODE)
    (scope : g'.normalScopeRequiredNet = g.normalScopeRequiredNet) (solver : g'.solver = g.solver) :
    Option.Rel (EaAlike c) (c.essentialAssignment f g) (c.essentialAssignment f g') := by
  have start : EaAlike c
      { g with
        logicValue := fun _ => false, eaFlag := fun _ => false, uniqueFlag := fun _ => .DOWN
        que := g.que.reset }
      { g' with
        logicValue := fun _ => false, eaFlag := fun _ => false, uniqueFlag := fun _ => .DOWN
        que := g'.que.reset } :=
    ⟨scope, rfl, rfl, rfl, RingQueue.alike_reset hque _ _, solver⟩
  have queued : EaAlike c
      { (c.que2Enq ({ g with
          logicValue := fun _ => false, eaFlag := fun _ => false, uniqueFlag := fun _ => .DOWN
          que := g.que.reset }, ⟨fun _ => 0, 0, 0, 0⟩) f.netptr).1 with
        uniqueFlag := Function.update (fun _ => .DOWN) f.netptr .UP }
      { (c.que2Enq ({ g' with
          logicValue := fun _ => false, eaFlag := fun _ => false, uniqueFlag := fun _ => .DOWN
          que := g'.que.reset }, ⟨fun _ => 0, 0, 0, 0⟩) f.netptr).1 with
        uniqueFlag := Function.update (fun _ => .DOWN) f.netptr .UP } :=
    ⟨scope, rfl, rfl, rfl, start.que, solver⟩
  have walked := uniqueSensitization_alike queued
    (RingQueue.enqueue c.que2Maxnum ⟨fun _ => 0, 0, 0, 0⟩ f.netptr)
  have loop : ∀ {h h' : Globals}, EaAlike c h h' → Option.Rel (EaAlike c)
      (Loop.whileLoop c.implicationPass (c.nNet + 1) (c.assignEaValue h f.netptr (!f.type.stuck)))
      (Loop.whileLoop c.implicationPass (c.nNet + 1) (c.assignEaValue h' f.netptr (!f.type.stuck))) :=
    fun related => Loop.whileLoop_lockstep (EaAlike c) (fun _ _ alike => alike.pass) _ _ _
      (related.assign _ _)
  unfold essentialAssignment
  dsimp only [que2Enq] at walked ⊢
  generalize c.uniqueSensitization _ _ = r at walked ⊢
  generalize c.uniqueSensitization _ _ = r' at walked ⊢
  cases walked with
  | none => exact .none
  | some related => exact loop related

/-! ### The clause set -/

theorem loadNormalDefinition_alike (scope : g'.normalScopeRequiredNet = g.normalScopeRequiredNet)
    (solver : g'.solver = g.solver) :
    (c.loadNormalDefinition g').solver = (c.loadNormalDefinition g).solver := by
  have normal : c.normalClauses g' = c.normalClauses g := by
    funext n
    unfold normalClauses
    rw [scope]
  rw [loadNormalDefinition_eq, loadNormalDefinition_eq, normal]
  exact congrArg (· ++ _) solver

/-- Two runs of `WriteTPGModel` for one fault send the same clauses. -/
theorem writeTPGModel_alike (wf : c.WellFormed m) (fault : c.IsFault m f) (idle : g.stack = [])
    (idle' : g'.stack = []) (solver : g'.solver = g.solver) {h h' : Globals}
    (run : c.writeTPGModel m f g = some (true, h)) (run' : c.writeTPGModel m f g' = some (true, h')) :
    h'.solver = h.solver := by
  obtain ⟨g₁, g₂, search, build, base, frame⟩ := searches_spec wf fault idle
  obtain ⟨g₁', g₂', search', build', base', frame'⟩ := searches_spec wf fault idle'
  have alike := searches_alike wf fault idle idle' search search' build build' base base'
  obtain ⟨fcs, prop, props, comparator⟩ := alike.clauses base
  have solver₂ : g₂'.solver = g₂.solver := by rw [frame, frame', solver]
  simp only [writeTPGModel, createConsFC, search, search', build, build', Option.bind_some] at run run'
  rw [alike.numtranpo] at run'
  by_cases none : g₂.numtranpo = 0
  · rw [if_pos none] at run run'
    simp only [Option.map_some, if_true, Option.some.injEq, Prod.mk.injEq, true_and] at run run'
    rw [← run, ← run']
    exact loadNormalDefinition_alike alike.needed (congrArg (· ++ _) solver₂)
  · rw [if_neg none, createConsFCGates_eq wf (base.varsfc_pos wf)] at run
    rw [if_neg none, createConsFCGates_eq wf (base'.varsfc_pos wf)] at run'
    dsimp only at run run'
    rw [createConsProp_eq, createConsDC_eq (by exact base.count)] at run
    rw [createConsProp_eq, createConsDC_eq (by exact base'.count)] at run'
    have hque : 0 < c.queMaxnum := Nat.mul_pos (Nat.zero_lt_of_lt fault.netLt) (by decide)
    let clauses := fun g : Globals => g.ccadicalAddAll ((List.range c.nNet).flatMap (c.fcClauses g))
      |>.ccadicalAddAll ([lit true (g.varprop f.netptr)] ::
        (List.range c.nNet).flatMap (c.propClauses g))
    have sent : (clauses g₂').solver ++ c.comparatorClauses f (clauses g₂') =
        (clauses g₂).solver ++ c.comparatorClauses f (clauses g₂) := by
      have same : c.comparatorClauses f (clauses g₂') = c.comparatorClauses f (clauses g₂) := comparator
      rw [same]
      simp only [clauses, Globals.ccadicalAddAll, fcs, prop, props, solver₂]
    have assigned := @essentialAssignment_alike c
      { clauses g₂ with
        totalVars := c.detectVar (clauses g₂)
        solver := (clauses g₂).solver ++ c.comparatorClauses f (clauses g₂) }
      { clauses g₂' with
        totalVars := c.detectVar (clauses g₂')
        solver := (clauses g₂').solver ++ c.comparatorClauses f (clauses g₂') } hque f alike.needed sent
    change Option.map _ (Option.map _ (c.essentialAssignment f { clauses g₂ with
        totalVars := c.detectVar (clauses g₂)
        solver := (clauses g₂).solver ++ c.comparatorClauses f (clauses g₂) })) = _ at run
    change Option.map _ (Option.map _ (c.essentialAssignment f { clauses g₂' with
        totalVars := c.detectVar (clauses g₂')
        solver := (clauses g₂').solver ++ c.comparatorClauses f (clauses g₂') })) = _ at run'
    generalize c.essentialAssignment f _ = r at assigned run
    generalize c.essentialAssignment f _ = r' at assigned run'
    cases assigned with
    | none => cases run
    | some related =>
        simp only [Option.map_some, if_true, Option.some.injEq, Prod.mk.injEq, true_and] at run run'
        rw [← run, ← run']
        exact loadNormalDefinition_alike related.scope related.solver

end Netlist

end SafRprGen
