/-
Module: SafRprGen.Fdp.FaultyCircuit
Layer: Fdp
Purpose: The faulty-circuit clauses (`faulty_circuit.c`): the search for the transitive fanout of the
  fault site with its variables, the gate clauses of the faulty cone and the D-chain clauses.
Main exports: searchTFO, searchTFO_spec, createConsFCGates, createConsProp
-/
import SafRprGen.Lib.Loop
import SafRprGen.Lib.Search
import SafRprGen.Fdp.Context
import SafRprGen.Fdp.GoodCircuit

namespace SafRprGen

open Dimacs Search

namespace Netlist

variable (c : Netlist)

/-- One pass of the loop of `SearchTFO`. A net is marked when it leaves the stack. -/
def searchTFOPass (g : Globals) : Option Globals :=
  match g.stack with
  | [] => none
  | n :: rest =>
      let g := { g with stack := rest }
      if g.tfo n then some g
      else
        let g := { g with
          tfo := Function.update g.tfo n true
          varsfc := Function.update g.varsfc n (g.totalVars + 1)
          varprop := Function.update g.varprop n (g.totalVars + 2)
          totalVars := g.totalVars + 2 }
        some ((c.outs n).foldl c.stackPUSH g)

/-- `SearchTFO`. -/
def searchTFO (f : FNODE) (g : Globals) : Option Globals :=
  let g := { g with
    numtranpo := 0
    fp := fun n => decide (n = f.netptr)
    tfo := fun _ => false
    tpo := fun _ => false
    varsfc := c.varsgc }
  Loop.whileLoop c.searchTFOPass (c.nNet * 10 + 2) (c.stackPUSH g f.netptr)

/-- The gate loop of `CreateConsFC`; `none` is the early `return false` on an unsupported gate. -/
def createConsFCGates (g : Globals) : Option Globals :=
  (List.range c.nNet).foldl
    (fun acc j => acc.bind fun g =>
      if g.tfo j && !g.fp j && g.normalScopeInDetectionCone j then
        (gateCons g.varsfc (c.type j) (c.ins j) j).map g.ccadicalAddAll
      else some g)
    (some g)

/-- The clauses of `CreateConsProp` for one net: A passes `ACT` on to an output, B and C make the good
and the faulty value differ. -/
def propClauses (g : Globals) (i : Nat) : List Clause :=
  if g.tfo i && g.normalScopeInDetectionCone i then
    (if !(c.outs i).isEmpty && !g.tpo i then
      [lit false (g.varprop i) ::
        ((c.outs i).filter g.normalScopeInDetectionCone).map fun o => lit true (g.varprop o)]
    else []) ++
    [[lit false (g.varprop i), lit true (c.varsgc i), lit true (g.varsfc i)],
     [lit false (g.varprop i), lit false (c.varsgc i), lit false (g.varsfc i)]]
  else []

/-- `CreateConsProp`. -/
def createConsProp (f : FNODE) (g : Globals) : Globals :=
  (List.range c.nNet).foldl (fun g i => g.ccadicalAddAll (c.propClauses g i))
    (g.ccadicalAdd [lit true (g.varprop f.netptr)])

variable {c}

/-! ### The search -/

theorem foldl_stackPUSH :
    ∀ (ns : List Nat) (g : Globals), g.stack.length + ns.length < c.stackMaxnum →
      ns.foldl c.stackPUSH g = { g with stack := ns.reverse ++ g.stack } := by
  intro ns
  induction ns with
  | nil => intro g _; simp
  | cons n ns ih =>
      intro g space
      simp only [List.length_cons] at space
      have here : c.stackPUSH g n = { g with stack := n :: g.stack } := by
        have room : ¬ c.stackMaxnum ≤ g.stack.length + 1 := by omega
        simp [stackPUSH, room]
      rw [List.foldl_cons, here, ih _ (by simp only [List.length_cons]; omega)]
      simp

/-- The output lists the search has not pushed yet. -/
def openEdges (c : Netlist) (tfo : Nat → Bool) : Nat :=
  ∑ n ∈ Finset.range c.nNet, if tfo n then 0 else (c.outs n).length

theorem openEdges_visit {tfo : Nat → Bool} {n : Nat} (hn : n < c.nNet) (new : tfo n = false) :
    c.openEdges tfo = (c.outs n).length + c.openEdges (Function.update tfo n true) := by
  have mem : n ∈ Finset.range c.nNet := Finset.mem_range.mpr hn
  unfold openEdges
  rw [← Finset.add_sum_erase _ _ mem, ← Finset.add_sum_erase _ _ mem]
  simp only [new, Function.update_self, if_true, Bool.false_eq_true, if_false, Nat.zero_add]
  congr 1
  apply Finset.sum_congr rfl
  intro k hk
  rw [Function.update_of_ne (Finset.ne_of_mem_erase hk)]

/-- The fault-cone variables: each net of the cone has its own pair above `base`, the others keep their
good-circuit variable. -/
structure ConeVars (c : Netlist) (base : Nat) (tfo : Nat → Bool) (varsfc varprop : Nat → Nat)
    (total : Nat) : Prop where
  outside : ∀ n, tfo n = false → varsfc n = c.varsgc n
  pair : ∀ n, tfo n = true →
    ∃ k, varsfc n = base + 2 * k + 1 ∧ varprop n = base + 2 * k + 2 ∧ base + 2 * k + 2 ≤ total
  even : ∃ k, total = base + 2 * k
  inj : ∀ a b, tfo a = true → tfo b = true → varsfc a = varsfc b → a = b

theorem ConeVars.visit {base total : Nat} {tfo : Nat → Bool} {varsfc varprop : Nat → Nat}
    (vars : ConeVars c base tfo varsfc varprop total) (n : Nat) :
    ConeVars c base (Function.update tfo n true) (Function.update varsfc n (total + 1))
      (Function.update varprop n (total + 2)) (total + 2) where
  outside := by
    intro k hk
    have ne : k ≠ n := by
      rintro rfl
      simp at hk
    rw [Function.update_of_ne ne] at hk ⊢
    exact vars.outside k hk
  pair := by
    intro k hk
    by_cases same : k = n
    · obtain ⟨j, hj⟩ := vars.even
      subst same
      exact ⟨j, by simp [hj], by simp [hj], by simp [hj]⟩
    · rw [Function.update_of_ne same] at hk ⊢
      rw [Function.update_of_ne same]
      obtain ⟨j, h1, h2, h3⟩ := vars.pair k hk
      exact ⟨j, h1, h2, by omega⟩
  even := by
    obtain ⟨j, hj⟩ := vars.even
    exact ⟨j + 1, by omega⟩
  inj := by
    intro a b ha hb same
    have below : ∀ k, k ≠ n → Function.update tfo n true k = true → varsfc k ≤ total := by
      intro k ne hk
      rw [Function.update_of_ne ne] at hk
      obtain ⟨j, h1, -, h3⟩ := vars.pair k hk
      omega
    by_cases hna : a = n <;> by_cases hnb : b = n
    · rw [hna, hnb]
    · have := below b hnb hb
      rw [hna, Function.update_self, Function.update_of_ne hnb] at same
      omega
    · have := below a hna ha
      rw [hnb, Function.update_self, Function.update_of_ne hna] at same
      omega
    · rw [Function.update_of_ne hna] at ha same
      rw [Function.update_of_ne hnb] at hb same
      exact vars.inj a b ha hb same

/-- The state of the search relative to the one it started from. -/
structure TfoInv (c : Netlist) (site base : Nat) (g₀ g : Globals) : Prop where
  frame : g = { g₀ with
    stack := g.stack, tfo := g.tfo, varsfc := g.varsfc, varprop := g.varprop,
    totalVars := g.totalVars }
  frontier : Frontier c.outs (· = site) (fun n => g.tfo n = true) g.stack
  low : ∀ n ∈ g.stack, n < c.nNet
  budget : g.stack.length + c.openEdges g.tfo ≤ c.nNet * 10 + 1
  vars : ConeVars c base g.tfo g.varsfc g.varprop g.totalVars

theorem TfoInv.pass {m : FaultModel} (graph : c.Searchable m) {site base : Nat} {g₀ g g' : Globals}
    (inv : TfoInv c site base g₀ g) (next : c.searchTFOPass g = some g') :
    TfoInv c site base g₀ g' ∧
      g'.stack.length + c.openEdges g'.tfo < g.stack.length + c.openEdges g.tfo := by
  obtain ⟨frame, frontier, low, budget, vars⟩ := inv
  cases hs : g.stack with
  | nil => simp [searchTFOPass, hs] at next
  | cons n rest =>
      have hn : n < c.nNet := low n (by rw [hs]; exact List.mem_cons_self)
      have lowRest : ∀ k ∈ rest, k < c.nNet := fun k hk =>
        low k (by rw [hs]; exact List.mem_cons_of_mem _ hk)
      rw [hs] at frontier budget
      simp only [List.length_cons] at budget ⊢
      cases marked : g.tfo n with
      | true =>
          simp only [searchTFOPass, hs, marked, if_true, Option.some.injEq] at next
          subst next
          refine ⟨⟨?_, frontier.skip marked, lowRest, ?_, vars⟩, ?_⟩
          · conv_lhs => rw [frame]
          · simp only; omega
          · simp only; omega
      | false =>
          have edges := openEdges_visit hn marked
          have room : c.nNet * 10 + 1 < c.stackMaxnum := by
            unfold stackMaxnum
            omega
          simp only [searchTFOPass, hs, marked, Bool.false_eq_true, if_false, Option.some.injEq] at next
          rw [foldl_stackPUSH _ _ (by simp only; omega)] at next
          subst next
          refine ⟨⟨?_, ?_, ?_, ?_, vars.visit n⟩, ?_⟩
          · conv_lhs => rw [frame]
          · apply frontier.visit
            · rintro k (hk | rfl | hk)
              · left
                by_cases h : k = n
                · simp [h]
                · simpa [h] using hk
              · simp
              · right
                simp [hk]
            · intro k hk
              by_cases h : k = n
              · exact .inr h
              · left
                simpa [h] using hk
            · intro k hk
              right
              simp [hk]
            · intro k hk
              right
              simpa [or_comm] using hk
          · intro k hk
            rcases List.mem_append.mp hk with hk | hk
            · exact graph.outsLt n hn k (List.mem_reverse.mp hk)
            · exact lowRest k hk
          · simp only [List.length_append, List.length_reverse]
            omega
          · simp only [List.length_append, List.length_reverse]
            omega

/-- What `SearchTFO` leaves: the nets reachable from the site are marked, each with its own pair of
variables, and no other global has changed. -/
structure TfoSearched (c : Netlist) (f : FNODE) (g₀ g : Globals) : Prop where
  frame : g = { g₀ with
    numtranpo := 0, fp := fun n => decide (n = f.netptr), tpo := fun _ => false
    tfo := g.tfo, varsfc := g.varsfc, varprop := g.varprop, totalVars := g.totalVars }
  tfo : ∀ n, g.tfo n = true ↔ Reach c.outs (· = f.netptr) n
  vars : ConeVars c g₀.totalVars g.tfo g.varsfc g.varprop g.totalVars

theorem searchTFO_spec {m : FaultModel} (graph : c.Searchable m) {f : FNODE} (site : f.netptr < c.nNet)
    {g : Globals} (idle : g.stack = []) :
    ∃ g', c.searchTFO f g = some g' ∧ TfoSearched c f g g' := by
  let g₁ : Globals := { g with
    numtranpo := 0, fp := fun n => decide (n = f.netptr), tfo := fun _ => false
    tpo := fun _ => false, varsfc := c.varsgc }
  have pushed : c.stackPUSH g₁ f.netptr = { g₁ with stack := [f.netptr] } := by
    have room : ¬ c.stackMaxnum ≤ 1 := by
      unfold stackMaxnum
      omega
    simp [stackPUSH, g₁, idle, room]
  have start : TfoInv c f.netptr g.totalVars g₁ { g₁ with stack := [f.netptr] } := by
    refine ⟨rfl, ?_, ?_, ?_, ?_⟩
    · have := @Frontier.init _ c.outs (· = f.netptr) [f.netptr]
        (by simp)
      simpa [g₁] using this
    · simpa using site
    · have := graph.edges
      simp only [openEdges, g₁, Bool.false_eq_true, if_false, List.length_singleton]
      omega
    · exact ⟨fun _ _ => rfl, by simp [g₁], ⟨0, rfl⟩, by simp [g₁]⟩
  obtain ⟨g', run, inv, exit⟩ := Loop.whileLoop_total (TfoInv c f.netptr g.totalVars g₁)
    (fun g => g.stack.length + c.openEdges g.tfo) (fun _ _ inv next => inv.pass graph next)
    (c.nNet * 10 + 2) _ start (by have := start.budget; omega)
  have empty : g'.stack = [] := by
    cases hs : g'.stack with
    | nil => rfl
    | cons n rest =>
        simp only [searchTFOPass, hs] at exit
        split at exit <;> cases exit
  refine ⟨g', ?_, ⟨?_, ?_, inv.vars⟩⟩
  · rw [searchTFO, ← run, ← pushed]
  · rw [inv.frame, empty, ← idle]
  · have frontier := inv.frontier
    rw [empty] at frontier
    exact frontier.done

/-! ### The clauses -/

/-- The gate clauses of the faulty cone. -/
def fcClauses (c : Netlist) (g : Globals) (j : Nat) : List Clause :=
  if g.tfo j && !g.fp j && g.normalScopeInDetectionCone j then
    (gateCons g.varsfc (c.type j) (c.ins j) j).getD []
  else []

/-- A loop that only sends clauses, which do not depend on what was sent before. -/
theorem foldl_ccadicalAddAll {α : Type*} (clauses : Globals → α → List Clause)
    (same : ∀ g cls x, clauses (g.ccadicalAddAll cls) x = clauses g x) :
    ∀ (xs : List α) (g : Globals),
      xs.foldl (fun g x => g.ccadicalAddAll (clauses g x)) g =
        g.ccadicalAddAll (xs.flatMap (clauses g)) := by
  intro xs
  induction xs with
  | nil => intro g; simp [Globals.ccadicalAddAll]
  | cons x xs ih =>
      intro g
      have indep : clauses (g.ccadicalAddAll (clauses g x)) = clauses g :=
        funext fun y => same g (clauses g x) y
      rw [List.foldl_cons, ih, List.flatMap_cons, indep]
      simp only [Globals.ccadicalAddAll, List.append_assoc]

theorem createConsFCGates_eq {m : FaultModel} (wf : c.WellFormed m) {g : Globals}
    (pos : ∀ n < c.nNet, 0 < g.varsfc n) :
    c.createConsFCGates g = some (g.ccadicalAddAll ((List.range c.nNet).flatMap (c.fcClauses g))) := by
  have supported : ∀ j < c.nNet, ∀ g' : Globals, g'.varsfc = g.varsfc →
      (if g'.tfo j && !g'.fp j && g'.normalScopeInDetectionCone j then
        (gateCons g'.varsfc (c.type j) (c.ins j) j).map g'.ccadicalAddAll
      else some g') = some (g'.ccadicalAddAll (c.fcClauses g' j)) := by
    intro j hj g' same
    obtain ⟨cls, eq, -⟩ := gateCons_spec g.varsfc (wf.arity j hj) (pos j hj)
      (fun i hi => pos i (wf.insLt j hj i hi))
    unfold fcClauses
    split
    · rw [same, eq]
      rfl
    · simp [Globals.ccadicalAddAll]
  have general : ∀ (js : List Nat), (∀ j ∈ js, j < c.nNet) → ∀ g' : Globals,
      g'.varsfc = g.varsfc →
      js.foldl (fun acc j => acc.bind fun g =>
          if g.tfo j && !g.fp j && g.normalScopeInDetectionCone j then
            (gateCons g.varsfc (c.type j) (c.ins j) j).map g.ccadicalAddAll
          else some g) (some g') =
        some (js.foldl (fun g j => g.ccadicalAddAll (c.fcClauses g j)) g') := by
    intro js
    induction js with
    | nil => intro _ g' _; rfl
    | cons j js ih =>
        intro low g' same
        rw [List.foldl_cons, List.foldl_cons, Option.bind_some,
          supported j (low j List.mem_cons_self) g' same]
        exact ih (fun k hk => low k (List.mem_cons_of_mem _ hk)) _ same
  rw [createConsFCGates, general _ (fun j hj => List.mem_range.mp hj) g rfl,
    foldl_ccadicalAddAll c.fcClauses (fun _ _ _ => rfl)]

theorem createConsProp_eq (f : FNODE) (g : Globals) :
    c.createConsProp f g =
      g.ccadicalAddAll ([lit true (g.varprop f.netptr)] ::
        (List.range c.nNet).flatMap (c.propClauses g)) := by
  rw [createConsProp, foldl_ccadicalAddAll c.propClauses (fun _ _ _ => rfl)]
  simp only [Globals.ccadicalAddAll, Globals.ccadicalAdd, List.append_assoc, List.singleton_append]
  rfl

end Netlist

end SafRprGen
