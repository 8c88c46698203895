/-
Module: SafRprGen.Xid.ModelValues
Layer: Xid
Purpose: Good-circuit values of a solver model (`normal_scope_values.c`). The solver gives the inputs of
  the scope; the gates of the scope are simulated in level order. The gate list is compiled once, the
  scope lists are rebuilt when the scope has changed, and each call resets the scratch of the scope.
Main exports: ScopeSim, normalScopeModelValues, XidReady, normalScopeModelValues_spec
-/
import Mathlib.Data.List.Sort
import SafRprGen.Fdp.TpgModel
import SafRprGen.Xid.State

namespace SafRprGen

/-- `Gate`: one compiled instruction with its slice of `inputs`. -/
structure XidGate where
  type : GateType
  output : Nat
  inputs : List Nat
deriving DecidableEq, Repr

/-- The statics of `normal_scope_values.c`; `gates` is null before the first call. -/
structure ScopeSim where
  gates : Option (List XidGate)
  values : Nat → Bool
  scopeGates : List XidGate
  scopeNets : List Nat
  scopeGeneration : Nat

/-- An entry of the scratch after a reset, with its two-valued value. -/
def resetInfo (value : Bool) : XidVarInfo := ⟨fun _ => ⟨value, none, false⟩, .UNTAGGED⟩

/-- What both modules keep between calls. -/
structure XidStatics where
  sim : ScopeSim
  xid : XidState

namespace Netlist

variable (c : Netlist)

/-- `compare_level` is not positive. -/
def compareLevel (a b : Nat) : Prop :=
  c.level a < c.level b ∨ c.level a = c.level b ∧ a ≤ b

instance : DecidableRel c.compareLevel := fun a b => by
  unfold compareLevel
  infer_instance

/-- The gates in level order. -/
def compiledGates : List XidGate :=
  (((List.range c.nNet).filter fun n => c.type n ≠ .IN).insertionSort c.compareLevel).map fun n =>
    ⟨c.type n, n, c.ins n⟩

/-- An input that is not below its gate stops `compile`. -/
def invalidLevels : Bool :=
  c.compiledGates.any fun g => g.inputs.any fun i => decide (c.level g.output ≤ c.level i)

/-- `compile`. -/
def compile (st : XidStatics) : XidStatics :=
  { sim := { st.sim with gates := some c.compiledGates, values := fun _ => false }
    xid := { st.xid with exited := st.xid.exited || c.invalidLevels } }

/-- `prepare_scope`. -/
def prepareScope (g : Globals) (st : XidStatics) : XidStatics :=
  { sim := { st.sim with
      scopeGates := (st.sim.gates.getD []).filter fun gate => g.normalScopeRequiredNet gate.output
      scopeNets := (List.range c.nNet).filter g.normalScopeRequiredNet
      scopeGeneration := g.instances }
    xid := { st.xid with
      varInfo := (List.range c.nNet).foldl
        (fun v i => Function.update v i (resetInfo false)) st.xid.varInfo } }

/-- The input loop of `NormalScopeModelValues`: the solver values of the inputs of the scope. -/
def loadInputs (g : Globals) (val : Nat → Bool) (values : Nat → Bool) : Nat → Bool :=
  c.pi.foldl
    (fun values n =>
      if g.normalScopeRequiredNet n then Function.update values n (val (c.varsgc n)) else values)
    values

/-- The gate loop of `NormalScopeModelValues`. -/
def simulate (gates : List XidGate) (values : Nat → Bool) : Nat → Bool :=
  gates.foldl
    (fun values gate =>
      Function.update values gate.output (gate.type.fn (gate.inputs.map values)))
    values

/-- `NormalScopeModelValues`; `val` is `ccadical_val(..) > 0`. -/
def normalScopeModelValues (g : Globals) (val : Nat → Bool) (st : XidStatics) : XidStatics :=
  let st := if st.sim.gates.isNone then c.compile st else st
  let st := if st.sim.scopeGeneration ≠ g.instances then c.prepareScope g st else st
  let values := simulate st.sim.scopeGates (c.loadInputs g val st.sim.values)
  { sim := { st.sim with values }
    xid := { st.xid with
      varInfo := st.sim.scopeNets.foldl
        (fun v i => Function.update v i (resetInfo (values i))) st.xid.varInfo } }

/-- The statics between two calls: nothing is stacked, and when the scope is the one last prepared its
lists are right and the scratch outside it is clean. -/
structure XidReady (c : Netlist) (g : Globals) (st : XidStatics) : Prop where
  gates : st.sim.gates = none ∨ st.sim.gates = some c.compiledGates
  generation : st.sim.scopeGeneration ≤ g.instances
  current : st.sim.scopeGeneration = g.instances → g.instances ≠ 0 →
    st.sim.gates = some c.compiledGates ∧
    st.sim.scopeGates = c.compiledGates.filter (fun gate => g.normalScopeRequiredNet gate.output) ∧
    st.sim.scopeNets = (List.range c.nNet).filter g.normalScopeRequiredNet ∧
    ∀ n < c.nNet, g.normalScopeRequiredNet n = false → st.xid.varInfo n = resetInfo false
  beyond : ∀ n, c.nNet ≤ n → st.xid.varInfo n = resetInfo false
  idle : st.xid.xidLev = .empty

variable {c} {m : FaultModel}

/-! ### The compiled gates -/

instance : Std.Total c.compareLevel where
  total := by
    intro a b
    unfold compareLevel
    omega

instance : IsTrans Nat c.compareLevel where
  trans := by
    intro a b d
    unfold compareLevel
    omega

theorem mem_compiledGates {gate : XidGate} :
    gate ∈ c.compiledGates ↔
      ∃ n < c.nNet, c.type n ≠ .IN ∧ gate = ⟨c.type n, n, c.ins n⟩ := by
  simp only [compiledGates, List.mem_map, List.mem_insertionSort, List.mem_filter, List.mem_range,
    decide_eq_true_eq]
  constructor
  · rintro ⟨n, ⟨hn, gate⟩, rfl⟩
    exact ⟨n, hn, gate, rfl⟩
  · rintro ⟨n, hn, gate, rfl⟩
    exact ⟨n, ⟨hn, gate⟩, rfl⟩

theorem compiledGates_sorted :
    c.compiledGates.Pairwise fun a b => c.level a.output ≤ c.level b.output := by
  rw [compiledGates, List.pairwise_map]
  apply List.Pairwise.imp _ (List.pairwise_insertionSort c.compareLevel _)
  intro a b below
  rcases below with less | ⟨same, -⟩
  · exact less.le
  · exact same.le

theorem WellFormed.invalidLevels_eq (wf : c.WellFormed m) : c.invalidLevels = false := by
  rw [invalidLevels, List.any_eq_false]
  intro gate hgate
  rw [Bool.not_eq_true, List.any_eq_false]
  obtain ⟨n, hn, -, rfl⟩ := mem_compiledGates.mp hgate
  intro i hi
  have := wf.level_lt hn hi
  simpa using this

/-! ### Simulation of the scope -/

theorem foldl_update_apply {β : Type*} (items : List Nat) (value : Nat → β) (v : Nat → β) (n : Nat) :
    items.foldl (fun v i => Function.update v i (value i)) v n =
      if n ∈ items then value n else v n := by
  induction items generalizing v with
  | nil => simp
  | cons i items ih =>
      rw [List.foldl_cons, ih]
      by_cases later : n ∈ items
      · simp [later]
      · by_cases here : n = i
        · simp [here]
        · simp [later, here]

theorem loadInputs_apply (g : Globals) (val values : Nat → Bool) (n : Nat) :
    c.loadInputs g val values n =
      if n ∈ c.pi ∧ g.normalScopeRequiredNet n = true then val (c.varsgc n) else values n := by
  unfold loadInputs
  induction c.pi generalizing values with
  | nil => simp
  | cons i pi ih =>
      rw [List.foldl_cons, ih]
      by_cases later : n ∈ pi ∧ g.normalScopeRequiredNet n = true
      · rw [if_pos later, if_pos ⟨List.mem_cons_of_mem _ later.1, later.2⟩]
      · rw [if_neg later]
        by_cases here : n = i
        · subst here
          by_cases scope : g.normalScopeRequiredNet n = true
          · simp [scope]
          · simp [scope]
        · have same : ∀ values' : Nat → Bool,
              (if g.normalScopeRequiredNet i then Function.update values i (val (c.varsgc i))
                else values) n = values n := by
            intro _
            split
            · exact Function.update_of_ne here _ _
            · rfl
          rw [same values, if_neg]
          rintro ⟨mem, scope⟩
          exact later ⟨(List.mem_cons.mp mem).resolve_left here, scope⟩

variable {x : c.Assignment} {g : Globals} {val : Nat → Bool}

/-- The simulated values of the scope are the good values. -/
theorem simulate_spec (wf : c.WellFormed m)
    (closed : ∀ n i, g.normalScopeRequiredNet n = true → i ∈ c.ins n →
      g.normalScopeRequiredNet i = true)
    (agree : Extends c val x) (values : Nat → Bool) :
    ∀ n < c.nNet, g.normalScopeRequiredNet n = true →
      simulate (c.compiledGates.filter fun gate => g.normalScopeRequiredNet gate.output)
        (c.loadInputs g val values) n = c.good x n := by
  have inputs : ∀ n < c.nNet, g.normalScopeRequiredNet n = true → c.type n = .IN →
      c.loadInputs g val values n = c.good x n := by
    intro n hn scope isIN
    have member := (wf.piMem n).mpr ⟨hn, isIN⟩
    rw [loadInputs_apply, if_pos ⟨member, scope⟩, wf.good_IN hn isIN]
    obtain ⟨k, hk, rfl, value⟩ := piValue_of_mem member x
    rw [agree k hk, value]
  have sorted := compiledGates_sorted (c := c).filter fun gate => g.normalScopeRequiredNet gate.output
  have run := Loop.foldl_inv
    (fun (values : Nat → Bool) (gate : XidGate) =>
      Function.update values gate.output (gate.type.fn (gate.inputs.map values)))
    (fun seen values => ∀ n < c.nNet, g.normalScopeRequiredNet n = true →
      (c.type n = .IN ∨ n ∈ seen.map XidGate.output) → values n = c.good x n)
    (c.compiledGates.filter fun gate => g.normalScopeRequiredNet gate.output)
    (s := c.loadInputs g val values)
    (by
      intro n hn scope here
      exact inputs n hn scope (here.resolve_right (by simp)))
    (by
      intro seen gate rest values split before n hn scope here
      have member : gate ∈ c.compiledGates.filter fun gate =>
          g.normalScopeRequiredNet gate.output := by
        rw [split]
        exact List.mem_append_right _ List.mem_cons_self
      obtain ⟨compiled, gateScope⟩ := List.mem_filter.mp member
      obtain ⟨o, ho, notIN, rfl⟩ := mem_compiledGates.mp compiled
      by_cases same : n = o
      · subst same
        rw [Function.update_self, wf.good_gate hn notIN]
        congr 1
        apply List.map_congr_left
        intro i hi
        have low := wf.insLt n hn i hi
        have scopeI := closed n i scope hi
        apply before i low scopeI
        by_cases isIN : c.type i = .IN
        · exact .inl isIN
        · -- the gate of the input is in the list, and not after this one
          right
          have earlier : (⟨c.type i, i, c.ins i⟩ : XidGate) ∈
              c.compiledGates.filter fun gate => g.normalScopeRequiredNet gate.output :=
            List.mem_filter.mpr ⟨mem_compiledGates.mpr ⟨i, low, isIN, rfl⟩, scopeI⟩
          have below := wf.level_lt hn hi
          rw [split] at earlier sorted
          rcases List.mem_append.mp earlier with h | h
          · exact List.mem_map.mpr ⟨_, h, rfl⟩
          · rcases List.mem_cons.mp h with h | h
            · have same : i = n := congrArg XidGate.output h
              exact absurd (same ▸ below) (lt_irrefl _)
            · have order := (List.pairwise_cons.mp (List.pairwise_append.mp sorted).2.1).1 _ h
              exact absurd below (Nat.not_lt.mpr order)
      · rw [Function.update_of_ne same]
        apply before n hn scope
        apply here.imp_right
        intro h
        rw [List.map_append, List.mem_append] at h
        rcases h with h | h
        · exact h
        · exact absurd (by simpa using h) same)
  intro n hn scope
  apply run n hn scope
  by_cases isIN : c.type n = .IN
  · exact .inl isIN
  · right
    exact List.mem_map.mpr ⟨⟨c.type n, n, c.ins n⟩,
      List.mem_filter.mpr ⟨mem_compiledGates.mpr ⟨n, hn, isIN, rfl⟩, scope⟩, rfl⟩

/-- The scratch after `NormalScopeModelValues`: good values in the scope, clean entries elsewhere. -/
def scopeInfo (c : Netlist) (g : Globals) (x : c.Assignment) (n : Nat) : XidVarInfo :=
  resetInfo (decide (n < c.nNet) && g.normalScopeRequiredNet n && c.good x n)

/-- The lists and the scratch once the gates are compiled and the lists are those of the scope. -/
structure ScopePrepared (c : Netlist) (g : Globals) (st st₁ : XidStatics) : Prop where
  gates : st₁.sim.gates = some c.compiledGates
  scopeGates : st₁.sim.scopeGates =
    c.compiledGates.filter fun gate => g.normalScopeRequiredNet gate.output
  scopeNets : st₁.sim.scopeNets = (List.range c.nNet).filter g.normalScopeRequiredNet
  generation : st₁.sim.scopeGeneration = g.instances
  clean : ∀ n, (n < c.nNet → g.normalScopeRequiredNet n = false) → st₁.xid.varInfo n = resetInfo false
  queue : st₁.xid.queue = st.xid.queue
  idle : st₁.xid.xidLev = .empty
  exited : st₁.xid.exited = st.xid.exited

/-- Compiling changes the gates only. -/
theorem XidReady.compiled (wf : c.WellFormed m) {st : XidStatics} (ready : XidReady c g st) :
    ∃ st₀ : XidStatics, (if st.sim.gates.isNone then c.compile st else st) = st₀ ∧
      st₀.sim.gates = some c.compiledGates ∧ st₀.sim.scopeGates = st.sim.scopeGates ∧
      st₀.sim.scopeNets = st.sim.scopeNets ∧ st₀.sim.scopeGeneration = st.sim.scopeGeneration ∧
      st₀.xid = st.xid := by
  rcases ready.gates with none | some
  · refine ⟨c.compile st, ?_, rfl, rfl, rfl, rfl, ?_⟩
    · rw [none]
      rfl
    · simp [compile, wf.invalidLevels_eq]
  · refine ⟨st, ?_, some, rfl, rfl, rfl, rfl⟩
    rw [some]
    rfl

/-- Whichever of the optional steps runs, they leave the lists of the scope and clean scratch outside it. -/
theorem XidReady.prepared (wf : c.WellFormed m) (built : g.instances ≠ 0) {st : XidStatics}
    (ready : XidReady c g st) :
    ∃ st₁ : XidStatics, (let st := if st.sim.gates.isNone then c.compile st else st
      if st.sim.scopeGeneration ≠ g.instances then c.prepareScope g st else st) = st₁ ∧
      ScopePrepared c g st st₁ := by
  obtain ⟨st₀, eq, gates, scopeGates, scopeNets, generation, xid⟩ := ready.compiled wf
  rw [eq]
  by_cases changed : st₀.sim.scopeGeneration ≠ g.instances
  · refine ⟨c.prepareScope g st₀, if_pos changed, gates, ?_, rfl, rfl, ?_, ?_, ?_, ?_⟩
    · simp [prepareScope, gates]
    · intro n out
      simp only [prepareScope, foldl_update_apply, List.mem_range, xid]
      split
      · rfl
      · rename_i high
        exact ready.beyond n (Nat.le_of_not_lt high)
    · simp [prepareScope, xid]
    · simp only [prepareScope, xid]
      exact ready.idle
    · simp [prepareScope, xid]
  · have same : st.sim.scopeGeneration = g.instances := generation ▸ not_not.mp changed
    obtain ⟨-, listed, nets, outside⟩ := ready.current same built
    refine ⟨st₀, if_neg changed, gates, scopeGates.trans listed, scopeNets.trans nets, not_not.mp changed,
      ?_, ?_, ?_, ?_⟩
    · intro n out
      rw [xid]
      by_cases hn : n < c.nNet
      · exact outside n hn (out hn)
      · exact ready.beyond n (Nat.le_of_not_lt hn)
    · rw [xid]
    · rw [xid]
      exact ready.idle
    · rw [xid]

/-- Storing the values of the scope gives its nets their good values. -/
theorem ScopePrepared.stored (wf : c.WellFormed m)
    (closed : ∀ n i, g.normalScopeRequiredNet n = true → i ∈ c.ins n →
      g.normalScopeRequiredNet i = true)
    (agree : Extends c val x) {st st₁ : XidStatics} (prepared : ScopePrepared c g st st₁) :
    st₁.sim.scopeNets.foldl (fun info i => Function.update info i
        (resetInfo (simulate st₁.sim.scopeGates (c.loadInputs g val st₁.sim.values) i)))
      st₁.xid.varInfo = c.scopeInfo g x := by
  funext n
  rw [foldl_update_apply _
    (fun i => resetInfo (simulate st₁.sim.scopeGates (c.loadInputs g val st₁.sim.values) i)),
    prepared.scopeGates, prepared.scopeNets]
  unfold scopeInfo
  by_cases inside : n ∈ (List.range c.nNet).filter g.normalScopeRequiredNet
  · rw [if_pos inside]
    obtain ⟨hn, scope⟩ := List.mem_filter.mp inside
    have hn := List.mem_range.mp hn
    rw [simulate_spec wf closed agree _ n hn scope, scope]
    simp [hn]
  · have out : n < c.nNet → g.normalScopeRequiredNet n = false := by
      intro hn
      rw [← Bool.not_eq_true]
      exact fun scope => inside (List.mem_filter.mpr ⟨List.mem_range.mpr hn, scope⟩)
    rw [if_neg inside, prepared.clean n out]
    by_cases hn : n < c.nNet
    · simp [out hn]
    · simp [hn]

theorem normalScopeModelValues_spec (wf : c.WellFormed m)
    (closed : ∀ n i, g.normalScopeRequiredNet n = true → i ∈ c.ins n →
      g.normalScopeRequiredNet i = true)
    (agree : Extends c val x) (built : g.instances ≠ 0) {st : XidStatics} (ready : XidReady c g st) :
    ∃ st', c.normalScopeModelValues g val st = st' ∧ XidReady c g st' ∧
      st'.xid.varInfo = c.scopeInfo g x ∧ st'.xid.queue = st.xid.queue ∧
      st'.xid.exited = st.xid.exited ∧ st'.sim.scopeGeneration = g.instances := by
  obtain ⟨st₁, eq, prepared⟩ := ready.prepared wf built
  have info := prepared.stored wf closed agree
  have values : c.normalScopeModelValues g val st =
      ⟨{ st₁.sim with values := simulate st₁.sim.scopeGates (c.loadInputs g val st₁.sim.values) },
        { st₁.xid with varInfo := c.scopeInfo g x }⟩ := by
    unfold normalScopeModelValues
    simp only at eq ⊢
    rw [eq, info]
  rw [values]
  refine ⟨_, rfl, ⟨.inr prepared.gates, prepared.generation.le, ?_, ?_, prepared.idle⟩, rfl,
    prepared.queue, prepared.exited, prepared.generation⟩
  · intro _ _
    refine ⟨prepared.gates, prepared.scopeGates, prepared.scopeNets, fun n hn out => ?_⟩
    simp [scopeInfo, out]
  · intro n hn
    simp [scopeInfo, Nat.not_lt.mpr hn]

end Netlist

end SafRprGen
