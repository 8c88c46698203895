/-
Module: SafRprGen.Netlist.Level
Layer: Netlist
Purpose: Topological levels (`ComputeLevels` of `context.c`). The source recurses through the inputs and
  remembers every net it has finished; `computeLevelOf` follows it with the memo `level` explicit and the
  recursion depth bounded, so that a run into a cycle shows as `none`. On an acyclic netlist the depth
  suffices and the levels are the longest distances from the input nets.
Main exports: computeLevels, Netlist.level, levelsDefined_iff, WellFormed.level_lt
-/
import SafRprGen.Netlist.Basic
import Mathlib.Logic.Function.Basic

namespace SafRprGen

namespace Netlist

variable (c : Netlist)

/-- `ComputeLevelOf`: the memo after the call and the level of the net. `none` in the memo is the `-1`
of a net not yet computed. -/
def computeLevelOf : Nat → (Nat → Option Nat) → Nat → Option ((Nat → Option Nat) × Nat)
  | 0, _, _ => none
  | depth + 1, level, net =>
      match level net with
      | some l => some (level, l)
      | none =>
          if c.type net = .IN then some (Function.update level net (some 0), 0)
          else
            let inputs := (c.ins net).foldl
              (fun acc i => acc.bind fun (level, lev) =>
                (computeLevelOf depth level i).map fun (level, l) => (level, max lev (l + 1)))
              (some (level, 0))
            inputs.map fun (level, lev) => (Function.update level net (some lev), lev)

/-- `ComputeLevels`: all nets in index order, from an empty memo. -/
def computeLevels : Option (Nat → Option Nat) :=
  (List.range c.nNet).foldl
    (fun acc n => acc.bind fun level => (c.computeLevelOf (c.nNet + 1) level n).map (·.1))
    (some fun _ => none)

/-- The `level` field of a net after `InitGlobalVars`. -/
def level (n : Nat) : Nat :=
  match c.computeLevels with
  | some level => (level n).getD 0
  | none => 0

/-- The level a net should get: one more than the highest input, 0 for an input net. -/
def levelSpec : Nat → Nat :=
  Dag.eval c.nNet c.ins (fun n ls => if c.type n = .IN then 0 else (ls.map (· + 1)).foldl max 0)

/-- Every remembered level is the right one. -/
def LevelMemo (level : Nat → Option Nat) : Prop := ∀ n l, level n = some l → l = c.levelSpec n

variable {c} {m : FaultModel}

theorem LevelMemo.update {level : Nat → Option Nat} (memo : c.LevelMemo level) (net : Nat) :
    c.LevelMemo (Function.update level net (some (c.levelSpec net))) := by
  intro n l hl
  by_cases same : n = net
  · subst same
    rw [Function.update_self] at hl
    exact (Option.some.inj hl).symm
  · rw [Function.update_of_ne same] at hl
    exact memo n l hl

/-- The input loop: when every input returns its level, the accumulated maximum is the right one. -/
private theorem inputLoop {depth : Nat} :
    ∀ (is : List Nat),
      (∀ i ∈ is, ∀ level, c.LevelMemo level → ∃ level',
        c.computeLevelOf depth level i = some (level', c.levelSpec i) ∧ c.LevelMemo level' ∧
          (∀ n, level n ≠ none → level' n ≠ none)) →
      ∀ (lev : Nat) (level : Nat → Option Nat), c.LevelMemo level → ∃ level',
        is.foldl
            (fun acc i => acc.bind fun (level, lev) =>
              (c.computeLevelOf depth level i).map fun (level, l) => (level, max lev (l + 1)))
            (some (level, lev))
          = some (level', ((is.map c.levelSpec).map (· + 1)).foldl max lev) ∧ c.LevelMemo level' ∧
          (∀ n, level n ≠ none → level' n ≠ none) := by
  intro is
  induction is with
  | nil => intro _ lev level memo; exact ⟨level, rfl, memo, fun _ h => h⟩
  | cons i is ih =>
      intro one lev level memo
      obtain ⟨level', run, memo', keep⟩ := one i List.mem_cons_self level memo
      obtain ⟨level'', run', memo'', keep'⟩ :=
        ih (fun j hj => one j (List.mem_cons_of_mem _ hj)) (max lev (c.levelSpec i + 1)) level' memo'
      refine ⟨level'', ?_, memo'', fun n h => keep' n (keep n h)⟩
      simp only [List.foldl_cons, Option.bind_some, run, Option.map_some, run', List.map_cons]

theorem le_foldl_max (ls : List Nat) :
    ∀ start, start ≤ ls.foldl max start ∧ ∀ l ∈ ls, l ≤ ls.foldl max start := by
  induction ls with
  | nil => intro start; exact ⟨le_refl _, fun _ h => absurd h List.not_mem_nil⟩
  | cons a ls ih =>
      intro start
      obtain ⟨first, rest⟩ := ih (max start a)
      refine ⟨(le_max_left start a).trans first, ?_⟩
      intro l hl
      rcases List.mem_cons.mp hl with rfl | hl
      · exact (le_max_right start l).trans first
      · exact rest l hl

theorem levelSpec_of_acyclic (acyclic : Dag.Acyclic c.nNet c.ins) {n : Nat} (hn : n < c.nNet) :
    c.levelSpec n =
      if c.type n = .IN then 0 else (((c.ins n).map c.levelSpec).map (· + 1)).foldl max 0 :=
  Dag.eval_eq acyclic hn

/-- The recursion finds the right level whenever its depth exceeds the rank of the net. -/
private theorem computeLevelOf_spec {rank : Nat → Nat} (acyclic : Dag.Acyclic c.nNet c.ins)
    (lower : ∀ n < c.nNet, ∀ i ∈ c.ins n, i < c.nNet ∧ rank i < rank n) :
    ∀ (depth : Nat) (level : Nat → Option Nat) (net : Nat), net < c.nNet → rank net < depth →
      c.LevelMemo level → ∃ level',
        c.computeLevelOf depth level net = some (level', c.levelSpec net) ∧ c.LevelMemo level' ∧
          (∀ n, level n ≠ none → level' n ≠ none) ∧ level' net ≠ none := by
  intro depth
  induction depth with
  | zero => intro level net _ h; omega
  | succ depth ih =>
      intro level net hnet hrank memo
      cases hm : level net with
      | some l =>
          refine ⟨level, ?_, memo, fun _ h => h, by simp [hm]⟩
          simp only [computeLevelOf, hm]
          rw [memo net l hm]
      | none =>
          have keepUpdate : ∀ (level' : Nat → Option Nat) (v : Option Nat), v ≠ none →
              (∀ n, level n ≠ none → level' n ≠ none) →
              ∀ n, level n ≠ none → Function.update level' net v n ≠ none := by
            intro level' v hv keep n hn
            by_cases same : n = net
            · subst same
              rw [Function.update_self]
              exact hv
            · rw [Function.update_of_ne same]
              exact keep n hn
          by_cases input : c.type net = .IN
          · have zero : c.levelSpec net = 0 := by rw [levelSpec_of_acyclic acyclic hnet, if_pos input]
            have memo' := memo.update net
            rw [zero] at memo'
            refine ⟨Function.update level net (some 0), ?_, memo',
              keepUpdate level (some 0) (by simp) (fun _ h => h), by simp⟩
            simp [computeLevelOf, hm, input, zero]
          · -- the inputs are computed one after another, each at a smaller rank
            have inputs := levelSpec_of_acyclic acyclic hnet
            rw [if_neg input] at inputs
            obtain ⟨level', run, memo', keep⟩ := inputLoop (c.ins net) (fun i hi level memo => by
              obtain ⟨hlt, hless⟩ := lower net hnet i hi
              obtain ⟨level', run, memo', keep, _⟩ := ih level i hlt (by omega) memo
              exact ⟨level', run, memo', keep⟩) 0 level memo
            refine ⟨Function.update level' net (some (c.levelSpec net)), ?_, memo'.update net,
              keepUpdate level' _ (by simp) keep, by simp⟩
            simp only [computeLevelOf, hm, if_neg input, run, Option.map_some, ← inputs]

/-- `ComputeLevels` ends on an acyclic netlist and leaves every net its level. -/
theorem computeLevels_of_acyclic (acyclic : Dag.Acyclic c.nNet c.ins) :
    ∃ level, c.computeLevels = some level ∧ ∀ n < c.nNet, level n = some (c.levelSpec n) := by
  obtain ⟨rank, bounded, lower⟩ := acyclic.boundedRank
  have prefixes : ∀ k ≤ c.nNet, ∃ level,
      (List.range k).foldl
          (fun acc n => acc.bind fun level => (c.computeLevelOf (c.nNet + 1) level n).map (·.1))
          (some fun _ => none) = some level ∧
        c.LevelMemo level ∧ ∀ n < k, level n ≠ none := by
    intro k
    induction k with
    | zero =>
        intro _
        exact ⟨fun _ => none, rfl, fun _ _ h => by simp at h, fun n h => by omega⟩
    | succ k ih =>
        intro hk
        obtain ⟨level, run, memo, done⟩ := ih (by omega)
        obtain ⟨level', run', memo', keep, net⟩ :=
          computeLevelOf_spec acyclic lower (c.nNet + 1) level k (by omega)
            (by have := bounded k (by omega); omega) memo
        refine ⟨level', ?_, memo', ?_⟩
        · rw [List.range_succ, List.foldl_append, run]
          simp [run']
        · intro n hn
          by_cases last : n = k
          · exact last ▸ net
          · exact keep n (done n (by omega))
  obtain ⟨level, run, memo, done⟩ := prefixes c.nNet (le_refl _)
  refine ⟨level, run, ?_⟩
  intro n hn
  cases hl : level n with
  | none => exact absurd hl (done n hn)
  | some l => rw [memo n l hl]

/-- When the recursion ends, all paths into the net do. -/
private theorem computeLevelOf_grounded (inputs : ∀ n, c.type n = .IN → c.ins n = []) :
    ∀ (depth : Nat) {level level' : Nat → Option Nat} {net l : Nat},
      (∀ n, level n ≠ none → ∃ k, Dag.GroundedIn c.ins k n) →
      c.computeLevelOf depth level net = some (level', l) →
      (∀ n, level' n ≠ none → ∃ k, Dag.GroundedIn c.ins k n) ∧ ∃ k, Dag.GroundedIn c.ins k net := by
  intro depth
  induction depth with
  | zero => intro level level' net l _ run; cases run
  | succ depth ih =>
      intro level level' net l memo run
      have updated : ∀ {level : Nat → Option Nat} {v : Option Nat},
          (∀ n, level n ≠ none → ∃ k, Dag.GroundedIn c.ins k n) →
          (∃ k, Dag.GroundedIn c.ins k net) →
          ∀ n, Function.update level net v n ≠ none → ∃ k, Dag.GroundedIn c.ins k n := by
        intro level v memo here n some
        by_cases same : n = net
        · exact same ▸ here
        · rw [Function.update_of_ne same] at some
          exact memo n some
      unfold computeLevelOf at run
      cases known : level net with
      | some l' =>
          rw [known] at run
          cases run
          exact ⟨memo, memo net (by rw [known]; simp)⟩
      | none =>
          rw [known] at run
          dsimp only at run
          by_cases input : c.type net = .IN
          · rw [if_pos input] at run
            cases run
            have here : ∃ k, Dag.GroundedIn c.ins k net :=
              Dag.grounded_node (by rw [inputs net input]; simp)
            exact ⟨updated memo here, here⟩
          · rw [if_neg input] at run
            obtain ⟨⟨level₁, lev⟩, loop, last⟩ := Option.map_eq_some_iff.mp run
            cases last
            have inner : ∀ (is : List Nat) (level₀ : Nat → Option Nat) (lev₀ : Nat),
                (∀ n, level₀ n ≠ none → ∃ k, Dag.GroundedIn c.ins k n) →
                is.foldl (fun acc i => acc.bind fun (level, lev) =>
                  (c.computeLevelOf depth level i).map fun (level, l) => (level, max lev (l + 1)))
                  (some (level₀, lev₀)) = some (level₁, lev) →
                (∀ n, level₁ n ≠ none → ∃ k, Dag.GroundedIn c.ins k n) ∧
                  ∀ i ∈ is, ∃ k, Dag.GroundedIn c.ins k i := by
              intro is
              induction is with
              | nil =>
                  intro level₀ lev₀ memo₀ loop
                  cases loop
                  exact ⟨memo₀, fun i hi => absurd hi List.not_mem_nil⟩
              | cons i is ihInputs =>
                  intro level₀ lev₀ memo₀ loop
                  rw [List.foldl_cons, Option.bind_some] at loop
                  dsimp only at loop
                  cases one : c.computeLevelOf depth level₀ i with
                  | none =>
                      rw [one, Option.map_none] at loop
                      have stuck : ∀ is : List Nat, is.foldl (fun acc i => acc.bind fun (level, lev) =>
                          (c.computeLevelOf depth level i).map fun (level, l) =>
                            (level, max lev (l + 1))) (none : Option ((Nat → Option Nat) × Nat)) =
                              none := by
                        intro is
                        induction is with
                        | nil => rfl
                        | cons i is ih => exact ih
                      rw [stuck] at loop
                      cases loop
                  | some r =>
                      obtain ⟨memo', here⟩ := ih memo₀ one
                      rw [one, Option.map_some] at loop
                      obtain ⟨memo₁, rest⟩ := ihInputs _ _ memo' loop
                      refine ⟨memo₁, fun j hj => ?_⟩
                      rcases List.mem_cons.mp hj with rfl | hj
                      · exact here
                      · exact rest j hj
            obtain ⟨memo₁, all⟩ := inner (c.ins net) level 0 memo loop
            have here := Dag.grounded_node all
            exact ⟨updated memo₁ here, here⟩

/-- `ComputeLevels` ends only on an acyclic netlist. -/
theorem acyclic_of_computeLevels (inputs : ∀ n, c.type n = .IN → c.ins n = [])
    (insLt : ∀ n < c.nNet, ∀ i ∈ c.ins n, i < c.nNet) {level : Nat → Option Nat}
    (run : c.computeLevels = some level) : Dag.Acyclic c.nNet c.ins := by
  have prefixes : ∀ k, ∀ level, (List.range k).foldl
      (fun acc n => acc.bind fun level => (c.computeLevelOf (c.nNet + 1) level n).map (·.1))
      (some fun _ => none) = some level →
      (∀ n, level n ≠ none → ∃ k, Dag.GroundedIn c.ins k n) ∧
        ∀ n < k, ∃ k, Dag.GroundedIn c.ins k n := by
    intro k
    induction k with
    | zero =>
        intro level run
        cases run
        exact ⟨fun n h => absurd rfl h, fun n h => absurd h (Nat.not_lt_zero n)⟩
    | succ k ih =>
        intro level run
        rw [List.range_succ, List.foldl_append, List.foldl_cons, List.foldl_nil] at run
        obtain ⟨level', before, last⟩ := Option.bind_eq_some_iff.mp run
        obtain ⟨r, one, rfl⟩ := Option.map_eq_some_iff.mp last
        obtain ⟨memo, done⟩ := ih level' before
        obtain ⟨memo', here⟩ := computeLevelOf_grounded inputs _ memo one
        refine ⟨memo', fun n hn => ?_⟩
        rcases Nat.lt_succ_iff_lt_or_eq.mp hn with low | rfl
        · exact done n low
        · exact here
  exact Dag.acyclic_of_grounded insLt (prefixes c.nNet level run).2

/-- `ComputeLevels` ends, an input net has level 0, a gate net one more than its highest input, and every
edge goes up. -/
def LevelsDefined (c : Netlist) : Prop :=
  ∃ level, c.computeLevels = some level ∧ ∀ n < c.nNet, ∃ l, level n = some l ∧
    (c.type n = .IN → l = 0) ∧
    (c.type n ≠ .IN → c.type n ≠ .UNSET → ∃ i ∈ c.ins n, level i = some (l - 1)) ∧
    ∀ i ∈ c.ins n, ∃ l' < l, level i = some l'

theorem foldl_max_mem (ls : List Nat) :
    ∀ start, ls.foldl max start = start ∨ ls.foldl max start ∈ ls := by
  induction ls with
  | nil => exact fun start => .inl rfl
  | cons l ls ih =>
      intro start
      rw [List.foldl_cons]
      rcases ih (max start l) with same | mem
      · rw [same]
        rcases max_choice start l with first | here
        · exact .inl first
        · exact .inr (by rw [here]; exact List.mem_cons_self)
      · exact .inr (List.mem_cons_of_mem _ mem)

/-- Levels are defined exactly on the acyclic netlists. -/
theorem levelsDefined_iff (inputs : ∀ n, c.type n = .IN → c.ins n = [])
    (insLt : ∀ n < c.nNet, ∀ i ∈ c.ins n, i < c.nNet)
    (gates : ∀ n < c.nNet, c.type n ≠ .IN → c.type n ≠ .UNSET → c.ins n ≠ []) :
    c.LevelsDefined ↔ Dag.Acyclic c.nNet c.ins := by
  refine ⟨fun ⟨level, run, _⟩ => acyclic_of_computeLevels inputs insLt run, fun acyclic => ?_⟩
  obtain ⟨level, run, spec⟩ := computeLevels_of_acyclic acyclic
  refine ⟨level, run, fun n hn => ⟨c.levelSpec n, spec n hn, fun input => ?_, fun gate typed => ?_,
    fun i hi => ?_⟩⟩
  · rw [levelSpec_of_acyclic acyclic hn, if_pos input]
  · have isLevel := levelSpec_of_acyclic acyclic hn
    rw [if_neg gate, List.map_map] at isLevel
    -- the maximum is above 0, so it is that of an input
    obtain ⟨i₀, edge⟩ := List.exists_mem_of_ne_nil _ (gates n hn gate typed)
    have above := (le_foldl_max ((c.ins n).map ((· + 1) ∘ c.levelSpec)) 0).2 (c.levelSpec i₀ + 1)
      (List.mem_map_of_mem edge)
    rcases foldl_max_mem ((c.ins n).map ((· + 1) ∘ c.levelSpec)) 0 with zero | mem
    · omega
    · obtain ⟨i, isIn, same⟩ := List.mem_map.mp mem
      refine ⟨i, isIn, ?_⟩
      rw [isLevel, ← same, spec i (insLt n hn i isIn)]
      rfl
  · have gate : c.type n ≠ .IN := by
      intro input
      rw [inputs n input] at hi
      cases hi
    have above := (le_foldl_max (((c.ins n).map c.levelSpec).map (· + 1)) 0).2 (c.levelSpec i + 1)
      (List.mem_map_of_mem (List.mem_map_of_mem hi))
    refine ⟨c.levelSpec i, ?_, spec i (insLt n hn i hi)⟩
    rw [levelSpec_of_acyclic acyclic hn, if_neg gate]
    exact above

namespace WellFormed

theorem levelSpec_eq (wf : c.WellFormed m) {n : Nat} (hn : n < c.nNet) :
    c.levelSpec n =
      if c.type n = .IN then 0 else (((c.ins n).map c.levelSpec).map (· + 1)).foldl max 0 :=
  levelSpec_of_acyclic wf.acyclic hn

theorem level_eq (wf : c.WellFormed m) {n : Nat} (hn : n < c.nNet) :
    c.level n = c.levelSpec n := by
  obtain ⟨level, run, spec⟩ := computeLevels_of_acyclic wf.acyclic
  simp [Netlist.level, run, spec n hn]

theorem level_IN (wf : c.WellFormed m) {n : Nat} (hn : n < c.nNet) (ht : c.type n = .IN) :
    c.level n = 0 := by
  rw [wf.level_eq hn, wf.levelSpec_eq hn, if_pos ht]

/-- Every edge goes up at least one level. -/
theorem level_lt (wf : c.WellFormed m) {n : Nat} (hn : n < c.nNet) {i : Nat} (hi : i ∈ c.ins n) :
    c.level i < c.level n := by
  have input : c.type n ≠ .IN := by
    intro ht
    rw [wf.ins_of_IN hn ht] at hi
    exact absurd hi List.not_mem_nil
  rw [wf.level_eq hn, wf.level_eq (wf.insLt n hn i hi), wf.levelSpec_eq hn, if_neg input]
  have above := (le_foldl_max (((c.ins n).map c.levelSpec).map (· + 1)) 0).2 (c.levelSpec i + 1)
    (List.mem_map_of_mem (List.mem_map_of_mem hi))
  omega

end WellFormed

end Netlist

end SafRprGen
