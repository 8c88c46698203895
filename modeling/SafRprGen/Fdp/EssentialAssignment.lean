/-
Module: SafRprGen.Fdp.EssentialAssignment
Layer: Fdp
Purpose: Unit clauses for values that every detecting assignment has (`essential_assignment.c`). Unique
  sensitization walks the fanout of the site in level order and, while no path has ended yet, takes a
  queue that runs empty as a net every path must cross; its side inputs get the non-controlling value.
  Back and forward implication then spread the known values over the good circuit.
Main exports: essentialAssignment, EssentialAdded, essentialAssignment_spec
-/
import SafRprGen.Lib.HoareSort
import SafRprGen.Fdp.NormalScope
import SafRprGen.Netlist.Detect
import SafRprGen.Netlist.Level

namespace SafRprGen

open Dimacs Search

namespace Netlist

variable (c : Netlist)

/-- `que2.maxnum`. -/
def que2Maxnum : Nat := c.nNet + 10

/-- `que2_enq`: the overflow test follows the store. -/
def que2Enq (s : Globals × RingQueue Nat) (n : Nat) : Globals × RingQueue Nat :=
  let que2 := s.2.enqueue c.que2Maxnum n
  ({ s.1 with exited := s.1.exited || decide (c.que2Maxnum ≤ que2.count) }, que2)

/-- The guarded call of `que2_qsort` that follows each round of `que2_enq`. -/
def que2Sort (que2 : RingQueue Nat) : Option (RingQueue Nat) :=
  if 1 < que2.count ∧ que2.front < que2.rear then
    (HoareSort.qsort c.level (que2.rear + 1) que2.items que2.front (que2.rear - 1)).map
      fun items => { que2 with items }
  else some que2

/-- `assign_ea_value`. -/
def assignEaValue (g : Globals) (n : Nat) (val : Bool) : Globals :=
  if g.eaFlag n then g
  else
    let g := { g with
      eaFlag := Function.update g.eaFlag n true
      logicValue := Function.update g.logicValue n val }
    let g := if g.normalScopeRequiredNet n then g.ccadicalAdd [lit val (c.varsgc n)] else g
    c.queENQ g n

/-- `assign_unique_value`: the non-controlling value for the side inputs of an AND-like or OR-like gate. -/
def assignUniqueValue (g : Globals) (t uniqueIdx : Nat) : Globals :=
  if (c.outs t).isEmpty then g
  else
    match (c.type t).ctrl with
    | none => g
    | some v =>
        (List.range (c.ins t).length).foldl
          (fun g i =>
            let k := (c.ins t).getD i 0
            if i = uniqueIdx || g.uniqueFlag k ≠ .DOWN || g.eaFlag k then g
            else c.assignEaValue g k (!v))
          g

end Netlist

/-- The locals of `unique_sentization` with the globals. -/
structure UniqueState where
  g : Globals
  que2 : RingQueue Nat
  obsSeen : Bool

namespace Netlist

variable (c : Netlist)

/-- Queue an output that was not queued before. -/
def uniquePush (s : Globals × RingQueue Nat) (o : Nat) : Globals × RingQueue Nat :=
  if s.1.uniqueFlag o ≠ .DOWN then s
  else
    let s := c.que2Enq s o
    ({ s.1 with uniqueFlag := Function.update s.1.uniqueFlag o .UP }, s.2)

/-- What both parts of `unique_sentization` do with the net they took: note whether its path ends, queue
its outputs and sort. -/
def uniqueExpand (t : Nat) (s : UniqueState) : Option UniqueState :=
  let (g, que2) := (c.outs t).foldl c.uniquePush (s.g, s.que2)
  (c.que2Sort que2).map fun que2 => ⟨g, que2, s.obsSeen || (c.outs t).isEmpty⟩

/-- `que2_deq` and the mark of the net taken. -/
def uniqueTake (s : UniqueState) : Nat × UniqueState :=
  let (t, que2) := s.que2.dequeue c.que2Maxnum
  (t, { s with que2, g := { s.g with uniqueFlag := Function.update s.g.uniqueFlag t .MIDDLE } })

/-- The side inputs of the net that all paths still cross, seen from its first input on a path. -/
def uniqueAssign (t : Nat) (s : UniqueState) : UniqueState :=
  if s.que2.count = 0 && !s.obsSeen then
    match (List.range (c.ins t).length).find?
        (fun i => s.g.uniqueFlag ((c.ins t).getD i 0) = .MIDDLE) with
    | none => s
    | some idx => { s with g := c.assignUniqueValue s.g t idx }
  else s

/-- One pass of the loop of `unique_sentization`; `none` inside when a sort runs out of fuel. -/
def uniquePass : Option UniqueState → Option (Option UniqueState)
  | none => none
  | some s =>
      if s.que2.count = 0 then none
      else
        let (t, s) := c.uniqueTake s
        some (c.uniqueExpand t (c.uniqueAssign t s))

/-- `unique_sentization`. -/
def uniqueSensitization (g : Globals) (que2 : RingQueue Nat) : Option Globals :=
  let (site, s) := c.uniqueTake ⟨g, que2, false⟩
  (Loop.whileLoop c.uniquePass (c.nNet + 2) (c.uniqueExpand site s)).join.map (·.g)

/-- `back_implication`. -/
def backImplication (g : Globals) (t : Nat) : Globals :=
  let val := g.logicValue t
  let all (v : Bool) := (c.ins t).foldl (fun g i => c.assignEaValue g i v) g
  match c.type t with
  | .AND => if val then all true else g
  | .OR => if !val then all false else g
  | .NAND => if !val then all true else g
  | .NOR => if val then all false else g
  | .INV => c.assignEaValue g ((c.ins t).getD 0 0) (!val)
  | .BUF | .FOUT => c.assignEaValue g ((c.ins t).getD 0 0) val
  | _ => g

/-- The value the known inputs of a gate imply: an AND-like or OR-like gate needs one controlling input
or all of them, an inverter or buffer its input. -/
def impliedValue (g : Globals) (out : Nat) : Option Bool :=
  let decide (ctrl whenCtrl : Bool) : Option Bool :=
    if (c.ins out).any (fun j => g.eaFlag j && g.logicValue j == ctrl) then some whenCtrl
    else if (c.ins out).countP (fun j => g.eaFlag j && g.logicValue j == !ctrl) = (c.ins out).length
    then some (!whenCtrl)
    else none
  let i := (c.ins out).getD 0 0
  match c.type out with
  | .AND => decide false false
  | .NAND => decide false true
  | .OR => decide true true
  | .NOR => decide true false
  | .INV => if g.eaFlag i then some (!g.logicValue i) else none
  | .BUF | .FOUT => if g.eaFlag i then some (g.logicValue i) else none
  | _ => none

/-- `forward_implication`. -/
def forwardImplication (g : Globals) (t : Nat) : Globals :=
  (c.outs t).foldl
    (fun g out =>
      if g.eaFlag out then g
      else
        match c.impliedValue g out with
        | none => g
        | some v => c.assignEaValue g out v)
    g

/-- One pass of the implication loop. -/
def implicationPass (g : Globals) : Option Globals :=
  if g.que.count = 0 then none
  else
    let (t, g) := c.queDEQ g
    some (c.forwardImplication (c.backImplication g t) t)

/-- `EssentialAssignment`. -/
def essentialAssignment (f : FNODE) (g : Globals) : Option Globals :=
  let g := { g with
    logicValue := fun _ => false
    eaFlag := fun _ => false
    uniqueFlag := fun _ => .DOWN
    que := g.que.reset }
  let (g, que2) := c.que2Enq (g, ⟨fun _ => 0, 0, 0, 0⟩) f.netptr
  let g := { g with uniqueFlag := Function.update g.uniqueFlag f.netptr .UP }
  (c.uniqueSensitization g que2).bind fun g =>
    Loop.whileLoop c.implicationPass (c.nNet + 1) (c.assignEaValue g f.netptr (!f.type.stuck))

variable {c} {m : FaultModel} {f : FNODE}

/-- The assignments that `back_implication` makes, in order. -/
def backCalls (c : Netlist) (t : Nat) (val : Bool) : List (Nat × Bool) :=
  let all (v : Bool) := (c.ins t).map fun i => (i, v)
  match c.type t with
  | .AND => if val then all true else []
  | .OR => if !val then all false else []
  | .NAND => if !val then all true else []
  | .NOR => if val then all false else []
  | .INV => [((c.ins t).getD 0 0, !val)]
  | .BUF | .FOUT => [((c.ins t).getD 0 0, val)]
  | _ => []

theorem backImplication_eq (g : Globals) (t : Nat) :
    c.backImplication g t =
      (c.backCalls t (g.logicValue t)).foldl (fun g call => c.assignEaValue g call.1 call.2) g := by
  unfold backImplication backCalls
  cases c.type t <;> cases g.logicValue t <;> simp [List.foldl_map]

/-! ### Assigning values -/

/-- Every detecting assignment gives the net this value. -/
def Essential (c : Netlist) (m : FaultModel) (f : FNODE) (n : Nat) (v : Bool) : Prop :=
  ∀ x, c.Detects m f x → c.good x n = v

/-- The implications so far, relative to the state `g₀` they started from. -/
structure EaInv (c : Netlist) (m : FaultModel) (f : FNODE) (g₀ g : Globals) : Prop where
  frame : g = { g₀ with
    que := g.que, logicValue := g.logicValue, eaFlag := g.eaFlag, uniqueFlag := g.uniqueFlag
    solver := g.solver }
  low : ∀ n, g.eaFlag n = true → n < c.nNet
  sound : ∀ n, g.eaFlag n = true → c.Essential m f n (g.logicValue n)
  units : ∃ units, g.solver = g₀.solver ++ units ∧ ∀ cl ∈ units, ∃ n v, n < c.nNet ∧
    g₀.normalScopeRequiredNet n = true ∧ c.Essential m f n v ∧ cl = [lit v (c.varsgc n)]
  queue : g.que.Valid c.queMaxnum
  queued : ∀ n ∈ g.que.contents c.queMaxnum, g.eaFlag n = true
  budget : g.que.count + c.unmarked g.eaFlag ≤ c.nNet

theorem EaInv.assign {g₀ g : Globals} (inv : EaInv c m f g₀ g) {n : Nat} {v : Bool} (hn : n < c.nNet)
    (essential : c.Essential m f n v) :
    EaInv c m f g₀ (c.assignEaValue g n v) ∧
      (c.assignEaValue g n v).que.count + c.unmarked (c.assignEaValue g n v).eaFlag =
        g.que.count + c.unmarked g.eaFlag ∧
      (c.assignEaValue g n v).uniqueFlag = g.uniqueFlag := by
  obtain ⟨frame, low, sound, ⟨units, solver, good⟩, queue, queued, budget⟩ := inv
  cases known : g.eaFlag n with
  | true =>
      have here : c.assignEaValue g n v = g := by simp [assignEaValue, known]
      rw [here]
      exact ⟨⟨frame, low, sound, ⟨units, solver, good⟩, queue, queued, budget⟩, rfl, rfl⟩
  | false =>
      have work := unmarked_update g.eaFlag hn known
      have room : g.que.count < c.queMaxnum := by
        unfold queMaxnum
        omega
      let units' := if g.normalScopeRequiredNet n then [[lit v (c.varsgc n)]] else []
      have here : c.assignEaValue g n v = { g with
          eaFlag := Function.update g.eaFlag n true
          logicValue := Function.update g.logicValue n v
          que := g.que.enqueue c.queMaxnum n
          solver := g.solver ++ units' } := by
        have scope : Globals.normalScopeRequiredNet { g with
            eaFlag := Function.update g.eaFlag n true
            logicValue := Function.update g.logicValue n v } n = g.normalScopeRequiredNet n := rfl
        simp only [assignEaValue, known, scope, units', Bool.false_eq_true, if_false]
        split
        · simp [queENQ, Globals.ccadicalAdd, not_le.mpr room]
        · simp [queENQ, not_le.mpr room]
      have scope : g.normalScopeRequiredNet = g₀.normalScopeRequiredNet := by
        rw [frame]
        rfl
      rw [here]
      refine ⟨⟨?_, ?_, ?_, ⟨units ++ units', ?_, ?_⟩, queue.enqueue room n, ?_, ?_⟩, ?_, rfl⟩
      · conv_lhs => rw [frame]
      · intro k hk
        by_cases h : k = n
        · exact h ▸ hn
        · simp only [Function.update_of_ne h] at hk
          exact low k hk
      · intro k hk
        by_cases h : k = n
        · subst h
          simpa using essential
        · simp only [Function.update_of_ne h] at hk ⊢
          exact sound k hk
      · rw [solver, List.append_assoc]
      · intro cl hcl
        rcases List.mem_append.mp hcl with hcl | hcl
        · exact good cl hcl
        · simp only [units'] at hcl
          split at hcl
          · rename_i required
            exact ⟨n, v, hn, scope ▸ required, essential, List.mem_singleton.mp hcl⟩
          · exact absurd hcl List.not_mem_nil
      · intro k hk
        simp only [RingQueue.contents_enqueue queue room, List.mem_append, List.mem_singleton] at hk
        by_cases h : k = n
        · simp [h]
        · simp only [Function.update_of_ne h]
          exact queued k (hk.resolve_right h)
      · simp only [RingQueue.enqueue]
        omega
      · simp only [RingQueue.enqueue]
        omega

/-- A loop whose rounds assign an essential value or do nothing. -/
theorem EaInv.foldl {α : Type*} {g₀ : Globals} (body : Globals → α → Globals)
    (flags : Nat → UniqueFlag) :
    ∀ (items : List α),
      (∀ a ∈ items, ∀ g, EaInv c m f g₀ g → g.uniqueFlag = flags → body g a = g ∨
        ∃ n v, n < c.nNet ∧ c.Essential m f n v ∧ body g a = c.assignEaValue g n v) →
      ∀ g, EaInv c m f g₀ g → g.uniqueFlag = flags →
        EaInv c m f g₀ (items.foldl body g) ∧
          (items.foldl body g).que.count + c.unmarked (items.foldl body g).eaFlag =
            g.que.count + c.unmarked g.eaFlag ∧
          (items.foldl body g).uniqueFlag = flags := by
  intro items
  induction items with
  | nil => intro _ g inv same; exact ⟨inv, rfl, same⟩
  | cons a items ih =>
      intro step g inv same
      have rest := ih fun b hb => step b (List.mem_cons_of_mem _ hb)
      rw [List.foldl_cons]
      rcases step a List.mem_cons_self g inv same with idle | ⟨n, v, hn, essential, assigned⟩
      · rw [idle]
        exact rest g inv same
      · obtain ⟨inv', work, flagsKept⟩ := inv.assign hn essential
        rw [assigned]
        obtain ⟨inv'', work', same'⟩ := rest _ inv' (flagsKept.trans same)
        exact ⟨inv'', work'.trans work, same'⟩

/-! ### Implications -/

section Implication

variable (wf : c.WellFormed m)

include wf

/-- A gate that shows its all-non-controlling value has no controlling input. -/
theorem Essential.back_all {t : Nat} {v : Bool} (ht : t < c.nNet) (ctrl : (c.type t).ctrl = some v)
    (essential : c.Essential m f t (xor (c.type t).inverts (!v))) {i : Nat} (hi : i ∈ c.ins t) :
    c.Essential m f i (!v) := by
  intro x det
  have gate : c.type t ≠ .IN := by
    intro h
    rw [h] at ctrl
    cases ctrl
  have value := essential x det
  rw [wf.good_gate ht gate, GateType.fn_eq_ctrl ctrl] at value
  have free : v ∉ (c.ins t).map (c.good x) := by
    intro has
    rw [if_pos has] at value
    cases v <;> cases (c.type t).inverts <;> simp at value
  by_contra other
  refine free (List.mem_map.mpr ⟨i, hi, ?_⟩)
  cases h : c.good x i <;> cases v <;> simp_all

/-- Buffers and inverters pass a value back. -/
theorem Essential.back_one {t : Nat} {v : Bool} (ht : t < c.nNet)
    (one : c.type t = .INV ∨ c.type t = .BUF ∨ c.type t = .FOUT) (essential : c.Essential m f t v) :
    (c.ins t).getD 0 0 < c.nNet ∧
      c.Essential m f ((c.ins t).getD 0 0) (xor (c.type t).inverts v) := by
  have arity := wf.arity t ht
  have single : (c.ins t).length = 1 := by
    rcases one with h | h | h <;> rw [h] at arity <;> exact arity
  obtain ⟨i, hi⟩ := List.length_eq_one_iff.mp single
  have hlt : i < c.nNet := wf.insLt t ht i (by rw [hi]; exact List.mem_singleton_self i)
  simp only [hi, List.getD_cons_zero]
  refine ⟨hlt, fun x det => ?_⟩
  have value := essential x det
  rcases one with h | h | h <;> rw [wf.good_gate ht (by rw [h]; decide), h, hi] at value <;>
    simp only [GateType.fn, List.map_cons, List.getD_cons_zero] at value <;> rw [h, ← value] <;>
    simp [GateType.inverts]

/-- The values that `back_implication` assigns are essential when the value of the net is. -/
theorem Essential.backCalls {t : Nat} {val : Bool} (ht : t < c.nNet) (essential : c.Essential m f t val) :
    ∀ call ∈ c.backCalls t val, call.1 < c.nNet ∧ c.Essential m f call.1 call.2 := by
  have all : ∀ v, (c.type t).ctrl = some v → val = xor (c.type t).inverts (!v) →
      ∀ call ∈ (c.ins t).map (fun i => (i, !v)), call.1 < c.nNet ∧ c.Essential m f call.1 call.2 := by
    intro v ctrl isVal call hcall
    obtain ⟨i, hi, rfl⟩ := List.mem_map.mp hcall
    exact ⟨wf.insLt t ht i hi, Essential.back_all wf ht ctrl (isVal ▸ essential) hi⟩
  have one : ∀ {v}, (c.type t = .INV ∨ c.type t = .BUF ∨ c.type t = .FOUT) →
      xor (c.type t).inverts val = v →
      ∀ call ∈ [((c.ins t).getD 0 0, v)], call.1 < c.nNet ∧ c.Essential m f call.1 call.2 := by
    intro v isOne isVal call hcall
    rw [List.mem_singleton.mp hcall, ← isVal]
    exact Essential.back_one wf ht isOne essential
  have nothing : ∀ call ∈ ([] : List (Nat × Bool)),
      call.1 < c.nNet ∧ c.Essential m f call.1 call.2 := by
    intro call hcall
    exact absurd hcall List.not_mem_nil
  unfold Netlist.backCalls
  cases type : c.type t with
  | AND =>
      simp only
      split
      · rename_i isVal
        exact all false (by rw [type]; rfl) (by rw [type, isVal]; rfl)
      · exact nothing
  | OR =>
      simp only
      split
      · rename_i isVal
        exact all true (by rw [type]; rfl) (by rw [type]; simpa [GateType.inverts] using isVal)
      · exact nothing
  | NAND =>
      simp only
      split
      · rename_i isVal
        exact all false (by rw [type]; rfl) (by rw [type]; simpa [GateType.inverts] using isVal)
      · exact nothing
  | NOR =>
      simp only
      split
      · rename_i isVal
        exact all true (by rw [type]; rfl) (by rw [type, isVal]; rfl)
      · exact nothing
  | INV => exact one (.inl type) (by rw [type]; simp [GateType.inverts])
  | BUF => exact one (.inr (.inl type)) (by rw [type]; simp [GateType.inverts])
  | FOUT => exact one (.inr (.inr type)) (by rw [type]; simp [GateType.inverts])
  | _ => exact nothing

/-- A controlling value among the known inputs, or all of them known and none controlling. -/
private theorem implied_ctrl {g₀ g : Globals} (inv : EaInv c m f g₀ g) {out : Nat}
    (hout : out < c.nNet) {ctrl : Bool} (isCtrl : (c.type out).ctrl = some ctrl) {v : Bool}
    (implied : (if (c.ins out).any (fun j => g.eaFlag j && g.logicValue j == ctrl) then
        some (xor (c.type out).inverts ctrl)
      else if (c.ins out).countP (fun j => g.eaFlag j && g.logicValue j == !ctrl) =
        (c.ins out).length then some (!xor (c.type out).inverts ctrl) else none) = some v) :
    c.Essential m f out v := by
  have gate : c.type out ≠ .IN := by
    intro h
    rw [h] at isCtrl
    cases isCtrl
  intro x det
  rw [wf.good_gate hout gate, GateType.fn_eq_ctrl isCtrl]
  split at implied
  · rename_i some
    obtain ⟨j, hj, hval⟩ := List.any_eq_true.mp some
    simp only [Bool.and_eq_true, beq_iff_eq] at hval
    have has : ctrl ∈ (c.ins out).map (c.good x) :=
      List.mem_map.mpr ⟨j, hj, (inv.sound j hval.1 x det).trans hval.2⟩
    rw [if_pos has]
    exact Option.some.inj implied
  · split at implied
    · rename_i all
      rw [List.countP_eq_length] at all
      have hasNot : ctrl ∉ (c.ins out).map (c.good x) := by
        intro has
        obtain ⟨j, hj, hval⟩ := List.mem_map.mp has
        have known := all j hj
        simp only [Bool.and_eq_true, beq_iff_eq] at known
        rw [inv.sound j known.1 x det, known.2] at hval
        cases ctrl <;> simp at hval
      rw [if_neg hasNot, ← Option.some.inj implied]
      cases ctrl <;> cases (c.type out).inverts <;> rfl
    · cases implied

theorem EaInv.implied {g₀ g : Globals} (inv : EaInv c m f g₀ g) {out : Nat} (hout : out < c.nNet)
    {v : Bool} (implied : c.impliedValue g out = some v) : c.Essential m f out v := by
  have one : ∀ i, c.ins out = [i] → g.eaFlag i = true → ∀ x, c.Detects m f x →
      c.good x i = g.logicValue i := fun i _ known => inv.sound i known
  have arity := wf.arity out hout
  unfold impliedValue at implied
  cases type : c.type out with
  | AND | NAND | OR | NOR =>
      simp only [type] at implied
      apply implied_ctrl wf inv hout (by rw [type]; rfl)
      rw [type]
      simpa [GateType.inverts] using implied
  | INV | BUF | FOUT =>
      rw [type] at arity
      obtain ⟨i, hi⟩ := List.length_eq_one_iff.mp arity
      simp only [type, hi, List.getD_cons_zero] at implied
      split at implied
      · rename_i known
        intro x det
        rw [wf.good_gate hout (by rw [type]; decide), type, hi]
        simp only [GateType.fn, List.map_cons, List.getD_cons_zero, one i hi known x det]
        exact Option.some.inj implied
      · cases implied
  | _ =>
      simp only [type] at implied
      cases implied

end Implication

/-! ### The queue of unique sensitization -/

/-- A net was queued at some time. -/
def seenUnique (flag : Nat → UniqueFlag) (n : Nat) : Bool := decide (flag n ≠ .DOWN)

theorem seenUnique_update (flag : Nat → UniqueFlag) (n : Nat) {v : UniqueFlag} (hv : v ≠ .DOWN) :
    seenUnique (Function.update flag n v) = Function.update (seenUnique flag) n true := by
  funext k
  by_cases h : k = n
  · simp [seenUnique, h, hv]
  · simp [seenUnique, h]

/-- The flags and the queue agree; every net is queued at most once, so the cursors never wrap. -/
structure Que2Inv (c : Netlist) (flag : Nat → UniqueFlag) (q : RingQueue Nat) : Prop where
  linear : q.front + q.count = q.rear
  budget : q.rear + c.unmarked (seenUnique flag) ≤ c.nNet
  up : ∀ n, flag n = .UP ↔ n ∈ q.contents c.que2Maxnum
  nodup : (q.contents c.que2Maxnum).Nodup
  low : ∀ n, flag n ≠ .DOWN → n < c.nNet

theorem Que2Inv.fits {flag : Nat → UniqueFlag} {q : RingQueue Nat} (inv : Que2Inv c flag q) :
    q.rear < c.que2Maxnum := by
  have := inv.budget
  unfold que2Maxnum
  omega

theorem Que2Inv.valid {flag : Nat → UniqueFlag} {q : RingQueue Nat} (inv : Que2Inv c flag q) :
    q.Valid c.que2Maxnum :=
  .of_linear inv.linear inv.fits

theorem Que2Inv.push {flag : Nat → UniqueFlag} {q : RingQueue Nat} (inv : Que2Inv c flag q) {o : Nat}
    (ho : o < c.nNet) (new : flag o = .DOWN) :
    Que2Inv c (Function.update flag o .UP) (q.enqueue c.que2Maxnum o) ∧
      ∀ g : Globals, c.que2Enq (g, q) o = (g, q.enqueue c.que2Maxnum o) := by
  have fits := inv.fits
  have linear := inv.linear
  have budget := inv.budget
  have work := unmarked_update (c := c) (seenUnique flag) ho (by simp [seenUnique, new])
  have contents := RingQueue.contents_enqueue inv.valid (by omega : q.count < c.que2Maxnum) o
  refine ⟨⟨?_, ?_, ?_, ?_, ?_⟩, ?_⟩
  · have noWrap : (q.rear + 1) % c.que2Maxnum = q.rear + 1 := by
      apply Nat.mod_eq_of_lt
      unfold que2Maxnum
      omega
    simp only [RingQueue.enqueue, noWrap]
    omega
  · have noWrap : (q.rear + 1) % c.que2Maxnum = q.rear + 1 := by
      apply Nat.mod_eq_of_lt
      unfold que2Maxnum
      omega
    rw [seenUnique_update flag o (by decide)]
    simp only [RingQueue.enqueue, noWrap]
    omega
  · intro n
    rw [contents, List.mem_append, List.mem_singleton, ← inv.up n]
    by_cases h : n = o
    · simp [h]
    · simp [h]
  · rw [contents]
    refine List.nodup_append.mpr ⟨inv.nodup, List.nodup_singleton o, ?_⟩
    rintro n hn _ ho' rfl
    rw [List.mem_singleton] at ho'
    rw [← inv.up n, ho', new] at hn
    cases hn
  · intro n hn
    by_cases h : n = o
    · exact h ▸ ho
    · rw [Function.update_of_ne h] at hn
      exact inv.low n hn
  · intro g
    have room : ¬ c.que2Maxnum ≤ q.count + 1 := by
      unfold que2Maxnum
      omega
    simp [que2Enq, RingQueue.enqueue, room]

theorem Que2Inv.take {flag : Nat → UniqueFlag} {q : RingQueue Nat} (inv : Que2Inv c flag q)
    (some : 0 < q.count) :
    let t := (q.dequeue c.que2Maxnum).1
    flag t = .UP ∧ Que2Inv c (Function.update flag t .MIDDLE) (q.dequeue c.que2Maxnum).2 := by
  have head := RingQueue.contents_dequeue inv.valid some
  have fits := inv.fits
  have linear := inv.linear
  have isUp : flag (q.dequeue c.que2Maxnum).1 = .UP := by
    rw [inv.up, head]
    exact List.mem_cons_self
  have nodup := inv.nodup
  rw [head] at nodup
  obtain ⟨gone, nodup⟩ := List.nodup_cons.mp nodup
  refine ⟨isUp, ⟨?_, ?_, ?_, nodup, ?_⟩⟩
  · have noWrap : (q.front + 1) % c.que2Maxnum = q.front + 1 := Nat.mod_eq_of_lt (by omega)
    simp only [RingQueue.dequeue, noWrap]
    omega
  · rw [seenUnique_update flag _ (by decide)]
    have same : Function.update (seenUnique flag) (q.dequeue c.que2Maxnum).1 true =
        seenUnique flag := by
      apply Function.update_eq_self_iff.mpr
      simp [seenUnique, isUp]
    rw [same]
    exact inv.budget
  · intro n
    by_cases h : n = (q.dequeue c.que2Maxnum).1
    · simp [h, gone]
    · rw [Function.update_of_ne h, inv.up n, head, List.mem_cons]
      simp [h]
  · intro n hn
    by_cases h : n = (q.dequeue c.que2Maxnum).1
    · rw [h]
      exact inv.low _ (by rw [isUp]; decide)
    · rw [Function.update_of_ne h] at hn
      exact inv.low n hn

/-- Sorting permutes the queued nets. -/
theorem Que2Inv.sort {flag : Nat → UniqueFlag} {q : RingQueue Nat} (inv : Que2Inv c flag q) :
    ∃ q', c.que2Sort q = some q' ∧ q'.count = q.count ∧ Que2Inv c flag q' := by
  have linear := inv.linear
  by_cases guard : 1 < q.count ∧ q.front < q.rear
  · obtain ⟨items, sorted, arranged⟩ := HoareSort.qsort_spec c.level (q.rear + 1) q.items
      q.front (q.rear - 1) (by omega) (by omega)
    have perm : ((List.range' q.front q.count).map items).Perm
        ((List.range' q.front q.count).map q.items) := by
      apply HoareSort.Rearranged.perm
      have ends : (q.front : Int) + q.count - 1 = q.rear - 1 := by omega
      rwa [ends]
    have contents : RingQueue.contents c.que2Maxnum { q with items } =
        (List.range' q.front q.count).map items :=
      RingQueue.contents_linear linear inv.fits.le
    rw [← RingQueue.contents_linear linear inv.fits.le, ← contents] at perm
    refine ⟨{ q with items }, by simp only [que2Sort, guard, and_self, if_true, sorted]; rfl, rfl, ?_⟩
    exact ⟨linear, inv.budget, fun n => (inv.up n).trans perm.mem_iff.symm,
      perm.nodup_iff.mpr inv.nodup, inv.low⟩
  · exact ⟨q, by rw [que2Sort, if_neg guard], rfl, inv⟩

/-- Queueing the outputs of a net. -/
theorem foldl_uniquePush {g₀ : Globals} :
    ∀ (os : List Nat) (g : Globals) (q : RingQueue Nat), (∀ o ∈ os, o < c.nNet) →
      EaInv c m f g₀ g → Que2Inv c g.uniqueFlag q →
      let s := os.foldl c.uniquePush (g, q)
      EaInv c m f g₀ s.1 ∧ Que2Inv c s.1.uniqueFlag s.2 ∧
        (∀ n, s.1.uniqueFlag n = .MIDDLE ↔ g.uniqueFlag n = .MIDDLE) ∧
        (∀ n, g.uniqueFlag n ≠ .DOWN → s.1.uniqueFlag n ≠ .DOWN) ∧
        (∀ o ∈ os, s.1.uniqueFlag o ≠ .DOWN) ∧
        s.2.count + c.unmarked (seenUnique s.1.uniqueFlag) =
          q.count + c.unmarked (seenUnique g.uniqueFlag) := by
  intro os
  induction os with
  | nil => intro g q _ ea que2; simpa using ⟨ea, que2⟩
  | cons o os ih =>
      intro g q low ea que2
      have lowRest : ∀ k ∈ os, k < c.nNet := fun k hk => low k (List.mem_cons_of_mem _ hk)
      rw [List.foldl_cons]
      by_cases queued : g.uniqueFlag o ≠ .DOWN
      · have here : c.uniquePush (g, q) o = (g, q) := by simp [uniquePush, queued]
        rw [here]
        obtain ⟨ea', que2', middle, seen, pushed, work⟩ := ih g q lowRest ea que2
        refine ⟨ea', que2', middle, seen, ?_, work⟩
        intro k hk
        rcases List.mem_cons.mp hk with rfl | hk
        · exact seen k queued
        · exact pushed k hk
      · have new : g.uniqueFlag o = .DOWN := not_not.mp queued
        have ho := low o List.mem_cons_self
        obtain ⟨que2', enq⟩ := que2.push ho new
        let g' : Globals := { g with uniqueFlag := Function.update g.uniqueFlag o .UP }
        have here : c.uniquePush (g, q) o = (g', q.enqueue c.que2Maxnum o) := by
          simp [uniquePush, new, enq, g']
        have ea' : EaInv c m f g₀ g' := by
          refine ⟨?_, ea.low, ea.sound, ea.units, ea.queue, ea.queued, ea.budget⟩
          simp only [g']
          conv_lhs => rw [ea.frame]
        have count := unmarked_update (c := c) (seenUnique g.uniqueFlag) ho
          (by simp [seenUnique, new])
        rw [here]
        obtain ⟨ea'', que2'', middle, seen, pushed, work⟩ := ih g' _ lowRest ea' que2'
        refine ⟨ea'', que2'', fun n => (middle n).trans ?_, fun n hn => seen n ?_, ?_, ?_⟩
        · by_cases h : n = o
          · simp [g', h, new]
          · simp [g', h]
        · by_cases h : n = o
          · simp [g', h]
          · simpa [g', h] using hn
        · intro k hk
          rcases List.mem_cons.mp hk with rfl | hk
          · exact seen k (by simp [g'])
          · exact pushed k hk
        · rw [work]
          simp only [g', RingQueue.enqueue]
          rw [seenUnique_update _ _ (by decide)]
          omega

/-! ### Unique sensitization -/

/-- A set of nets around the site that paths leave only through `t`. -/
structure Crossing (c : Netlist) (f : FNODE) (t : Nat) (P : Nat → Prop) : Prop where
  site : P f.netptr
  leave : ∀ n, P n → n ≠ t → c.outs n ≠ [] ∧ ∀ o ∈ c.outs n, P o

section Unique

variable (wf : c.WellFormed m)

include wf

/-- Every D-chain to an observed net crosses `t`. -/
theorem Crossing.differs {t : Nat} {P : Nat → Prop} (crossing : Crossing c f t P)
    (fault : c.IsFault m f) {x : c.Assignment} (det : c.Detects m f x) : c.Differs f x t := by
  obtain ⟨o, ho, differs, ends⟩ := wf.detects_end fault det
  obtain ⟨atSite, chain⟩ := wf.dchain o (wf.observedLt o ho) differs
  have along : c.Differs f x t ∨ P o ∧ o ≠ t := by
    clear ends differs ho
    induction chain with
    | refl =>
        by_cases h : f.netptr = t
        · exact .inl (h ▸ atSite)
        · exact .inr ⟨crossing.site, h⟩
    | @tail a b _ step ih =>
        rcases ih with found | ⟨inside, other⟩
        · exact .inl found
        · by_cases h : b = t
          · exact .inl (h ▸ step.2)
          · exact .inr ⟨(crossing.leave a inside other).2 b step.1, h⟩
  rcases along with found | ⟨inside, other⟩
  · exact found
  · exact absurd ends (crossing.leave o inside other).1

/-- An input of `t` outside the set is outside the fanout of the site. -/
theorem Crossing.unreached {t : Nat} {P : Nat → Prop} (crossing : Crossing c f t P)
    (ht : t < c.nNet) {k : Nat} (hk : k ∈ c.ins t) (out : ¬ P k) : ¬ c.InFanout f k := by
  rintro ⟨r, rfl, path⟩
  have along : Relation.ReflTransGen (fun a b => b ∈ c.outs a) t k ∨ P k ∧ k ≠ t := by
    clear out hk
    induction path with
    | refl =>
        by_cases h : f.netptr = t
        · exact .inl (h ▸ .refl)
        · exact .inr ⟨crossing.site, h⟩
    | @tail a b _ step ih =>
        rcases ih with found | ⟨inside, other⟩
        · exact .inl (found.tail step)
        · by_cases h : b = t
          · exact .inl (h ▸ .refl)
          · exact .inr ⟨(crossing.leave a inside other).2 b step, h⟩
  rcases along with found | ⟨inside, -⟩
  · exact wf.no_cycle ht found hk
  · exact out inside

/-- The side inputs of a crossed gate have the non-controlling value. -/
theorem Crossing.essential {t : Nat} {P : Nat → Prop} (crossing : Crossing c f t P)
    (fault : c.IsFault m f) (ht : t < c.nNet) (other : t ≠ f.netptr) {v : Bool}
    (ctrl : (c.type t).ctrl = some v) {k : Nat} (hk : k ∈ c.ins t) (out : ¬ P k) :
    c.Essential m f k (!v) :=
  fun _ det => wf.side_input ht other (crossing.differs wf fault det) hk
    (crossing.unreached wf ht hk out) ctrl

end Unique

/-- A detecting assignment excites the site. -/
theorem essential_site (wf : c.WellFormed m) (fault : c.IsFault m f) :
    c.Essential m f f.netptr (!f.type.stuck) := by
  intro x det
  obtain ⟨o, ho, differs, -⟩ := wf.detects_end fault det
  have atSite := (wf.dchain o (wf.observedLt o ho) differs).1
  rw [Differs, wf.faulty_site fault.netLt] at atSite
  exact Bool.eq_not.mpr atSite

/-- What the walk and the implications rely on: edges lead to nets, and a value that they assign is
essential. -/
structure EaRules (c : Netlist) (m : FaultModel) (f : FNODE) : Prop where
  insLt : ∀ n < c.nNet, ∀ i ∈ c.ins n, i < c.nNet
  outsLt : ∀ n < c.nNet, ∀ o ∈ c.outs n, o < c.nNet
  site : f.netptr < c.nNet
  excited : c.Essential m f f.netptr (!f.type.stuck)
  back : ∀ {t : Nat} {val : Bool}, t < c.nNet → c.Essential m f t val →
    ∀ call ∈ c.backCalls t val, call.1 < c.nNet ∧ c.Essential m f call.1 call.2
  implied : ∀ {g₀ g : Globals} {out : Nat} {v : Bool}, EaInv c m f g₀ g → out < c.nNet →
    c.impliedValue g out = some v → c.Essential m f out v
  crossed : ∀ {t : Nat} {P : Nat → Prop} {v : Bool} {k : Nat}, Crossing c f t P → t < c.nNet →
    t ≠ f.netptr → (c.type t).ctrl = some v → k ∈ c.ins t → ¬ P k → c.Essential m f k (!v)

theorem WellFormed.eaRules (wf : c.WellFormed m) (fault : c.IsFault m f) : EaRules c m f where
  insLt := wf.insLt
  outsLt := wf.outsLt
  site := fault.netLt
  excited := essential_site wf fault
  back := Essential.backCalls wf
  implied := fun inv low => inv.implied wf low
  crossed := fun crossing ht other ctrl mem out => crossing.essential wf fault ht other ctrl mem out

/-! ### Spreading the values -/

theorem EaInv.backImplication {g₀ g : Globals} (rules : EaRules c m f) (inv : EaInv c m f g₀ g) {t : Nat}
    (known : g.eaFlag t = true) :
    EaInv c m f g₀ (c.backImplication g t) ∧
      (c.backImplication g t).que.count + c.unmarked (c.backImplication g t).eaFlag =
        g.que.count + c.unmarked g.eaFlag ∧
      (c.backImplication g t).uniqueFlag = g.uniqueFlag := by
  have essential := rules.back (inv.low t known) (inv.sound t known)
  rw [backImplication_eq]
  apply EaInv.foldl _ _ _ ?_ g inv rfl
  intro call hcall g _ _
  exact .inr ⟨call.1, call.2, (essential call hcall).1, (essential call hcall).2, rfl⟩

theorem EaInv.forwardImplication {g₀ g : Globals} (rules : EaRules c m f) (inv : EaInv c m f g₀ g)
    {t : Nat} (ht : t < c.nNet) :
    EaInv c m f g₀ (c.forwardImplication g t) ∧
      (c.forwardImplication g t).que.count + c.unmarked (c.forwardImplication g t).eaFlag =
        g.que.count + c.unmarked g.eaFlag ∧
      (c.forwardImplication g t).uniqueFlag = g.uniqueFlag := by
  refine EaInv.foldl _ _ (c.outs t) ?_ g inv rfl
  intro out hout g inv _
  have lt := rules.outsLt t ht out hout
  by_cases known : g.eaFlag out = true
  · left
    simp [known]
  · simp only [known, Bool.false_eq_true, if_false]
    cases implied : c.impliedValue g out with
    | none => exact .inl rfl
    | some v => exact .inr ⟨out, v, lt, rules.implied inv lt implied, rfl⟩

/-- The net at the head of the queue has a value. -/
theorem EaInv.dequeue {g₀ g : Globals} (inv : EaInv c m f g₀ g) (some : g.que.count ≠ 0) :
    (c.queDEQ g).2.eaFlag (c.queDEQ g).1 = true ∧ EaInv c m f g₀ (c.queDEQ g).2 := by
  have some : 0 < g.que.count := Nat.pos_of_ne_zero some
  have head := RingQueue.contents_dequeue inv.queue some
  refine ⟨inv.queued _ (by rw [head]; exact List.mem_cons_self), ?_, inv.low, inv.sound, inv.units,
    inv.queue.dequeue some, ?_, ?_⟩
  · simp only [queDEQ]
    conv_lhs => rw [inv.frame]
  · intro n hn
    exact inv.queued n (by rw [head]; exact List.mem_cons_of_mem _ hn)
  · have := inv.budget
    simp only [queDEQ, RingQueue.dequeue]
    omega

theorem EaInv.pass {g₀ g g' : Globals} (rules : EaRules c m f) (inv : EaInv c m f g₀ g)
    (next : c.implicationPass g = some g') :
    EaInv c m f g₀ g' ∧ g'.que.count + c.unmarked g'.eaFlag < g.que.count + c.unmarked g.eaFlag := by
  unfold implicationPass at next
  split at next
  · cases next
  · rename_i some
    obtain ⟨known, taken⟩ := inv.dequeue some
    obtain ⟨back, work, -⟩ := taken.backImplication rules known
    obtain ⟨forward, work', -⟩ := back.forwardImplication rules (taken.low _ known)
    have less : (c.queDEQ g).2.que.count + c.unmarked (c.queDEQ g).2.eaFlag <
        g.que.count + c.unmarked g.eaFlag := by
      simp only [queDEQ, RingQueue.dequeue]
      omega
    cases next
    exact ⟨forward, (work'.trans work).trans_lt less⟩

/-! ### The walk -/

/-- The walk between two rounds: the nets taken so far have their outputs queued, and as long as no path
has ended each of them has one. -/
structure UniqueInv (c : Netlist) (m : FaultModel) (f : FNODE) (g₀ : Globals) (s : UniqueState) :
    Prop where
  ea : EaInv c m f g₀ s.g
  que2 : Que2Inv c s.g.uniqueFlag s.que2
  site : s.g.uniqueFlag f.netptr = .MIDDLE
  closed : ∀ n, s.g.uniqueFlag n = .MIDDLE → ∀ o ∈ c.outs n, s.g.uniqueFlag o ≠ .DOWN
  unended : s.obsSeen = false → ∀ n, s.g.uniqueFlag n = .MIDDLE → c.outs n ≠ []

/-- The walk inside a round, after `t` was taken. -/
structure TakenInv (c : Netlist) (m : FaultModel) (f : FNODE) (g₀ : Globals) (t : Nat)
    (s : UniqueState) : Prop where
  ea : EaInv c m f g₀ s.g
  que2 : Que2Inv c s.g.uniqueFlag s.que2
  site : s.g.uniqueFlag f.netptr = .MIDDLE
  taken : s.g.uniqueFlag t = .MIDDLE
  closed : ∀ n, s.g.uniqueFlag n = .MIDDLE → n ≠ t → ∀ o ∈ c.outs n, s.g.uniqueFlag o ≠ .DOWN
  unended : s.obsSeen = false → ∀ n, s.g.uniqueFlag n = .MIDDLE → n ≠ t → c.outs n ≠ []

/-- The nets still to be taken. -/
def uniqueWork (c : Netlist) (s : UniqueState) : Nat :=
  s.que2.count + c.unmarked (seenUnique s.g.uniqueFlag)

/-- Taking the head of the queue: at the start the site, later the next net. -/
theorem uniqueTake_spec {g₀ : Globals} {s : UniqueState} (ea : EaInv c m f g₀ s.g)
    (que2 : Que2Inv c s.g.uniqueFlag s.que2) (some : 0 < s.que2.count) :
    ∃ t s', c.uniqueTake s = (t, s') ∧ t ∈ s.que2.contents c.que2Maxnum ∧
      s.g.uniqueFlag t = .UP ∧ EaInv c m f g₀ s'.g ∧ Que2Inv c s'.g.uniqueFlag s'.que2 ∧
      s'.g.uniqueFlag = Function.update s.g.uniqueFlag t .MIDDLE ∧ s'.obsSeen = s.obsSeen ∧
      c.uniqueWork s' + 1 = c.uniqueWork s := by
  obtain ⟨isUp, que2'⟩ := que2.take some
  have head := RingQueue.contents_dequeue que2.valid some
  have same : seenUnique (Function.update s.g.uniqueFlag (s.que2.dequeue c.que2Maxnum).1 .MIDDLE) =
      seenUnique s.g.uniqueFlag := by
    rw [seenUnique_update _ _ (by decide)]
    apply Function.update_eq_self_iff.mpr
    simp [seenUnique, isUp]
  refine ⟨_, _, rfl, by rw [head]; exact List.mem_cons_self, isUp, ?_, que2', rfl, rfl, ?_⟩
  · refine ⟨?_, ea.low, ea.sound, ea.units, ea.queue, ea.queued, ea.budget⟩
    simp only
    conv_lhs => rw [ea.frame]
  · have same' : seenUnique (Function.update s.g.uniqueFlag (s.que2.items s.que2.front) .MIDDLE) =
        seenUnique s.g.uniqueFlag := same
    simp only [uniqueWork, same']
    omega

theorem TakenInv.expand {g₀ : Globals} {t : Nat} {s : UniqueState} (rules : EaRules c m f)
    (inv : TakenInv c m f g₀ t s) (ht : t < c.nNet) :
    ∃ s', c.uniqueExpand t s = some s' ∧ UniqueInv c m f g₀ s' ∧
      c.uniqueWork s' = c.uniqueWork s := by
  obtain ⟨ea, que2, middle, seen, pushed, work⟩ :=
    foldl_uniquePush (c.outs t) s.g s.que2 (rules.outsLt t ht) inv.ea inv.que2
  generalize hs : (c.outs t).foldl c.uniquePush (s.g, s.que2) = gq at *
  obtain ⟨g, que2₁⟩ := gq
  simp only at ea que2 middle seen pushed work
  obtain ⟨que2₂, sorted, count, que2'⟩ := que2.sort
  refine ⟨⟨g, que2₂, s.obsSeen || (c.outs t).isEmpty⟩, ?_, ⟨ea, que2', ?_, ?_, ?_⟩, ?_⟩
  · simp only [uniqueExpand, hs, sorted, Option.map_some]
  · exact (middle _).mpr inv.site
  · intro n hn o ho
    by_cases h : n = t
    · exact pushed o (h ▸ ho)
    · exact seen o (inv.closed n ((middle n).mp hn) h o ho)
  · intro obs n hn
    simp only [Bool.or_eq_false_iff, List.isEmpty_eq_false_iff] at obs
    by_cases h : n = t
    · exact h ▸ obs.2
    · exact inv.unended obs.1 n ((middle n).mp hn) h
  · simp only [uniqueWork, count]
    exact work

theorem TakenInv.assign {g₀ : Globals} {t : Nat} {s : UniqueState} (rules : EaRules c m f)
    (inv : TakenInv c m f g₀ t s) (other : t ≠ f.netptr) (ht : t < c.nNet) :
    TakenInv c m f g₀ t (c.uniqueAssign t s) ∧ c.uniqueWork (c.uniqueAssign t s) = c.uniqueWork s := by
  by_cases alone : (s.que2.count = 0 && !s.obsSeen) = true
  · simp only [uniqueAssign, alone, if_true]
    cases found : (List.range (c.ins t).length).find?
        (fun i => s.g.uniqueFlag ((c.ins t).getD i 0) = .MIDDLE) with
    | none => exact ⟨inv, rfl⟩
    | some idx =>
        simp only [Bool.and_eq_true, decide_eq_true_eq, Bool.not_eq_true'] at alone
        -- the queue is empty, so no net is in state UP and the taken nets are closed except `t`
        have noUp : ∀ n, s.g.uniqueFlag n ≠ .UP := by
          intro n hn
          rw [inv.que2.up n, (RingQueue.contents_eq_nil _ _).mpr alone.1] at hn
          exact List.not_mem_nil hn
        have crossing : Crossing c f t (fun n => s.g.uniqueFlag n = .MIDDLE) := by
          refine ⟨inv.site, fun n hn h => ⟨inv.unended alone.2 n hn h, fun o ho => ?_⟩⟩
          have queued := inv.closed n hn h o ho
          cases flag : s.g.uniqueFlag o with
          | DOWN => exact absurd flag queued
          | UP => exact absurd flag (noUp o)
          | MIDDLE => rfl
        have assigned : EaInv c m f g₀ (c.assignUniqueValue s.g t idx) ∧
            (c.assignUniqueValue s.g t idx).uniqueFlag = s.g.uniqueFlag := by
          unfold assignUniqueValue
          split
          · exact ⟨inv.ea, rfl⟩
          · split
            · exact ⟨inv.ea, rfl⟩
            · rename_i v ctrl
              have := EaInv.foldl
                (fun g i =>
                  let k := (c.ins t).getD i 0
                  if i = idx || g.uniqueFlag k ≠ .DOWN || g.eaFlag k then g
                  else c.assignEaValue g k (!v))
                s.g.uniqueFlag (List.range (c.ins t).length) ?_ s.g inv.ea rfl
              · exact ⟨this.1, this.2.2⟩
              · intro i hi g _ same
                have hi : i < (c.ins t).length := List.mem_range.mp hi
                have mem : (c.ins t).getD i 0 ∈ c.ins t := by
                  rw [List.getD_eq_getElem _ _ hi]
                  exact List.getElem_mem hi
                simp only
                split
                · exact .inl rfl
                · rename_i side
                  simp only [ne_eq, decide_not, Bool.or_eq_true, decide_eq_true_eq,
                    Bool.not_eq_true', decide_eq_false_iff_not, not_or, not_not, same] at side
                  refine .inr ⟨_, _, rules.insLt t ht _ mem, ?_, rfl⟩
                  exact rules.crossed crossing ht other ctrl mem (by rw [side.1.2]; decide)
        obtain ⟨ea, flags⟩ := assigned
        refine ⟨⟨ea, ?_, ?_, ?_, ?_, ?_⟩, ?_⟩
        · simpa only [flags] using inv.que2
        · simpa only [flags] using inv.site
        · simpa only [flags] using inv.taken
        · simpa only [flags] using inv.closed
        · simpa only [flags] using inv.unended
        · simp only [uniqueWork, flags]
  · simp only [uniqueAssign, alone]
    exact ⟨inv, rfl⟩

theorem UniqueInv.pass {g₀ : Globals} {s : UniqueState} (rules : EaRules c m f)
    (inv : UniqueInv c m f g₀ s) (some : 0 < s.que2.count) :
    ∃ s', c.uniquePass (.some s) = .some (.some s') ∧ UniqueInv c m f g₀ s' ∧
      c.uniqueWork s' < c.uniqueWork s := by
  obtain ⟨t, s₁, take, -, isUp, ea, que2, flags, obs, work⟩ := uniqueTake_spec inv.ea inv.que2 some
  have ht : t < c.nNet := inv.que2.low t (by rw [isUp]; decide)
  have other : t ≠ f.netptr := by
    rintro rfl
    rw [inv.site] at isUp
    cases isUp
  have taken : TakenInv c m f g₀ t s₁ := by
    have was : ∀ n, s₁.g.uniqueFlag n = .MIDDLE → n ≠ t → s.g.uniqueFlag n = .MIDDLE := by
      intro n hn h
      rwa [flags, Function.update_of_ne h] at hn
    refine ⟨ea, que2, ?_, by rw [flags, Function.update_self], ?_, ?_⟩
    · rw [flags, Function.update_of_ne other.symm, inv.site]
    · intro n hn h o ho
      rw [flags]
      by_cases h' : o = t
      · simp [h']
      · rw [Function.update_of_ne h']
        exact inv.closed n (was n hn h) o ho
    · intro seen n hn h
      exact inv.unended (obs ▸ seen) n (was n hn h)
  obtain ⟨assigned, work'⟩ := taken.assign rules other ht
  obtain ⟨s', expanded, inv', work''⟩ := assigned.expand rules ht
  refine ⟨s', ?_, inv', by omega⟩
  simp only [uniquePass, some.ne', if_false, take, expanded]

/-- What `EssentialAssignment` leaves: unit clauses for essential values, and nothing else that the clause
set depends on. -/
structure EssentialAdded (c : Netlist) (m : FaultModel) (f : FNODE) (g₀ g : Globals) : Prop where
  frame : g = { g₀ with
    que := g.que, logicValue := g.logicValue, eaFlag := g.eaFlag, uniqueFlag := g.uniqueFlag
    solver := g.solver }
  units : ∃ units, g.solver = g₀.solver ++ units ∧ ∀ cl ∈ units, ∃ n v, n < c.nNet ∧
    g₀.normalScopeRequiredNet n = true ∧ c.Essential m f n v ∧ cl = [lit v (c.varsgc n)]

/-- The globals that `EssentialAssignment` starts its walk from, and the queue with the site. -/
def walkStart (c : Netlist) (f : FNODE) (g : Globals) : Globals × RingQueue Nat :=
  let s := c.que2Enq ({ g with
    logicValue := fun _ => false
    eaFlag := fun _ => false
    uniqueFlag := fun _ => .DOWN
    que := g.que.reset }, ⟨fun _ => 0, 0, 0, 0⟩) f.netptr
  ({ s.1 with uniqueFlag := Function.update s.1.uniqueFlag f.netptr .UP }, s.2)

/-- The walk ends and assigns essential values only. -/
theorem uniqueSensitization_spec (rules : EaRules c m f) (g : Globals) :
    ∃ g', c.uniqueSensitization (c.walkStart f g).1 (c.walkStart f g).2 = some g' ∧
      EaInv c m f g g' := by
  have size : 0 < c.nNet := Nat.zero_lt_of_lt rules.site
  let g₁ : Globals := { g with
    logicValue := fun _ => false, eaFlag := fun _ => false, uniqueFlag := fun _ => .DOWN
    que := g.que.reset }
  have all : c.unmarked (fun _ => false) = c.nNet := by simp [unmarked]
  have ea : EaInv c m f g g₁ := by
    refine ⟨rfl, by simp [g₁], by simp [g₁], ⟨[], by simp [g₁], by simp⟩, ?_, by simp [g₁], ?_⟩
    · refine RingQueue.valid_reset ?_ _
      unfold queMaxnum
      omega
    · simp [g₁, all, RingQueue.reset]
  have que2 : Que2Inv c g₁.uniqueFlag ⟨fun _ => 0, 0, 0, 0⟩ := by
    refine ⟨rfl, ?_, by simp [g₁, RingQueue.contents], by simp [RingQueue.contents], by simp [g₁]⟩
    have none : seenUnique g₁.uniqueFlag = fun _ => false := by
      funext n
      simp [seenUnique, g₁]
    rw [none, all]
    simp
  obtain ⟨que2', enq⟩ := que2.push (o := f.netptr) rules.site rfl
  let g₂ : Globals := { g₁ with uniqueFlag := Function.update g₁.uniqueFlag f.netptr .UP }
  have ea₂ : EaInv c m f g g₂ :=
    ⟨rfl, ea.low, ea.sound, ea.units, ea.queue, ea.queued, ea.budget⟩
  let s₂ : UniqueState := ⟨g₂, RingQueue.enqueue c.que2Maxnum ⟨fun _ => 0, 0, 0, 0⟩ f.netptr, false⟩
  obtain ⟨t, s₃, take, head, isUp, ea₃, que2₃, flags, obs, work⟩ :=
    uniqueTake_spec (s := s₂) ea₂ que2' (by simp [s₂, RingQueue.enqueue])
  have isSite : t = f.netptr := by
    rw [show s₂.que2.contents c.que2Maxnum = [] ++ [f.netptr] from
      RingQueue.contents_enqueue que2.valid (by simp [que2Maxnum]) f.netptr] at head
    simpa using head
  subst isSite
  have onlySite : ∀ n, s₃.g.uniqueFlag n = .MIDDLE → n = f.netptr := by
    intro n hn
    by_contra h
    rw [flags, Function.update_of_ne h] at hn
    simp [s₂, g₂, g₁, Function.update_of_ne h] at hn
  have taken : TakenInv c m f g f.netptr s₃ := by
    refine ⟨ea₃, que2₃, by rw [flags, Function.update_self], by rw [flags, Function.update_self], ?_, ?_⟩
    · exact fun n hn h => absurd (onlySite n hn) h
    · exact fun _ n hn h => absurd (onlySite n hn) h
  obtain ⟨s₄, expanded, inv, work₄⟩ := taken.expand rules rules.site
  have bound : c.uniqueWork s₄ < c.nNet + 2 := by
    have := inv.que2.budget
    have := inv.que2.linear
    unfold uniqueWork
    omega
  obtain ⟨_, run, ⟨s₅, rfl, inv₅⟩, -⟩ := @Loop.whileLoop_total _ c.uniquePass
    (fun o => ∃ s, o = some s ∧ UniqueInv c m f g s) (fun o => o.elim 0 c.uniqueWork)
    (by
      rintro o o' ⟨s, rfl, inv⟩ next
      by_cases empty : s.que2.count = 0
      · simp [uniquePass, empty] at next
      · obtain ⟨s', next', inv', less⟩ := inv.pass rules (Nat.pos_of_ne_zero empty)
        rw [next'] at next
        cases next
        exact ⟨⟨s', rfl, inv'⟩, less⟩)
    (c.nNet + 2) (some s₄) ⟨s₄, rfl, inv⟩ bound
  have start : c.walkStart f g = (g₂, s₂.que2) := by
    unfold walkStart
    rw [show c.que2Enq ({ g with
      logicValue := fun _ => false, eaFlag := fun _ => false, uniqueFlag := fun _ => .DOWN
      que := g.que.reset }, ⟨fun _ => 0, 0, 0, 0⟩) f.netptr = (g₁, s₂.que2) from enq g₁]
  have first : c.uniqueTake ⟨g₂, s₂.que2, false⟩ = (f.netptr, s₃) := take
  refine ⟨s₅.g, ?_, inv₅.ea⟩
  simp only [start, uniqueSensitization, first, expanded, run]
  rfl

theorem essentialAssignment_spec (rules : EaRules c m f) (g : Globals) :
    ∃ g', c.essentialAssignment f g = some g' ∧ EssentialAdded c m f g g' := by
  obtain ⟨g₁, walked, ea⟩ := uniqueSensitization_spec rules g
  obtain ⟨ea₁, -, -⟩ := ea.assign rules.site rules.excited
  obtain ⟨g', loop, ea', -⟩ := Loop.whileLoop_total (EaInv c m f g)
    (fun g => g.que.count + c.unmarked g.eaFlag) (fun _ _ inv next => inv.pass rules next)
    (c.nNet + 1) _ ea₁ (by have := ea₁.budget; omega)
  refine ⟨g', ?_, ⟨ea'.frame, ea'.units⟩⟩
  change (c.uniqueSensitization (c.walkStart f g).1 (c.walkStart f g).2).bind _ = _
  rw [walked]
  exact loop

end Netlist

end SafRprGen
