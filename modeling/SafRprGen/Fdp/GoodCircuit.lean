/-
Module: SafRprGen.Fdp.GoodCircuit
Layer: Fdp
Purpose: The clauses of a gate and the good-circuit variables (`good_circuit.c`). `CreateConsGC_*` and
  `CreateConsFC_*` write the same clauses, once over `varsgc` and once over `varsfc`, so each pair is one
  definition over the variable field.
Main exports: gateCons, gateCons_spec, assigneVarsGC, Netlist.varsgc, varsgc_spec, varsgc_injective,
  varsgc_pi
-/
import SafRprGen.Lib.Dimacs
import SafRprGen.Lib.Loop
import SafRprGen.Netlist.Basic

namespace SafRprGen

open Dimacs

section GateClauses

variable (vars : Nat → Nat)

/-- `CreateConsGC_AND`, `CreateConsFC_AND`. -/
def consAND (ins : List Nat) (z : Nat) : List Clause := manyInput true true (ins.map vars) (vars z)

/-- `CreateConsGC_NAND`, `CreateConsFC_NAND`. -/
def consNAND (ins : List Nat) (z : Nat) : List Clause := manyInput true false (ins.map vars) (vars z)

/-- `CreateConsGC_OR`, `CreateConsFC_OR`. -/
def consOR (ins : List Nat) (z : Nat) : List Clause := manyInput false false (ins.map vars) (vars z)

/-- `CreateConsGC_NOR`, `CreateConsFC_NOR`. -/
def consNOR (ins : List Nat) (z : Nat) : List Clause := manyInput false true (ins.map vars) (vars z)

/-- `CreateConsGC_BUF`, `CreateConsFC_BUF`. -/
def consBUF (ins : List Nat) (z : Nat) : List Clause := copyInput true (vars (ins.getD 0 0)) (vars z)

/-- `CreateConsGC_INV`, `CreateConsFC_INV`. -/
def consINV (ins : List Nat) (z : Nat) : List Clause := copyInput false (vars (ins.getD 0 0)) (vars z)

/-- `CreateConsGC_XOR`, `CreateConsFC_XOR`. -/
def consXOR (ins : List Nat) (z : Nat) : List Clause :=
  let a := vars (ins.getD 0 0)
  let b := vars (ins.getD 1 0)
  let z := vars z
  [[-a, -b, -z], [a, b, -z], [a, -b, z], [-a, b, z]]

/-- `CreateConsGC_XNOR`, `CreateConsFC_XNOR`. -/
def consXNOR (ins : List Nat) (z : Nat) : List Clause :=
  let a := vars (ins.getD 0 0)
  let b := vars (ins.getD 1 0)
  let z := vars z
  [[a, b, z], [-a, -b, z], [-a, b, -z], [a, -b, -z]]

/-- The `switch` of `CreateConsGC` and of `CreateConsFC`; `none` is the unsupported gate on which both
return false. -/
def gateCons (t : GateType) (ins : List Nat) (z : Nat) : Option (List Clause) :=
  match t with
  | .AND => some (consAND vars ins z)
  | .NAND => some (consNAND vars ins z)
  | .OR => some (consOR vars ins z)
  | .NOR => some (consNOR vars ins z)
  | .INV => some (consINV vars ins z)
  | .BUF | .FOUT => some (consBUF vars ins z)
  | .EXOR => some (consXOR vars ins z)
  | .EXNOR => some (consXNOR vars ins z)
  | .IN => some []
  | _ => none

end GateClauses

section GateClausesSpec

variable {vars : Nat → Nat} {M : Nat → Bool} {ins : List Nat} {z : Nat}

private theorem models_many (whenAll out : Bool) (hz : 0 < vars z) (pos : ∀ i ∈ ins, 0 < vars i) :
    Models M (manyInput whenAll out (ins.map vars) (vars z)) ↔
      M (vars z) = if (ins.map (fun i => M (vars i))).all (· == whenAll) then out else !out := by
  rw [manyInput_models hz (by simpa using pos)]
  simp only [List.all_map, Function.comp_def]

private theorem all_eq_true (bs : List Bool) : bs.all (· == true) = bs.all id := by
  simp [List.all_eq]

private theorem all_eq_false (bs : List Bool) : bs.all (· == false) = !bs.any id := by
  induction bs with
  | nil => rfl
  | cons b bs ih => cases b <;> simp_all

theorem consAND_models (hz : 0 < vars z) (pos : ∀ i ∈ ins, 0 < vars i) :
    Models M (consAND vars ins z) ↔
      M (vars z) = GateType.AND.fn (ins.map fun i => M (vars i)) := by
  rw [consAND, models_many true true hz pos, all_eq_true]
  simp only [GateType.fn]
  cases (ins.map fun i => M (vars i)).all id <;> simp

theorem consNAND_models (hz : 0 < vars z) (pos : ∀ i ∈ ins, 0 < vars i) :
    Models M (consNAND vars ins z) ↔
      M (vars z) = GateType.NAND.fn (ins.map fun i => M (vars i)) := by
  rw [consNAND, models_many true false hz pos, all_eq_true]
  simp only [GateType.fn]
  cases (ins.map fun i => M (vars i)).all id <;> simp

theorem consOR_models (hz : 0 < vars z) (pos : ∀ i ∈ ins, 0 < vars i) :
    Models M (consOR vars ins z) ↔
      M (vars z) = GateType.OR.fn (ins.map fun i => M (vars i)) := by
  rw [consOR, models_many false false hz pos, all_eq_false]
  simp only [GateType.fn]
  cases (ins.map fun i => M (vars i)).any id <;> simp

theorem consNOR_models (hz : 0 < vars z) (pos : ∀ i ∈ ins, 0 < vars i) :
    Models M (consNOR vars ins z) ↔
      M (vars z) = GateType.NOR.fn (ins.map fun i => M (vars i)) := by
  rw [consNOR, models_many false true hz pos, all_eq_false]
  simp only [GateType.fn]
  cases (ins.map fun i => M (vars i)).any id <;> simp

theorem consBUF_models {i : Nat} (hz : 0 < vars z) (hi : 0 < vars i) :
    Models M (consBUF vars [i] z) ↔ M (vars z) = M (vars i) := by
  simpa [consBUF] using copyInput_models (M := M) true hi hz

theorem consINV_models {i : Nat} (hz : 0 < vars z) (hi : 0 < vars i) :
    Models M (consINV vars [i] z) ↔ M (vars z) = !M (vars i) := by
  simpa [consINV] using copyInput_models (M := M) false hi hz

theorem consXOR_models {i j : Nat} (hz : 0 < vars z) (hi : 0 < vars i) (hj : 0 < vars j) :
    Models M (consXOR vars [i, j] z) ↔ M (vars z) = xor (M (vars i)) (M (vars j)) := by
  simpa using xor_models (M := M) true (consXOR vars [i, j] z) hi hj hz
    (by simp [consXOR, lit])

theorem consXNOR_models {i j : Nat} (hz : 0 < vars z) (hi : 0 < vars i) (hj : 0 < vars j) :
    Models M (consXNOR vars [i, j] z) ↔ M (vars z) = !xor (M (vars i)) (M (vars j)) := by
  refine (xor_models (M := M) false (consXNOR vars [i, j] z) hi hj hz ?_).trans (by simp)
  have swapped := List.Perm.swap [-(vars i : Int), -(vars j : Int), (vars z : Int)]
    [(vars i : Int), (vars j : Int), (vars z : Int)]
    [[-(vars i : Int), (vars j : Int), -(vars z : Int)], [(vars i : Int), -(vars j : Int), -(vars z : Int)]]
  apply swapped.trans
  refine List.Perm.cons _ (List.Perm.cons _ ?_)
  exact List.Perm.swap _ _ _

/-- The clauses of a supported gate: no literal is 0, and their models are the assignments that give the
output variable the gate's value. An input net has no clauses. -/
theorem gateCons_spec (vars : Nat → Nat) {t : GateType} (arity : t.ArityOk ins.length) (hz : 0 < vars z)
    (pos : ∀ i ∈ ins, 0 < vars i) :
    ∃ cls, gateCons vars t ins z = some cls ∧ (∀ cl ∈ cls, ∀ l ∈ cl, l ≠ 0) ∧
      ∀ M, Models M cls ↔ (t ≠ .IN → M (vars z) = t.fn (ins.map fun i => M (vars i))) := by
  have posVars : ∀ v ∈ ins.map vars, 0 < v := by simpa using pos
  cases t with
  | IN => exact ⟨[], rfl, by simp, by simp⟩
  | AND =>
      exact ⟨_, rfl, manyInput_ne_zero hz posVars, fun M => by rw [consAND_models hz pos]; simp⟩
  | NAND =>
      exact ⟨_, rfl, manyInput_ne_zero hz posVars, fun M => by rw [consNAND_models hz pos]; simp⟩
  | OR =>
      exact ⟨_, rfl, manyInput_ne_zero hz posVars, fun M => by rw [consOR_models hz pos]; simp⟩
  | NOR =>
      exact ⟨_, rfl, manyInput_ne_zero hz posVars, fun M => by rw [consNOR_models hz pos]; simp⟩
  | BUF | FOUT =>
      obtain ⟨i, rfl⟩ := List.length_eq_one_iff.mp arity
      have hi := pos i List.mem_cons_self
      refine ⟨_, rfl, copyInput_ne_zero hi hz, fun M => ?_⟩
      rw [consBUF_models hz hi]
      simp [GateType.fn]
  | INV =>
      obtain ⟨i, rfl⟩ := List.length_eq_one_iff.mp arity
      have hi := pos i List.mem_cons_self
      refine ⟨_, rfl, copyInput_ne_zero hi hz, fun M => ?_⟩
      rw [consINV_models hz hi]
      simp [GateType.fn]
  | EXOR =>
      obtain ⟨i, j, rfl⟩ := List.length_eq_two.mp arity
      have hi := pos i (by simp)
      have hj := pos j (by simp)
      refine ⟨_, rfl, by simp [consXOR, hi.ne', hj.ne', hz.ne'], fun M => ?_⟩
      rw [consXOR_models hz hi hj]
      simp [GateType.fn]
  | EXNOR =>
      obtain ⟨i, j, rfl⟩ := List.length_eq_two.mp arity
      have hi := pos i (by simp)
      have hj := pos j (by simp)
      refine ⟨_, rfl, by simp [consXNOR, hi.ne', hj.ne', hz.ne'], fun M => ?_⟩
      rw [consXNOR_models hz hi hj]
      simp [GateType.fn]
  | DFF | RDFF | DFFS | RDFFS | UNSET => exact arity.elim

end GateClausesSpec

/-! ### Good-circuit variables -/

/-- `netptr->varsgc = ++cnf.constant.vars`. -/
def takeVar (n : Nat) (s : (Nat → Nat) × Nat) : (Nat → Nat) × Nat :=
  (Function.update s.1 n (s.2 + 1), s.2 + 1)

namespace Netlist

variable (c : Netlist)

/-- `AssigneVarsGC`: the input nets first, then every net still without a variable. The result is
`varsgc` with `cnf.constant.vars`. -/
def assigneVarsGC : (Nat → Nat) × Nat :=
  let inputs := c.pi.foldl (fun s n => takeVar n s) (fun _ => 0, 0)
  (List.range c.nNet).foldl (fun s n => if s.1 n = 0 then takeVar n s else s) inputs

/-- `varsgc` of a net. -/
def varsgc : Nat → Nat := c.assigneVarsGC.1

/-- `cnf.constant.vars`. -/
def constVars : Nat := c.assigneVarsGC.2

/-- `consgc` of a net, `none` for a net that has no clauses. -/
def consgc (n : Nat) : Option (List Clause) :=
  if c.type n = .IN then none else gateCons c.varsgc (c.type n) (c.ins n) n

/-- `CreateConsGC` succeeds when every gate is supported. -/
def createConsGC : Bool :=
  (List.range c.nNet).all fun n => (gateCons c.varsgc (c.type n) (c.ins n) n).isSome

end Netlist

/-- Assigned variables are pairwise distinct and at most the counter. -/
structure VarsFresh (s : (Nat → Nat) × Nat) : Prop where
  le : ∀ n, s.1 n ≤ s.2
  inj : ∀ a b, s.1 a ≠ 0 → s.1 a = s.1 b → a = b

theorem VarsFresh.takeVar {s : (Nat → Nat) × Nat} (fresh : VarsFresh s) (n : Nat) :
    VarsFresh (takeVar n s) where
  le := by
    intro a
    by_cases same : a = n
    · simp [SafRprGen.takeVar, same]
    · have := fresh.le a
      simp only [SafRprGen.takeVar, Function.update_of_ne same]
      omega
  inj := by
    intro a b nonzero eq
    simp only [SafRprGen.takeVar, Function.update_apply] at nonzero eq
    have ha := fresh.le a
    have hb := fresh.le b
    split at eq <;> split at eq
    · omega
    · omega
    · omega
    · rename_i hna _
      rw [if_neg hna] at nonzero
      exact fresh.inj a b nonzero eq

theorem takeVar_self (n : Nat) (s : (Nat → Nat) × Nat) : (takeVar n s).1 n = s.2 + 1 := by
  simp [takeVar]

theorem takeVar_ne {n m : Nat} (h : m ≠ n) (s : (Nat → Nat) × Nat) : (takeVar n s).1 m = s.1 m := by
  simp [takeVar, h]

namespace Netlist

variable {c : Netlist}

/-- Whatever `pi[]` holds, no two nets share a variable. -/
theorem assigneVarsGC_fresh (c : Netlist) : VarsFresh c.assigneVarsGC := by
  have inputs := Loop.foldl_inv (fun (s : (Nat → Nat) × Nat) n => takeVar n s)
    (fun _ s => VarsFresh s) c.pi (s := (fun _ => 0, 0)) ⟨by simp, by simp⟩
    (fun _ n _ _ _ fresh => fresh.takeVar n)
  refine Loop.foldl_inv (fun (s : (Nat → Nat) × Nat) n => if s.1 n = 0 then takeVar n s else s)
    (fun _ s => VarsFresh s) (List.range c.nNet) inputs ?_
  intro _ n _ s _ fresh
  split
  · exact fresh.takeVar n
  · exact fresh

theorem varsgc_le_constVars (c : Netlist) (n : Nat) : c.varsgc n ≤ c.constVars :=
  c.assigneVarsGC_fresh.le n

/-- The input loop gives `pi[k]` the variable `k + 1`. -/
private theorem inputVars (pi : List Nat) (nodup : pi.Nodup) :
    let s := pi.foldl (fun s n => takeVar n s) (fun _ => 0, 0)
    VarsFresh s ∧ s.2 = pi.length ∧ (∀ k (h : k < pi.length), s.1 pi[k] = k + 1) ∧
      ∀ n ∉ pi, s.1 n = 0 := by
  refine Loop.foldl_inv _
    (fun seen (s : (Nat → Nat) × Nat) => VarsFresh s ∧ s.2 = seen.length ∧
      (∀ k (h : k < seen.length), s.1 seen[k] = k + 1) ∧ ∀ n ∉ seen, s.1 n = 0)
    pi ⟨⟨by simp, by simp⟩, rfl, by simp, by simp⟩ ?_
  rintro seen n rest s split ⟨fresh, count, numbered, others⟩
  have new : n ∉ seen := by
    rw [split] at nodup
    exact fun h => List.disjoint_of_nodup_append nodup h List.mem_cons_self
  refine ⟨fresh.takeVar n, by simp [takeVar, count], ?_, ?_⟩
  · intro k hk
    by_cases old : k < seen.length
    · have ne : seen[k] ≠ n := fun h => new (h ▸ List.getElem_mem old)
      simpa [old, takeVar_ne ne] using numbered k old
    · have last : k = seen.length := by
        simp only [List.length_append, List.length_singleton] at hk
        omega
      subst last
      simp [takeVar_self, count]
  · intro m hm
    simp only [List.mem_append, List.mem_singleton, not_or] at hm
    rw [takeVar_ne hm.2, others m hm.1]

/-- Variables of the good circuit: distinct, positive, at most `constVars`, and `k + 1` for `pi[k]`. -/
theorem assigneVarsGC_spec (nodup : c.pi.Nodup) :
    VarsFresh c.assigneVarsGC ∧ (∀ n < c.nNet, c.varsgc n ≠ 0) ∧
      ∀ k (h : k < c.pi.length), c.varsgc c.pi[k] = k + 1 := by
  obtain ⟨fresh, -, numbered, -⟩ := inputVars c.pi nodup
  have run := Loop.foldl_inv
    (fun (s : (Nat → Nat) × Nat) n => if s.1 n = 0 then takeVar n s else s)
    (s := c.pi.foldl (fun s n => takeVar n s) (fun _ => 0, 0))
    (fun seen s => VarsFresh s ∧ (∀ n ∈ seen, s.1 n ≠ 0) ∧
      ∀ k (h : k < c.pi.length), s.1 c.pi[k] = k + 1)
    (List.range c.nNet) ⟨fresh, by simp, numbered⟩ ?_
  · refine ⟨run.1, fun n hn => run.2.1 n (List.mem_range.mpr hn), run.2.2⟩
  · rintro seen n rest s - ⟨fresh, assigned, numbered⟩
    by_cases free : s.1 n = 0
    · rw [if_pos free]
      refine ⟨fresh.takeVar n, ?_, ?_⟩
      · intro m hm
        by_cases same : m = n
        · simp [same, takeVar_self]
        · rw [takeVar_ne same]
          exact assigned m (by simpa [same] using hm)
      · intro k hk
        have ne : c.pi[k] ≠ n := by
          intro h
          have := numbered k hk
          rw [h, free] at this
          omega
        rw [takeVar_ne ne, numbered k hk]
    · rw [if_neg free]
      refine ⟨fresh, ?_, numbered⟩
      intro m hm
      rcases List.mem_append.mp hm with hm | hm
      · exact assigned m hm
      · rwa [List.mem_singleton.mp hm]

namespace WellFormed

variable {m : FaultModel}

theorem varsgc_pos (wf : c.WellFormed m) {n : Nat} (hn : n < c.nNet) : 0 < c.varsgc n :=
  Nat.pos_of_ne_zero ((assigneVarsGC_spec wf.piNodup).2.1 n hn)

theorem varsgc_le (_ : c.WellFormed m) (n : Nat) : c.varsgc n ≤ c.constVars :=
  c.varsgc_le_constVars n

theorem varsgc_inj (wf : c.WellFormed m) {a b : Nat} (ha : a < c.nNet)
    (same : c.varsgc a = c.varsgc b) : a = b :=
  (assigneVarsGC_spec wf.piNodup).1.inj a b (wf.varsgc_pos ha).ne' same

theorem varsgc_pi (wf : c.WellFormed m) {k : Nat} (hk : k < c.pi.length) :
    c.varsgc c.pi[k] = k + 1 :=
  (assigneVarsGC_spec wf.piNodup).2.2 k hk

/-- The good-circuit clauses of a net say that its variable has the gate's value. -/
theorem consgc_spec (wf : c.WellFormed m) {n : Nat} (hn : n < c.nNet) (gate : c.type n ≠ .IN) :
    ∃ cls, c.consgc n = some cls ∧ (∀ cl ∈ cls, ∀ l ∈ cl, l ≠ 0) ∧
      ∀ M, Models M cls ↔
        M (c.varsgc n) = (c.type n).fn ((c.ins n).map fun i => M (c.varsgc i)) := by
  obtain ⟨cls, eq, nonzero, models⟩ := gateCons_spec c.varsgc (wf.arity n hn)
    (wf.varsgc_pos hn) (fun i hi => wf.varsgc_pos (wf.insLt n hn i hi))
  refine ⟨cls, by rw [consgc, if_neg gate, eq], nonzero, fun M => ?_⟩
  rw [models M]
  exact ⟨fun h => h gate, fun h _ => h⟩

theorem createConsGC_eq (wf : c.WellFormed m) : c.createConsGC = true := by
  apply List.all_eq_true.mpr
  intro n hn
  have hn : n < c.nNet := List.mem_range.mp hn
  obtain ⟨cls, eq, -⟩ := gateCons_spec c.varsgc (wf.arity n hn)
    (wf.varsgc_pos hn) (fun i hi => wf.varsgc_pos (wf.insLt n hn i hi))
  simp [eq]

end WellFormed

end Netlist

end SafRprGen
