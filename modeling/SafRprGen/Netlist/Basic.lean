/-
Module: SafRprGen.Netlist.Basic
Layer: Netlist
Purpose: The netlist globals of `netlist.h`, the fault record of `fault_list.h` and what they mean: the
  value of every net under an input assignment, in the good circuit and with the fault site forced to its
  stuck value, and the detecting assignments of a fault. `Circuit` is a netlist together with the graph
  facts the analysis relies on; `readNl` and `expandTdfNetlist` build such netlists.
Main exports: GateType, NLIST, Netlist, FNODE, Netlist.good, Netlist.faulty, Netlist.Detects,
  Netlist.WellFormed, Circuit
-/
import SafRprGen.Lib.Dag
import Mathlib.Data.Fintype.Pi
import Mathlib.Data.List.GetD
import Mathlib.Algebra.BigOperators.Group.Finset.Basic
import Mathlib.Algebra.Order.BigOperators.Group.Finset

namespace SafRprGen

/-- C strings, one `Char` a byte. -/
abbrev CStr := List Char

/-- `INT_MAX`. -/
def intMax : Nat := 2147483647

/-- Gate types of `netlist.h`. `UNSET` is the `-1` that `alloc_nl` writes. -/
inductive GateType where
  | IN | BUF | INV | AND | NAND | OR | NOR | EXOR | EXNOR | FOUT
  | DFF | RDFF | DFFS | RDFFS | UNSET
deriving DecidableEq, Repr, Inhabited

/-- The flip-flop types. -/
def GateType.isFF : GateType → Bool
  | .DFF | .RDFF | .DFFS | .RDFFS => true
  | _ => false

/-- Nets whose value does not come from their inputs: inputs and flip-flop states. -/
def GateType.isSource (t : GateType) : Bool := t == .IN || t.isFF

/-- The Boolean function of a gate. -/
def GateType.fn : GateType → List Bool → Bool
  | .BUF, vs | .FOUT, vs => vs.getD 0 false
  | .INV, vs => !vs.getD 0 false
  | .AND, vs => vs.all id
  | .NAND, vs => !vs.all id
  | .OR, vs => vs.any id
  | .NOR, vs => !vs.any id
  | .EXOR, vs => xor (vs.getD 0 false) (vs.getD 1 false)
  | .EXNOR, vs => !xor (vs.getD 0 false) (vs.getD 1 false)
  | _, _ => false

/-- The number of inputs a net of each combinational type has. -/
def GateType.ArityOk : GateType → Nat → Prop
  | .IN, k => k = 0
  | .BUF, k | .INV, k | .FOUT, k => k = 1
  | .EXOR, k | .EXNOR, k => k = 2
  | .AND, k | .NAND, k | .OR, k | .NOR, k => 1 ≤ k
  | _, _ => False

instance (t : GateType) (k : Nat) : Decidable (t.ArityOk k) := by
  cases t <;> unfold GateType.ArityOk <;> infer_instance

/-- One net: the graph fields of `NLIST`. Pointers are indices into `nl`; `peer1t` is `peer_1t`. -/
structure NLIST where
  name : CStr
  type : GateType
  ins : List Nat
  outs : List Nat
  peer1t : Option Nat
deriving DecidableEq, Repr

instance : Inhabited NLIST := ⟨⟨[], .UNSET, [], [], none⟩⟩

/-- The netlist globals `nl`, `pi`, `po` and `ppo`; `n_net`, `n_pi`, `n_po`, `n_ppo` are their lengths. -/
structure Netlist where
  nl : List NLIST
  pi : List Nat
  po : List Nat
  ppo : List Nat
deriving DecidableEq, Repr

namespace Netlist

/-- `n_net`. -/
def nNet (c : Netlist) : Nat := c.nl.length

/-- `n_pi`. -/
def nPi (c : Netlist) : Nat := c.pi.length

/-- `nl[n]`. -/
def net (c : Netlist) (n : Nat) : NLIST := c.nl.getD n default

def type (c : Netlist) (n : Nat) : GateType := (c.net n).type
def ins (c : Netlist) (n : Nat) : List Nat := (c.net n).ins
def outs (c : Netlist) (n : Nat) : List Nat := (c.net n).outs
def peer1t (c : Netlist) (n : Nat) : Option Nat := (c.net n).peer1t
def name (c : Netlist) (n : Nat) : CStr := (c.net n).name

end Netlist

/-- `SF0` and `SF1`: stuck-at-0/1, and slow-to-rise/fall for transition faults. -/
inductive FaultType where
  | SF0 | SF1
deriving DecidableEq, Repr

/-- The value the fault site is forced to; for a transition fault also its frame-1 value. -/
def FaultType.stuck : FaultType → Bool
  | .SF0 => false
  | .SF1 => true

/-- `opt.fault_model`. -/
inductive FaultModel where
  | SAF | TDF
deriving DecidableEq, Repr

/-- A node of the fault list. -/
structure FNODE where
  string : CStr
  name : CStr
  type : FaultType
  netptr : Nat
  excNetptr : Option Nat
deriving DecidableEq, Repr

namespace Netlist

variable (c : Netlist)

/-- The nets a net's value is computed from. -/
def deps (n : Nat) : List Nat := if (c.type n).isSource then [] else c.ins n

/-- The value of a net from the values of its inputs: `forced` overrides a net, `source` feeds the
inputs and flip-flop states. -/
def op (source : Nat → Bool) (forced : Nat → Option Bool) (n : Nat) (values : List Bool) : Bool :=
  match forced n with
  | some b => b
  | none => if (c.type n).isSource then source n else (c.type n).fn values

/-- Values of all nets. -/
def value (source : Nat → Bool) (forced : Nat → Option Bool) : Nat → Bool :=
  Dag.eval c.nNet c.deps (c.op source forced)

/-- An assignment to all `n_pi` inputs. -/
abbrev Assignment := Fin c.nPi → Bool

/-- The value an assignment gives to an input net. -/
def piValue (x : c.Assignment) (n : Nat) : Bool :=
  if h : c.pi.idxOf n < c.nPi then x ⟨c.pi.idxOf n, h⟩ else false

/-- Values in the good circuit. -/
def good (x : c.Assignment) : Nat → Bool := c.value (c.piValue x) (fun _ => none)

/-- The fault site forced to its stuck value. -/
def forcedAt (site : Nat) (b : Bool) (n : Nat) : Option Bool := if n = site then some b else none

/-- Values in the circuit with the fault site forced to its stuck value. -/
def faulty (f : FNODE) (x : c.Assignment) : Nat → Bool :=
  c.value (c.piValue x) (forcedAt f.netptr f.type.stuck)

/-- Observed nets: `po[]` for stuck-at faults, `ppo[]` for transition faults. -/
def observed : FaultModel → List Nat
  | .SAF => c.po
  | .TDF => c.ppo

/-- The assignment detects the fault: an observed net differs and, for a transition fault, the frame-1
excitation net has the initial value while the site has the opposite good value. -/
def Detects (m : FaultModel) (f : FNODE) (x : c.Assignment) : Prop :=
  (∃ o ∈ c.observed m, c.good x o ≠ c.faulty f x o) ∧
    ∀ e ∈ f.excNetptr, c.good x e = f.type.stuck ∧ c.good x f.netptr = !f.type.stuck

instance (m : FaultModel) (f : FNODE) (x : c.Assignment) : Decidable (c.Detects m f x) := by
  unfold Detects
  infer_instance

/-- What the analysis relies on: the graph facts `readNl` and `expandTdfNetlist` establish. -/
structure WellFormed (m : FaultModel) : Prop where
  arity : ∀ n < c.nNet, (c.type n).ArityOk (c.ins n).length
  /-- Pins are named A to J. -/
  fanin : ∀ n < c.nNet, (c.ins n).length ≤ 10
  insLt : ∀ n < c.nNet, ∀ i ∈ c.ins n, i < c.nNet
  outsLt : ∀ n < c.nNet, ∀ o ∈ c.outs n, o < c.nNet
  /-- `out` is the inverse of `in`, with multiplicity. -/
  inverse : ∀ a < c.nNet, ∀ b < c.nNet, (c.outs a).count b = (c.ins b).count a
  acyclic : Dag.Acyclic c.nNet c.ins
  piNodup : c.pi.Nodup
  piMem : ∀ n, n ∈ c.pi ↔ n < c.nNet ∧ c.type n = .IN
  observedLt : ∀ o ∈ c.observed m, o < c.nNet
  /-- An observed net ends its paths, except a shared input that a flip-flop captures. -/
  observedEnd : ∀ o ∈ c.observed m, c.outs o = [] ∨ (m = .TDF ∧ c.type o = .IN)
  peerLt : ∀ n < c.nNet, ∀ p ∈ c.peer1t n, p < c.nNet
  /-- A shared input is its own first-frame copy. -/
  peerIn : ∀ n < c.nNet, c.type n = .IN → ∀ p ∈ c.peer1t n, p = n

/-- What the searches over a netlist need: edges that lead to nets, ten a net at most, and inputs that
read nothing. Values need not be defined. -/
structure Searchable (m : FaultModel) : Prop where
  insLt : ∀ n < c.nNet, ∀ i ∈ c.ins n, i < c.nNet
  outsLt : ∀ n < c.nNet, ∀ o ∈ c.outs n, o < c.nNet
  edges : ∑ n ∈ Finset.range c.nNet, (c.outs n).length ≤ c.nNet * 10
  inputs : ∀ n < c.nNet, c.type n = .IN → c.ins n = []
  observedLt : ∀ o ∈ c.observed m, o < c.nNet

/-- `CreateFaultNode` accepts the fault: a net of the netlist, which for a transition fault has a
first-frame copy that becomes the excitation net. -/
structure IsFault (m : FaultModel) (f : FNODE) : Prop where
  netLt : f.netptr < c.nNet
  saf : m = .SAF → f.excNetptr = none
  tdf : m = .TDF → f.excNetptr = c.peer1t f.netptr ∧ f.excNetptr ≠ none

end Netlist

/-- A netlist ready for analysis under one fault model. A netlist whose file declares a port more often than
it uses it is not one: its array of outputs keeps `NULL` entries. -/
structure Circuit where
  netlist : Netlist
  model : FaultModel
  wellFormed : netlist.WellFormed model

namespace Netlist

variable {c : Netlist}

theorem net_of_le {n : Nat} (h : c.nNet ≤ n) : c.net n = default := by
  unfold net nNet at *
  exact List.getD_eq_default _ _ h

theorem ins_of_le {n : Nat} (h : c.nNet ≤ n) : c.ins n = [] := by
  simp [ins, net_of_le h]; rfl

theorem outs_of_le {n : Nat} (h : c.nNet ≤ n) : c.outs n = [] := by
  simp [outs, net_of_le h]; rfl

theorem forcedAt_self (site : Nat) (b : Bool) : forcedAt site b site = some b := by
  simp [forcedAt]

theorem forcedAt_ne {site n : Nat} (b : Bool) (h : n ≠ site) : forcedAt site b n = none := by
  simp [forcedAt, h]

theorem op_forced {source : Nat → Bool} {forced : Nat → Option Bool} {n : Nat} {b : Bool}
    (h : forced n = some b) (values : List Bool) : c.op source forced n values = b := by
  simp [op, h]

theorem op_source {source : Nat → Bool} {forced : Nat → Option Bool} {n : Nat}
    (h : forced n = none) (src : (c.type n).isSource = true) (values : List Bool) :
    c.op source forced n values = source n := by
  simp [op, h, src]

theorem op_gate {source : Nat → Bool} {forced : Nat → Option Bool} {n : Nat}
    (h : forced n = none) (gate : (c.type n).isSource = false) (values : List Bool) :
    c.op source forced n values = (c.type n).fn values := by
  simp [op, h, gate]

/-- Edges counted at the gates they enter. -/
theorem sum_outs_le_of_inverse {width : Nat} (insLt : ∀ n < c.nNet, ∀ i ∈ c.ins n, i < c.nNet)
    (outsLt : ∀ n < c.nNet, ∀ o ∈ c.outs n, o < c.nNet)
    (inverse : ∀ a < c.nNet, ∀ b < c.nNet, (c.outs a).count b = (c.ins b).count a)
    (fanin : ∀ n < c.nNet, (c.ins n).length ≤ width) :
    ∑ n ∈ Finset.range c.nNet, (c.outs n).length ≤ c.nNet * width := by
  have counted : ∀ (l : List Nat), (∀ k ∈ l, k < c.nNet) →
      l.length = ∑ k ∈ Finset.range c.nNet, l.count k := by
    intro l low
    have := Multiset.sum_count_eq_card (s := Finset.range c.nNet) (m := (l : Multiset Nat))
      (fun k hk => Finset.mem_range.mpr (low k hk))
    simpa using this.symm
  calc ∑ n ∈ Finset.range c.nNet, (c.outs n).length
      = ∑ a ∈ Finset.range c.nNet, ∑ b ∈ Finset.range c.nNet, (c.outs a).count b :=
        Finset.sum_congr rfl fun a ha => counted _ (outsLt a (Finset.mem_range.mp ha))
    _ = ∑ a ∈ Finset.range c.nNet, ∑ b ∈ Finset.range c.nNet, (c.ins b).count a :=
        Finset.sum_congr rfl fun a ha => Finset.sum_congr rfl fun b hb =>
          inverse a (Finset.mem_range.mp ha) b (Finset.mem_range.mp hb)
    _ = ∑ b ∈ Finset.range c.nNet, ∑ a ∈ Finset.range c.nNet, (c.ins b).count a :=
        Finset.sum_comm
    _ = ∑ b ∈ Finset.range c.nNet, (c.ins b).length :=
        Finset.sum_congr rfl fun b hb => (counted _ (insLt b (Finset.mem_range.mp hb))).symm
    _ ≤ ∑ _b ∈ Finset.range c.nNet, width :=
        Finset.sum_le_sum fun b hb => fanin b (Finset.mem_range.mp hb)
    _ = c.nNet * width := by simp

namespace WellFormed

variable {m : FaultModel}

/-- No flip-flops are left when analysis starts. -/
theorem not_isFF (wf : c.WellFormed m) {n : Nat} (hn : n < c.nNet) : (c.type n).isFF = false := by
  have h := wf.arity n hn
  cases ht : c.type n <;> rw [ht] at h <;> first | rfl | exact absurd h id

theorem isSource_iff (wf : c.WellFormed m) {n : Nat} (hn : n < c.nNet) :
    (c.type n).isSource = true ↔ c.type n = .IN := by
  simp [GateType.isSource, wf.not_isFF hn]

theorem ins_of_IN (wf : c.WellFormed m) {n : Nat} (hn : n < c.nNet) (ht : c.type n = .IN) :
    c.ins n = [] := by
  have h := wf.arity n hn
  rw [ht] at h
  exact List.length_eq_zero_iff.mp h

/-- The value of a net depends on all its inputs: input nets have none. -/
theorem deps_eq (wf : c.WellFormed m) {n : Nat} (hn : n < c.nNet) : c.deps n = c.ins n := by
  unfold deps
  split
  · rename_i src
    exact (wf.ins_of_IN hn ((wf.isSource_iff hn).mp src)).symm
  · rfl

theorem acyclicDeps (wf : c.WellFormed m) : Dag.Acyclic c.nNet c.deps :=
  wf.acyclic.mono (fun n hn => by rw [wf.deps_eq hn]; exact List.Subset.refl _)

/-- Edges run both ways: `b` is an output of `a` exactly when `a` is an input of `b`. -/
theorem mem_outs_iff (wf : c.WellFormed m) {a b : Nat} (ha : a < c.nNet) (hb : b < c.nNet) :
    b ∈ c.outs a ↔ a ∈ c.ins b := by
  rw [← List.count_pos_iff, ← List.count_pos_iff, wf.inverse a ha b hb]

theorem value_eq (wf : c.WellFormed m) (source : Nat → Bool) (forced : Nat → Option Bool) {n : Nat}
    (hn : n < c.nNet) :
    c.value source forced n =
      c.op source forced n ((c.ins n).map (c.value source forced)) := by
  unfold value
  rw [Dag.eval_eq wf.acyclicDeps hn, wf.deps_eq hn]

theorem value_forced (wf : c.WellFormed m) {source : Nat → Bool} {forced : Nat → Option Bool}
    {n : Nat} {b : Bool} (hn : n < c.nNet) (h : forced n = some b) :
    c.value source forced n = b := by
  rw [wf.value_eq _ _ hn, op_forced h]

theorem value_IN (wf : c.WellFormed m) {source : Nat → Bool} {forced : Nat → Option Bool}
    {n : Nat} (hn : n < c.nNet) (h : forced n = none) (ht : c.type n = .IN) :
    c.value source forced n = source n := by
  rw [wf.value_eq _ _ hn, op_source h ((wf.isSource_iff hn).mpr ht)]

theorem value_gate (wf : c.WellFormed m) {source : Nat → Bool} {forced : Nat → Option Bool}
    {n : Nat} (hn : n < c.nNet) (h : forced n = none) (ht : c.type n ≠ .IN) :
    c.value source forced n = (c.type n).fn ((c.ins n).map (c.value source forced)) := by
  have gate : (c.type n).isSource = false := by
    rw [Bool.eq_false_iff]
    exact fun src => ht ((wf.isSource_iff hn).mp src)
  rw [wf.value_eq _ _ hn, op_gate h gate]

/-- The value of the `k`-th input. -/
theorem piValue_pi (wf : c.WellFormed m) (x : c.Assignment) {k : Nat} (h : k < c.nPi) :
    c.piValue x c.pi[k] = x ⟨k, h⟩ := by
  have index : c.pi.idxOf c.pi[k] = k := wf.piNodup.idxOf_getElem k h
  simp only [piValue, index, dif_pos h]

/-- Every edge enters a gate with at most ten pins. -/
theorem sum_outs_le (wf : c.WellFormed m) :
    ∑ n ∈ Finset.range c.nNet, (c.outs n).length ≤ c.nNet * 10 :=
  sum_outs_le_of_inverse wf.insLt wf.outsLt wf.inverse wf.fanin

theorem searchable (wf : c.WellFormed m) : c.Searchable m where
  insLt := wf.insLt
  outsLt := wf.outsLt
  edges := wf.sum_outs_le
  inputs := fun _ low input => wf.ins_of_IN low input
  observedLt := wf.observedLt

/-- Induction up the circuit, from the inputs of a net to the net. -/
theorem induction (wf : c.WellFormed m) {P : Nat → Prop}
    (step : ∀ n < c.nNet, (∀ i ∈ c.ins n, P i) → P n) : ∀ n < c.nNet, P n :=
  wf.acyclic.induction step

end WellFormed

end Netlist

/-- The netlist of `OUTPUT(z)`, `z = AND(a, b)`. -/
def andNetlist : Netlist where
  nl := [⟨['z'], .AND, [1, 2], [], none⟩, ⟨['a'], .IN, [], [0], none⟩, ⟨['b'], .IN, [], [0], none⟩]
  pi := [1, 2]
  po := [0]
  ppo := []

theorem andNetlist_wellFormed : andNetlist.WellFormed .SAF where
  arity := by decide
  fanin := by decide
  insLt := by decide
  outsLt := by decide
  inverse := by decide
  acyclic := ⟨fun n => if n = 0 then 1 else 0, by decide⟩
  piNodup := by decide
  piMem := by
    intro n
    by_cases low : n < 3
    · revert n
      decide
    · exact iff_of_false (fun h => low (by simp [andNetlist] at h; omega)) (fun h => low h.1)
  observedLt := by decide
  observedEnd := by decide
  peerLt := by decide
  peerIn := by decide

def andCircuit : Circuit := ⟨andNetlist, .SAF, andNetlist_wellFormed⟩

/-- The output of the gate stuck at 0. -/
def andFault : FNODE := ⟨['S', 'A', '0', ' ', 'z'], ['z'], .SF0, 0, none⟩

theorem andFault_isFault : andCircuit.netlist.IsFault andCircuit.model andFault where
  netLt := by decide
  saf := fun _ => rfl
  tdf := by
    intro h
    cases h

/-- The output of the gate stuck at 1. -/
def andFault₁ : FNODE := ⟨['S', 'A', '1', ' ', 'z'], ['z'], .SF1, 0, none⟩

theorem andFault₁_isFault : andCircuit.netlist.IsFault andCircuit.model andFault₁ where
  netLt := by decide
  saf := fun _ => rfl
  tdf := by
    intro h
    cases h

end SafRprGen
