/-
Module: SafRprGen.Netlist.Wired
Layer: Netlist
Purpose: What `connection_signal` builds, with lists of edges in place of slots. Every connection is one or
  two new edges, perhaps with a new FOUT net between them, so that `in` and `out` stay inverse to each
  other. The facts about the graph that the analysis relies on are proved here and carried over to the
  slots.
Main exports: Use, Wired, Wired.connect, Linked, Progress, Progress.run
-/
import SafRprGen.Lib.Loop
import SafRprGen.Netlist.Connect
import Mathlib.Data.List.Count
import Mathlib.Data.List.Forall2

namespace SafRprGen

/-- A pin of a gate and the signal on it. -/
structure Use where
  gate : Wires
  pin : Nat
  src : Nat
deriving DecidableEq, Repr

/-- The net of the gate. -/
def Use.out (u : Use) : Nat := u.gate.outNid

/-- The pins of all gates in the order in which they are connected. -/
def allUses (gates : List Wires) : List Use :=
  gates.flatMap fun gate => gate.inNid.zipIdx.map fun (src, pin) => ⟨gate, pin, src⟩

/-- Nets with lists of edges. -/
structure Wired where
  nNet : Nat
  name : Nat → CStr
  type : Nat → GateType
  ins : Nat → List Nat
  outs : Nat → List Nat
  po : List Nat

namespace Wired

/-- A new edge. -/
def link (v : Wired) (a b : Nat) : Wired :=
  { v with
    outs := Function.update v.outs a (v.outs a ++ [b])
    ins := Function.update v.ins b (v.ins b ++ [a]) }

/-- A new FOUT net. -/
def fresh (v : Wired) (name : CStr) : Wired :=
  { v with
    name := Function.update v.name v.nNet name
    type := Function.update v.type v.nNet .FOUT
    nNet := v.nNet + 1 }

def setType (v : Wired) (n : Nat) (type : GateType) : Wired :=
  { v with type := Function.update v.type n type }

/-- The name of the branch of a signal to a pin. -/
def branchName (v : Wired) (u : Use) : CStr :=
  v.name u.src ++ '_' :: v.name u.out ++ ['_', pinNameArray.getD u.pin ' ']

/-- The signal has no other use. -/
def direct (v : Wired) (u : Use) : Wired := (v.link u.src u.out).setType u.out u.gate.type

/-- A branch between the signal and the gate. -/
def branch (v : Wired) (u : Use) : Wired :=
  (((v.fresh (v.branchName u)).link u.src v.nNet).link v.nNet u.out).setType u.out u.gate.type

/-- A branch between the signal and its output port, which takes the name of the signal. -/
def portBranch (v : Wired) (src k : Nat) : Wired :=
  let v' := (v.fresh (v.name src)).link src v.nNet
  { v' with
    name := Function.update v'.name src (v.name src ++ "_stem".toList)
    po := v.po.set k v.nNet }

/-- One pin is connected; `single` says that its signal has no other use. -/
def connect (single : Nat → Bool) (v : Wired) (u : Use) : Wired :=
  if single u.src then v.direct u
  else if v.po.idxOf u.src < v.po.length then (v.branch u).portBranch u.src (v.po.idxOf u.src)
  else v.branch u

/-! ### Edges run both ways -/

/-- `out` is the inverse of `in`, and only nets that exist have edges. -/
structure Linked (v : Wired) : Prop where
  inverse : ∀ a b, (v.outs a).count b = (v.ins b).count a
  beyond : ∀ a, v.nNet ≤ a → v.outs a = [] ∧ v.ins a = []

variable {v : Wired}

theorem Linked.lt {a b : Nat} (linked : v.Linked) (edge : b ∈ v.outs a) : a < v.nNet ∧ b < v.nNet := by
  have back : a ∈ v.ins b := by
    rw [← List.count_pos_iff, ← linked.inverse, List.count_pos_iff]
    exact edge
  constructor
  · by_contra high
    rw [(linked.beyond a (by omega)).1] at edge
    cases edge
  · by_contra high
    rw [(linked.beyond b (by omega)).2] at back
    cases back

theorem Linked.mem_iff {a b : Nat} (linked : v.Linked) : b ∈ v.outs a ↔ a ∈ v.ins b := by
  rw [← List.count_pos_iff, linked.inverse, List.count_pos_iff]

theorem Linked.link {a b : Nat} (linked : v.Linked) (ha : a < v.nNet) (hb : b < v.nNet) :
    (v.link a b).Linked := by
  constructor
  · intro x y
    have old := linked.inverse x y
    simp only [Wired.link, Function.update_apply]
    by_cases hx : x = a <;> by_cases hy : y = b <;>
      simp [hx, hy, List.count_append, List.count_singleton] <;> subst_vars <;>
      simp_all [eq_comm]
  · intro x high
    have high : v.nNet ≤ x := high
    simp only [Wired.link]
    rw [Function.update_of_ne (by omega), Function.update_of_ne (by omega)]
    exact linked.beyond x high

theorem Linked.fresh (linked : v.Linked) (name : CStr) : (v.fresh name).Linked :=
  ⟨linked.inverse, fun a high => linked.beyond a (by simp only [Wired.fresh] at high; omega)⟩

theorem Linked.setType (linked : v.Linked) (n : Nat) (type : GateType) : (v.setType n type).Linked :=
  ⟨linked.inverse, linked.beyond⟩

/-! ### The three ways of connecting -/

variable {u : Use} {src k : Nat}

theorem direct_ins (n : Nat) :
    (v.direct u).ins n = if n = u.out then v.ins n ++ [u.src] else v.ins n := by
  simp only [direct, setType, link, Function.update_apply]
  split
  · rename_i here
    rw [here]
  · rfl

theorem direct_outs (n : Nat) :
    (v.direct u).outs n = if n = u.src then v.outs n ++ [u.out] else v.outs n := by
  simp only [direct, setType, link, Function.update_apply]
  split
  · rename_i here
    rw [here]
  · rfl

theorem direct_type (n : Nat) : (v.direct u).type n = if n = u.out then u.gate.type else v.type n := by
  simp only [direct, setType, link, Function.update_apply]

theorem branch_ins (linked : v.Linked) (outLt : u.out < v.nNet) (n : Nat) :
    (v.branch u).ins n = if n = v.nNet then [u.src]
      else if n = u.out then v.ins n ++ [v.nNet] else v.ins n := by
  simp only [branch, setType, link, fresh, Function.update_apply]
  by_cases here : n = v.nNet
  · subst here
    rw [if_neg (by omega), if_pos rfl, if_pos rfl, (linked.beyond _ le_rfl).2, List.nil_append]
  · rw [if_neg here]
    by_cases isOut : n = u.out
    · subst isOut
      rw [if_pos rfl, if_neg (by omega), if_neg here, if_pos rfl]
    · rw [if_neg isOut, if_neg isOut, if_neg here]

theorem branch_outs (linked : v.Linked) (srcLt : u.src < v.nNet) (n : Nat) :
    (v.branch u).outs n = if n = v.nNet then [u.out]
      else if n = u.src then v.outs n ++ [v.nNet] else v.outs n := by
  simp only [branch, setType, link, fresh, Function.update_apply]
  by_cases here : n = v.nNet
  · subst here
    rw [if_pos rfl, if_pos rfl, if_neg (by omega), (linked.beyond _ le_rfl).1, List.nil_append]
  · rw [if_neg here, if_neg here]
    by_cases isSrc : n = u.src
    · rw [if_pos isSrc, if_pos isSrc, isSrc]
    · rw [if_neg isSrc, if_neg isSrc]

theorem branch_type (outLt : u.out < v.nNet) (n : Nat) :
    (v.branch u).type n = if n = v.nNet then .FOUT else if n = u.out then u.gate.type else v.type n := by
  simp only [branch, setType, link, fresh, Function.update_apply]
  by_cases here : n = v.nNet
  · rw [if_neg (by omega), if_pos here, if_pos here]
  · rw [if_neg here, if_neg here]

theorem portBranch_ins (linked : v.Linked) (n : Nat) :
    (v.portBranch src k).ins n = if n = v.nNet then [src] else v.ins n := by
  simp only [portBranch, link, fresh, Function.update_apply]
  by_cases here : n = v.nNet
  · rw [if_pos here, if_pos here, (linked.beyond _ le_rfl).2, List.nil_append]
  · rw [if_neg here, if_neg here]

theorem portBranch_outs (n : Nat) :
    (v.portBranch src k).outs n = if n = src then v.outs n ++ [v.nNet] else v.outs n := by
  simp only [portBranch, link, fresh, Function.update_apply]
  split
  · rename_i here
    rw [here]
  · rfl

theorem portBranch_type (n : Nat) :
    (v.portBranch src k).type n = if n = v.nNet then .FOUT else v.type n := by
  simp only [portBranch, link, fresh, Function.update_apply]

theorem Linked.direct (linked : v.Linked) (srcLt : u.src < v.nNet) (outLt : u.out < v.nNet) :
    (v.direct u).Linked := (linked.link srcLt outLt).setType _ _

theorem Linked.branch (linked : v.Linked) (srcLt : u.src < v.nNet) (outLt : u.out < v.nNet) :
    (v.branch u).Linked := by
  have new := linked.fresh (v.branchName u)
  have stem := new.link (show u.src < v.nNet + 1 by omega) (show v.nNet < v.nNet + 1 by omega)
  exact (stem.link (show v.nNet < v.nNet + 1 by omega) (show u.out < v.nNet + 1 by omega)).setType _ _

theorem Linked.portBranch (linked : v.Linked) (srcLt : src < v.nNet) (k : Nat) :
    (v.portBranch src k).Linked := by
  have new := linked.fresh (v.name src)
  have stem := new.link (show src < v.nNet + 1 by omega) (show v.nNet < v.nNet + 1 by omega)
  exact ⟨stem.inverse, stem.beyond⟩

/-! ### The shape of the graph -/

/-- `x` carries the signal `s`: the net itself when it has one use, else a branch of it. -/
def Carries (v : Wired) (nSignal : Nat) (single : Nat → Bool) (s x : Nat) : Prop :=
  if single s then x = s else nSignal ≤ x ∧ x < v.nNet ∧ v.ins x = [s]

/-- The graph when the pins `done` are connected, from the signals of `v₀` on. -/
structure Shape (v₀ : Wired) (single : Nat → Bool) (done : List Use) (v : Wired) : Prop where
  signals : v₀.nNet ≤ v.nNet
  linked : v.Linked
  /-- A net behind the signals is a branch to a gate or to a port. -/
  branch : ∀ b, v₀.nNet ≤ b → b < v.nNet → v.type b = .FOUT ∧ ∃ s < v₀.nNet, single s = false ∧
    v.ins b = [s] ∧ (v.outs b = [] ∨ ∃ u ∈ done, u.src = s ∧ v.outs b = [u.out])
  /-- The inputs of a gate carry its signals in order. -/
  ins : ∀ n < v₀.nNet, List.Forall₂ (v.Carries v₀.nNet single)
    ((done.filter fun u => u.out = n).map (·.src)) (v.ins n)
  outsSingle : ∀ n < v₀.nNet, single n = true →
    v.outs n = (done.filter fun u => u.src = n).map (·.out)
  outsFan : ∀ n < v₀.nNet, single n = false → ∀ x ∈ v.outs n, v₀.nNet ≤ x
  /-- A port is a signal, or a branch of it that ends there. -/
  po : List.Forall₂ (fun p₀ p => p = p₀ ∨
    (single p₀ = false ∧ v₀.nNet ≤ p ∧ p < v.nNet ∧ v.ins p = [p₀] ∧ v.outs p = [])) v₀.po v.po
  type : ∀ n < v₀.nNet, (∃ u ∈ done, u.out = n ∧ v.type n = u.gate.type) ∨
    ((∀ u ∈ done, u.out ≠ n) ∧ v.type n = v₀.type n)

/-- Branches that exist stay as they are. -/
theorem Carries.mono {nSignal s x : Nat} {single : Nat → Bool} (h : v.Carries nSignal single s x)
    (v' : Wired) (more : v.nNet ≤ v'.nNet)
    (same : ∀ x, nSignal ≤ x → x < v.nNet → v'.ins x = v.ins x) : v'.Carries nSignal single s x := by
  unfold Carries at h ⊢
  split
  · rename_i one
    rwa [if_pos one] at h
  · rename_i many
    rw [if_neg many] at h
    exact ⟨h.1, by omega, (same x h.1 h.2.1).trans h.2.2⟩

theorem filter_append {α : Type} (p : α → Bool) (l : List α) (a : α) :
    (l ++ [a]).filter p = l.filter p ++ if p a then [a] else [] := by
  rw [List.filter_append]
  congr 1
  by_cases h : p a = true <;> simp [h]

variable {v₀ : Wired} {single : Nat → Bool} {done : List Use}

theorem Shape.direct (h : Shape v₀ single done v) (one : single u.src = true)
    (srcLt : u.src < v₀.nNet) (outLt : u.out < v₀.nNet) : Shape v₀ single (done ++ [u]) (v.direct u) := by
  have signals := h.signals
  have sameIns : ∀ x, v₀.nNet ≤ x → (v.direct u).ins x = v.ins x := fun x high => by
    rw [direct_ins, if_neg (by omega)]
  have sameOuts : ∀ x, v₀.nNet ≤ x → (v.direct u).outs x = v.outs x := fun x high => by
    rw [direct_outs, if_neg (by omega)]
  refine ⟨signals, h.linked.direct (by omega) (by omega), ?_, ?_, ?_, ?_, ?_, ?_⟩
  · intro b high low
    obtain ⟨type, s, sLt, many, ins, outs⟩ := h.branch b high low
    rw [direct_type, if_neg (by omega), sameIns b high, sameOuts b high]
    refine ⟨type, s, sLt, many, ins, outs.imp_right ?_⟩
    rintro ⟨u', mem, src, out⟩
    exact ⟨u', List.mem_append_left _ mem, src, out⟩
  · intro n low
    have old : List.Forall₂ ((v.direct u).Carries v₀.nNet single)
        ((done.filter fun u => u.out = n).map (·.src)) (v.ins n) :=
      (h.ins n low).imp fun s x carries =>
        carries.mono (v.direct u) le_rfl fun x high _ => sameIns x high
    rw [direct_ins, filter_append]
    by_cases here : n = u.out
    · subst here
      rw [if_pos rfl, if_pos (by simp), List.map_append]
      refine List.rel_append old (.cons ?_ .nil)
      unfold Carries
      rw [if_pos one]
    · rw [if_neg here, if_neg (by simpa using Ne.symm here), List.append_nil]
      exact old
  · intro n low isOne
    rw [direct_outs, filter_append, h.outsSingle n low isOne]
    by_cases here : n = u.src
    · subst here
      simp
    · rw [if_neg here, if_neg (by simpa using Ne.symm here), List.append_nil]
  · intro n low many
    have other : n ≠ u.src := by
      rintro rfl
      rw [one] at many
      cases many
    rw [direct_outs, if_neg other]
    exact h.outsFan n low many
  · refine h.po.imp fun p₀ p => Or.imp_right ?_
    rintro ⟨many, high, low, ins, outs⟩
    exact ⟨many, high, low, (sameIns p high).trans ins, (sameOuts p high).trans outs⟩
  · intro n low
    rw [direct_type]
    by_cases here : n = u.out
    · exact .inl ⟨u, by simp, here.symm, if_pos here⟩
    · rw [if_neg here]
      rcases h.type n low with ⟨u', mem, out, type⟩ | ⟨none, type⟩
      · exact .inl ⟨u', List.mem_append_left _ mem, out, type⟩
      · refine .inr ⟨fun u' mem => ?_, type⟩
        rcases List.mem_append.mp mem with mem | mem
        · exact none u' mem
        · rw [List.mem_singleton] at mem
          exact mem ▸ Ne.symm here

theorem Shape.branchUse (h : Shape v₀ single done v) (many : single u.src = false)
    (srcLt : u.src < v₀.nNet) (outLt : u.out < v₀.nNet) : Shape v₀ single (done ++ [u]) (v.branch u) := by
  have signals := h.signals
  have outLt' : u.out < v.nNet := by omega
  have srcLt' : u.src < v.nNet := by omega
  have isIns := branch_ins h.linked outLt'
  have isOuts := branch_outs h.linked srcLt'
  have nNet : (v.branch u).nNet = v.nNet + 1 := rfl
  have sameIns : ∀ x, v₀.nNet ≤ x → x < v.nNet → (v.branch u).ins x = v.ins x := fun x high low => by
    rw [isIns, if_neg (by omega), if_neg (by omega)]
  have sameOuts : ∀ x, v₀.nNet ≤ x → x < v.nNet → (v.branch u).outs x = v.outs x := fun x high low => by
    rw [isOuts, if_neg (by omega), if_neg (by omega)]
  refine ⟨by omega, h.linked.branch srcLt' outLt', ?_, ?_, ?_, ?_, ?_, ?_⟩
  · intro b high low
    by_cases new : b = v.nNet
    · subst new
      refine ⟨by rw [branch_type outLt', if_pos rfl], u.src, srcLt, many, by rw [isIns, if_pos rfl],
        .inr ⟨u, by simp, rfl, by rw [isOuts, if_pos rfl]⟩⟩
    · have low : b < v.nNet := by omega
      obtain ⟨type, s, sLt, isFan, ins, outs⟩ := h.branch b high low
      rw [branch_type outLt', if_neg new, if_neg (by omega), sameIns b high low, sameOuts b high low]
      refine ⟨type, s, sLt, isFan, ins, outs.imp_right ?_⟩
      rintro ⟨u', mem, src, out⟩
      exact ⟨u', List.mem_append_left _ mem, src, out⟩
  · intro n low
    have old : List.Forall₂ ((v.branch u).Carries v₀.nNet single)
        ((done.filter fun u => u.out = n).map (·.src)) (v.ins n) :=
      (h.ins n low).imp fun s x carries => carries.mono (v.branch u) (by omega) sameIns
    rw [isIns, if_neg (by omega), filter_append]
    by_cases here : n = u.out
    · subst here
      rw [if_pos rfl, if_pos (by simp), List.map_append]
      refine List.rel_append old (.cons ?_ .nil)
      unfold Carries
      rw [many, if_neg Bool.false_ne_true]
      exact ⟨signals, by omega, by rw [isIns, if_pos rfl]⟩
    · rw [if_neg here, if_neg (by simpa using Ne.symm here), List.append_nil]
      exact old
  · intro n low isOne
    have other : n ≠ u.src := by
      rintro rfl
      rw [isOne] at many
      cases many
    rw [isOuts, if_neg (by omega), if_neg other, filter_append, h.outsSingle n low isOne,
      if_neg (by simpa using Ne.symm other), List.append_nil]
  · intro n low isFan x mem
    rw [isOuts, if_neg (by omega)] at mem
    split at mem
    · rcases List.mem_append.mp mem with mem | mem
      · exact h.outsFan n low isFan x mem
      · rw [List.mem_singleton.mp mem]
        exact signals
    · exact h.outsFan n low isFan x mem
  · refine h.po.imp fun p₀ p => Or.imp_right ?_
    rintro ⟨isFan, high, low, ins, outs⟩
    exact ⟨isFan, high, by omega, (sameIns p high low).trans ins, (sameOuts p high low).trans outs⟩
  · intro n low
    rw [branch_type outLt', if_neg (by omega)]
    by_cases here : n = u.out
    · exact .inl ⟨u, by simp, here.symm, if_pos here⟩
    · rw [if_neg here]
      rcases h.type n low with ⟨u', mem, out, type⟩ | ⟨none, type⟩
      · exact .inl ⟨u', List.mem_append_left _ mem, out, type⟩
      · refine .inr ⟨fun u' mem => ?_, type⟩
        rcases List.mem_append.mp mem with mem | mem
        · exact none u' mem
        · rw [List.mem_singleton] at mem
          exact mem ▸ Ne.symm here

theorem Shape.portBranch (h : Shape v₀ single done v) (many : single src = false)
    (srcLt : src < v₀.nNet) (port : v.po[k]? = some src) : Shape v₀ single done (v.portBranch src k) := by
  have signals := h.signals
  have srcLt' : src < v.nNet := by omega
  have isIns : ∀ n, (v.portBranch src k).ins n = _ := portBranch_ins h.linked
  have isOuts : ∀ n, (v.portBranch src k).outs n = _ := portBranch_outs
  have nNet : (v.portBranch src k).nNet = v.nNet + 1 := rfl
  have sameIns : ∀ x, x < v.nNet → (v.portBranch src k).ins x = v.ins x := fun x low => by
    rw [isIns, if_neg (by omega)]
  have sameOuts : ∀ x, v₀.nNet ≤ x → (v.portBranch src k).outs x = v.outs x := fun x high => by
    rw [isOuts, if_neg (by omega)]
  refine ⟨by omega, h.linked.portBranch srcLt' k, ?_, ?_, ?_, ?_, ?_, ?_⟩
  · intro b high low
    by_cases new : b = v.nNet
    · subst new
      refine ⟨by rw [portBranch_type, if_pos rfl], src, srcLt, many, by rw [isIns, if_pos rfl], .inl ?_⟩
      rw [sameOuts _ high, (h.linked.beyond _ le_rfl).1]
    · have low : b < v.nNet := by omega
      rw [portBranch_type, if_neg new, sameIns b low, sameOuts b high]
      exact h.branch b high low
  · intro n low
    rw [sameIns n (by omega)]
    exact (h.ins n low).imp fun s x carries =>
      carries.mono (v.portBranch src k) (by omega) fun x _ => sameIns x
  · intro n low isOne
    have other : n ≠ src := by
      rintro rfl
      rw [isOne] at many
      cases many
    rw [isOuts, if_neg other]
    exact h.outsSingle n low isOne
  · intro n low isFan x mem
    rw [isOuts] at mem
    split at mem
    · rcases List.mem_append.mp mem with mem | mem
      · exact h.outsFan n low isFan x mem
      · rw [List.mem_singleton.mp mem]
        exact signals
    · exact h.outsFan n low isFan x mem
  · obtain ⟨same, all⟩ := List.forall₂_iff_get.mp h.po
    refine List.forall₂_iff_get.mpr ⟨by simp [Wired.portBranch, same], fun i low low' => ?_⟩
    have low'' : i < v.po.length := same ▸ low
    have old := all i low low''
    have entry : (v.portBranch src k).po.get ⟨i, low'⟩ = if k = i then v.nNet else v.po.get ⟨i, low''⟩ := by
      simp [Wired.portBranch, List.getElem_set]
    rw [entry]
    by_cases here : k = i
    · subst here
      have isSrc : v.po.get ⟨k, low''⟩ = src := by
        rw [List.getElem?_eq_getElem low''] at port
        exact Option.some.inj port
      have isSignal : v₀.po.get ⟨k, low⟩ = src := by
        rcases old with here | ⟨-, high, -⟩
        · exact here ▸ isSrc
        · omega
      rw [if_pos rfl, isSignal]
      exact .inr ⟨many, signals, by omega, by rw [isIns, if_pos rfl], by
        rw [sameOuts _ signals, (h.linked.beyond _ le_rfl).1]⟩
    · rw [if_neg here]
      apply old.imp_right
      rintro ⟨isFan, high, low, ins, outs⟩
      exact ⟨isFan, high, by omega, (sameIns _ low).trans ins, (sameOuts _ high).trans outs⟩
  · intro n low
    rw [portBranch_type, if_neg (by omega)]
    exact h.type n low

/-! ### The numbers of branches -/

/-- How many nets there are and how many edges leave a signal with branches. A port that is not yet
connected still stands in `po[]`. -/
structure Tally (v₀ : Wired) (single : Nat → Bool) (done : List Use) (v : Wired) : Prop where
  po : ∀ n < v₀.nNet, v.po.count n =
    v₀.po.count n - if single n then 0 else done.countP fun u => u.src = n
  outs : ∀ n < v₀.nNet, single n = false →
    (v.outs n).length + v.po.count n = done.countP (fun u => u.src = n) + v₀.po.count n
  nNet : v.nNet = v₀.nNet + done.countP (fun u => !single u.src) + v.po.countP (v₀.nNet ≤ ·)

theorem countP_append {α : Type} (p : α → Bool) (l : List α) (a : α) :
    (l ++ [a]).countP p = l.countP p + if p a then 1 else 0 := by
  rw [List.countP_append, List.countP_singleton]

/-- Connecting one more pin. -/
theorem connect_inv (shape : Shape v₀ single done v) (tally : Tally v₀ single done v)
    (srcLt : u.src < v₀.nNet) (outLt : u.out < v₀.nNet) :
    Shape v₀ single (done ++ [u]) (v.connect single u) ∧
      Tally v₀ single (done ++ [u]) (v.connect single u) := by
  have signals := shape.signals
  have others : ∀ n, (done ++ [u]).countP (fun u => u.src = n) =
      done.countP (fun u => u.src = n) + if n = u.src then 1 else 0 := by
    intro n
    rw [countP_append]
    simp [eq_comm]
  unfold connect
  cases one : single u.src with
  | true =>
      rw [if_pos rfl]
      refine ⟨shape.direct one srcLt outLt, fun n low => ?_, fun n low many => ?_, ?_⟩
      · rw [others]
        apply (tally.po n low).trans
        by_cases here : n = u.src
        · subst here
          simp [one]
        · rw [if_neg here, Nat.add_zero]
      · have other : n ≠ u.src := by
          rintro rfl
          rw [one] at many
          cases many
        rw [others, if_neg other, direct_outs, if_neg other]
        exact tally.outs n low many
      · rw [countP_append, one]
        exact tally.nNet
  | false =>
      rw [if_neg Bool.false_ne_true]
      have step := shape.branchUse one srcLt outLt
      have outsStep := branch_outs shape.linked (show u.src < v.nNet by omega)
      have nNetStep : (v.branch u).nNet = v.nNet + 1 := rfl
      have poStep : (v.branch u).po = v.po := rfl
      have poSrc := tally.po u.src srcLt
      rw [one, if_neg Bool.false_ne_true] at poSrc
      have branched : ∀ n < v₀.nNet, ((v.branch u).outs n).length =
          (v.outs n).length + if n = u.src then 1 else 0 := by
        intro n low
        rw [outsStep, if_neg (by omega)]
        by_cases here : n = u.src
        · simp [here]
        · simp [here]
      by_cases port : v.po.idxOf u.src < v.po.length
      · rw [if_pos port]
        have entry : v.po[v.po.idxOf u.src] = u.src := List.getElem_idxOf port
        have some : 0 < v.po.count u.src := List.count_pos_iff.mpr (List.idxOf_lt_length_iff.mp port)
        refine ⟨step.portBranch one srcLt (by rw [poStep, List.getElem?_eq_getElem port, entry]),
          fun n low => ?_, fun n low many => ?_, ?_⟩
        · have now : ((v.branch u).portBranch u.src (v.po.idxOf u.src)).po =
              v.po.set (v.po.idxOf u.src) (v.nNet + 1) := rfl
          have high : ¬ v.nNet + 1 = n := by omega
          rw [now, List.count_set port, entry, others, tally.po n low]
          by_cases here : n = u.src
          · subst here
            simp [one, high]
            omega
          · simp [Ne.symm here, here, high]
        · have now : ((v.branch u).portBranch u.src (v.po.idxOf u.src)).po =
              v.po.set (v.po.idxOf u.src) (v.nNet + 1) := rfl
          have high : ¬ v.nNet + 1 = n := by omega
          have old := tally.outs n low many
          rw [now, List.count_set port, entry, others, portBranch_outs]
          by_cases here : n = u.src
          · subst here
            simp only [if_pos, List.length_append, branched u.src low, List.length_singleton, BEq.rfl,
              beq_iff_eq, high, if_false]
            omega
          · rw [if_neg here, branched n low]
            simp only [here, Ne.symm here, high, if_false, beq_iff_eq]
            omega
        · have now : ((v.branch u).portBranch u.src (v.po.idxOf u.src)).po =
              v.po.set (v.po.idxOf u.src) (v.nNet + 1) := rfl
          have nNet : ((v.branch u).portBranch u.src (v.po.idxOf u.src)).nNet = v.nNet + 1 + 1 := rfl
          rw [now, nNet, List.countP_set port, entry, countP_append, one]
          have low : decide (v₀.nNet ≤ u.src) = false := by simpa using srcLt
          have high : decide (v₀.nNet ≤ v.nNet + 1) = true := by simp; omega
          have old := tally.nNet
          simp only [low, high, Bool.not_false, if_true, Bool.false_eq_true, if_false]
          omega
      · rw [if_neg port]
        have none : v.po.count u.src = 0 := List.count_eq_zero.mpr fun mem =>
          port (List.idxOf_lt_length_iff.mpr mem)
        refine ⟨step, fun n low => ?_, fun n low many => ?_, ?_⟩
        · rw [others, poStep, tally.po n low]
          by_cases here : n = u.src
          · subst here
            simp [one]
            omega
          · simp [here]
        · have old := tally.outs n low many
          rw [others, poStep, branched n low]
          omega
        · rw [nNetStep, poStep, countP_append, one, tally.nNet]
          simp only [Bool.not_false, if_true]
          omega

/-- The signals before anything is connected. -/
structure Start (v₀ : Wired) (single : Nat → Bool) (uses : List Use) : Prop where
  ins : ∀ n, v₀.ins n = []
  outs : ∀ n, v₀.outs n = []
  po : ∀ p ∈ v₀.po, p < v₀.nNet
  src : ∀ u ∈ uses, u.src < v₀.nNet
  out : ∀ u ∈ uses, u.out < v₀.nNet

theorem Start.shape {uses : List Use} (start : Start v₀ single uses) : Shape v₀ single [] v₀ where
  signals := le_rfl
  linked := ⟨fun a b => by rw [start.ins, start.outs]; rfl, fun a _ => ⟨start.outs a, start.ins a⟩⟩
  branch := fun b high low => by omega
  ins := fun n _ => by rw [start.ins]; exact .nil
  outsSingle := fun n _ _ => start.outs n
  outsFan := fun n _ _ x mem => by rw [start.outs] at mem; cases mem
  po := List.forall₂_same.mpr fun p _ => .inl rfl
  type := fun n _ => .inr ⟨fun u mem => (by cases mem), rfl⟩

theorem Start.tally {uses : List Use} (start : Start v₀ single uses) : Tally v₀ single [] v₀ where
  po := fun n _ => by simp
  outs := fun n _ _ => by simp [start.outs]
  nNet := by
    have none : v₀.po.countP (v₀.nNet ≤ ·) = 0 := by
      rw [List.countP_eq_zero]
      intro p mem high
      have := start.po p mem
      simp only [decide_eq_true_eq] at high
      omega
    simp [none]

/-- All pins connected. -/
theorem Start.run {uses : List Use} (start : Start v₀ single uses) :
    ∀ seen rest, uses = seen ++ rest → Shape v₀ single seen (seen.foldl (connect single) v₀) ∧
      Tally v₀ single seen (seen.foldl (connect single) v₀) := by
  intro seen rest split
  refine Loop.foldl_inv (connect single) (fun seen v => Shape v₀ single seen v ∧ Tally v₀ single seen v)
    seen ⟨start.shape, start.tally⟩ ?_
  rintro before u after v here ⟨shape, tally⟩
  have mem : u ∈ uses := by rw [split, here]; simp
  exact connect_inv shape tally (start.src u mem) (start.out u mem)

end Wired

end SafRprGen
