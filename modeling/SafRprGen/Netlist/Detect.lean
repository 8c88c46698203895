/-
Module: SafRprGen.Netlist.Detect
Layer: Netlist
Purpose: How the effect of a fault spreads. Nets outside the fanout of the site keep their good value;
  a net that differs is joined to the site by a path of differing nets (a D-chain); a gate with a
  controlling input that the fault does not reach blocks the effect.
Main exports: Netlist.Differs, WellFormed.good_eq_faulty, WellFormed.dchain, WellFormed.side_input
-/
import SafRprGen.Lib.Search
import SafRprGen.Netlist.Basic

namespace SafRprGen

open Search

/-- The input value that decides an AND-like or OR-like gate alone. -/
def GateType.ctrl : GateType → Option Bool
  | .AND | .NAND => some false
  | .OR | .NOR => some true
  | _ => none

/-- The gates that complement their output. -/
def GateType.inverts : GateType → Bool
  | .INV | .NAND | .NOR | .EXNOR => true
  | _ => false

/-- An AND-like or OR-like gate shows, up to the inversion, its controlling value exactly when some input
has it. -/
theorem GateType.fn_eq_ctrl {t : GateType} {v : Bool} (ctrl : t.ctrl = some v) (vs : List Bool) :
    t.fn vs = xor t.inverts (if v ∈ vs then v else !v) := by
  have all : ∀ vs : List Bool, vs.all id = if false ∈ vs then false else true := by
    intro vs
    induction vs with
    | nil => rfl
    | cons b vs ih => cases b <;> simp [ih]
  have any : ∀ vs : List Bool, vs.any id = if true ∈ vs then true else false := by
    intro vs
    induction vs with
    | nil => rfl
    | cons b vs ih => cases b <;> simp [ih]
  cases t with
  | AND | NAND =>
      cases ctrl
      simp [GateType.fn, GateType.inverts, all]
  | OR | NOR =>
      cases ctrl
      simp [GateType.fn, GateType.inverts, any]
  | _ => cases ctrl

/-- A gate with a controlling input ignores its other inputs. -/
theorem GateType.fn_ctrl {t : GateType} {v : Bool} (ctrl : t.ctrl = some v) {vs vs' : List Bool}
    (h : v ∈ vs) (h' : v ∈ vs') : t.fn vs = t.fn vs' := by
  rw [fn_eq_ctrl ctrl, fn_eq_ctrl ctrl, if_pos h, if_pos h']

namespace Netlist

variable {c : Netlist} {m : FaultModel} {f : FNODE} {x : c.Assignment}

/-- The fault changes the value of the net. -/
def Differs (c : Netlist) (f : FNODE) (x : c.Assignment) (n : Nat) : Prop :=
  c.good x n ≠ c.faulty f x n

instance (n : Nat) : Decidable (c.Differs f x n) := by
  unfold Differs
  infer_instance

/-- One step along a D-chain. -/
def ChainStep (c : Netlist) (f : FNODE) (x : c.Assignment) (a b : Nat) : Prop :=
  b ∈ c.outs a ∧ c.Differs f x b

/-- `n` is in the fanout of the fault site. -/
abbrev InFanout (c : Netlist) (f : FNODE) (n : Nat) : Prop := Reach c.outs (· = f.netptr) n

namespace WellFormed

variable (wf : c.WellFormed m)

include wf

theorem good_IN {n : Nat} (hn : n < c.nNet) (ht : c.type n = .IN) : c.good x n = c.piValue x n :=
  wf.value_IN hn rfl ht

theorem good_gate {n : Nat} (hn : n < c.nNet) (ht : c.type n ≠ .IN) :
    c.good x n = (c.type n).fn ((c.ins n).map (c.good x)) :=
  wf.value_gate hn rfl ht

theorem faulty_site (site : f.netptr < c.nNet) : c.faulty f x f.netptr = f.type.stuck :=
  wf.value_forced site (forcedAt_self _ _)

theorem faulty_IN {n : Nat} (hn : n < c.nNet) (other : n ≠ f.netptr) (ht : c.type n = .IN) :
    c.faulty f x n = c.piValue x n :=
  wf.value_IN hn (forcedAt_ne _ other) ht

theorem faulty_gate {n : Nat} (hn : n < c.nNet) (other : n ≠ f.netptr) (ht : c.type n ≠ .IN) :
    c.faulty f x n = (c.type n).fn ((c.ins n).map (c.faulty f x)) :=
  wf.value_gate hn (forcedAt_ne _ other) ht

theorem inFanout_lt (site : f.netptr < c.nNet) {n : Nat} (h : c.InFanout f n) : n < c.nNet :=
  Reach.induction (P := (· < c.nNet)) (fun r (hr : r = f.netptr) => hr ▸ site)
    (fun a b _ ha hb => wf.outsLt a ha b hb) h

/-- An input net is in the fanout of a fault only as its site. -/
theorem inFanout_IN (site : f.netptr < c.nNet) {n : Nat} (h : c.InFanout f n)
    (ht : c.type n = .IN) : n = f.netptr := by
  obtain ⟨r, rfl, path⟩ := h
  cases path with
  | refl => rfl
  | tail before edge =>
      have ha := wf.inFanout_lt site ⟨_, rfl, before⟩
      have hn := wf.outsLt _ ha n edge
      rw [wf.mem_outs_iff ha hn, wf.ins_of_IN hn ht] at edge
      exact absurd edge List.not_mem_nil

/-- Outside the fanout of the site nothing changes. -/
theorem good_eq_faulty : ∀ n < c.nNet, ¬ c.InFanout f n → c.good x n = c.faulty f x n := by
  refine wf.induction ?_
  intro n hn ih out
  have other : n ≠ f.netptr := fun h => out (h ▸ Reach.root rfl)
  by_cases ht : c.type n = .IN
  · rw [wf.good_IN hn ht, wf.faulty_IN hn other ht]
  · rw [wf.good_gate hn ht, wf.faulty_gate hn other ht]
    congr 1
    refine List.map_congr_left fun i hi => ih i hi fun reached => out (reached.edge ?_)
    exact (wf.mem_outs_iff (wf.insLt n hn i hi) hn).mpr hi

/-- A net that differs away from the site is a gate with an input that differs. -/
theorem differs_input {n : Nat} (hn : n < c.nNet) (differs : c.Differs f x n) (other : n ≠ f.netptr) :
    c.type n ≠ .IN ∧ ∃ i ∈ c.ins n, c.Differs f x i := by
  have gate : c.type n ≠ .IN := fun ht =>
    differs ((wf.good_IN hn ht).trans (wf.faulty_IN hn other ht).symm)
  refine ⟨gate, ?_⟩
  by_contra none
  push Not at none
  apply differs
  rw [wf.good_gate hn gate, wf.faulty_gate hn other gate]
  congr 1
  exact List.map_congr_left fun i hi => not_not.mp (none i hi)

/-- A differing net ends a D-chain from the site. -/
theorem dchain : ∀ n < c.nNet, c.Differs f x n →
    c.Differs f x f.netptr ∧ Relation.ReflTransGen (c.ChainStep f x) f.netptr n := by
  refine wf.induction ?_
  intro n hn ih differs
  by_cases here : n = f.netptr
  · subst here
    exact ⟨differs, .refl⟩
  · obtain ⟨-, i, hi, differsI⟩ := wf.differs_input hn differs here
    obtain ⟨atSite, chain⟩ := ih i hi differsI
    exact ⟨atSite, chain.tail ⟨(wf.mem_outs_iff (wf.insLt n hn i hi) hn).mpr hi, differs⟩⟩

/-- When the effect passes a gate, an input outside the fanout is not controlling. -/
theorem side_input {t k : Nat} {v : Bool} (ht : t < c.nNet) (other : t ≠ f.netptr)
    (differs : c.Differs f x t) (hk : k ∈ c.ins t) (out : ¬ c.InFanout f k)
    (ctrl : (c.type t).ctrl = some v) : c.good x k = !v := by
  have gate : c.type t ≠ .IN := by
    intro h
    rw [h] at ctrl
    cases ctrl
  by_contra controlling
  have good : c.good x k = v := by
    cases h : c.good x k <;> cases v <;> simp_all
  have faulty : c.faulty f x k = v := by
    rw [← wf.good_eq_faulty k (wf.insLt t ht k hk) out, good]
  apply differs
  rw [wf.good_gate ht gate, wf.faulty_gate ht other gate]
  exact GateType.fn_ctrl ctrl (List.mem_map.mpr ⟨k, hk, good⟩) (List.mem_map.mpr ⟨k, hk, faulty⟩)

/-- No net reaches one of its inputs. -/
theorem no_cycle {a b : Nat} (ha : a < c.nNet) (path : Relation.ReflTransGen (fun a b => b ∈ c.outs a) a b)
    (back : b ∈ c.ins a) : False := by
  obtain ⟨rank, lower⟩ := wf.acyclic
  have up : b < c.nNet ∧ rank a ≤ rank b := by
    clear back
    induction path with
    | refl => exact ⟨ha, le_refl _⟩
    | tail _ edge ih =>
        obtain ⟨hd, le⟩ := ih
        have he := wf.outsLt _ hd _ edge
        exact ⟨he, le.trans (lower _ he _ ((wf.mem_outs_iff hd he).mp edge)).2.le⟩
  exact absurd (lower a ha b back).2 (not_lt.mpr up.2)

/-- A transition fault on an input net is never detected: the input has one value in both frames. -/
theorem not_detects_IN (fault : c.IsFault m f) (tdf : m = .TDF) (ht : c.type f.netptr = .IN) :
    ¬ c.Detects m f x := by
  rintro ⟨-, excited⟩
  obtain ⟨same, present⟩ := fault.tdf tdf
  obtain ⟨e, he⟩ := Option.ne_none_iff_exists'.mp present
  have here : e = f.netptr := wf.peerIn f.netptr fault.netLt ht e (by rw [← same, he]; rfl)
  obtain ⟨first, second⟩ := excited e (by rw [he]; rfl)
  rw [here, second] at first
  cases h : f.type.stuck <;> simp [h] at first

/-- A detected fault shows at an observed net where its paths end. -/
theorem detects_end (fault : c.IsFault m f) (det : c.Detects m f x) :
    ∃ o ∈ c.observed m, c.Differs f x o ∧ c.outs o = [] := by
  obtain ⟨⟨o, ho, differs⟩, -⟩ := id det
  have hlt := wf.observedLt o ho
  rcases wf.observedEnd o ho with ends | ⟨tdf, isIN⟩
  · exact ⟨o, ho, differs, ends⟩
  · have reached : c.InFanout f o := by
      by_contra out
      exact differs (wf.good_eq_faulty o hlt out)
    have site := wf.inFanout_IN fault.netLt reached isIN
    exact absurd det (wf.not_detects_IN fault tdf (site ▸ isIN))

end WellFormed

end Netlist

end SafRprGen
