/-
Module: SafRprGen.Xid.ForwardImp
Layer: Xid
Purpose: Forward implication (`xid_forward_imp.c`): the flagged inputs of a gate of the scope may decide
  its output.
Main exports: xidForwardImp, xidForwardImp_spec
-/
import SafRprGen.Lib.Loop
import SafRprGen.Xid.Invariant

namespace SafRprGen

namespace Netlist

variable (c : Netlist)

/-- `xid_fimp_buf`; `v` has the values of the input. -/
def xidFimpBuf (out : Nat) (v : SideValues) (s : XidState) : XidState := c.fillPush .fwd out v s

/-- `xid_fimp_inv`. -/
def xidFimpInv (out : Nat) (v : SideValues) (s : XidState) : XidState :=
  c.fillPush .fwd out (fun σ => (v σ).map (!·)) s

/-- `unknown_found` of `scan_inputs`. -/
def unknownFound (s : XidState) (node : Nat) (σ : Side) : Bool :=
  (c.ins node).any fun i => !s.flag i σ

/-- `control_found` of `scan_inputs`. -/
def controlFound (s : XidState) (node : Nat) (cVal : Bool) (σ : Side) : Bool :=
  (c.ins node).any fun i => s.flag i σ && (s.value3 i σ == some cVal)

/-- `one_count` of `scan_inputs_exor`. -/
def oneCount (s : XidState) (node : Nat) (σ : Side) : Nat :=
  (c.ins node).countP fun i => s.flag i σ && (s.value3 i σ == some true)

/-- `xid_fimp_universal`. -/
def xidFimpUniversal (node : Nat) (cVal isInv : Bool) (s : XidState) : XidState :=
  let ncVal := !cVal
  c.fillPush .fwd node
    (fun σ =>
      if c.controlFound s node cVal σ then some (if isInv then ncVal else cVal)
      else if !c.unknownFound s node σ then some (if isInv then cVal else ncVal)
      else none) s

/-- `xid_fimp_univ_exor`. -/
def xidFimpUnivExor (node : Nat) (isInv : Bool) (s : XidState) : XidState :=
  c.fillPush .fwd node
    (fun σ =>
      if c.unknownFound s node σ then none
      else
        let outVal := c.oneCount s node σ % 2 == 1
        some (if isInv then !outVal else outVal)) s

/-- The table `xid_fimp`. -/
def xidFimp (node : Nat) (v : SideValues) (s : XidState) : XidState :=
  match c.type node with
  | .BUF | .FOUT => c.xidFimpBuf node v s
  | .INV => c.xidFimpInv node v s
  | .AND => c.xidFimpUniversal node false false s
  | .NAND => c.xidFimpUniversal node false true s
  | .OR => c.xidFimpUniversal node true false s
  | .NOR => c.xidFimpUniversal node true true s
  | .EXOR => c.xidFimpUnivExor node false s
  | .EXNOR => c.xidFimpUnivExor node true s
  | _ => s

/-- `xid_forward_imp`. -/
def xidForwardImp (g : Globals) (t : Nat) (s : XidState) : XidState :=
  let v := s.known t
  if (v .normal).isNone && (v .fault).isNone then s
  else
    (c.outs t).foldl
      (fun s out =>
        if !g.normalScopeRequiredNet out then s
        else if s.flagBoth out then s
        else c.xidFimp out v s)
      s

variable {c} {m : FaultModel} {f : FNODE} {x : c.Assignment} {required : Nat → Bool}
  {path : Nat → Prop} {busy : Nat → Side → Prop} {s s' : XidState}

/-- A forward handler fills values that the flagged inputs justify. -/
private theorem fimp_fill (inv : XInv c f x required path busy s)
    (site : s.flag f.netptr .fault = true) {n : Nat} (hn : n < c.nNet) (hr : required n = true)
    {v : SideValues}
    (decided : ∀ σ b, v σ = some b → ¬ Forced f n σ →
      b = c.sideValue f x σ n ∧ c.Justified f x s n σ) :
    XInv c f x required path busy (c.fillPush .fwd n v s) ∧
      Ext c required 0 s (c.fillPush .fwd n v s) := by
  have free : ∀ σ, s.flag n σ = false → ¬ Forced f n σ := by
    rintro σ new ⟨rfl, rfl⟩
    rw [site] at new
    cases new
  obtain ⟨kept, ext, -⟩ := fillPush_spec (q := .fwd) (v := v) inv hn hr
    (fun σ b given new => (decided σ b given (free σ new)).1)
    (.inr ⟨rfl, fun σ given new => by
      obtain ⟨b, given⟩ := Option.isSome_iff_exists.mp given
      exact (decided σ b given (free σ new)).2⟩)
  exact ⟨kept, ext⟩

/-- One input that is known decides a buffer or an inverter. -/
private theorem fimp_single (wf : c.WellFormed m) (inv : XInv c f x required path busy s) {n t : Nat}
    (hn : n < c.nNet) (gate : c.type n ≠ .IN) (ins : c.ins n = [t]) {σ : Side} {b : Bool}
    (known : s.known t σ = some b) (free : ¬ Forced f n σ) :
    (c.type n).fn [b] = c.sideValue f x σ n ∧ c.Justified f x s n σ := by
  obtain ⟨flag, value⟩ := inv.known known
  constructor
  · rw [sideValue_gate wf hn gate free, ins, List.map_singleton, value]
  · apply justified_all wf hn free
    intro i hi
    rw [ins, List.mem_singleton] at hi
    exact hi ▸ flag

theorem unknownFound_eq_false {n : Nat} {σ : Side} :
    c.unknownFound s n σ = false ↔ ∀ i ∈ c.ins n, s.flag i σ = true := by
  simp [unknownFound]

private theorem fimp_universal (wf : c.WellFormed m) (inv : XInv c f x required path busy s)
    (site : s.flag f.netptr .fault = true) {n : Nat} (hn : n < c.nNet) (hr : required n = true)
    {cVal isInv : Bool} (ctrl : (c.type n).ctrl = some cVal) (inverts : (c.type n).inverts = isInv) :
    XInv c f x required path busy (c.xidFimpUniversal n cVal isInv s) ∧
      Ext c required 0 s (c.xidFimpUniversal n cVal isInv s) := by
  have gate : c.type n ≠ .IN := by
    intro h
    rw [h] at ctrl
    cases ctrl
  apply fimp_fill inv site hn hr
  intro σ b given free
  have eval := sideValue_gate (x := x) wf hn gate free
  rw [GateType.fn_eq_ctrl ctrl, inverts] at eval
  by_cases found : c.controlFound s n cVal σ = true
  · rw [if_pos found] at given
    obtain ⟨i, hi, match_⟩ := List.any_eq_true.mp found
    simp only [Bool.and_eq_true, beq_iff_eq] at match_
    have value : c.sideValue f x σ i = cVal := by
      have known := (inv.flagged i σ match_.1).2.2
      rw [match_.2] at known
      exact (Option.some.inj known).symm
    rw [if_pos (List.mem_map.mpr ⟨i, hi, value⟩)] at eval
    refine ⟨?_, justified_ctrl wf hn free ctrl hi match_.1 value⟩
    rw [eval, ← Option.some.inj given]
    cases isInv <;> simp
  · rw [if_neg found] at given
    by_cases unknown : c.unknownFound s n σ = false
    · have all := unknownFound_eq_false.mp unknown
      rw [unknown, Bool.not_false, if_pos rfl] at given
      have none : cVal ∉ (c.ins n).map (c.sideValue f x σ) := by
        intro some
        obtain ⟨i, hi, value⟩ := List.mem_map.mp some
        apply found
        apply List.any_eq_true.mpr
        refine ⟨i, hi, ?_⟩
        rw [all i hi, (inv.flagged i σ (all i hi)).2.2, value]
        simp
      rw [if_neg none] at eval
      refine ⟨?_, justified_all wf hn free all⟩
      rw [eval, ← Option.some.inj given]
      cases isInv <;> simp
    · rw [Bool.not_eq_false] at unknown
      rw [unknown] at given
      cases given

private theorem fimp_exor (wf : c.WellFormed m) (inv : XInv c f x required path busy s)
    (site : s.flag f.netptr .fault = true) {n : Nat} (hn : n < c.nNet) (hr : required n = true)
    {isInv : Bool} (type : c.type n = if isInv then .EXNOR else .EXOR) :
    XInv c f x required path busy (c.xidFimpUnivExor n isInv s) ∧
      Ext c required 0 s (c.xidFimpUnivExor n isInv s) := by
  have gate : c.type n ≠ .IN := by
    rw [type]
    cases isInv <;> simp
  have arity : (c.ins n).length = 2 := by
    have := wf.arity n hn
    rw [type] at this
    cases isInv <;> exact this
  obtain ⟨i, j, ins⟩ := List.length_eq_two.mp arity
  apply fimp_fill inv site hn hr
  intro σ b given free
  by_cases unknown : c.unknownFound s n σ = true
  · rw [if_pos unknown] at given
    cases given
  · rw [if_neg unknown] at given
    rw [Bool.not_eq_true] at unknown
    have all := unknownFound_eq_false.mp unknown
    refine ⟨?_, justified_all wf hn free all⟩
    have eval := sideValue_gate (x := x) wf hn gate free
    have known : ∀ k ∈ c.ins n,
        (s.flag k σ && (s.value3 k σ == some true)) = c.sideValue f x σ k := by
      intro k hk
      rw [all k hk, (inv.flagged k σ (all k hk)).2.2]
      cases c.sideValue f x σ k <;> rfl
    have hi := known i (by rw [ins]; exact List.mem_cons_self)
    have hj := known j (by rw [ins]; exact List.mem_cons_of_mem _ List.mem_cons_self)
    rw [← Option.some.inj given, eval, ins, type]
    simp only [oneCount, ins, List.countP_cons, List.countP_nil, hi, hj, List.map_cons, List.map_nil]
    cases isInv <;> cases c.sideValue f x σ i <;> cases c.sideValue f x σ j <;> rfl

/-- The handler of a gate in the fanout of `t`. -/
private theorem xidFimp_spec (wf : c.WellFormed m) (inv : XInv c f x required path busy s)
    (site : s.flag f.netptr .fault = true) {n t : Nat} (hn : n < c.nNet) (hr : required n = true)
    (edge : t ∈ c.ins n) {v : SideValues} (known : ∀ σ b, v σ = some b → s.known t σ = some b) :
    XInv c f x required path busy (c.xidFimp n v s) ∧ Ext c required 0 s (c.xidFimp n v s) := by
  have arity := wf.arity n hn
  have single : ∀ {gate : GateType}, c.type n = gate → (c.ins n).length = 1 → gate ≠ .IN →
      c.ins n = [t] ∧ c.type n ≠ .IN := by
    intro gate type one notIn
    obtain ⟨i, ins⟩ := List.length_eq_one_iff.mp one
    rw [ins, List.mem_singleton] at edge
    exact ⟨edge ▸ ins, type ▸ notIn⟩
  unfold xidFimp
  cases type : c.type n with
  | BUF | FOUT =>
      rw [type] at arity
      obtain ⟨ins, gate⟩ := single type arity (by simp)
      apply fimp_fill inv site hn hr
      intro σ b given free
      have decided := fimp_single wf inv hn gate ins (known σ b given) free
      rw [type] at decided
      exact decided
  | INV =>
      rw [type] at arity
      obtain ⟨ins, gate⟩ := single type arity (by simp)
      apply fimp_fill inv site hn hr
      intro σ b given free
      obtain ⟨b', given', rfl⟩ := Option.map_eq_some_iff.mp given
      have decided := fimp_single wf inv hn gate ins (known σ b' given') free
      rw [type] at decided
      exact decided
  | AND => exact fimp_universal wf inv site hn hr (by rw [type]; rfl) (by rw [type]; rfl)
  | NAND => exact fimp_universal wf inv site hn hr (by rw [type]; rfl) (by rw [type]; rfl)
  | OR => exact fimp_universal wf inv site hn hr (by rw [type]; rfl) (by rw [type]; rfl)
  | NOR => exact fimp_universal wf inv site hn hr (by rw [type]; rfl) (by rw [type]; rfl)
  | EXOR => exact fimp_exor wf inv site hn hr (by rw [type]; rfl)
  | EXNOR => exact fimp_exor wf inv site hn hr (by rw [type]; rfl)
  | IN | DFF | RDFF | DFFS | RDFFS | UNSET => exact ⟨inv, Ext.refl s⟩

/-- Forward implication keeps the invariant and costs nothing. -/
theorem xidForwardImp_spec (wf : c.WellFormed m) {g : Globals}
    (inv : XInv c f x g.normalScopeRequiredNet path busy s) (site : s.flag f.netptr .fault = true)
    {t : Nat} (ht : t < c.nNet) :
    XInv c f x g.normalScopeRequiredNet path busy (c.xidForwardImp g t s) ∧
      Ext c g.normalScopeRequiredNet 0 s (c.xidForwardImp g t s) := by
  unfold xidForwardImp
  dsimp only
  split
  · exact ⟨inv, Ext.refl s⟩
  · apply Loop.foldl_inv _
      (fun _ s' => XInv c f x g.normalScopeRequiredNet path busy s' ∧
        Ext c g.normalScopeRequiredNet 0 s s') (c.outs t) ⟨inv, Ext.refl s⟩
    rintro seen out rest s' split ⟨inv', ext'⟩
    have edge : out ∈ c.outs t := by
      rw [split]
      exact List.mem_append_right _ List.mem_cons_self
    have hout := wf.outsLt t ht out edge
    cases scope : g.normalScopeRequiredNet out with
    | false => simpa using ⟨inv', ext'⟩
    | true =>
        simp only [Bool.not_true, Bool.false_eq_true, if_false]
        by_cases both : s'.flagBoth out = true
        · rw [if_pos both]
          exact ⟨inv', ext'⟩
        · rw [if_neg both]
          have known : ∀ σ b, s.known t σ = some b → s'.known t σ = some b := by
            intro σ b h
            obtain ⟨flag, value⟩ := inv.known h
            rw [inv'.known_of_flag (ext'.flag t σ flag), value]
          obtain ⟨kept, ext⟩ := xidFimp_spec wf inv' (ext'.flag _ _ site) hout scope
            ((wf.mem_outs_iff ht hout).mp edge) known
          exact ⟨kept, ext'.trans ext⟩

end Netlist

end SafRprGen
