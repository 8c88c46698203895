/-
Module: SafRprGen.Xid.FaultPath
Layer: Xid
Purpose: The choice of the fault effect's path from an observed output down to the site (the `xid_fpath`
  handlers of `XID.c`). A gate with a controlling value keeps one input that carries the effect and
  fixes the others; an EXOR gate keeps all inputs that carry it.
Main exports: xidFpath, xidFpath_spec
-/
import SafRprGen.Lib.Loop
import SafRprGen.Xid.Invariant

namespace SafRprGen

/-- `in_lev`, `in_index` and `cbit_index`, `none` for `VSIZE_INVALID`. -/
structure PathSelect where
  inLev : Option Nat
  inIndex : Option Nat
  cbitIndex : Option Nat

/-- `select_id`. -/
def PathSelect.selectId (r : PathSelect) : Option Nat :=
  match r.cbitIndex with
  | some k => some k
  | none => r.inIndex

namespace Netlist

variable (c : Netlist)

/-- The first loop of `gate_common_AND_OR_like` at the input `p.1` on pin `p.2`; it ends at the first
input that carries the effect and is needed already. -/
def selectInput (s : XidState) (r : PathSelect) (p : Nat × Nat) : PathSelect :=
  if r.cbitIndex.isSome then r
  else if s.value2 p.1 .normal = s.value2 p.1 .fault then r
  else if !s.flag p.1 .normal then
    match r.inLev with
    | some lev =>
        if c.level p.1 < lev then { r with inLev := some (c.level p.1), inIndex := some p.2 } else r
    | none => { r with inLev := some (c.level p.1), inIndex := some p.2 }
  else { r with cbitIndex := some p.2 }

/-- `gate_common_AND_OR_like`. -/
def gateCommonAndOrLike (node : Nat) (ctrlValue invertOutput : Bool) (s : XidState) : XidState :=
  let nonCtrlValue := !ctrlValue
  let r := (c.ins node).zipIdx.foldl (c.selectInput s) ⟨none, none, none⟩
  let n2v := xor (s.value2 node .normal) invertOutput
  -- all inputs of the side without a controlling value are non-controlling
  let side := if n2v = ctrlValue then Side.fault else .normal
  (c.ins node).zipIdx.foldl
    (fun s p =>
      if some p.2 = r.selectId then c.edPushXpath p.1 s
      else c.fillPush .bwd p.1 (onlySide side nonCtrlValue) s)
    s

/-- `xid_fpath_exor`. -/
def xidFpathExor (node : Nat) (s : XidState) : XidState :=
  (c.ins node).foldl
    (fun s i =>
      if s.value2 i .normal = s.value2 i .fault then
        c.fillPush .bwd i (fun σ => some (s.value2 i σ)) s
      else c.edPushXpath i s)
    s

/-- The table `xid_fpath`. -/
def xidFpath (node : Nat) (s : XidState) : XidState :=
  match c.type node with
  | .BUF | .FOUT | .INV => c.edPushXpath ((c.ins node).getD 0 0) s
  | .AND => c.gateCommonAndOrLike node false false s
  | .NAND => c.gateCommonAndOrLike node false true s
  | .OR => c.gateCommonAndOrLike node true false s
  | .NOR => c.gateCommonAndOrLike node true true s
  | .EXOR | .EXNOR => c.xidFpathExor node s
  | _ => s

variable {c} {m : FaultModel} {f : FNODE} {x : c.Assignment} {required : Nat → Bool}
  {path : Nat → Prop} {busy : Nat → Side → Prop} {s : XidState}

theorem value2_eq_iff (inv : XInv c f x required path busy s) {n : Nat} (hn : n < c.nNet)
    (hr : required n = true) :
    s.value2 n .normal = s.value2 n .fault ↔ ¬ c.Differs f x n := by
  rw [inv.value2 n hn hr .normal, inv.value2 n hn hr .fault]
  exact not_not.symm

section Handlers

variable (wf : c.WellFormed m) (inv : XInv c f x required path busy s) {t : Nat} (ht : t < c.nNet)
  (hr : required t = true)
  (closed : ∀ n i, required n = true → i ∈ c.ins n → required i = true)
  (differs : c.Differs f x t) (other : t ≠ f.netptr) (low : ∀ i, c.level i < c.level t → path i)

include wf inv ht hr closed

/-- The selection finds an input that carries the effect when there is one. -/
private theorem selectInput_spec (some : ∃ i ∈ c.ins t, c.Differs f x i) :
    ∃ i k, ((c.ins t).zipIdx.foldl (c.selectInput s) ⟨none, none, none⟩).selectId = .some k ∧
      (i, k) ∈ (c.ins t).zipIdx ∧ c.Differs f x i := by
  have loop := Loop.foldl_inv (c.selectInput s)
    (fun seen r =>
      (∀ k, r.cbitIndex = .some k ∨ r.inIndex = .some k →
        ∃ i, (i, k) ∈ (c.ins t).zipIdx ∧ c.Differs f x i) ∧
      (r.inLev ≠ none → r.inIndex ≠ none) ∧
      (r.cbitIndex = none → r.inIndex = none → ∀ p ∈ seen, ¬ c.Differs f x p.1))
    (c.ins t).zipIdx (s := ⟨none, none, none⟩) ⟨by simp, by simp, by simp⟩ (by
      rintro seen p rest r split ⟨sound, lowest, missing⟩
      have hp : p ∈ (c.ins t).zipIdx := by
        rw [split]
        exact List.mem_append_right _ List.mem_cons_self
      have hi := List.fst_mem_of_mem_zipIdx hp
      have same := value2_eq_iff inv (wf.insLt t ht p.1 hi) (closed t p.1 hr hi)
      unfold selectInput
      by_cases found : r.cbitIndex.isSome = true
      · rw [if_pos found]
        refine ⟨sound, lowest, fun none => ?_⟩
        rw [none] at found
        cases found
      · rw [if_neg found]
        by_cases equal : s.value2 p.1 .normal = s.value2 p.1 .fault
        · rw [if_pos equal]
          refine ⟨sound, lowest, fun h h' q hq => ?_⟩
          rcases List.mem_append.mp hq with hq | hq
          · exact missing h h' q hq
          · rw [List.mem_singleton.mp hq]
            exact same.mp equal
        · rw [if_neg equal]
          have carries := not_not.mp (fun h => equal (same.mpr h))
          have index : ∀ k, .some p.2 = Option.some k →
              ∃ i, (i, k) ∈ (c.ins t).zipIdx ∧ c.Differs f x i := by
            rintro k h
            cases h
            exact ⟨p.1, hp, carries⟩
          by_cases flag : (!s.flag p.1 .normal) = true
          · rw [if_pos flag]
            have taken : ∀ lev, (∀ k, r.cbitIndex = .some k ∨ .some p.2 = Option.some k →
                ∃ i, (i, k) ∈ (c.ins t).zipIdx ∧ c.Differs f x i) ∧
                (lev ≠ (none : Option Nat) → Option.some p.2 ≠ none) ∧
                (r.cbitIndex = none → Option.some p.2 = none →
                  ∀ q ∈ seen ++ [p], ¬ c.Differs f x q.1) := by
              intro lev
              refine ⟨fun k h => ?_, by simp, by simp⟩
              rcases h with h | h
              · exact sound k (.inl h)
              · exact index k h
            cases hlev : r.inLev with
            | none => exact taken _
            | some lev =>
                dsimp only
                split
                · exact taken _
                · refine ⟨sound, lowest, fun _ none => ?_⟩
                  exact absurd none (lowest (by rw [hlev]; simp))
          · rw [if_neg flag]
            refine ⟨fun k h => ?_, lowest, by simp⟩
            rcases h with h | h
            · exact index k h
            · exact sound k (.inr h))
  generalize (c.ins t).zipIdx.foldl (c.selectInput s) ⟨none, none, none⟩ = r at loop ⊢
  obtain ⟨sound, -, missing⟩ := loop
  unfold PathSelect.selectId
  cases cbit : r.cbitIndex with
  | some k =>
      obtain ⟨i, hi, carries⟩ := sound k (.inl cbit)
      exact ⟨i, k, rfl, hi, carries⟩
  | none =>
      cases index : r.inIndex with
      | some k =>
          obtain ⟨i, hi, carries⟩ := sound k (.inr index)
          exact ⟨i, k, rfl, hi, carries⟩
      | none =>
          obtain ⟨i, hi, carries⟩ := some
          obtain ⟨k, hk, rfl⟩ := List.getElem_of_mem hi
          exact absurd carries (missing cbit index (_, k) (List.mk_mem_zipIdx_iff_getElem?.mpr
            (List.getElem?_eq_getElem hk)))

include low

omit inv in
/-- Inputs that carry the effect are below the gate. -/
private theorem push_input {i : Nat} (hi : i ∈ c.ins t) (carries : c.Differs f x i) {s' : XidState}
    (inv' : XInv c f x required path busy s') :
    XInv c f x required path busy (c.edPushXpath i s') ∧ Ext c required 0 s' (c.edPushXpath i s') ∧
      ∀ σ, (c.edPushXpath i s').flag i σ = true :=
  edPushXpath_spec inv' (wf.insLt t ht i hi) (closed t i hr hi) carries
    (low i (wf.level_lt ht hi))

include differs other

private theorem fpath_common {ctrlValue invertOutput : Bool} (ctrl : (c.type t).ctrl = some ctrlValue)
    (inverts : (c.type t).inverts = invertOutput) :
    XInv c f x required path busy (c.gateCommonAndOrLike t ctrlValue invertOutput s) ∧
      Ext c required 0 s (c.gateCommonAndOrLike t ctrlValue invertOutput s) ∧
      ∀ σ, c.Justified f x (c.gateCommonAndOrLike t ctrlValue invertOutput s) t σ := by
  obtain ⟨-, carrier⟩ := wf.differs_input ht differs other
  obtain ⟨i, k, select, hik, carries⟩ := selectInput_spec wf inv ht hr closed carrier
  have hi := List.fst_mem_of_mem_zipIdx hik
  have free : ∀ σ, ¬ Forced f t σ := fun σ h => other h.1
  unfold gateCommonAndOrLike
  dsimp only
  rw [select, inv.value2 t ht hr .normal]
  -- on `side` no input is controlling, on the other side `across` the carrier is
  obtain ⟨side, across, hside, flat, deep, both⟩ : ∃ side across : Side,
      (if xor (c.sideValue f x .normal t) invertOutput = ctrlValue then Side.fault else .normal) =
        side ∧
      c.sideValue f x side t = xor (c.type t).inverts (!ctrlValue) ∧
      (∀ i, c.Differs f x i → c.sideValue f x across i = !c.sideValue f x side i) ∧
      ∀ σ, σ = side ∨ σ = across := by
    rw [inverts]
    by_cases h : xor (c.sideValue f x .normal t) invertOutput = ctrlValue
    · refine ⟨.fault, .normal, if_pos h, ?_, fun i hi => Bool.eq_not.mpr hi,
        fun σ => by cases σ <;> simp⟩
      have value : c.sideValue f x .fault t = !c.sideValue f x .normal t :=
        Bool.eq_not.mpr (Ne.symm differs)
      rw [value, ← h]
      cases c.sideValue f x .normal t <;> cases invertOutput <;> rfl
    · refine ⟨.normal, .fault, if_neg h, ?_, fun i hi => Bool.eq_not.mpr (Ne.symm hi),
        fun σ => by cases σ <;> simp⟩
      have value : ctrlValue = !xor (c.sideValue f x .normal t) invertOutput :=
        Bool.eq_not.mpr (Ne.symm h)
      rw [value]
      cases c.sideValue f x .normal t <;> cases invertOutput <;> rfl
  rw [hside]
  have flatIns := sideValue_force wf ht ctrl (free side) flat
  have loop := Loop.foldl_inv
    (fun s (p : Nat × Nat) => if some p.2 = some k then c.edPushXpath p.1 s
      else c.fillPush .bwd p.1 (onlySide side (!ctrlValue)) s)
    (fun seen s' => XInv c f x required path busy s' ∧ Ext c required 0 s s' ∧
      ∀ p ∈ seen, s'.flag p.1 side = true ∧ (p.2 = k → s'.flag p.1 across = true))
    (c.ins t).zipIdx (s := s) ⟨inv, Ext.refl s, by simp⟩ (by
      rintro seen p rest s' split ⟨inv', ext', flags⟩
      have hp : p ∈ (c.ins t).zipIdx := by
        rw [split]
        exact List.mem_append_right _ List.mem_cons_self
      have hpi := List.fst_mem_of_mem_zipIdx hp
      -- one more input with its flags set
      have done : ∀ s'', Ext c required 0 s' s'' → s''.flag p.1 side = true →
          (p.2 = k → s''.flag p.1 across = true) →
          ∀ q ∈ seen ++ [p], s''.flag q.1 side = true ∧ (q.2 = k → s''.flag q.1 across = true) := by
        intro s'' ext flag flag' q hq
        rcases List.mem_append.mp hq with hq | hq
        · obtain ⟨h, h'⟩ := flags q hq
          exact ⟨ext.flag _ _ h, fun e => ext.flag _ _ (h' e)⟩
        · rw [List.mem_singleton.mp hq]
          exact ⟨flag, flag'⟩
      by_cases here : p.2 = k
      · rw [if_pos (by rw [here])]
        have samePin : p.1 = i := by
          have h := List.mk_mem_zipIdx_iff_getElem?.mp hik
          have h' := List.mk_mem_zipIdx_iff_getElem?.mp (show (p.1, p.2) ∈ _ from hp)
          rw [here, h] at h'
          exact (Option.some.inj h').symm
        obtain ⟨kept, ext, flag⟩ :=
          push_input wf ht hr closed low hpi (samePin ▸ carries) inv'
        exact ⟨kept, ext'.trans ext, done _ ext (flag side) fun _ => flag across⟩
      · rw [if_neg fun h => here (Option.some.inj h)]
        obtain ⟨kept, ext, flag⟩ := fillBwd_spec (v := onlySide side (!ctrlValue)) inv'
          (wf.insLt t ht p.1 hpi) (closed t p.1 hr hpi) (by
            intro σ b given
            obtain ⟨rfl, rfl⟩ := onlySide_eq_some.mp given
            exact (flatIns p.1 hpi).symm)
        exact ⟨kept, ext'.trans ext, done _ ext (flag side (by rw [onlySide, if_pos rfl]; rfl))
          fun h => absurd h here⟩)
  obtain ⟨kept, ext, flags⟩ := loop
  refine ⟨kept, ext, ?_⟩
  intro σ
  rcases both σ with rfl | rfl
  · apply justified_all wf ht (free σ)
    intro j hj
    obtain ⟨l, hl, rfl⟩ := List.getElem_of_mem hj
    exact (flags (_, l) (List.mk_mem_zipIdx_iff_getElem?.mpr (List.getElem?_eq_getElem hl))).1
  · apply justified_ctrl wf ht (free σ) ctrl hi ((flags (i, k) hik).2 rfl)
    rw [deep i carries, flatIns i hi, Bool.not_not]

omit differs in
private theorem fpath_exor :
    XInv c f x required path busy (c.xidFpathExor t s) ∧ Ext c required 0 s (c.xidFpathExor t s) ∧
      ∀ σ, c.Justified f x (c.xidFpathExor t s) t σ := by
  have loop := Loop.foldl_inv
    (fun s i => if s.value2 i .normal = s.value2 i .fault then
        c.fillPush .bwd i (fun σ => some (s.value2 i σ)) s
      else c.edPushXpath i s)
    (fun seen s' => XInv c f x required path busy s' ∧ Ext c required 0 s s' ∧
      ∀ i ∈ seen, ∀ σ, s'.flag i σ = true)
    (c.ins t) (s := s) ⟨inv, Ext.refl s, by simp⟩ (by
      rintro seen i rest s' split ⟨inv', ext', flags⟩
      have hi : i ∈ c.ins t := by
        rw [split]
        exact List.mem_append_right _ List.mem_cons_self
      have scope := closed t i hr hi
      have done : ∀ s'', Ext c required 0 s' s'' → (∀ σ, s''.flag i σ = true) →
          ∀ j ∈ seen ++ [i], ∀ σ, s''.flag j σ = true := by
        intro s'' ext flag j hj σ
        rcases List.mem_append.mp hj with hj | hj
        · exact ext.flag j σ (flags j hj σ)
        · rw [List.mem_singleton.mp hj]
          exact flag σ
      split
      · obtain ⟨kept, ext, flag⟩ := fillBwd_spec (v := fun σ => some (s'.value2 i σ)) inv'
          (wf.insLt t ht i hi) scope fun σ b given => by
            rw [← Option.some.inj given]
            exact inv'.value2 i (wf.insLt t ht i hi) scope σ
        exact ⟨kept, ext'.trans ext, done _ ext fun σ => flag σ rfl⟩
      · rename_i unequal
        have carries : c.Differs f x i :=
          not_not.mp fun h => unequal ((value2_eq_iff inv' (wf.insLt t ht i hi) scope).mpr h)
        obtain ⟨kept, ext, flag⟩ := push_input wf ht hr closed low hi carries inv'
        exact ⟨kept, ext'.trans ext, done _ ext flag⟩)
  obtain ⟨kept, ext, flags⟩ := loop
  exact ⟨kept, ext, fun σ => justified_all wf ht (fun h => other h.1) fun i hi => flags i hi σ⟩

/-- The handler of a gate on the X-path justifies both its values. -/
theorem xidFpath_spec :
    XInv c f x required path busy (c.xidFpath t s) ∧ Ext c required 0 s (c.xidFpath t s) ∧
      ∀ σ, c.Justified f x (c.xidFpath t s) t σ := by
  have arity := wf.arity t ht
  obtain ⟨gate, j, hj, carries⟩ := wf.differs_input ht differs other
  unfold xidFpath
  cases type : c.type t with
  | BUF | FOUT | INV =>
      rw [type] at arity
      obtain ⟨i, ins⟩ := List.length_eq_one_iff.mp arity
      rw [ins, List.mem_singleton] at hj
      subst hj
      have hj : j ∈ c.ins t := by
        rw [ins]
        exact List.mem_cons_self
      simp only [ins, List.getD_cons_zero]
      obtain ⟨kept, ext, flag⟩ := push_input wf ht hr closed low hj carries inv
      refine ⟨kept, ext, fun σ => justified_all wf ht (fun h => other h.1) ?_⟩
      intro i hi
      rw [ins, List.mem_singleton] at hi
      exact hi ▸ flag σ
  | AND | NAND | OR | NOR =>
      exact fpath_common wf inv ht hr closed differs other low (by rw [type]; rfl) (by rw [type]; rfl)
  | EXOR | EXNOR => exact fpath_exor wf inv ht hr closed other low
  | IN => exact absurd type gate
  | DFF | RDFF | DFFS | RDFFS | UNSET =>
      rw [type] at arity
      exact arity.elim

end Handlers

end Netlist

end SafRprGen
