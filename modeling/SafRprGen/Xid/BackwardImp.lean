/-
Module: SafRprGen.Xid.BackwardImp
Layer: Xid
Purpose: Backward implication (`xid_backward_imp.c`) and the limited justification of the J-frontier
  (`xid_backward_imp_limited.c`): the value of an output is explained by values of its inputs. A gate
  whose output one controlling input explains takes the only candidate at once and waits on the
  J-frontier while there are several.
Main exports: xidBackwardImp, xidBackwardImp_spec, xidBackwardImpLimited, xidBackwardImpLimited_spec
-/
import SafRprGen.Lib.Loop
import SafRprGen.Xid.Invariant

namespace SafRprGen

/-- `n_cand`, `n_cnt` and `n_done`, or the same for the fault side. -/
structure SideSearch where
  cand : Option Nat
  cnt : Nat
  done : Bool

/-- The search on one side also keeps the lowest level found, `none` for `VSIZE_INVALID`. -/
structure LimitedSearch extends SideSearch where
  lev : Option Nat

namespace Netlist

variable (c : Netlist)

/-- `xid_bimp_buf`; `v` has the values of the output. -/
def xidBimpBuf (t : Nat) (v : SideValues) (s : XidState) : XidState :=
  c.fillPush .bwd ((c.ins t).getD 0 0) v s

/-- `xid_bimp_inv`. -/
def xidBimpInv (t : Nat) (v : SideValues) (s : XidState) : XidState :=
  c.fillPush .bwd ((c.ins t).getD 0 0) (fun σ => (v σ).map (!·)) s

/-- The search for a controlling value at one input. -/
def searchInput (s : XidState) (i : Nat) (cVal : Bool) (σ : Side) (r : SideSearch) : SideSearch :=
  if s.flag i σ then
    if s.value3 i σ = some cVal then { r with done := true } else r
  else if s.value2 i σ = cVal then { r with cand := some i, cnt := r.cnt + 1 }
  else r

/-- Fix the candidates; the second of two equal ones is not enqueued again. -/
def xidCommit (cVal : Bool) (cands : Side → Option Nat) (s : XidState) : XidState :=
  let (s, lastEnqueued) :=
    match cands .normal with
    | none => (s, none)
    | some n =>
        (c.fillPush .bwd n (onlySide .normal cVal) s, if s.flag n .normal then none else some n)
  match cands .fault with
  | none => s
  | some n =>
      if lastEnqueued = some n then s.fill n (onlySide .fault cVal)
      else c.fillPush .bwd n (onlySide .fault cVal) s

/-- The main loop of `xid_bimp_universal` at one input: force it, or search it. -/
def bimpInput (v : SideValues) (cVal triggerForce triggerSearch : Bool)
    (s : XidState × (Side → SideSearch)) (i : Nat) : XidState × (Side → SideSearch) :=
  (c.fillPush .bwd i (fun σ => if v σ = some triggerForce then some (!cVal) else none) s.1,
    fun σ => if v σ = some triggerSearch then searchInput s.1 i cVal σ (s.2 σ) else s.2 σ)

/-- `xid_bimp_universal` with its triggers. -/
def bimpTriggered (t : Nat) (v : SideValues) (cVal triggerForce triggerSearch : Bool) (s : XidState) :
    XidState :=
  let p := (c.ins t).foldl (c.bimpInput v cVal triggerForce triggerSearch)
    (s, fun σ => ⟨none, 0, v σ != some triggerSearch⟩)
  let r := p.2
  let s := c.xidCommit cVal (fun σ => if !(r σ).done && (r σ).cnt == 1 then (r σ).cand else none) p.1
  let several := fun σ => !(r σ).done && decide (2 ≤ (r σ).cnt)
  if several .normal || several .fault then c.enqueue .jus t s else s

/-- `xid_bimp_universal`. -/
def xidBimpUniversal (t : Nat) (v : SideValues) (cVal isInv : Bool) (s : XidState) : XidState :=
  let ncVal := !cVal
  let triggerForce := if isInv then cVal else ncVal
  let triggerSearch := if isInv then ncVal else cVal
  c.bimpTriggered t v cVal triggerForce triggerSearch s

/-- `xid_bimp_exor`. -/
def xidBimpExor (t : Nat) (s : XidState) : XidState :=
  (c.ins t).foldl (fun s i => c.fillPush .bwd i (fun σ => some (s.value2 i σ)) s) s

/-- The table `xid_bimp`. -/
def xidBimp (t : Nat) (v : SideValues) (s : XidState) : XidState :=
  match c.type t with
  | .BUF | .FOUT => c.xidBimpBuf t v s
  | .INV => c.xidBimpInv t v s
  | .AND => c.xidBimpUniversal t v false false s
  | .NAND => c.xidBimpUniversal t v false true s
  | .OR => c.xidBimpUniversal t v true false s
  | .NOR => c.xidBimpUniversal t v true true s
  | .EXOR | .EXNOR => c.xidBimpExor t s
  | _ => s

/-- The values to be explained: not the fault side of the site. -/
def demanded (f : FNODE) (t : Nat) (s : XidState) : SideValues := fun σ =>
  if σ = .fault ∧ t = f.netptr then none else s.known t σ

/-- `xid_backward_imp`. -/
def xidBackwardImp (f : FNODE) (t : Nat) (s : XidState) : XidState :=
  let v := demanded f t s
  if (v .normal).isNone && (v .fault).isNone then s else c.xidBimp t v s

/-- The main loop of `xid_bimp_limited_univ` at one input, on one side: the lowest candidate. -/
def limitedInput (s : XidState) (cVal : Bool) (σ : Side) (r : LimitedSearch) (i : Nat) :
    LimitedSearch :=
  if r.done then r
  else if s.flag i σ then
    if s.value3 i σ = some cVal then { r with done := true } else r
  else if s.value2 i σ = cVal then
    match r.lev with
    | some lev =>
        if c.level i < lev then { r with lev := some (c.level i), cand := some i, cnt := r.cnt + 1 }
        else { r with cnt := r.cnt + 1 }
    | none => { r with lev := some (c.level i), cand := some i, cnt := r.cnt + 1 }
  else r

/-- `xid_bimp_limited_univ` with its target value. The loop stops when both sides are done; from then
on a pass changes nothing. -/
def limitedTargeted (t : Nat) (v : SideValues) (cVal oVal : Bool) (s : XidState) : XidState :=
  let r := (c.ins t).foldl (fun (r : Side → LimitedSearch) i σ => c.limitedInput s cVal σ (r σ) i)
    (fun σ => ⟨⟨none, 0, v σ != some oVal⟩, none⟩)
  if (r .normal).done && (r .fault).done then s
  else
    c.xidCommit cVal
      (fun σ => if !(r σ).done && decide (1 ≤ (r σ).cnt) then (r σ).cand else none) s

/-- `xid_bimp_limited_univ`. -/
def xidBimpLimitedUniv (t : Nat) (v : SideValues) (cVal isInv : Bool) (s : XidState) : XidState :=
  let oVal := if isInv then !cVal else cVal
  c.limitedTargeted t v cVal oVal s

/-- The table `xid_bimp_limited`. -/
def xidBimpLimited (t : Nat) (v : SideValues) (s : XidState) : XidState :=
  match c.type t with
  | .AND => c.xidBimpLimitedUniv t v false false s
  | .NAND => c.xidBimpLimitedUniv t v false true s
  | .OR => c.xidBimpLimitedUniv t v true false s
  | .NOR => c.xidBimpLimitedUniv t v true true s
  | _ => s

/-- `xid_backward_imp_limited`. -/
def xidBackwardImpLimited (f : FNODE) (t : Nat) (s : XidState) : XidState :=
  let v := demanded f t s
  if (v .normal).isNone && (v .fault).isNone then s else c.xidBimpLimited t v s

variable {c} {m : FaultModel} {f : FNODE} {x : c.Assignment} {required : Nat → Bool}
  {path : Nat → Prop} {busy : Nat → Side → Prop} {s s' : XidState}

/-! ### Fixing candidates -/

/-- The candidates are nets of the scope that the model gives the controlling value. -/
def Candidates (c : Netlist) (f : FNODE) (x : c.Assignment) (required : Nat → Bool) (cVal : Bool)
    (cands : Side → Option Nat) : Prop :=
  ∀ σ n, cands σ = some n → n < c.nNet ∧ required n = true ∧ c.sideValue f x σ n = cVal

theorem xidCommit_spec (inv : XInv c f x required path busy s) {cVal : Bool}
    {cands : Side → Option Nat} (good : Candidates c f x required cVal cands) :
    XInv c f x required path busy (c.xidCommit cVal cands s) ∧
      Ext c required 0 s (c.xidCommit cVal cands s) ∧
      ∀ σ n, cands σ = some n → (c.xidCommit cVal cands s).flag n σ = true := by
  have agree : ∀ {σ : Side} {n : Nat}, cands σ = some n → ∀ τ b, onlySide σ cVal τ = some b →
      b = c.sideValue f x τ n := by
    intro σ n given τ b only
    obtain ⟨rfl, rfl⟩ := onlySide_eq_some.mp only
    exact (good τ n given).2.2.symm
  have self : ∀ σ : Side, (onlySide σ cVal σ).isSome = true := by
    intro σ
    rw [onlySide, if_pos rfl]
    rfl
  unfold xidCommit
  -- the normal side first; a net that was enqueued for it is pending
  have first : ∃ s₁ last,
      (match cands .normal with
        | none => (s, none)
        | some n =>
            (c.fillPush .bwd n (onlySide .normal cVal) s,
              if s.flag n .normal then none else some n)) = (s₁, last) ∧
        XInv c f x required path busy s₁ ∧ Ext c required 0 s s₁ ∧
        (∀ n, cands .normal = some n → s₁.flag n .normal = true) ∧
        ∀ n, last = some n → s₁.exited = false → n ∈ (s₁.queue .bwd).contents c.nNet := by
    cases normal : cands .normal with
    | none => exact ⟨s, none, rfl, inv, Ext.refl s, by simp, by simp⟩
    | some n =>
        obtain ⟨hn, hr, -⟩ := good .normal n normal
        obtain ⟨kept, ext, flag⟩ := fillBwd_spec inv hn hr (agree normal)
        refine ⟨_, _, rfl, kept, ext, ?_, ?_⟩
        · rintro k same
          cases same
          exact flag .normal (self .normal)
        · intro k last running
          cases old : s.flag n .normal with
          | true =>
              rw [old, if_pos rfl] at last
              cases last
          | false =>
              rw [old, if_neg (by simp)] at last
              cases last
              have changed : s.updated n (onlySide .normal cVal) = true := by
                simp [XidState.updated, onlySide, old]
              have filled := fill_spec (inv.mono_busy (fun _ _ => True) fun _ _ _ => trivial) hn hr
                (fun σ b given _ => agree normal σ b given) (fun _ _ _ idle => absurd trivial idle)
              rw [fillPush, if_pos changed] at running ⊢
              exact (filled.mem_enqueue .bwd .bwd n n).2.2 running
  obtain ⟨s₁, last, eq, inv₁, ext₁, flag₁, pending⟩ := first
  rw [eq]
  dsimp only
  cases fault : cands .fault with
  | none =>
      refine ⟨inv₁, ext₁, ?_⟩
      intro σ n given
      cases σ with
      | normal => exact flag₁ n given
      | fault =>
          rw [fault] at given
          cases given
  | some k =>
      obtain ⟨hk, hr, -⟩ := good .fault k fault
      have flags : ∀ s₂ : XidState, (∀ n σ, s₁.flag n σ = true → s₂.flag n σ = true) →
          s₂.flag k .fault = true → ∀ σ n, cands σ = some n → s₂.flag n σ = true := by
        intro s₂ grow here σ n given
        cases σ with
        | normal => exact grow n .normal (flag₁ n given)
        | fault =>
            rw [fault] at given
            cases given
            exact here
      dsimp only
      by_cases again : last = some k
      · rw [if_pos again]
        have filled := fill_spec (inv₁.mono_busy (fun n σ => busy n σ ∨ n = k) fun _ _ => .inl) hk hr
          (fun σ b given _ => agree fault σ b given) (fun _ _ _ idle => absurd (Or.inr rfl) idle)
        have ext := fill_ext (c := c) (s := s₁) hk hr (onlySide .fault cVal)
        refine ⟨{ filled with justified := ?_ }, ext₁.trans ext, flags _ ext.flag ?_⟩
        · intro running n σ hn idle free
          by_cases here : n = k
          · exact .inr (.inl (here ▸ pending k again running))
          · exact filled.justified running n σ hn (fun h => h.elim idle here) free
        · rw [s₁.flag_fill_self, self, Bool.or_true]
      · rw [if_neg again]
        obtain ⟨kept, ext, flag⟩ := fillBwd_spec inv₁ hk hr (agree fault)
        exact ⟨kept, ext₁.trans ext, flags _ ext.flag (flag .fault (self .fault))⟩

/-! ### The search for a controlling input -/

/-- What a search over the inputs seen so far has established. -/
structure SearchOk (c : Netlist) (f : FNODE) (x : c.Assignment) (s : XidState) (t : Nat) (cVal : Bool)
    (σ : Side) (seen : List Nat) (r : SideSearch) : Prop where
  done : r.done = true → ∃ i ∈ c.ins t, s.flag i σ = true ∧ c.sideValue f x σ i = cVal
  cand : r.cnt ≠ 0 → ∃ n ∈ c.ins t, r.cand = some n ∧ c.sideValue f x σ n = cVal
  missing : r.done = false → r.cnt = 0 → ∀ i ∈ seen, c.sideValue f x σ i ≠ cVal

theorem SearchOk.grow {t : Nat} {cVal : Bool} {σ : Side} {seen : List Nat} {r : SideSearch}
    (ok : SearchOk c f x s t cVal σ seen r) (ext : ∀ i, s.flag i σ = true → s'.flag i σ = true) :
    SearchOk c f x s' t cVal σ seen r where
  done := by
    intro h
    obtain ⟨i, hi, flag, value⟩ := ok.done h
    exact ⟨i, hi, ext i flag, value⟩
  cand := ok.cand
  missing := ok.missing

theorem SearchOk.start (s : XidState) (t : Nat) (cVal : Bool) (σ : Side) :
    SearchOk c f x s t cVal σ [] ⟨none, 0, false⟩ :=
  ⟨fun h => by simp at h, fun h => absurd rfl h, fun _ _ i hi => absurd hi List.not_mem_nil⟩

section Search

variable (inv : XInv c f x required path busy s) {t i : Nat} (hi : i ∈ c.ins t) {cVal : Bool} {σ : Side}
  {seen : List Nat} {r : SideSearch} (ok : SearchOk c f x s t cVal σ seen r)

include inv hi ok

/-- A flagged input with the controlling value ends the search. -/
theorem SearchOk.found (flag : s.flag i σ = true) (value : s.value3 i σ = some cVal) :
    SearchOk c f x s t cVal σ (seen ++ [i]) { r with done := true } where
  done := by
    intro _
    refine ⟨i, hi, flag, ?_⟩
    rw [(inv.flagged i σ flag).2.2] at value
    exact Option.some.inj value
  cand := ok.cand
  missing := fun h => by simp at h

omit inv hi in
/-- An input without the controlling value changes nothing. -/
theorem SearchOk.skip (value : c.sideValue f x σ i ≠ cVal) :
    SearchOk c f x s t cVal σ (seen ++ [i]) r where
  done := ok.done
  cand := ok.cand
  missing := by
    intro open_ zero k hk
    rcases List.mem_append.mp hk with hk | hk
    · exact ok.missing open_ zero k hk
    · rwa [List.mem_singleton.mp hk]

omit inv hi in
/-- A candidate is counted. -/
theorem SearchOk.candidate {k : Nat} (hk : k ∈ c.ins t)
    (valueK : c.sideValue f x σ k = cVal) :
    SearchOk c f x s t cVal σ (seen ++ [i]) { r with cand := some k, cnt := r.cnt + 1 } where
  done := ok.done
  cand := fun _ => ⟨k, hk, rfl, valueK⟩
  missing := fun _ h => by simp at h

end Search

/-- When the search is over, a searched value is found or has a candidate. -/
theorem SearchOk.complete (wf : c.WellFormed m) {t : Nat} (ht : t < c.nNet) {cVal : Bool} {σ : Side}
    {r : SideSearch} (ok : SearchOk c f x s t cVal σ (c.ins t) r) (free : ¬ Forced f t σ)
    (ctrl : (c.type t).ctrl = some cVal)
    (value : c.sideValue f x σ t = xor (c.type t).inverts cVal) (open_ : r.done = false) :
    ∃ n ∈ c.ins t, r.cnt ≠ 0 ∧ r.cand = some n ∧ c.sideValue f x σ n = cVal := by
  obtain ⟨i, hi, controlling⟩ := sideValue_search wf ht free ctrl value
  have some : r.cnt ≠ 0 := fun zero => ok.missing open_ zero i hi controlling
  obtain ⟨n, hn, cand, valueN⟩ := ok.cand some
  exact ⟨n, hn, some, cand, valueN⟩

theorem searchInput_ok (inv : XInv c f x required path busy s) {t i : Nat} (hi : i ∈ c.ins t)
    (low : i < c.nNet) (hr : required i = true) {cVal : Bool} {σ : Side} {seen : List Nat}
    {r : SideSearch} (ok : SearchOk c f x s t cVal σ seen r) :
    SearchOk c f x s t cVal σ (seen ++ [i]) (searchInput s i cVal σ r) := by
  unfold searchInput
  by_cases flag : s.flag i σ = true
  · rw [if_pos flag]
    by_cases value : s.value3 i σ = some cVal
    · rw [if_pos value]
      exact ok.found inv hi flag value
    · rw [if_neg value]
      apply ok.skip
      rintro rfl
      exact value (inv.flagged i σ flag).2.2
  · rw [if_neg flag]
    have two := inv.value2 i low hr σ
    by_cases value : s.value2 i σ = cVal
    · rw [if_pos value]
      exact ok.candidate hi (two.symm.trans value)
    · rw [if_neg value]
      exact ok.skip (two ▸ value)

/-- A level is remembered only together with a candidate. -/
structure LimitedOk (c : Netlist) (f : FNODE) (x : c.Assignment) (s : XidState) (t : Nat) (cVal : Bool)
    (σ : Side) (seen : List Nat) (r : LimitedSearch) : Prop where
  search : SearchOk c f x s t cVal σ seen r.toSideSearch
  lowest : r.lev ≠ none → r.cnt ≠ 0

theorem limitedInput_ok (inv : XInv c f x required path busy s) {t i : Nat} (hi : i ∈ c.ins t)
    (low : i < c.nNet) (hr : required i = true) {cVal : Bool} {σ : Side} {seen : List Nat}
    {r : LimitedSearch} (ok : LimitedOk c f x s t cVal σ seen r) :
    LimitedOk c f x s t cVal σ (seen ++ [i]) (c.limitedInput s cVal σ r i) := by
  obtain ⟨⟨cand, cnt, done⟩, lev⟩ := r
  obtain ⟨search, lowest⟩ := ok
  unfold limitedInput
  cases done with
  | true => exact ⟨⟨search.done, search.cand, fun h => by cases h⟩, lowest⟩
  | false =>
      simp only [Bool.false_eq_true, if_false]
      by_cases flag : s.flag i σ = true
      · rw [if_pos flag]
        by_cases value : s.value3 i σ = some cVal
        · rw [if_pos value]
          exact ⟨search.found inv hi flag value, lowest⟩
        · rw [if_neg value]
          refine ⟨search.skip ?_, lowest⟩
          rintro rfl
          exact value (inv.flagged i σ flag).2.2
      · rw [if_neg flag]
        have two := inv.value2 i low hr σ
        by_cases value : s.value2 i σ = cVal
        · rw [if_pos value]
          have here := search.candidate (i := i) hi (two.symm.trans value)
          cases lev with
          | none => exact ⟨here, fun _ => Nat.succ_ne_zero _⟩
          | some lev =>
              dsimp only
              split
              · exact ⟨here, fun _ => Nat.succ_ne_zero _⟩
              · -- the earlier candidate is at most as high
                obtain ⟨n, hn, same, valueN⟩ := search.cand (lowest (by simp))
                have old := search.candidate (i := i) hn valueN
                rw [← same] at old
                exact ⟨old, fun _ => Nat.succ_ne_zero _⟩
        · rw [if_neg value]
          exact ⟨search.skip (two ▸ value), lowest⟩

/-- The searches of both sides: a side with the target value searches, and the other has ended before it
begins. -/
structure Searches (c : Netlist) (f : FNODE) (x : c.Assignment) (s : XidState) (t : Nat) (cVal target : Bool)
    (v : SideValues) (seen : List Nat) (r : Side → SideSearch) : Prop where
  search : ∀ σ, v σ = some target → SearchOk c f x s t cVal σ seen (r σ)
  ended : ∀ σ, v σ ≠ some target → (r σ).done = true

theorem Searches.start (s : XidState) (t : Nat) (cVal target : Bool) (v : SideValues) :
    Searches c f x s t cVal target v [] fun σ => ⟨none, 0, v σ != some target⟩ where
  search σ hv := by
    rw [hv, bne_self_eq_false]
    exact SearchOk.start s t cVal σ
  ended σ hv := by simpa using hv

section Searches

variable {t : Nat} {cVal target : Bool} {v : SideValues} {r : Side → SideSearch}
  (on : Searches c f x s t cVal target v (c.ins t) r) (wf : c.WellFormed m) (ht : t < c.nNet)

include on

theorem Searches.searching {σ : Side} (open_ : (r σ).done = false) : v σ = some target := by
  by_contra other
  rw [on.ended σ other] at open_
  cases open_

include wf ht

/-- Where a search has not ended, what it holds is a candidate. -/
theorem Searches.candidates (hr : required t = true)
    (closed : ∀ n i, required n = true → i ∈ c.ins n → required i = true) (chosen : Side → Bool)
    (some : ∀ σ, chosen σ = true → (r σ).done = false ∧ (r σ).cnt ≠ 0) :
    Candidates c f x required cVal fun σ => if chosen σ then (r σ).cand else none := by
  intro σ n cand
  dsimp only at cand
  by_cases here : chosen σ = true
  · rw [if_pos here] at cand
    obtain ⟨open_, counted⟩ := some σ here
    obtain ⟨k, hk, same, value⟩ := (on.search σ (on.searching open_)).cand counted
    rw [same] at cand
    cases cand
    exact ⟨wf.insLt t ht _ hk, closed t _ hr hk, value⟩
  · rw [if_neg here] at cand
    cases cand

/-- A searched value is justified once its search has ended or its candidate is fixed. -/
theorem Searches.justified (ctrl : (c.type t).ctrl = some cVal) {σ : Side} (hv : v σ = some target)
    (free : ¬ Forced f t σ) (value : c.sideValue f x σ t = xor (c.type t).inverts cVal)
    (grow : ∀ i, s.flag i σ = true → s'.flag i σ = true)
    (fixed : (r σ).done = false → (r σ).cnt ≠ 0 → ∀ n, (r σ).cand = some n → s'.flag n σ = true) :
    c.Justified f x s' t σ := by
  have ok := on.search σ hv
  cases done : (r σ).done with
  | true =>
      obtain ⟨i, hi, flag, controlling⟩ := ok.done done
      exact justified_ctrl wf ht free ctrl hi (grow i flag) controlling
  | false =>
      obtain ⟨n, hn, count, cand, controlling⟩ := ok.complete wf ht free ctrl value done
      exact justified_ctrl wf ht free ctrl hn (fixed done count n cand) controlling

end Searches

theorem or_side {p : Side → Bool} : (p .normal || p .fault) = true ↔ ∃ σ, p σ = true := by
  rw [Bool.or_eq_true]
  constructor
  · rintro (here | here)
    · exact ⟨_, here⟩
    · exact ⟨_, here⟩
  · rintro ⟨σ, here⟩
    cases σ with
    | normal => exact .inl here
    | fault => exact .inr here

/-! ### The handlers -/

/-- The value of the net is justified, or the net is on a worklist. -/
def Settled (c : Netlist) (f : FNODE) (x : c.Assignment) (s : XidState) (t : Nat) (σ : Side) : Prop :=
  c.Justified f x s t σ ∨ c.Pending f x s t σ

theorem demanded_eq_some (inv : XInv c f x required path busy s) {t : Nat} {σ : Side} {b : Bool} :
    demanded f t s σ = some b ↔
      s.flag t σ = true ∧ ¬ Forced f t σ ∧ b = c.sideValue f x σ t := by
  unfold demanded
  by_cases forced : σ = .fault ∧ t = f.netptr
  · rw [if_pos forced]
    exact iff_of_false (by simp) fun h => h.2.1 ⟨forced.2, forced.1⟩
  · rw [if_neg forced]
    constructor
    · intro known
      obtain ⟨flag, value⟩ := inv.known known
      exact ⟨flag, fun h => forced ⟨h.2, h.1⟩, value⟩
    · rintro ⟨flag, -, rfl⟩
      exact inv.known_of_flag flag

section Handlers

variable (wf : c.WellFormed m) (inv : XInv c f x required path busy s) {t : Nat} (ht : t < c.nNet)
  (hr : required t = true)
  (closed : ∀ n i, required n = true → i ∈ c.ins n → required i = true) {v : SideValues}
  (known : ∀ σ b, v σ = some b → ¬ Forced f t σ ∧ b = c.sideValue f x σ t)

include wf inv ht hr closed known

private theorem bimp_single {i : Nat} (ins : c.ins t = [i]) (gate : c.type t ≠ .IN)
    {w : SideValues} (given : ∀ σ, (w σ).isSome = (v σ).isSome)
    (agree : ∀ σ b, w σ = some b → ∃ b', v σ = some b' ∧
      ∀ a, (c.type t).fn [a] = b' → b = a) :
    XInv c f x required path busy (c.fillPush .bwd i w s) ∧
      Ext c required 0 s (c.fillPush .bwd i w s) ∧
      ∀ σ, (v σ).isSome = true → c.Justified f x (c.fillPush .bwd i w s) t σ := by
  have hi : i ∈ c.ins t := by
    rw [ins]
    exact List.mem_cons_self
  obtain ⟨kept, ext, flag⟩ := fillBwd_spec (v := w) inv (wf.insLt t ht i hi) (closed t i hr hi) (by
    intro σ b given
    obtain ⟨b', hv, unique⟩ := agree σ b given
    obtain ⟨free, value⟩ := known σ b' hv
    apply unique
    rw [value, sideValue_gate wf ht gate free, ins, List.map_singleton])
  refine ⟨kept, ext, ?_⟩
  intro σ some
  obtain ⟨b, hv⟩ := Option.isSome_iff_exists.mp some
  apply justified_all wf ht (known σ b hv).1
  intro k hk
  rw [ins, List.mem_singleton] at hk
  rw [hk]
  exact flag σ (by rw [given, some])

private theorem bimp_exor :
    XInv c f x required path busy (c.xidBimpExor t s) ∧ Ext c required 0 s (c.xidBimpExor t s) ∧
      ∀ σ, (v σ).isSome = true → c.Justified f x (c.xidBimpExor t s) t σ := by
  have run := Loop.foldl_inv (fun s i => c.fillPush .bwd i (fun σ => some (s.value2 i σ)) s)
    (fun seen s' => XInv c f x required path busy s' ∧ Ext c required 0 s s' ∧
      ∀ i ∈ seen, ∀ σ, s'.flag i σ = true)
    (c.ins t) (s := s) ⟨inv, Ext.refl s, by simp⟩ (by
      rintro seen i rest s' split ⟨inv', ext', flags⟩
      have hi : i ∈ c.ins t := by
        rw [split]
        exact List.mem_append_right _ List.mem_cons_self
      have low := wf.insLt t ht i hi
      have scope := closed t i hr hi
      obtain ⟨kept, ext, flag⟩ := fillBwd_spec (v := fun σ => some (s'.value2 i σ)) inv' low scope
        fun σ b given => by rw [← Option.some.inj given]; exact inv'.value2 i low scope σ
      refine ⟨kept, ext'.trans ext, ?_⟩
      intro k hk σ
      rcases List.mem_append.mp hk with hk | hk
      · exact ext.flag k σ (flags k hk σ)
      · rw [List.mem_singleton.mp hk]
        exact flag σ rfl)
  refine ⟨run.1, run.2.1, ?_⟩
  intro σ some
  obtain ⟨b, hv⟩ := Option.isSome_iff_exists.mp some
  exact justified_all wf ht (known σ b hv).1 fun i hi => run.2.2 i hi σ

/-- The main loop of the universal handler: forced sides are done at all inputs, searched sides know
what they found. -/
private theorem bimp_loop {cVal force : Bool} (search : Bool) (ctrl : (c.type t).ctrl = some cVal)
    (hforce : force = xor (c.type t).inverts (!cVal)) :
    let p := (c.ins t).foldl (c.bimpInput v cVal force search)
      (s, fun σ => ⟨none, 0, v σ != some search⟩)
    XInv c f x required path busy p.1 ∧ Ext c required 0 s p.1 ∧
      (∀ σ, v σ = some force → ∀ i ∈ c.ins t, p.1.flag i σ = true) ∧
      Searches c f x p.1 t cVal search v (c.ins t) p.2 := by
  have forced : ∀ σ, v σ = some force → ∀ i ∈ c.ins t, c.sideValue f x σ i = !cVal := by
    intro σ hv
    obtain ⟨free, value⟩ := known σ _ hv
    exact sideValue_force wf ht ctrl free (value.symm.trans hforce)
  apply Loop.foldl_inv (c.bimpInput v cVal force search)
    (fun seen (p : XidState × (Side → SideSearch)) =>
      XInv c f x required path busy p.1 ∧ Ext c required 0 s p.1 ∧
      (∀ σ, v σ = some force → ∀ i ∈ seen, p.1.flag i σ = true) ∧
      Searches c f x p.1 t cVal search v seen p.2)
    (c.ins t)
  · exact ⟨inv, Ext.refl s, by simp, .start s t cVal search v⟩
  · rintro seen i rest ⟨s₁, r₁⟩ split ⟨inv₁, ext₁, flags, searches⟩
    simp only at inv₁ ext₁ flags searches
    have hi : i ∈ c.ins t := by
      rw [split]
      exact List.mem_append_right _ List.mem_cons_self
    have low := wf.insLt t ht i hi
    have scope := closed t i hr hi
    obtain ⟨kept, ext, flag⟩ := fillBwd_spec
      (v := fun σ => if v σ = some force then some (!cVal) else none) inv₁ low scope (by
        intro σ b given
        by_cases hv : v σ = some force
        · rw [if_pos hv] at given
          rw [forced σ hv i hi, Option.some.inj given]
        · rw [if_neg hv] at given
          cases given)
    refine ⟨kept, ext₁.trans ext, ?_, fun σ hv => ?_, fun σ hv => ?_⟩
    · intro σ hv k hk
      rcases List.mem_append.mp hk with hk | hk
      · exact ext.flag k σ (flags σ hv k hk)
      · rw [List.mem_singleton.mp hk]
        exact flag σ (by rw [if_pos hv]; rfl)
    · simp only [bimpInput, if_pos hv]
      exact (searchInput_ok inv₁ hi low scope (searches.search σ hv)).grow fun k h => ext.flag k σ h
    · simp only [bimpInput, if_neg hv]
      exact searches.ended σ hv

omit inv hr closed in
/-- After the loop a side is justified, unless its search has several candidates left. -/
private theorem triggered_justified {cVal force search : Bool} (ctrl : (c.type t).ctrl = some cVal)
    (hforce : force = xor (c.type t).inverts (!cVal)) (hsearch : search = xor (c.type t).inverts cVal)
    {s₁ : XidState} {r : Side → SideSearch}
    (flags : ∀ σ, v σ = some force → ∀ i ∈ c.ins t, s₁.flag i σ = true)
    (searches : Searches c f x s₁ t cVal search v (c.ins t) r) {σ : Side} (given : (v σ).isSome = true)
    (grow : ∀ i, s₁.flag i σ = true → s'.flag i σ = true)
    (fixed : (r σ).done = false → (r σ).cnt ≠ 0 → ∀ n, (r σ).cand = some n → s'.flag n σ = true) :
    c.Justified f x s' t σ := by
  obtain ⟨b, hv⟩ := Option.isSome_iff_exists.mp given
  obtain ⟨free, value⟩ := known σ b hv
  rcases force_or_search (f := f) (x := x) t σ cVal with forced | searched
  · rw [value, forced, ← hforce] at hv
    apply justified_all wf ht free
    exact fun i hi => grow i (flags σ hv i hi)
  · rw [value, searched, ← hsearch] at hv
    exact searches.justified wf ht ctrl hv free searched grow fixed

private theorem bimp_triggered {cVal force search : Bool} (ctrl : (c.type t).ctrl = some cVal)
    (hforce : force = xor (c.type t).inverts (!cVal))
    (hsearch : search = xor (c.type t).inverts cVal) :
    XInv c f x required path busy (c.bimpTriggered t v cVal force search s) ∧
      Ext c required 1 s (c.bimpTriggered t v cVal force search s) ∧
      ((c.bimpTriggered t v cVal force search s).exited = false →
        ∀ σ, (v σ).isSome = true → c.Settled f x (c.bimpTriggered t v cVal force search s) t σ) := by
  obtain ⟨inv₁, ext₁, flags, searches⟩ :=
    bimp_loop wf inv ht hr closed known search ctrl hforce
  unfold bimpTriggered
  dsimp only
  generalize (c.ins t).foldl (c.bimpInput v cVal force search)
    (s, fun σ => ⟨none, 0, v σ != some search⟩) = p at inv₁ ext₁ flags searches ⊢
  obtain ⟨s₁, r⟩ := p
  dsimp only at inv₁ ext₁ flags searches ⊢
  have good := searches.candidates wf ht hr closed (fun σ => !(r σ).done && (r σ).cnt == 1) (by
    intro σ one
    simp only [Bool.and_eq_true, Bool.not_eq_true', beq_iff_eq] at one
    exact ⟨one.1, by omega⟩)
  obtain ⟨inv₂, ext₂, fixed⟩ := xidCommit_spec inv₁ good
  generalize c.xidCommit cVal
    (fun σ => if !(r σ).done && (r σ).cnt == 1 then (r σ).cand else none) s₁ = s₂
    at inv₂ ext₂ fixed ⊢
  have settled : ∀ s₃ : XidState, (∀ n σ, s₂.flag n σ = true → s₃.flag n σ = true) →
      ∀ σ, (v σ).isSome = true → ((r σ).done = false → (r σ).cnt < 2) → c.Justified f x s₃ t σ := by
    intro s₃ grow σ given few
    refine triggered_justified wf ht known ctrl hforce hsearch flags searches given
      (fun i flag => grow i σ (ext₂.flag i σ flag)) fun open_ counted n cand => grow n σ (fixed σ n ?_)
    have less := few open_
    have one : (r σ).cnt = 1 := by omega
    simp [open_, one, cand]
  by_cases several : (!(r .normal).done && decide (2 ≤ (r .normal).cnt) ||
      !(r .fault).done && decide (2 ≤ (r .fault).cnt)) = true
  · rw [if_pos several]
    obtain ⟨inv₃, ext₃⟩ := enqueue_spec inv₂ .jus ht hr
    refine ⟨inv₃, ext₁.trans (ext₂.trans ext₃), ?_⟩
    intro running σ given
    by_cases few : (r σ).done = false → (r σ).cnt < 2
    · exact .inl (settled _ ext₃.flag σ given few)
    · push Not at few
      refine .inr (.inr (.inl ⟨(inv₂.mem_enqueue .jus .jus t t).2.2 running, cVal, ctrl, ?_⟩))
      rw [← hsearch]
      exact (known σ search (searches.searching few.1)).2.symm
  · rw [if_neg several]
    refine ⟨inv₂, (ext₁.trans ext₂).weaken (Nat.zero_le _), ?_⟩
    intro _ σ given
    refine .inl (settled _ (fun _ _ h => h) σ given fun open_ => ?_)
    by_contra many
    refine several (@or_side (fun σ => !(r σ).done && decide (2 ≤ (r σ).cnt)) |>.mpr ⟨σ, ?_⟩)
    simp only [open_, Bool.not_false, Bool.true_and, decide_eq_true_eq]
    omega

private theorem bimp_universal {cVal isInv : Bool} (ctrl : (c.type t).ctrl = some cVal)
    (inverts : (c.type t).inverts = isInv) :
    XInv c f x required path busy (c.xidBimpUniversal t v cVal isInv s) ∧
      Ext c required 1 s (c.xidBimpUniversal t v cVal isInv s) ∧
      ((c.xidBimpUniversal t v cVal isInv s).exited = false →
        ∀ σ, (v σ).isSome = true → c.Settled f x (c.xidBimpUniversal t v cVal isInv s) t σ) := by
  apply bimp_triggered wf inv ht hr closed known ctrl
  · rw [inverts]
    cases isInv <;> simp
  · rw [inverts]
    cases isInv <;> simp

private theorem xidBimp_spec :
    XInv c f x required path busy (c.xidBimp t v s) ∧ Ext c required 1 s (c.xidBimp t v s) ∧
      ((c.xidBimp t v s).exited = false → ∀ σ, (v σ).isSome = true →
        c.Settled f x (c.xidBimp t v s) t σ) := by
  have arity := wf.arity t ht
  have free : ∀ {s' : XidState}, XInv c f x required path busy s' → Ext c required 0 s s' →
      (∀ σ, (v σ).isSome = true → c.Justified f x s' t σ) →
      XInv c f x required path busy s' ∧ Ext c required 1 s s' ∧
        (s'.exited = false → ∀ σ, (v σ).isSome = true → c.Settled f x s' t σ) := by
    intro s' kept ext just
    exact ⟨kept, ext.weaken (Nat.zero_le _), fun _ σ some => .inl (just σ some)⟩
  unfold xidBimp
  cases type : c.type t with
  | BUF | FOUT =>
      rw [type] at arity
      obtain ⟨i, ins⟩ := List.length_eq_one_iff.mp arity
      obtain ⟨kept, ext, just⟩ := bimp_single wf inv ht hr closed known ins (by rw [type]; simp)
        (w := v) (fun _ => rfl) (fun σ b given => ⟨b, given, fun a same => by
          rw [type] at same
          exact same.symm⟩)
      simp only [xidBimpBuf, ins, List.getD_cons_zero]
      exact free kept ext just
  | INV =>
      rw [type] at arity
      obtain ⟨i, ins⟩ := List.length_eq_one_iff.mp arity
      obtain ⟨kept, ext, just⟩ := bimp_single wf inv ht hr closed known ins (by rw [type]; simp)
        (w := fun σ => (v σ).map (!·)) (fun σ => by simp) (by
          intro σ b given
          obtain ⟨b', hv, rfl⟩ := Option.map_eq_some_iff.mp given
          refine ⟨b', hv, ?_⟩
          rintro a rfl
          rw [type]
          simp [GateType.fn])
      simp only [xidBimpInv, ins, List.getD_cons_zero]
      exact free kept ext just
  | AND => exact bimp_universal wf inv ht hr closed known (by rw [type]; rfl) (by rw [type]; rfl)
  | NAND => exact bimp_universal wf inv ht hr closed known (by rw [type]; rfl) (by rw [type]; rfl)
  | OR => exact bimp_universal wf inv ht hr closed known (by rw [type]; rfl) (by rw [type]; rfl)
  | NOR => exact bimp_universal wf inv ht hr closed known (by rw [type]; rfl) (by rw [type]; rfl)
  | EXOR | EXNOR =>
      obtain ⟨kept, ext, just⟩ := bimp_exor wf inv ht hr closed known
      exact free kept ext just
  | IN =>
      apply free inv (Ext.refl s)
      exact fun _ _ gate => absurd type gate
  | DFF | RDFF | DFFS | RDFFS | UNSET =>
      rw [type] at arity
      exact arity.elim

omit known in
private theorem limited_loop (cVal oVal : Bool) :
    Searches c f x s t cVal oVal v (c.ins t) fun σ =>
      ((c.ins t).foldl (fun (r : Side → LimitedSearch) i σ => c.limitedInput s cVal σ (r σ) i)
        (fun σ => ⟨⟨none, 0, v σ != some oVal⟩, none⟩) σ).toSideSearch := by
  have loop := Loop.foldl_inv
    (fun (r : Side → LimitedSearch) i σ => c.limitedInput s cVal σ (r σ) i)
    (fun seen r => ∀ σ, (v σ = some oVal → LimitedOk c f x s t cVal σ seen (r σ)) ∧
      (v σ ≠ some oVal → (r σ).done = true))
    (c.ins t) (s := fun σ => ⟨⟨none, 0, v σ != some oVal⟩, none⟩)
    (by
      intro σ
      refine ⟨fun hv => ?_, fun hv => by simpa using hv⟩
      rw [hv, bne_self_eq_false]
      exact ⟨SearchOk.start s t cVal σ, fun h => absurd rfl h⟩)
    (by
      intro seen i rest r split before σ
      have hi : i ∈ c.ins t := by
        rw [split]
        exact List.mem_append_right _ List.mem_cons_self
      refine ⟨fun hv => ?_, fun hv => ?_⟩
      · exact limitedInput_ok inv hi (wf.insLt t ht i hi) (closed t i hr hi) ((before σ).1 hv)
      · have ended := (before σ).2 hv
        dsimp only
        rw [limitedInput.eq_def, if_pos ended, ended])
  exact ⟨fun σ hv => ((loop σ).1 hv).search, fun σ hv => (loop σ).2 hv⟩

private theorem limited_targeted {cVal oVal : Bool} (ctrl : (c.type t).ctrl = some cVal)
    (target : oVal = xor (c.type t).inverts cVal) :
    XInv c f x required path busy (c.limitedTargeted t v cVal oVal s) ∧
      Ext c required 0 s (c.limitedTargeted t v cVal oVal s) ∧
      ∀ σ, (v σ).isSome = true → c.Searched f x t σ →
        c.Justified f x (c.limitedTargeted t v cVal oVal s) t σ := by
  have loop := limited_loop (v := v) wf inv ht hr closed cVal oVal
  unfold limitedTargeted
  dsimp only
  generalize (c.ins t).foldl (fun (r : Side → LimitedSearch) i σ => c.limitedInput s cVal σ (r σ) i)
    (fun σ => ⟨⟨none, 0, v σ != some oVal⟩, none⟩) = r at loop ⊢
  have justified : ∀ s' : XidState, (∀ n σ, s.flag n σ = true → s'.flag n σ = true) →
      ∀ σ, ((r σ).done = false → (r σ).cnt ≠ 0 → ∀ n, (r σ).cand = some n → s'.flag n σ = true) →
        (v σ).isSome = true → c.Searched f x t σ → c.Justified f x s' t σ := by
    rintro s' grow σ fixed some ⟨b, ctrl', value⟩
    obtain ⟨b', hv⟩ := Option.isSome_iff_exists.mp some
    obtain ⟨free, same⟩ := known σ b' hv
    rw [ctrl] at ctrl'
    cases ctrl'
    exact loop.justified wf ht ctrl (by rw [hv, same, value, target]) free value (fun i => grow i σ) fixed
  by_cases both : ((r .normal).done && (r .fault).done) = true
  · rw [if_pos both]
    rw [Bool.and_eq_true] at both
    refine ⟨inv, Ext.refl s, fun σ => justified s (fun _ _ h => h) σ fun open_ => ?_⟩
    cases σ with
    | normal => exact absurd (open_.symm.trans both.1) (by decide)
    | fault => exact absurd (open_.symm.trans both.2) (by decide)
  · rw [if_neg both]
    have good := loop.candidates wf ht hr closed (fun σ => !(r σ).done && decide (1 ≤ (r σ).cnt)) (by
      intro σ one
      simp only [Bool.and_eq_true, Bool.not_eq_true', decide_eq_true_eq] at one
      exact ⟨one.1, by omega⟩)
    obtain ⟨kept, ext, fixed⟩ := xidCommit_spec inv good
    refine ⟨kept, ext, fun σ => justified _ ext.flag σ fun open_ count n cand => fixed σ n ?_⟩
    have one : 1 ≤ (r σ).cnt := Nat.one_le_iff_ne_zero.mpr count
    simp [open_, one, cand]

private theorem limited_universal {cVal isInv : Bool} (ctrl : (c.type t).ctrl = some cVal)
    (inverts : (c.type t).inverts = isInv) :
    XInv c f x required path busy (c.xidBimpLimitedUniv t v cVal isInv s) ∧
      Ext c required 0 s (c.xidBimpLimitedUniv t v cVal isInv s) ∧
      ∀ σ, (v σ).isSome = true → c.Searched f x t σ →
        c.Justified f x (c.xidBimpLimitedUniv t v cVal isInv s) t σ := by
  apply limited_targeted wf inv ht hr closed known ctrl
  rw [inverts]
  cases isInv <;> simp

private theorem xidBimpLimited_spec :
    XInv c f x required path busy (c.xidBimpLimited t v s) ∧
      Ext c required 0 s (c.xidBimpLimited t v s) ∧
      ∀ σ, (v σ).isSome = true → c.Searched f x t σ →
        c.Justified f x (c.xidBimpLimited t v s) t σ := by
  unfold xidBimpLimited
  cases type : c.type t with
  | AND => exact limited_universal wf inv ht hr closed known (by rw [type]; rfl) (by rw [type]; rfl)
  | NAND => exact limited_universal wf inv ht hr closed known (by rw [type]; rfl) (by rw [type]; rfl)
  | OR => exact limited_universal wf inv ht hr closed known (by rw [type]; rfl) (by rw [type]; rfl)
  | NOR => exact limited_universal wf inv ht hr closed known (by rw [type]; rfl) (by rw [type]; rfl)
  | BUF | FOUT | INV | EXOR | EXNOR | IN | DFF | RDFF | DFFS | RDFFS | UNSET =>
      refine ⟨inv, Ext.refl s, ?_⟩
      rintro σ - ⟨b, ctrl, -⟩
      rw [type] at ctrl
      cases ctrl

end Handlers

/-- Nothing is demanded of the net, so nothing waited for it. -/
private theorem demanded_none (inv : XInv c f x required path busy s) {t : Nat}
    (none : ((demanded f t s .normal).isNone && (demanded f t s .fault).isNone) = true) :
    ∀ σ, s.flag t σ = true → Forced f t σ := by
  intro σ flag
  by_contra free
  have some := (demanded_eq_some inv).mpr ⟨flag, free, rfl⟩
  rw [Bool.and_eq_true] at none
  cases σ with
  | normal =>
      rw [some] at none
      exact absurd none.1 (by simp)
  | fault =>
      rw [some] at none
      exact absurd none.2 (by simp)

/-- Backward implication from a net that left the queue settles it. -/
theorem xidBackwardImp_spec (wf : c.WellFormed m) {t : Nat}
    (inv : XInv c f x required path (c.Left f x s .bwd t) s) (ht : t < c.nNet)
    (hr : required t = true)
    (closed : ∀ n i, required n = true → i ∈ c.ins n → required i = true) :
    XInv c f x required path (fun _ _ => False) (c.xidBackwardImp f t s) ∧
      Ext c required 1 s (c.xidBackwardImp f t s) := by
  unfold xidBackwardImp
  dsimp only
  split
  · rename_i none
    have all := demanded_none inv none
    refine ⟨inv.settle ?_, (Ext.refl s).weaken (Nat.zero_le _)⟩
    rintro - n σ ⟨rfl, flag, -⟩ free
    exact absurd (all σ flag) free
  · obtain ⟨kept, ext, settled⟩ := xidBimp_spec wf inv ht hr closed (v := demanded f t s)
      fun σ b h => ((demanded_eq_some inv).mp h).2
    refine ⟨kept.settle ?_, ext⟩
    rintro running n σ ⟨rfl, flag, -⟩ free
    apply settled running σ
    rw [(demanded_eq_some inv).mpr ⟨flag, free, rfl⟩]
    rfl

/-- The limited justification of a net of the J-frontier settles it. -/
theorem xidBackwardImpLimited_spec (wf : c.WellFormed m) {t : Nat}
    (inv : XInv c f x required path (c.Left f x s .jus t) s) (ht : t < c.nNet)
    (hr : required t = true)
    (closed : ∀ n i, required n = true → i ∈ c.ins n → required i = true) :
    XInv c f x required path (fun _ _ => False) (c.xidBackwardImpLimited f t s) ∧
      Ext c required 0 s (c.xidBackwardImpLimited f t s) := by
  unfold xidBackwardImpLimited
  dsimp only
  split
  · rename_i none
    have all := demanded_none inv none
    refine ⟨inv.settle ?_, Ext.refl s⟩
    rintro - n σ ⟨rfl, flag, -⟩ free
    exact absurd (all σ flag) free
  · obtain ⟨kept, ext, just⟩ := xidBimpLimited_spec wf inv ht hr closed (v := demanded f t s)
      fun σ b h => ((demanded_eq_some inv).mp h).2
    refine ⟨kept.settle ?_, ext⟩
    rintro - n σ ⟨rfl, flag, left⟩ free
    rcases left with other | ⟨-, searched⟩
    · cases other
    · refine .inl (just σ ?_ searched)
      rw [(demanded_eq_some inv).mpr ⟨flag, free, rfl⟩]
      rfl

end Netlist

end SafRprGen
