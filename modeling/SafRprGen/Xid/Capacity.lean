/-
Module: SafRprGen.Xid.Capacity
Layer: Xid
Purpose: How many nets a pass of `Xfilling` puts on each queue, read off the state in which it begins, and
  so exactly when the queues of `n_net` places hold them. A pass that serves the forward queue puts on it the
  fanouts that take a new value; one that serves the backward queue puts on it the inputs that have to take a
  value, and the gate itself on the J-frontier while several inputs could explain its value. The other passes
  always find room.
Main exports: newFanouts, newInputs, severalInputs, Room, Pushed, Room.pass
-/
import SafRprGen.Netlist.Branched
import SafRprGen.Xid.Worklists
import Mathlib.Algebra.Group.Pi.Lemmas

namespace SafRprGen

/-- Some side on which a value is given has none yet. -/
def XidState.takes (s : XidState) (n : Nat) (given : Side → Bool) : Bool :=
  (given .normal && !s.flag n .normal) || (given .fault && !s.flag n .fault)

namespace Netlist

variable (c : Netlist)

/-! ### What a pass asks for -/

/-- The sides on which the flagged inputs decide the value of a fanout; `v` has the values of the net
whose fanout it is. -/
def decided (node : Nat) (v : SideValues) (s : XidState) (σ : Side) : Bool :=
  match c.type node with
  | .BUF | .FOUT | .INV => (v σ).isSome
  | .AND | .NAND => c.controlFound s node false σ || !c.unknownFound s node σ
  | .OR | .NOR => c.controlFound s node true σ || !c.unknownFound s node σ
  | .EXOR | .EXNOR => !c.unknownFound s node σ
  | _ => false

/-- The number of fanouts of `t` in the scope that take a new value. -/
def newFanouts (g : Globals) (t : Nat) (s : XidState) : Nat :=
  let v := s.known t
  if (v .normal).isNone && (v .fault).isNone then 0
  else (c.outs t).countP fun out => g.normalScopeRequiredNet out && s.takes out (c.decided out v s)

/-- The sides on which the values `v` of `t` determine the values of all its inputs. For an EXOR gate the
source takes every input over as soon as one side is known. -/
def determined (t : Nat) (v : SideValues) (σ : Side) : Bool :=
  match c.type t with
  | .BUF | .FOUT | .INV => (v σ).isSome
  | .AND | .NOR => v σ == some true
  | .NAND | .OR => v σ == some false
  | .EXOR | .EXNOR => (v .normal).isSome || (v .fault).isSome
  | _ => false

/-- The inputs of `t` that could explain its value on one side: the value needs one controlling input, none
is fixed yet, and these have the controlling value in the model. -/
def explaining (t : Nat) (v : SideValues) (s : XidState) (σ : Side) : List Nat :=
  match (c.type t).ctrl with
  | none => []
  | some cVal =>
      if v σ = some (xor (c.type t).inverts cVal) ∧ c.controlFound s t cVal σ = false then
        (c.ins t).filter fun i => !s.flag i σ && s.value2 i σ == cVal
      else []

/-- The only input that could explain the value. -/
def soleInput (t : Nat) (v : SideValues) (s : XidState) (σ : Side) : List Nat :=
  if (c.explaining t v s σ).length = 1 then c.explaining t v s σ else []

/-- The number of places that the inputs of `t` take on the backward queue: those whose values the value of
`t` determines, and those that alone could explain it. -/
def newInputs (f : FNODE) (t : Nat) (s : XidState) : Nat :=
  let v := demanded f t s
  (c.ins t).countP (fun i => s.takes i (c.determined t v)) +
    (c.soleInput t v s .normal ∪ c.soleInput t v s .fault).length

/-- Several inputs of `t` could explain its value on some side. -/
def severalInputs (t : Nat) (v : SideValues) (s : XidState) : Bool :=
  decide (2 ≤ (c.explaining t v s .normal).length) || decide (2 ≤ (c.explaining t v s .fault).length)

/-- The queues have room for what the pass that begins here puts on them: with the nets that are left when
the next one is taken off the forward queue, its fanouts that take a new value; or with those left on the
backward queue, the inputs that take a value, and a place on the J-frontier for a gate that waits. -/
def Room (g : Globals) (f : FNODE) (st : XfillState) : Prop :=
  if (st.xid.queue .fwd).count ≠ 0 then
    let (t, s) := c.dequeue .fwd st.xid
    (s.queue .fwd).count + c.newFanouts g t s ≤ c.nNet
  else if (st.xid.queue .bwd).count ≠ 0 then
    let (t, s) := c.dequeue .bwd st.xid
    (s.queue .bwd).count + c.newInputs f t s ≤ c.nNet ∧
      (c.severalInputs t (demanded f t s) s = true → (s.queue .jus).count < c.nNet)
  else True

variable {c} {m : FaultModel} {g : Globals} {f : FNODE} {s t : XidState} {k : XidQueue → Nat}

/-! ### Counting what is enqueued -/

theorem exited_enqueue {q : XidQueue} (space : (s.queue q).count < c.nNet) (n : Nat) :
    (c.enqueue q n s).exited = s.exited := by
  rw [enqueue, if_neg (Nat.not_le.mpr space)]

/-- `t` is `s` after `k q` calls of `enqueue` for each queue `q`. -/
structure Pushed (c : Netlist) (k : XidQueue → Nat) (s t : XidState) : Prop where
  running : t.exited = false ↔ s.exited = false ∧ ∀ q, (s.queue q).count + k q ≤ c.nNet
  count : t.exited = false → ∀ q, (t.queue q).count = (s.queue q).count + k q

namespace Pushed

theorem refl (low : ∀ q, (s.queue q).count ≤ c.nNet) : Pushed c 0 s s :=
  ⟨(and_iff_left low).symm, fun _ _ => rfl⟩

theorem of_eq {u : XidState} (pushed : Pushed c k s t) (exited : u.exited = t.exited)
    (queue : u.queue = t.queue) : Pushed c k s u := by
  refine ⟨?_, ?_⟩
  · rw [exited]
    exact pushed.running
  · rw [exited, queue]
    exact pushed.count

theorem fill (pushed : Pushed c k s t) (n : Nat) (v : SideValues) : Pushed c k s (t.fill n v) :=
  pushed.of_eq rfl rfl

theorem edPushXpath (pushed : Pushed c k s t) (n : Nat) : Pushed c k s (c.edPushXpath n t) :=
  pushed.of_eq (exited_edPushXpath c n t) (queue_edPushXpath c n t)

theorem enqueue (pushed : Pushed c k s t) (q : XidQueue) (n : Nat) :
    Pushed c (k + Pi.single q 1) s (c.enqueue q n t) := by
  have place : ∀ p, (k + Pi.single q 1 : XidQueue → Nat) p = k p + if p = q then 1 else 0 := by
    intro p
    rw [Pi.add_apply, Pi.single_apply]
  by_cases full : c.nNet ≤ (t.queue q).count
  · rw [enqueue_full full]
    refine ⟨iff_of_false (by simp) ?_, fun h => by simp at h⟩
    rintro ⟨running, fits⟩
    have here := fits q
    rw [place, if_pos rfl] at here
    have count := pushed.count (pushed.running.mpr ⟨running, fun p => ?_⟩) q
    · omega
    · have := fits p
      rw [place] at this
      omega
  · have space := Nat.lt_of_not_le full
    have same := exited_enqueue space n
    have grown : ∀ p, ((c.enqueue q n t).queue p).count = (t.queue p).count + if p = q then 1 else 0 := by
      intro p
      by_cases here : p = q
      · subst here
        rw [queue_enqueue_self space, if_pos rfl]
        rfl
      · rw [queue_enqueue_ne here, if_neg here, Nat.add_zero]
    constructor
    · rw [same]
      refine ⟨fun running => ⟨(pushed.running.mp running).1, fun p => ?_⟩, fun h =>
        pushed.running.mpr ⟨h.1, fun p => ?_⟩⟩
      · have fits := (pushed.running.mp running).2 p
        have count := pushed.count running p
        rw [place]
        split
        · rename_i here
          subst here
          omega
        · omega
      · have := h.2 p
        rw [place] at this
        omega
    · intro running p
      rw [grown, place, pushed.count (same ▸ running) p, Nat.add_assoc]

theorem fillPush (pushed : Pushed c k s t) (q : XidQueue) (n : Nat) (v : SideValues) :
    Pushed c (k + Pi.single q (t.updated n v).toNat) s (c.fillPush q n v t) := by
  unfold Netlist.fillPush
  cases t.updated n v with
  | true => exact (pushed.fill n v).enqueue q n
  | false =>
      rw [Bool.toNat_false, Pi.single_zero, add_zero]
      exact pushed

end Pushed

/-! ### Forward implication -/

theorem updated_eq_takes (n : Nat) (v : SideValues) :
    t.updated n v = t.takes n fun σ => (v σ).isSome := rfl

theorem takes_congr {u : XidState} {n : Nat} (same : u.varInfo n = t.varInfo n) (given : Side → Bool) :
    u.takes n given = t.takes n given := by
  simp only [XidState.takes, XidState.flag, same]

theorem varInfo_fillPush_of_ne {q : XidQueue} {n p : Nat} (other : p ≠ n) (v : SideValues) :
    (c.fillPush q n v t).varInfo p = t.varInfo p := by
  unfold Netlist.fillPush
  split
  · rw [varInfo_enqueue]
    exact Function.update_of_ne other _ _
  · rfl

/-- The nets in `seen` have been handled: those with `new` were put on the queue, and every other net is as
it was in `t`. -/
structure Handled (c : Netlist) (q : XidQueue) (new : Nat → Bool) (k : XidQueue → Nat) (s t : XidState)
    (seen : List Nat) (u : XidState) : Prop where
  pushed : Pushed c (k + Pi.single q (seen.countP new)) s u
  kept : ∀ n, n ∉ seen → u.varInfo n = t.varInfo n

namespace Handled

variable {q : XidQueue} {new : Nat → Bool} {seen : List Nat} {u : XidState}

theorem start (pushed : Pushed c k s t) : Handled c q new k s t [] t := by
  refine ⟨?_, fun _ _ => rfl⟩
  rw [List.countP_nil, Pi.single_zero, add_zero]
  exact pushed

theorem skip (handled : Handled c q new k s t seen u) {n : Nat} (old : new n = false) :
    Handled c q new k s t (seen ++ [n]) u := by
  refine ⟨?_, fun p fresh => handled.kept p fun mem => fresh (List.mem_append_left _ mem)⟩
  rw [List.countP_append, List.countP_singleton, old, if_neg Bool.false_ne_true, Nat.add_zero]
  exact handled.pushed

theorem fillPush (handled : Handled c q new k s t seen u) {n : Nat} {v : SideValues}
    (same : u.updated n v = new n) : Handled c q new k s t (seen ++ [n]) (c.fillPush q n v u) := by
  constructor
  · have one : (if new n = true then 1 else 0) = (u.updated n v).toNat := by
      rw [same]
      cases new n <;> rfl
    rw [List.countP_append, List.countP_singleton, one, Pi.single_add, ← add_assoc]
    exact handled.pushed.fillPush q n v
  · intro p fresh
    rw [List.mem_append, List.mem_singleton, not_or] at fresh
    rw [varInfo_fillPush_of_ne fresh.2]
    exact handled.kept p fresh.1

end Handled

/-- A forward handler fills the sides that are decided. -/
theorem xidFimp_eq (node : Nat) (v : SideValues) (t : XidState) :
    ∃ values : SideValues, c.xidFimp node v t = c.fillPush .fwd node values t ∧
      t.updated node values = t.takes node (c.decided node v t) := by
  have universal : ∀ cVal isInv, ∃ values : SideValues,
      c.xidFimpUniversal node cVal isInv t = c.fillPush .fwd node values t ∧
        t.updated node values =
          t.takes node fun σ => c.controlFound t node cVal σ || !c.unknownFound t node σ := by
    intro cVal isInv
    refine ⟨_, rfl, ?_⟩
    rw [updated_eq_takes]
    congr 1
    funext σ
    cases c.controlFound t node cVal σ <;> cases c.unknownFound t node σ <;> rfl
  have exor : ∀ isInv, ∃ values : SideValues,
      c.xidFimpUnivExor node isInv t = c.fillPush .fwd node values t ∧
        t.updated node values = t.takes node fun σ => !c.unknownFound t node σ := by
    intro isInv
    refine ⟨_, rfl, ?_⟩
    rw [updated_eq_takes]
    congr 1
    funext σ
    cases c.unknownFound t node σ <;> rfl
  unfold xidFimp
  cases type : c.type node with
  | BUF | FOUT => exact ⟨v, rfl, by rw [updated_eq_takes]; congr 1; funext σ; rw [decided, type]⟩
  | INV =>
      refine ⟨_, rfl, ?_⟩
      rw [updated_eq_takes]
      congr 1
      funext σ
      rw [decided, type, Option.isSome_map]
  | AND | NAND | OR | NOR =>
      obtain ⟨values, eq, same⟩ := universal _ _
      refine ⟨values, eq, same.trans ?_⟩
      congr 1
      funext σ
      rw [decided, type]
  | EXOR | EXNOR =>
      obtain ⟨values, eq, same⟩ := exor _
      refine ⟨values, eq, same.trans ?_⟩
      congr 1
      funext σ
      rw [decided, type]
  | _ =>
      have nothing : c.decided node v t = fun _ => false := by
        funext σ
        rw [decided, type]
      refine ⟨fun _ => none, ?_, ?_⟩
      · rw [Netlist.fillPush, if_neg (by simp [XidState.updated])]
      · rw [nothing]
        rfl

/-- What is decided depends on the inputs. -/
theorem decided_congr {u : XidState} {node : Nat} (same : ∀ i ∈ c.ins node, u.varInfo i = t.varInfo i)
    (v : SideValues) : c.decided node v u = c.decided node v t := by
  have any : ∀ test : XidVarInfo → Bool,
      ((c.ins node).any fun i => test (u.varInfo i)) = (c.ins node).any fun i => test (t.varInfo i) := by
    intro test
    rw [Bool.eq_iff_iff, List.any_eq_true, List.any_eq_true]
    exact exists_congr fun i => and_congr_right fun mem => by rw [same i mem]
  funext σ
  have control : ∀ cVal, c.controlFound u node cVal σ = c.controlFound t node cVal σ := fun cVal =>
    any fun info => (info.side σ).flag && ((info.side σ).value3 == some cVal)
  have unknown : c.unknownFound u node σ = c.unknownFound t node σ :=
    any fun info => !(info.side σ).flag
  unfold decided
  rw [control, control, unknown]

theorem newFanouts_le (g : Globals) (n : Nat) (t : XidState) : c.newFanouts g n t ≤ (c.outs n).length := by
  unfold newFanouts
  dsimp only
  split
  · exact Nat.zero_le _
  · exact List.countP_le_length

section Handlers

variable (branched : c.Branched) (wf : c.WellFormed m) (pushed : Pushed c k s t) {n : Nat} (hn : n < c.nNet)

include branched wf pushed hn

/-- Forward implication enqueues the fanouts that take a new value. -/
theorem Pushed.xidForwardImp (g : Globals) :
    Pushed c (k + Pi.single .fwd (c.newFanouts g n t)) s (c.xidForwardImp g n t) := by
  unfold Netlist.xidForwardImp newFanouts
  dsimp only
  split
  · rw [Pi.single_zero, add_zero]
    exact pushed
  have distinct := branched.outs_nodup wf hn
  refine (Loop.foldl_inv _ (Handled c .fwd _ k s t) (c.outs n) (.start pushed) ?_).pushed
  intro seen o rest u split handled
  have edge : o ∈ c.outs n := split ▸ List.mem_append_right _ List.mem_cons_self
  have seenOut : ∀ p ∈ seen, p ∈ c.outs n := fun p mem => split ▸ List.mem_append_left _ mem
  have new : o ∉ seen := by
    rw [split] at distinct
    exact fun mem => (List.nodup_append.mp distinct).2.2 o mem o List.mem_cons_self rfl
  have here : ∀ given, u.takes o given = t.takes o given := takes_congr (handled.kept o new)
  -- none of the inputs of a fanout is another fanout
  have decided : c.decided o (t.known n) u = c.decided o (t.known n) t := decided_congr
    (fun i isIn => handled.kept i fun mem => branched.apart n hn o edge i (seenOut i mem) isIn) _
  cases scope : g.normalScopeRequiredNet o with
  | false =>
      rw [Bool.not_false, if_pos rfl]
      exact handled.skip (by rw [scope, Bool.false_and])
  | true =>
      rw [Bool.not_true, if_neg Bool.false_ne_true]
      by_cases both : u.flagBoth o = true
      · rw [if_pos both]
        apply handled.skip
        rw [scope, Bool.true_and, ← here, XidState.takes, (XidState.flagBoth_iff u o).mp both,
          (XidState.flagBoth_iff u o).mp both]
        simp
      · rw [if_neg both]
        obtain ⟨values, eq, same⟩ := xidFimp_eq (c := c) o (t.known n) u
        rw [eq]
        apply handled.fillPush
        rw [same, scope, Bool.true_and, decided, here]

end Handlers

/-! ### Backward implication -/

/-- Two candidates that have no value yet take two places, or one when they are the same net. -/
theorem Pushed.xidCommit (pushed : Pushed c k s t) (cVal : Bool) (cands : Side → Option Nat)
    (new : ∀ σ i, cands σ = some i → t.flag i σ = false) :
    Pushed c (k + Pi.single .bwd ((cands .normal).toList ∪ (cands .fault).toList).length) s
      (c.xidCommit cVal cands t) := by
  have updates : ∀ {u : XidState} {i : Nat} {σ : Side}, u.flag i σ = false →
      u.updated i (onlySide σ cVal) = true := by
    intro u i σ unset
    cases σ <;> simp [XidState.updated, onlySide, unset]
  have one : ∀ {u : XidState} {l : XidQueue → Nat} {i : Nat} {σ : Side}, Pushed c l s u →
      u.flag i σ = false → Pushed c (l + Pi.single .bwd 1) s (c.fillPush .bwd i (onlySide σ cVal) u) := by
    intro u l i σ before unset
    have after := before.fillPush .bwd i (onlySide σ cVal)
    rwa [updates unset, Bool.toNat_true] at after
  unfold Netlist.xidCommit
  cases normal : cands .normal with
  | none =>
      dsimp only
      cases fault : cands .fault with
      | none =>
          change Pushed c (k + Pi.single .bwd 0) s t
          rw [Pi.single_zero, add_zero]
          exact pushed
      | some j => exact one pushed (new .fault j fault)
  | some i =>
      have unset := new .normal i normal
      have first := one (σ := .normal) pushed unset
      dsimp only
      rw [unset, if_neg Bool.false_ne_true]
      cases fault : cands .fault with
      | none => exact first
      | some j =>
          dsimp only
          by_cases same : i = j
          · subst same
            rw [if_pos rfl]
            have single : ([i] ∪ [i] : List Nat) = [i] := by simp
            rw [Option.toList_some, single]
            exact first.fill i _
          · rw [if_neg (by simpa using same)]
            have still : (c.fillPush .bwd i (onlySide .normal cVal) t).flag j .fault = false := by
              rw [XidState.flag, varInfo_fillPush_of_ne (Ne.symm same)]
              exact new .fault j fault
            have double : ([i] ∪ [j] : List Nat) = [i, j] := by simp [same]
            rw [Option.toList_some, Option.toList_some, double]
            have both := one first still
            rw [add_assoc, ← Pi.single_add] at both
            exact both

/-- The result of a search over inputs: whether one has the controlling value, and those that may take it. -/
structure Search (t : XidState) (cVal : Bool) (σ : Side) (seen : List Nat) (r : SideSearch) : Prop where
  done : r.done = seen.any fun i => t.flag i σ && (t.value3 i σ == some cVal)
  cnt : r.cnt = (seen.filter fun i => !t.flag i σ && t.value2 i σ == cVal).length
  cand : r.cand = (seen.filter fun i => !t.flag i σ && t.value2 i σ == cVal).getLast?

theorem Search.input {cVal : Bool} {σ : Side} {seen : List Nat} {r : SideSearch} {u : XidState} {i : Nat}
    (search : Search t cVal σ seen r) (same : u.varInfo i = t.varInfo i) :
    Search t cVal σ (seen ++ [i]) (searchInput u i cVal σ r) := by
  have flag : u.flag i σ = t.flag i σ := by rw [XidState.flag, same]; rfl
  have value2 : u.value2 i σ = t.value2 i σ := by rw [XidState.value2, same]; rfl
  have value3 : u.value3 i σ = t.value3 i σ := by rw [XidState.value3, same]; rfl
  obtain ⟨done, cnt, cand⟩ := search
  unfold searchInput
  rw [flag, value2, value3]
  cases set : t.flag i σ with
  | true =>
      by_cases found : t.value3 i σ = some cVal
      · rw [if_pos rfl, if_pos found]
        exact ⟨by simp [set, found], by simp [cnt, set], by simp [cand, set]⟩
      · rw [if_pos rfl, if_neg found]
        exact ⟨by simp [done, found], by simp [cnt, set], by simp [cand, set]⟩
  | false =>
      by_cases open_ : t.value2 i σ = cVal
      · rw [if_neg Bool.false_ne_true, if_pos open_]
        exact ⟨by simp [done, set], by simp [cnt, set, open_], by simp [set, open_]⟩
      · rw [if_neg Bool.false_ne_true, if_neg open_]
        exact ⟨by simp [done, set], by simp [cnt, open_], by simp [cand, open_]⟩

/-- What a finished search settles on: the only input that could explain the value, or to wait. -/
theorem Search.settles {n : Nat} {cVal search : Bool} (ctrl : (c.type n).ctrl = some cVal)
    (searches : search = xor (c.type n).inverts cVal) {v : SideValues} {σ : Side} {r : SideSearch}
    (found : if v σ = some search then Search t cVal σ (c.ins n) r else r = ⟨none, 0, true⟩) :
    (if !r.done && r.cnt == 1 then r.cand else none) = (c.soleInput n v t σ).head? ∧
      (!r.done && decide (2 ≤ r.cnt)) = decide (2 ≤ (c.explaining n v t σ).length) := by
  have explaining_eq : c.explaining n v t σ = if v σ = some search ∧ c.controlFound t n cVal σ = false then
      (c.ins n).filter fun i => !t.flag i σ && t.value2 i σ == cVal else [] := by
    rw [explaining, ctrl, searches]
  by_cases wanted : v σ = some search
  · rw [if_pos wanted] at found
    obtain ⟨done, cnt, cand⟩ := found
    change r.done = c.controlFound t n cVal σ at done
    cases control : c.controlFound t n cVal σ with
    | true =>
        rw [if_neg (by simp [control])] at explaining_eq
        simp [soleInput, explaining_eq, done, control]
    | false =>
        rw [if_pos ⟨wanted, control⟩] at explaining_eq
        rw [← explaining_eq] at cnt cand
        rw [done, control, cnt, cand, soleInput]
        refine ⟨?_, by simp⟩
        by_cases one : (c.explaining n v t σ).length = 1
        · obtain ⟨i, only⟩ := List.length_eq_one_iff.mp one
          simp [only]
        · simp [one]
  · rw [if_neg wanted] at found
    rw [if_neg fun h => wanted h.1] at explaining_eq
    simp [soleInput, explaining_eq, found]

theorem mem_explaining {n i : Nat} {v : SideValues} {σ : Side} (mem : i ∈ c.explaining n v t σ) :
    i ∈ c.ins n ∧ t.flag i σ = false := by
  unfold explaining at mem
  split at mem
  · cases mem
  · split at mem
    · obtain ⟨isIn, free⟩ := List.mem_filter.mp mem
      rw [Bool.and_eq_true, Bool.not_eq_true'] at free
      exact ⟨isIn, free.1⟩
    · cases mem

theorem soleInput_eq (n : Nat) (v : SideValues) (t : XidState) (σ : Side) :
    (c.soleInput n v t σ).head?.toList = c.soleInput n v t σ ∧
      ∀ i, (c.soleInput n v t σ).head? = some i → i ∈ c.explaining n v t σ := by
  unfold soleInput
  split
  · rename_i one
    obtain ⟨i, only⟩ := List.length_eq_one_iff.mp one
    rw [only]
    exact ⟨rfl, fun j same => List.mem_singleton.mpr (Option.some.inj same).symm⟩
  · exact ⟨rfl, fun j same => by cases same⟩

/-- A loop over the inputs of `t` after those in `seen`: the determined ones are enqueued, the searched sides
are as they were and the searches have come as far. -/
structure Searching (c : Netlist) (v : SideValues) (cVal force search : Bool) (k : XidQueue → Nat)
    (s t : XidState) (seen : List Nat) (p : XidState × (Side → SideSearch)) : Prop where
  handled : Handled c .bwd (fun i => t.takes i fun σ => v σ == some force) k s t seen p.1
  flags : ∀ i σ, v σ = some search → p.1.flag i σ = t.flag i σ
  found : ∀ σ, if v σ = some search then Search t cVal σ seen (p.2 σ) else p.2 σ = ⟨none, 0, true⟩

theorem Searching.start (pushed : Pushed c k s t) (v : SideValues) (cVal force search : Bool) :
    Searching c v cVal force search k s t [] (t, fun σ => ⟨none, 0, v σ != some search⟩) where
  handled := .start pushed
  flags := fun _ _ _ => rfl
  found := by
    intro σ
    dsimp only
    by_cases wanted : v σ = some search
    · rw [if_pos wanted, wanted]
      exact ⟨bne_self_eq_false _, rfl, rfl⟩
    · rw [if_neg wanted, bne_iff_ne.mpr wanted]

theorem Searching.input {v : SideValues} {cVal force search : Bool} {seen : List Nat} {i : Nat}
    {p : XidState × (Side → SideSearch)} (searching : Searching c v cVal force search k s t seen p)
    (new : i ∉ seen) (forces : force = !search) :
    Searching c v cVal force search k s t (seen ++ [i]) (c.bimpInput v cVal force search p i) where
  handled := by
    apply searching.handled.fillPush
    rw [updated_eq_takes, takes_congr (searching.handled.kept i new)]
    congr 1
    funext σ
    by_cases forced : v σ = some force <;> simp [forced]
  flags := by
    intro j σ wanted
    have other : v σ ≠ some force := by
      rw [wanted, forces]
      simp
    rw [← searching.flags j σ wanted]
    change (c.fillPush .bwd i _ p.1).flag j σ = p.1.flag j σ
    by_cases here : j = i
    · subst here
      unfold Netlist.fillPush
      split
      · rw [flag_enqueue, XidState.flag_fill_self, if_neg other, Option.isSome_none, Bool.or_false]
      · rfl
    · rw [XidState.flag, varInfo_fillPush_of_ne here]
      rfl
  found := by
    intro σ
    have here := searching.found σ
    dsimp only [bimpInput]
    by_cases wanted : v σ = some search
    · rw [if_pos wanted] at here
      rw [if_pos wanted, if_pos wanted]
      exact here.input (searching.handled.kept i new)
    · rw [if_neg wanted] at here
      rw [if_neg wanted, if_neg wanted]
      exact here

/-- An AND-like gate enqueues the inputs that are determined or the only ones to explain its value, and it
waits on the J-frontier when several could. -/
theorem Pushed.bimpTriggered (pushed : Pushed c k s t) {n : Nat} (nodup : (c.ins n).Nodup)
    {cVal force search : Bool} (ctrl : (c.type n).ctrl = some cVal)
    (searches : search = xor (c.type n).inverts cVal) (forces : force = !search) (v : SideValues) :
    Pushed c (k + Pi.single .bwd ((c.ins n).countP (fun i => t.takes i fun σ => v σ == some force) +
        (c.soleInput n v t .normal ∪ c.soleInput n v t .fault).length) +
      Pi.single .jus (c.severalInputs n v t).toNat) s (c.bimpTriggered n v cVal force search t) := by
  have loop := Loop.foldl_inv (c.bimpInput v cVal force search)
    (Searching c v cVal force search k s t) (c.ins n) (Searching.start pushed v cVal force search) (by
      intro seen i rest p split searching
      refine searching.input (fun mem => ?_) forces
      rw [split] at nodup
      exact (List.nodup_append.mp nodup).2.2 i mem i List.mem_cons_self rfl)
  unfold Netlist.bimpTriggered
  dsimp only
  generalize List.foldl (c.bimpInput v cVal force search) _ (c.ins n) = p at loop ⊢
  have settled := fun σ => Search.settles ctrl searches (loop.found σ)
  have several : ∀ σ, (!(p.2 σ).done && decide (2 ≤ (p.2 σ).cnt)) =
      decide (2 ≤ (c.explaining n v t σ).length) := fun σ => (settled σ).2
  have cands : (fun σ => if !(p.2 σ).done && (p.2 σ).cnt == 1 then (p.2 σ).cand else none) =
      fun σ => (c.soleInput n v t σ).head? := funext fun σ => (settled σ).1
  simp only [cands, several]
  have committed := loop.handled.pushed.xidCommit cVal (fun σ => (c.soleInput n v t σ).head?) (by
    intro σ i sole
    have mem := (soleInput_eq n v t σ).2 i sole
    have wanted : v σ = some search := by
      by_contra other
      unfold explaining at mem
      rw [ctrl] at mem
      dsimp only at mem
      rw [if_neg fun h => other (searches ▸ h.1)] at mem
      cases mem
    rw [loop.flags i σ wanted]
    exact (mem_explaining mem).2)
  rw [(soleInput_eq n v t .normal).1, (soleInput_eq n v t .fault).1, add_assoc, ← Pi.single_add] at committed
  change Pushed c _ s (if c.severalInputs n v t = true then _ else _)
  cases c.severalInputs n v t with
  | true => exact committed.enqueue .jus n
  | false =>
      rw [if_neg Bool.false_ne_true, Bool.toNat_false, Pi.single_zero, add_zero]
      exact committed

theorem explaining_none {n : Nat} {v : SideValues} (nothing : (c.type n).ctrl = none ∨ ∀ σ, v σ = none)
    (t : XidState) (σ : Side) : c.explaining n v t σ = [] := by
  unfold explaining
  split
  · rfl
  · rename_i cVal ctrl
    rcases nothing with noCtrl | idle
    · rw [noCtrl] at ctrl
      cases ctrl
    · rw [if_neg]
      rw [idle σ]
      simp

/-- Where nothing is searched, the inputs that are determined are the only ones. -/
theorem Pushed.without_search {u : XidState} {n l : Nat} {v : SideValues}
    (nothing : (c.type n).ctrl = none ∨ ∀ σ, v σ = none) (pushed : Pushed c (k + Pi.single .bwd l) s u) :
    Pushed c (k + Pi.single .bwd (l + (c.soleInput n v t .normal ∪ c.soleInput n v t .fault).length) +
      Pi.single .jus (c.severalInputs n v t).toNat) s u := by
  have sole : ∀ σ, c.soleInput n v t σ = [] := by
    intro σ
    rw [soleInput, explaining_none nothing]
    rfl
  have several : c.severalInputs n v t = false := by
    rw [severalInputs, explaining_none nothing, explaining_none nothing]
    rfl
  rw [sole, sole, several, Bool.toNat_false, Pi.single_zero, add_zero]
  exact pushed

/-- Backward implication enqueues the inputs that `newInputs` counts. -/
theorem Pushed.xidBackwardImp (pushed : Pushed c k s t) (wf : c.WellFormed m) {n : Nat} (hn : n < c.nNet)
    (nodup : (c.ins n).Nodup) (f : FNODE) :
    Pushed c (k + Pi.single .bwd (c.newInputs f n t) +
      Pi.single .jus (c.severalInputs n (demanded f n t) t).toNat) s (c.xidBackwardImp f n t) := by
  have arity := wf.arity n hn
  unfold Netlist.xidBackwardImp newInputs
  dsimp only
  generalize demanded f n t = v
  by_cases idle : ((v .normal).isNone && (v .fault).isNone) = true
  · have none : ∀ σ, v σ = none := by
      rw [Bool.and_eq_true, Option.isNone_iff_eq_none, Option.isNone_iff_eq_none] at idle
      intro σ
      cases σ with
      | normal => exact idle.1
      | fault => exact idle.2
    have free : (c.ins n).countP (fun i => t.takes i (c.determined n v)) = 0 := by
      apply List.countP_eq_zero.mpr
      intro i _
      cases type : c.type n <;> simp [XidState.takes, determined, type, none]
    rw [if_pos idle]
    refine .without_search (.inr none) ?_
    rw [free, Pi.single_zero, add_zero]
    exact pushed
  rw [if_neg idle]
  have single : ∀ {values : SideValues}, (c.type n).ctrl = none → (c.ins n).length = 1 →
      (∀ σ, (values σ).isSome = c.determined n v σ) →
      Pushed c (k + Pi.single .bwd ((c.ins n).countP (fun i => t.takes i (c.determined n v)) +
        (c.soleInput n v t .normal ∪ c.soleInput n v t .fault).length) +
        Pi.single .jus (c.severalInputs n v t).toNat) s
        (c.fillPush .bwd ((c.ins n).getD 0 0) values t) := by
    intro values ctrl one given
    obtain ⟨i, only⟩ := List.length_eq_one_iff.mp one
    refine .without_search (.inl ctrl) ?_
    have filled := pushed.fillPush .bwd i values
    rw [updated_eq_takes, funext given] at filled
    rw [only, List.getD_cons_zero, List.countP_singleton]
    cases taken : t.takes i (c.determined n v) <;> rw [taken] at filled <;> exact filled
  have universal : ∀ {cVal isInv : Bool}, (c.type n).ctrl = some cVal → (c.type n).inverts = isInv →
      (∀ σ, (v σ == some (if isInv then cVal else !cVal)) = c.determined n v σ) →
      Pushed c (k + Pi.single .bwd ((c.ins n).countP (fun i => t.takes i (c.determined n v)) +
        (c.soleInput n v t .normal ∪ c.soleInput n v t .fault).length) +
        Pi.single .jus (c.severalInputs n v t).toNat) s (c.xidBimpUniversal n v cVal isInv t) := by
    intro cVal isInv ctrl inverts given
    rw [← funext given]
    refine pushed.bimpTriggered nodup ctrl ?_ ?_ v
    · rw [inverts]
      cases isInv <;> cases cVal <;> rfl
    · cases isInv <;> simp
  unfold xidBimp
  cases type : c.type n with
  | BUF | FOUT =>
      rw [type] at arity
      exact single (by rw [type]; rfl) arity fun σ => by rw [determined, type]
  | INV =>
      rw [type] at arity
      exact single (by rw [type]; rfl) arity fun σ => by rw [determined, type, Option.isSome_map]
  | AND | NAND | OR | NOR =>
      exact universal (by rw [type]; rfl) (by rw [type]; rfl) fun σ => by rw [determined, type]; rfl
  | EXOR | EXNOR =>
      refine .without_search (.inl (by rw [type]; rfl)) ?_
      refine (Loop.foldl_inv _ (Handled c .bwd _ k s t) (c.ins n) (.start pushed) ?_).pushed
      intro seen i rest u split handled
      apply handled.fillPush
      have all : c.determined n v = fun _ => true := by
        funext σ
        rw [determined, type]
        cases normal : v .normal <;> cases fault : v .fault <;> simp [normal, fault] at idle ⊢
      rw [updated_eq_takes, takes_congr (handled.kept i fun mem => ?_), all]
      · rfl
      · rw [split] at nodup
        exact (List.nodup_append.mp nodup).2.2 i mem i List.mem_cons_self rfl
  | IN | DFF | RDFF | DFFS | RDFFS | UNSET =>
      have free : (c.ins n).countP (fun i => t.takes i (c.determined n v)) = 0 :=
        List.countP_eq_zero.mpr fun i _ => by simp [XidState.takes, determined, type]
      refine .without_search (.inl (by rw [type]; rfl)) ?_
      rw [free, Pi.single_zero, add_zero]
      exact pushed

/-! ### The passes that always find room -/

/-- Limited justification enqueues at most two inputs. -/
theorem Pushed.xidBackwardImpLimited (pushed : Pushed c k s t) (n : Nat) (f : FNODE) :
    ∃ l ≤ (c.ins n).length, Pushed c (k + Pi.single .bwd l) s (c.xidBackwardImpLimited f n t) := by
  have idle : ∃ l ≤ (c.ins n).length, Pushed c (k + Pi.single .bwd l) s t :=
    ⟨0, Nat.zero_le _, by rwa [Pi.single_zero, add_zero]⟩
  have targeted : ∀ v cVal oVal,
      ∃ l ≤ (c.ins n).length, Pushed c (k + Pi.single .bwd l) s (c.limitedTargeted n v cVal oVal t) := by
    intro v cVal oVal
    have found := Loop.foldl_inv
      (fun (r : Side → LimitedSearch) i σ => c.limitedInput t cVal σ (r σ) i)
      (fun _ r => ∀ σ i, (r σ).cand = some i → i ∈ c.ins n ∧ t.flag i σ = false) (c.ins n)
      (s := fun σ => ⟨⟨none, 0, v σ != some oVal⟩, none⟩) (by simp) (by
        intro seen i rest r split found σ j
        have isIn : i ∈ c.ins n := split ▸ List.mem_append_right _ List.mem_cons_self
        simp only [limitedInput]
        split
        · exact found σ j
        · split
          · split <;> exact found σ j
          · rename_i unset
            rw [Bool.not_eq_true] at unset
            split
            · split
              · split
                · rintro ⟨⟩
                  exact ⟨isIn, unset⟩
                · exact found σ j
              · rintro ⟨⟩
                exact ⟨isIn, unset⟩
            · exact found σ j)
    unfold limitedTargeted
    dsimp only
    generalize List.foldl _ _ (c.ins n) = r at found ⊢
    split
    · exact idle
    · generalize cands_ : (fun σ => if !(r σ).done && decide (1 ≤ (r σ).cnt) then (r σ).cand else none) =
        cands
      have good : ∀ σ i, cands σ = some i → i ∈ c.ins n ∧ t.flag i σ = false := by
        intro σ i given
        rw [← cands_] at given
        dsimp only at given
        split at given
        · exact found σ i given
        · cases given
      refine ⟨_, ?_, pushed.xidCommit cVal _ fun σ i given => (good σ i given).2⟩
      have single : ∀ σ, (cands σ).toList.Nodup := fun σ => by cases cands σ <;> simp
      refine (List.subperm_of_subset (List.Nodup.union _ (single .fault)) ?_).length_le
      intro i mem
      rcases List.mem_union_iff.mp mem with mem | mem
      · exact (good .normal i (Option.mem_toList.mp mem)).1
      · exact (good .fault i (Option.mem_toList.mp mem)).1
  unfold Netlist.xidBackwardImpLimited xidBimpLimited
  dsimp only
  split
  · exact idle
  · cases c.type n with
    | AND | NAND | OR | NOR => exact targeted _ _ _
    | _ => exact idle

/-- A net of the X-path enqueues some of its inputs. -/
theorem Pushed.xidFpath (pushed : Pushed c k s t) (n : Nat) :
    ∃ l ≤ (c.ins n).length, Pushed c (k + Pi.single .bwd l) s (c.xidFpath n t) := by
  have start : Pushed c (k + Pi.single .bwd 0) s t := by rwa [Pi.single_zero, add_zero]
  have push : ∀ {l j : Nat} {u : XidState}, l ≤ j → Pushed c (k + Pi.single .bwd l) s u → ∀ i,
      ∃ l ≤ j + 1, Pushed c (k + Pi.single .bwd l) s (c.edPushXpath i u) :=
    fun {l _ _} le before i => ⟨l, by omega, before.edPushXpath i⟩
  have fill : ∀ {l j : Nat} {u : XidState}, l ≤ j → Pushed c (k + Pi.single .bwd l) s u → ∀ i v,
      ∃ l ≤ j + 1, Pushed c (k + Pi.single .bwd l) s (c.fillPush .bwd i v u) := by
    intro l j u le before i v
    have after := before.fillPush .bwd i v
    rw [add_assoc, ← Pi.single_add] at after
    have one := Bool.toNat_le (u.updated i v)
    exact ⟨_, by omega, after⟩
  have common : ∀ ctrlValue invertOutput, ∃ l ≤ (c.ins n).length,
      Pushed c (k + Pi.single .bwd l) s (c.gateCommonAndOrLike n ctrlValue invertOutput t) := by
    intro ctrlValue invertOutput
    rw [← List.length_zipIdx (l := c.ins n)]
    refine Loop.foldl_inv _
      (fun seen u => ∃ l ≤ seen.length, Pushed c (k + Pi.single .bwd l) s u) _ ⟨0, le_rfl, start⟩ ?_
    rintro seen p rest u - ⟨l, le, before⟩
    rw [List.length_append, List.length_singleton]
    split
    · exact push le before _
    · exact fill le before _ _
  unfold Netlist.xidFpath
  cases c.type n with
  | BUF | FOUT | INV => exact ⟨0, Nat.zero_le _, start.edPushXpath _⟩
  | AND | NAND | OR | NOR => exact common _ _
  | EXOR | EXNOR =>
      refine Loop.foldl_inv _
        (fun seen u => ∃ l ≤ seen.length, Pushed c (k + Pi.single .bwd l) s u) _ ⟨0, le_rfl, start⟩ ?_
      rintro seen i rest u - ⟨l, le, before⟩
      rw [List.length_append, List.length_singleton]
      split
      · exact fill le before _ _
      · exact push le before _
  | _ => exact ⟨0, Nat.zero_le _, start⟩

/-- The net that leaves the X-path is enqueued once at most on the forward queue, and the site once on the
backward queue. -/
theorem Pushed.xpathNet (pushed : Pushed c k s t) {net eventLev : Nat} {st' : XfillState}
    (run : c.xpathNet f net eventLev t = some st') :
    ∃ stem l, stem ≤ 1 ∧ l ≤ max 1 (c.ins net).length ∧
      Pushed c (k + Pi.single .fwd stem + Pi.single .bwd l) s st'.xid := by
  unfold Netlist.xpathNet at run
  dsimp only at run
  have first : ∃ stem ≤ 1, Pushed c (k + Pi.single .fwd stem) s
      (if 2 ≤ (c.outs net).length then c.enqueue .fwd net t else t) := by
    split
    · exact ⟨1, le_rfl, pushed.enqueue .fwd net⟩
    · exact ⟨0, Nat.zero_le 1, by rwa [Pi.single_zero, add_zero]⟩
  obtain ⟨stem, one, first⟩ := first
  split at run
  · obtain ⟨-, -, rfl⟩ := Option.map_eq_some_iff.mp run
    exact ⟨stem, 1, one, le_max_left _ _, (first.enqueue .bwd net).of_eq rfl rfl⟩
  · obtain ⟨l, le, after⟩ := first.xidFpath net
    obtain rfl := Option.some.inj run
    exact ⟨stem, l, one, le_max_of_le_right le, after⟩

/-! ### One pass -/

/-- The condition for room, queue by queue. -/
theorem Pushed.running_iff {fwd bwd jus : Nat} (pushed : Pushed c k s t) (running : s.exited = false)
    (atFwd : k .fwd = fwd) (atBwd : k .bwd = bwd) (atJus : k .jus = jus) :
    t.exited = false ↔ (s.queue .fwd).count + fwd ≤ c.nNet ∧ (s.queue .bwd).count + bwd ≤ c.nNet ∧
      (s.queue .jus).count + jus ≤ c.nNet := by
  rw [pushed.running, and_iff_right running, ← atFwd, ← atBwd, ← atJus]
  refine ⟨fun h => ⟨h .fwd, h .bwd, h .jus⟩, fun h q => ?_⟩
  cases q with
  | fwd => exact h.1
  | bwd => exact h.2.1
  | jus => exact h.2.2

theorem dequeue_counts {q : XidQueue} {n : Nat} {s₁ : XidState} (taken : c.dequeue q s = (n, s₁))
    (valid : ∀ q, (s.queue q).Valid c.nNet) : s₁.exited = s.exited ∧
      (∀ p, p ≠ q → (s₁.queue p).count = (s.queue p).count) ∧ ∀ p, (s₁.queue p).count ≤ c.nNet := by
  obtain rfl : s₁ = (c.dequeue q s).2 := (congrArg Prod.snd taken).symm
  have others : ∀ p, p ≠ q → (c.dequeue q s).2.queue p = s.queue p :=
    fun p other => Function.update_of_ne other _ _
  refine ⟨rfl, fun p other => by rw [others p other], fun p => ?_⟩
  by_cases here : p = q
  · subst here
    have same : (c.dequeue p s).2.queue p = ((s.queue p).dequeue c.nNet).2 := Function.update_self _ _ _
    rw [same]
    exact (Nat.sub_le _ _).trans (valid p).count_le
  · rw [others p here]
    exact (valid p).count_le

/-- A pass overflows a queue exactly when it begins without room. -/
theorem Room.pass {x : c.Assignment} {st st' : XfillState} (branched : c.Branched) (wf : c.WellFormed m)
    (hsite : f.netptr < c.nNet) (inv : XfillInv c f x g.normalScopeRequiredNet st)
    (running : st.xid.exited = false) (next : c.xfillingPass g f (some st) = some (some st')) :
    st'.xid.exited = false ↔ c.Room g f st := by
  have valid := inv.inv.queues
  have few : ∀ {n : Nat}, n < c.nNet → (c.ins n).length ≤ c.nNet := fun {n} hn =>
    length_le_nNet (branched.nodup n hn) (wf.insLt n hn)
  unfold Room
  cases served_of_pass next with
  | @fwd s s₁ eventLev t stopXpath more taken =>
      obtain ⟨_, _, deq, ht, -⟩ := dequeue_spec inv.inv more
      rw [taken, Prod.mk.injEq] at deq
      obtain ⟨rfl, rfl⟩ := deq
      obtain ⟨exited, -, low⟩ := dequeue_counts taken valid
      rw [if_pos more, taken]
      dsimp only
      rw [((Pushed.refl low).xidForwardImp branched wf ht g).running_iff (exited.trans running) rfl rfl rfl]
      simp [low]
  | @bwd s s₁ eventLev t stopXpath noFwd more taken =>
      obtain ⟨_, _, deq, ht, -⟩ := dequeue_spec inv.inv more
      rw [taken, Prod.mk.injEq] at deq
      obtain ⟨rfl, rfl⟩ := deq
      obtain ⟨exited, others, low⟩ := dequeue_counts taken valid
      have idle : (s₁.queue .fwd).count = 0 := (others .fwd (by decide)).trans noFwd
      -- a stem puts its fanouts on the forward queue, which is empty
      have after : ∃ l ≤ c.nNet, Pushed c (0 + Pi.single .bwd (c.newInputs f t s₁) +
          Pi.single .jus (c.severalInputs t (demanded f t s₁) s₁).toNat + Pi.single .fwd l) s₁
          (if 2 ≤ (c.outs t).length then c.xidForwardImp g t (c.xidBackwardImp f t s₁)
            else c.xidBackwardImp f t s₁) := by
        have back := (Pushed.refl low).xidBackwardImp wf ht (branched.nodup t ht) f
        split
        · exact ⟨_, (newFanouts_le g t _).trans
            (length_le_nNet (branched.outs_nodup wf ht) (wf.outsLt t ht)),
            back.xidForwardImp branched wf ht g⟩
        · exact ⟨0, Nat.zero_le _, by rwa [Pi.single_zero, add_zero]⟩
      obtain ⟨l, le, after⟩ := after
      rw [if_neg (not_not.mpr noFwd), if_pos more, taken]
      dsimp only
      rw [after.running_iff (exited.trans running) rfl rfl rfl]
      have room := low .jus
      cases c.severalInputs t (demanded f t s₁) s₁ <;> simp [idle, le, room]
  | @jus s s₁ eventLev t stopXpath noFwd noBwd shut more taken =>
      obtain ⟨_, _, deq, ht, -⟩ := dequeue_spec inv.inv more
      rw [taken, Prod.mk.injEq] at deq
      obtain ⟨rfl, rfl⟩ := deq
      obtain ⟨exited, others, low⟩ := dequeue_counts taken valid
      have idle : (s₁.queue .bwd).count = 0 := (others .bwd (by decide)).trans noBwd
      obtain ⟨l, le, after⟩ := (Pushed.refl low).xidBackwardImpLimited t f
      rw [if_neg (not_not.mpr noFwd), if_neg (not_not.mpr noBwd), iff_true,
        after.running_iff (exited.trans running) rfl rfl rfl]
      have := few ht
      simp [low, idle]
      omega
  | @xpath s eventLev net xidLev _ noFwd noBwd more taken run =>
      obtain ⟨net', q', level, pop, hn, -⟩ :=
        popXpath_spec (inv.inv.mono_path (fun n => c.level n ≤ eventLev) fun _ h => h.2) more
      rw [← level, taken, Option.some.injEq, Prod.mk.injEq] at pop
      obtain ⟨rfl, rfl⟩ := pop
      have low : ∀ q, (({ s with xidLev } : XidState).queue q).count ≤ c.nNet := fun q => (valid q).count_le
      have := few hn
      obtain ⟨stem, l, one, le, after⟩ := (Pushed.refl low).xpathNet run
      rw [if_neg (not_not.mpr noFwd), if_neg (not_not.mpr noBwd), iff_true,
        after.running_iff running rfl rfl rfl]
      simp [low, noFwd, noBwd]
      omega

/-! ### The runs -/

/-- The first two nets take no place, and the excitation net finds one. -/
theorem xfillingStart_exited (f : FNODE) (poId : Nat) (pos : 0 < c.nNet) :
    (c.xfillingStart f poId s).xid.exited = s.exited := by
  have reset : (resetQueues (c.edPushXpath f.netptr (c.edPushXpath poId s))).exited = s.exited := by
    change (c.edPushXpath f.netptr (c.edPushXpath poId s)).exited = s.exited
    rw [exited_edPushXpath, exited_edPushXpath]
  change (c.pushExcitation f (resetQueues (c.edPushXpath f.netptr (c.edPushXpath poId s)))).exited = s.exited
  rw [← reset]
  unfold pushExcitation
  cases f.excNetptr with
  | none => rfl
  | some e =>
      dsimp only
      unfold Netlist.fillPush
      split
      · rw [exited_enqueue]
        · rfl
        · exact pos
      · rfl

variable {x : c.Assignment} {start st st' : XfillState} {popped : List Nat} {ok ok' : XfillState → Prop}

theorem XfillRun.mono (weaker : ∀ st, ok st → ok' st) (run : XfillRun c g f ok start popped st) :
    XfillRun c g f ok' start popped st := by
  induction run with
  | start => exact .start
  | pass _ begin_ next ih => exact ih.pass (weaker _ begin_) next

/-- The states before and after a pass. -/
def XfillNext (c : Netlist) (g : Globals) (f : FNODE) (st st' : XfillState) : Prop :=
  c.xfillingPass g f (some st) = some (some st')

theorem XfillRun.reaches (run : XfillRun c g f ok start popped st) :
    Relation.ReflTransGen (XfillNext c g f) start st := by
  induction run with
  | start => exact .refl
  | pass _ _ next ih => exact ih.tail next

/-- The loop passes through every state that runs reach before it ends. -/
theorem XfillRun.later {popped' : List Nat} (run' : XfillRun c g f ok start popped' st')
    (run : XfillRun c g f ok start popped st) (ended : c.xfillingPass g f (some st) = none) :
    Relation.ReflTransGen (XfillNext c g f) st' st := by
  have unique : Relator.RightUnique (XfillNext c g f) := by
    intro a b b' step step'
    rw [XfillNext, step] at step'
    exact Option.some.inj (Option.some.inj step')
  rcases Relation.ReflTransGen.total_of_right_unique unique run'.reaches run.reaches with later | earlier
  · exact later
  · rcases Relation.ReflTransGen.cases_head earlier with rfl | ⟨b, more, -⟩
    · exact .refl
    · rw [XfillNext, ended] at more
      cases more

section Runs

variable (wf : c.WellFormed m) (hsite : f.netptr < c.nNet)
  (closed : ∀ n i, g.normalScopeRequiredNet n = true → i ∈ c.ins n → g.normalScopeRequiredNet i = true)
  (inv : XfillInv c f x g.normalScopeRequiredNet start) (path : PathInv c f [] start)

include wf hsite closed inv path

/-- An overflow is final. -/
theorem XfillRun.before (run : XfillRun c g f ok start popped st)
    (next : c.xfillingPass g f (some st) = some (some st')) (fits : st'.xid.exited = false) :
    st.xid.exited = false := by
  rw [← Bool.not_eq_true]
  intro exited
  rcases xfillingPass_spec wf hsite closed (run.spec wf hsite closed inv path).1 with
    ⟨st'', next', -, ext, -⟩ | ⟨exit, -⟩
  · rw [next] at next'
    cases next'
    rw [ext.exited exited] at fits
    cases fits
  · rw [next] at exit
    cases exit

/-- A run can go on, and an overflow stays. -/
theorem XfillRun.goes_on (run : XfillRun c g f (fun _ => True) start popped st)
    (later : Relation.ReflTransGen (XfillNext c g f) st st') :
    ∃ popped', XfillRun c g f (fun _ => True) start popped' st' ∧
      (st'.xid.exited = false → st.xid.exited = false) := by
  induction later with
  | refl => exact ⟨popped, run, id⟩
  | tail _ next ih =>
      obtain ⟨popped', reached, kept⟩ := ih
      exact ⟨_, reached.pass trivial next, fun fits =>
        kept (reached.before wf hsite closed inv path next fits)⟩

variable (branched : c.Branched) (running : start.xid.exited = false)

include branched running

/-- A run has not overflowed a queue exactly when each of its passes began with room. -/
theorem XfillRun.fits_iff (run : XfillRun c g f (fun _ => True) start popped st) :
    st.xid.exited = false ↔ XfillRun c g f (c.Room g f) start popped st := by
  constructor
  · intro fits
    induction run with
    | start => exact .start
    | pass before _ next ih =>
        have fits₁ := before.before wf hsite closed inv path next fits
        have inv₁ := (before.spec wf hsite closed inv path).1
        exact (ih fits₁).pass ((Room.pass branched wf hsite inv₁ fits₁ next).mp fits) next
  · intro run
    induction run with
    | start => exact running
    | pass before room next ih =>
        have inv₁ := (before.spec wf hsite closed inv path).1
        exact (Room.pass branched wf hsite inv₁ (ih (before.mono fun _ _ => trivial)) next).mpr room

/-- A run that has ended has passed through every state that runs reach. So it has overflowed no queue
exactly when all these states have room for the pass that begins there. -/
theorem XfillRun.ended_fits_iff (run : XfillRun c g f (fun _ => True) start popped st)
    (ended : c.xfillingPass g f (some st) = none) : st.xid.exited = false ↔
      ∀ popped st, XfillRun c g f (fun _ => True) start popped st → c.Room g f st := by
  constructor
  · intro fits popped' st' run'
    have inv' := (run'.spec wf hsite closed inv path).1
    rcases Relation.ReflTransGen.cases_head (run'.later run ended) with rfl | ⟨st'', next, later⟩
    · rcases xfillingPass_spec wf hsite closed inv' with ⟨_, next, -⟩ | ⟨-, empty, -⟩
      · rw [ended] at next
        cases next
      · rw [Room, if_neg (not_not.mpr (empty .fwd)), if_neg (not_not.mpr (empty .bwd))]
        trivial
    · obtain ⟨-, -, kept⟩ := (run'.pass trivial next).goes_on wf hsite closed inv path later
      have fits' := kept fits
      exact (Room.pass branched wf hsite inv' (run'.before wf hsite closed inv path next fits') next).mp
        fits'
  · intro room
    apply (run.fits_iff wf hsite closed inv path branched running).mpr
    clear ended
    induction run with
    | start => exact .start
    | pass before _ next ih => exact ih.pass (room _ _ before) next

end Runs

end Netlist

end SafRprGen
