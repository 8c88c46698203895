/-
Module: SafRprGen.Netlist.Slots
Layer: Netlist
Purpose: `connection_signal` fills the slots that it has counted as `Wired` says. No search for a NULL slot
  runs past its array, every slot of `in` is filled, and a slot of `out` stays NULL exactly when a signal
  has more ports than uses.
Main exports: Refines, connectPin_refines
-/
import SafRprGen.Netlist.Wired

namespace SafRprGen

/-- The slots hold the entries and are NULL behind them. -/
def Filled (slots : List (Option Nat)) (entries : List Nat) : Prop :=
  ∃ free, slots = entries.map some ++ List.replicate free none

theorem filled_replicate (k : Nat) : Filled (List.replicate k none) [] := ⟨k, rfl⟩

theorem filled_map (entries : List Nat) : Filled (entries.map some) entries := ⟨0, by simp⟩

theorem Filled.length_le {slots : List (Option Nat)} {entries : List Nat} (h : Filled slots entries) :
    entries.length ≤ slots.length := by
  obtain ⟨free, rfl⟩ := h
  simp

/-- Slots without room are full. -/
theorem Filled.full {slots : List (Option Nat)} {entries : List Nat} (h : Filled slots entries)
    (same : slots.length = entries.length) : slots = entries.map some := by
  obtain ⟨free, rfl⟩ := h
  have zero : free = 0 := by simpa using same
  rw [zero, List.replicate_zero, List.append_nil]

theorem Filled.idxOf_none {slots : List (Option Nat)} {entries : List Nat} (h : Filled slots entries) :
    slots.idxOf none = entries.length := by
  obtain ⟨free, rfl⟩ := h
  have unset : none ∉ entries.map some := by simp
  rw [List.idxOf_append_of_notMem unset, List.length_map]
  cases free with
  | zero => rfl
  | succ free => simp [List.replicate_succ]

/-- The first NULL slot is the one behind the entries. -/
theorem Filled.fill {slots : List (Option Nat)} {entries : List Nat} (h : Filled slots entries)
    (room : entries.length < slots.length) (n : Nat) : ∃ slots', fillSlot slots n = some slots' ∧
      Filled slots' (entries ++ [n]) ∧ slots'.length = slots.length := by
  refine ⟨slots.set entries.length (some n), ?_, ?_, List.length_set⟩
  · rw [fillSlot, h.idxOf_none, if_pos room]
  · obtain ⟨free, rfl⟩ := h
    cases free with
    | zero => simp at room
    | succ free =>
        refine ⟨free, ?_⟩
        rw [List.set_append_right _ _ (by simp), List.length_map, Nat.sub_self, List.replicate_succ,
          List.set_cons_zero, List.map_append, List.append_assoc]
        rfl

/-! ### One pin -/

variable {w : Wiring} {gate : Wires} {src pin : Nat}

theorem connectionNoFout_spec {ins : List (Option Nat)}
    (fill : fillSlot (w.nl gate.outNid).ins src = some ins) : ∃ w', connectionNoFout gate src w = some w' ∧
      w'.nNet = w.nNet ∧ w'.po = w.po ∧ ∀ n, w'.nl n = ⟨(w.nl n).name,
        if n = gate.outNid then gate.type else (w.nl n).type,
        if n = gate.outNid then ins else (w.nl n).ins,
        if n = src then (w.nl n).outs.set 0 (some gate.outNid) else (w.nl n).outs⟩ := by
  have sameIns : ((w.set src { w.nl src with outs := (w.nl src).outs.set 0 (some gate.outNid) }).nl
      gate.outNid).ins = (w.nl gate.outNid).ins := by
    simp only [Wiring.set, Function.update_apply]
    split
    · rename_i here
      rw [here]
    · rfl
  unfold connectionNoFout Wiring.addIn
  dsimp only
  rw [sameIns, fill]
  refine ⟨_, rfl, rfl, rfl, fun n => ?_⟩
  simp only [Wiring.set, Function.update_apply]
  by_cases isOut : n = gate.outNid <;> by_cases isSrc : n = src <;> subst_vars <;> simp_all

theorem connectionYesFout_spec {ins outs : List (Option Nat)} (srcLt : src < w.nNet)
    (outLt : gate.outNid < w.nNet) (fillOuts : fillSlot (w.nl src).outs w.nNet = some outs)
    (fillIns : fillSlot (w.nl gate.outNid).ins w.nNet = some ins) :
    ∃ w', connectionYesFout gate pin src w = some w' ∧ w'.nNet = w.nNet + 1 ∧ w'.po = w.po ∧
      ∀ n, w'.nl n = if n = w.nNet then
          ⟨(w.nl src).name ++ '_' :: (w.nl gate.outNid).name ++ ['_', pinNameArray.getD pin ' '], .FOUT,
            [some src], [some gate.outNid]⟩
        else ⟨(w.nl n).name, if n = gate.outNid then gate.type else (w.nl n).type,
          if n = gate.outNid then ins else (w.nl n).ins, if n = src then outs else (w.nl n).outs⟩ := by
  have outNe : gate.outNid ≠ w.nNet := by omega
  have srcNe : src ≠ w.nNet := by omega
  unfold connectionYesFout Wiring.addOut Wiring.addIn
  simp only [Wiring.set, Function.update_of_ne srcNe, fillOuts, Option.map_some, Option.bind_some]
  have sameIns : ∀ node : Node, (Function.update (Function.update w.nl w.nNet node) src
      { w.nl src with outs } gate.outNid).ins = (w.nl gate.outNid).ins := by
    intro node
    simp only [Function.update_apply, if_neg outNe]
    split
    · rename_i here
      rw [here]
    · rfl
  rw [sameIns, fillIns]
  refine ⟨_, rfl, rfl, rfl, fun n => ?_⟩
  simp only [Function.update_apply]
  by_cases new : n = w.nNet
  · subst new
    simp [Ne.symm outNe, Ne.symm srcNe]
  · by_cases isOut : n = gate.outNid <;> by_cases isSrc : n = src <;> subst_vars <;> simp_all

theorem connectionPoFout_spec {outs : List (Option Nat)} (srcLt : src < w.nNet)
    (fillOuts : fillSlot (w.nl src).outs w.nNet = some outs) :
    ∃ w', connectionPoFout src w = some w' ∧ w'.nNet = w.nNet + 1 ∧ w'.po = w.po ∧
      ∀ n, w'.nl n = if n = w.nNet then ⟨(w.nl src).name, .FOUT, [some src], []⟩
        else if n = src then ⟨(w.nl src).name ++ "_stem".toList, (w.nl src).type, (w.nl src).ins, outs⟩
        else w.nl n := by
  have srcNe : src ≠ w.nNet := by omega
  unfold connectionPoFout Wiring.addOut
  simp only [Wiring.set, Function.update_of_ne srcNe, fillOuts, Option.map_some]
  refine ⟨_, rfl, rfl, rfl, fun n => ?_⟩
  simp only [Function.update_apply]
  by_cases new : n = w.nNet
  · subst new
    simp [Ne.symm srcNe]
  · by_cases isSrc : n = src
    · subst isSrc
      simp [new, Ne.symm srcNe]
    · simp [new, isSrc]

/-! ### Slots and edges -/

/-- The slots of the signals are filled with the edges, as many as there are slots at most; a branch has
no slot that is not filled. -/
structure Refines (nSignal : Nat) (capIn capOut : Nat → Nat) (w : Wiring) (v : Wired) : Prop where
  nNet : w.nNet = v.nNet
  po : w.po = v.po
  label : ∀ n < v.nNet, (w.nl n).name = v.name n ∧ (w.nl n).type = v.type n
  ins : ∀ n < nSignal, Filled (w.nl n).ins (v.ins n) ∧ (w.nl n).ins.length = capIn n
  outs : ∀ n < nSignal, Filled (w.nl n).outs (v.outs n) ∧ (w.nl n).outs.length = capOut n
  branch : ∀ n, nSignal ≤ n → n < v.nNet →
    (w.nl n).ins = (v.ins n).map some ∧ (w.nl n).outs = (v.outs n).map some

variable {v : Wired} {nSignal : Nat} {capIn capOut : Nat → Nat}

theorem Refines.direct (h : Refines nSignal capIn capOut w v)
    (srcLt : src < nSignal) (outLt : gate.outNid < nSignal)
    (roomIn : (v.ins gate.outNid).length < capIn gate.outNid) (unused : v.outs src = [])
    (one : capOut src = 1) : ∃ w', connectionNoFout gate src w = some w' ∧
      Refines nSignal capIn capOut w' (v.direct ⟨gate, pin, src⟩) := by
  obtain ⟨filled, cap⟩ := h.ins _ outLt
  obtain ⟨ins, fill, filled', length⟩ := filled.fill (cap ▸ roomIn) src
  obtain ⟨w', run, nNet, po, nl⟩ := connectionNoFout_spec fill
  refine ⟨w', run, nNet.trans h.nNet, po.trans h.po, fun n low => ?_, fun n low => ?_, fun n low => ?_,
    fun n high low => ?_⟩
  · obtain ⟨name, type⟩ := h.label n low
    rw [nl, Wired.direct_type]
    refine ⟨name, ?_⟩
    rw [type]
    rfl
  · rw [nl, Wired.direct_ins]
    change Filled (if n = gate.outNid then ins else (w.nl n).ins)
        (if n = gate.outNid then v.ins n ++ [src] else v.ins n) ∧
      (if n = gate.outNid then ins else (w.nl n).ins).length = capIn n
    by_cases here : n = gate.outNid
    · subst here
      rw [if_pos rfl, if_pos rfl]
      exact ⟨filled', length.trans cap⟩
    · rw [if_neg here, if_neg here]
      exact h.ins n low
  · rw [nl, Wired.direct_outs]
    change Filled (if n = src then (w.nl n).outs.set 0 (some gate.outNid) else (w.nl n).outs)
        (if n = src then v.outs n ++ [gate.outNid] else v.outs n) ∧
      (if n = src then (w.nl n).outs.set 0 (some gate.outNid) else (w.nl n).outs).length = capOut n
    by_cases here : n = src
    · subst here
      obtain ⟨⟨free, slots⟩, capEq⟩ := h.outs n low
      rw [unused, List.map_nil, List.nil_append] at slots
      have single : free = 1 := by
        rw [slots, List.length_replicate] at capEq
        omega
      rw [if_pos rfl, if_pos rfl, slots, single, unused, one]
      exact ⟨⟨0, rfl⟩, rfl⟩
    · rw [if_neg here, if_neg here]
      exact h.outs n low
  · rw [nl, Wired.direct_ins, Wired.direct_outs]
    have notOut : n ≠ gate.outNid := by omega
    have notSrc : n ≠ src := by omega
    change (if n = gate.outNid then ins else (w.nl n).ins) =
        (if n = gate.outNid then v.ins n ++ [src] else v.ins n).map some ∧
      (if n = src then (w.nl n).outs.set 0 (some gate.outNid) else (w.nl n).outs) =
        (if n = src then v.outs n ++ [gate.outNid] else v.outs n).map some
    rw [if_neg notOut, if_neg notOut, if_neg notSrc, if_neg notSrc]
    exact h.branch n high low

theorem Refines.branchUse (h : Refines nSignal capIn capOut w v) (signals : nSignal ≤ v.nNet)
    (linked : v.Linked) (srcLt : src < nSignal) (outLt : gate.outNid < nSignal)
    (roomIn : (v.ins gate.outNid).length < capIn gate.outNid)
    (roomOut : (v.outs src).length < capOut src) : ∃ w', connectionYesFout gate pin src w = some w' ∧
      Refines nSignal capIn capOut w' (v.branch ⟨gate, pin, src⟩) := by
  have nNetEq := h.nNet
  obtain ⟨filledIn, cap⟩ := h.ins _ outLt
  obtain ⟨ins, fillIn, filledIn', lengthIn⟩ := filledIn.fill (cap ▸ roomIn) w.nNet
  obtain ⟨filledOut, cap'⟩ := h.outs _ srcLt
  obtain ⟨outs, fillOut, filledOut', lengthOut⟩ := filledOut.fill (cap' ▸ roomOut) w.nNet
  obtain ⟨w', run, nNet, po, nl⟩ := connectionYesFout_spec (by omega) (by omega) fillOut fillIn
  have isIns := Wired.branch_ins (u := ⟨gate, pin, src⟩) linked (show gate.outNid < v.nNet by omega)
  have isOuts := Wired.branch_outs (u := ⟨gate, pin, src⟩) linked (show src < v.nNet by omega)
  have isType := Wired.branch_type (u := ⟨gate, pin, src⟩) (show gate.outNid < v.nNet by omega)
  have newNNet : (v.branch ⟨gate, pin, src⟩).nNet = v.nNet + 1 := rfl
  refine ⟨w', run, by omega, po.trans h.po, fun n low => ?_, fun n low => ?_, fun n low => ?_,
    fun n high low => ?_⟩
  · rw [nl, isType, nNetEq]
    have isName : (v.branch ⟨gate, pin, src⟩).name n =
        if n = v.nNet then v.branchName ⟨gate, pin, src⟩ else v.name n := by
      simp only [Wired.branch, Wired.setType, Wired.link, Wired.fresh, Function.update_apply]
    rw [isName]
    by_cases new : n = v.nNet
    · rw [if_pos new, if_pos new, if_pos new, (h.label src (by omega)).1,
        (h.label gate.outNid (by omega)).1]
      exact ⟨rfl, rfl⟩
    · rw [if_neg new, if_neg new, if_neg new]
      obtain ⟨name, type⟩ := h.label n (by omega)
      refine ⟨name, ?_⟩
      rw [type]
      rfl
  · rw [nl, isIns, nNetEq, if_neg (show n ≠ v.nNet by omega), if_neg (show n ≠ v.nNet by omega)]
    change Filled (if n = gate.outNid then ins else (w.nl n).ins)
        (if n = gate.outNid then v.ins n ++ [v.nNet] else v.ins n) ∧
      (if n = gate.outNid then ins else (w.nl n).ins).length = capIn n
    by_cases here : n = gate.outNid
    · subst here
      rw [if_pos rfl, if_pos rfl, ← nNetEq]
      exact ⟨filledIn', lengthIn.trans cap⟩
    · rw [if_neg here, if_neg here]
      exact h.ins n low
  · rw [nl, isOuts, nNetEq, if_neg (show n ≠ v.nNet by omega), if_neg (show n ≠ v.nNet by omega)]
    change Filled (if n = src then outs else (w.nl n).outs)
        (if n = src then v.outs n ++ [v.nNet] else v.outs n) ∧
      (if n = src then outs else (w.nl n).outs).length = capOut n
    by_cases here : n = src
    · subst here
      rw [if_pos rfl, if_pos rfl, ← nNetEq]
      exact ⟨filledOut', lengthOut.trans cap'⟩
    · rw [if_neg here, if_neg here]
      exact h.outs n low
  · rw [nl, isIns, isOuts, nNetEq]
    by_cases new : n = v.nNet
    · rw [if_pos new, if_pos new, if_pos new]
      exact ⟨rfl, rfl⟩
    · have notOut : n ≠ gate.outNid := by omega
      have notSrc : n ≠ src := by omega
      rw [if_neg new, if_neg new, if_neg new]
      change (if n = gate.outNid then ins else (w.nl n).ins) =
          (if n = gate.outNid then v.ins n ++ [v.nNet] else v.ins n).map some ∧
        (if n = src then outs else (w.nl n).outs) =
          (if n = src then v.outs n ++ [v.nNet] else v.outs n).map some
      rw [if_neg notOut, if_neg notOut, if_neg notSrc, if_neg notSrc]
      exact h.branch n high (by omega)

theorem Refines.portBranch (h : Refines nSignal capIn capOut w v) (signals : nSignal ≤ v.nNet)
    (linked : v.Linked) (srcLt : src < nSignal) (roomOut : (v.outs src).length < capOut src) (k : Nat) :
    ∃ w', connectionPoFout src { w with po := w.po.set k w.nNet } = some w' ∧
      Refines nSignal capIn capOut w' (v.portBranch src k) := by
  have nNetEq := h.nNet
  obtain ⟨filledOut, cap'⟩ := h.outs _ srcLt
  obtain ⟨outs, fillOut, filledOut', lengthOut⟩ := filledOut.fill (cap' ▸ roomOut) w.nNet
  obtain ⟨w', run, nNet, po, nl⟩ := connectionPoFout_spec
    (show src < ({ w with po := w.po.set k w.nNet } : Wiring).nNet by dsimp only; omega) fillOut
  have isIns := @Wired.portBranch_ins v src k linked
  have isOuts := @Wired.portBranch_outs v src k
  have isType := @Wired.portBranch_type v src k
  have newNNet : (v.portBranch src k).nNet = v.nNet + 1 := rfl
  have newPo : (v.portBranch src k).po = v.po.set k v.nNet := rfl
  dsimp only at nNet po nl
  refine ⟨w', run, by omega, by rw [po, newPo, h.po, nNetEq], fun n low => ?_, fun n low => ?_,
    fun n low => ?_, fun n high low => ?_⟩
  · have isName : (v.portBranch src k).name n = if n = src then v.name src ++ "_stem".toList
        else if n = v.nNet then v.name src else v.name n := by
      simp only [Wired.portBranch, Wired.link, Wired.fresh, Function.update_apply]
    rw [nl, isType, isName, nNetEq]
    by_cases new : n = v.nNet
    · rw [if_pos new, if_pos new, if_pos new, if_neg (by omega)]
      exact ⟨(h.label src (by omega)).1, rfl⟩
    · rw [if_neg new, if_neg new, if_neg new]
      by_cases here : n = src
      · rw [if_pos here, if_pos here, here, (h.label src (by omega)).1]
        exact ⟨rfl, (h.label src (by omega)).2⟩
      · rw [if_neg here, if_neg here]
        exact h.label n (by omega)
  · rw [nl, isIns, nNetEq, if_neg (show n ≠ v.nNet by omega), if_neg (show n ≠ v.nNet by omega)]
    by_cases here : n = src
    · rw [if_pos here, ← here]
      exact h.ins n low
    · rw [if_neg here]
      exact h.ins n low
  · rw [nl, isOuts, nNetEq, if_neg (show n ≠ v.nNet by omega)]
    by_cases here : n = src
    · rw [if_pos here, if_pos here, here, ← nNetEq]
      exact ⟨filledOut', lengthOut.trans cap'⟩
    · rw [if_neg here, if_neg here]
      exact h.outs n low
  · have notSrc : n ≠ src := by omega
    rw [nl, isIns, isOuts, nNetEq, if_neg notSrc, if_neg notSrc]
    by_cases new : n = v.nNet
    · subst new
      rw [if_pos rfl, if_pos rfl, (linked.beyond _ le_rfl).1]
      exact ⟨rfl, rfl⟩
    · rw [if_neg new, if_neg new]
      exact h.branch n high (by omega)

/-! ### All pins -/

/-- What the parser leaves: the signals that the gates use and drive, with their ports. -/
structure Parsed (s : Signals) (gates : List Wires) : Prop where
  counted : Counted s (usesOf gates) (driversOf gates)
  pi : ∀ p ∈ s.pi, p < s.nNet
  po : ∀ p ∈ s.po, p < s.nNet
  type : ∀ n, s.type n = if n ∈ s.pi then .IN else .UNSET
  driversNodup : (driversOf gates).Nodup
  piDriver : ∀ n ∈ s.pi, n ∉ driversOf gates

/-- The signals before they are connected. -/
def startOf (s : Signals) : Wired := ⟨s.nNet, s.name, s.type, fun _ => [], fun _ => [], s.po⟩

/-- The signal has one use and no port. -/
def single (s : Signals) (n : Nat) : Bool := allocNOut s n = 1

/-- The connected graph. -/
def wired (s : Signals) (gates : List Wires) : Wired :=
  (allUses gates).foldl (Wired.connect (single s)) (startOf s)

theorem connectionNSignal_eq (gates : List Wires) (w : Wiring) : connectionNSignal gates w =
    (allUses gates).foldlM (fun w u => connectPin u.gate w (u.src, u.pin)) w := by
  unfold connectionNSignal allUses
  rw [← Loop.foldlM_flatMap]
  congr
  funext w gate
  rw [List.foldlM_map]

theorem allocNOut_eq (s : Signals) (n : Nat) : allocNOut s n =
    s.parserArray false n + if 1 ≤ s.parserArray false n then s.po.count n else 0 := by
  unfold allocNOut
  generalize s.parserArray false = uses
  have general : ∀ (po : List Nat) (nOut : Nat → Nat), po.foldl
      (fun nOut p => if 1 ≤ uses p then Function.update nOut p (nOut p + 1) else nOut) nOut n =
        nOut n + if 1 ≤ uses n then po.count n else 0 := by
    intro po
    induction po with
    | nil => intro nOut; simp
    | cons p po ih =>
        intro nOut
        rw [List.foldl_cons, ih]
        by_cases here : n = p
        · subst here
          by_cases used : 1 ≤ uses n
          · simp only [if_pos used, Function.update_self, List.count_cons_self]
            omega
          · simp only [if_neg used]
        · have count : (p :: po).count n = po.count n := List.count_cons_of_ne (Ne.symm here)
          rw [count]
          by_cases used : 1 ≤ uses p
          · rw [if_pos used, Function.update_of_ne here]
          · rw [if_neg used]
  exact general s.po uses

theorem allocNIn_eq {gates : List Wires} (nodup : (driversOf gates).Nodup) {gate : Wires}
    (mem : gate ∈ gates) : allocNIn gates gate.outNid = gate.inNid.length := by
  unfold allocNIn
  have keep : ∀ (gates : List Wires) (nIn : Nat → Nat) (n : Nat), n ∉ driversOf gates →
      gates.foldl (fun nIn gate => Function.update nIn gate.outNid gate.inNid.length) nIn n = nIn n := by
    intro gates
    induction gates with
    | nil => intro nIn n _; rfl
    | cons g gates ih =>
        intro nIn n none
        rw [driversOf, List.map_cons, List.mem_cons, not_or] at none
        rw [List.foldl_cons, ih _ n none.2, Function.update_of_ne none.1]
  generalize (fun _ : Nat => 0) = nIn
  induction gates generalizing nIn with
  | nil => cases mem
  | cons g gates ih =>
      rw [driversOf, List.map_cons, List.nodup_cons] at nodup
      rw [List.foldl_cons]
      rcases List.mem_cons.mp mem with rfl | mem
      · rw [keep _ _ _ nodup.1, Function.update_self]
      · exact ih nodup.2 mem _

theorem allocNIn_none {gates : List Wires} {n : Nat} (none : n ∉ driversOf gates) :
    allocNIn gates n = 0 := by
  unfold allocNIn
  generalize zero : (fun _ : Nat => 0) = nIn
  have start : nIn n = 0 := by rw [← zero]
  clear zero
  induction gates generalizing nIn with
  | nil => exact start
  | cons g gates ih =>
      rw [driversOf, List.map_cons, List.mem_cons, not_or] at none
      rw [List.foldl_cons]
      exact ih none.2 _ (by rw [Function.update_of_ne none.1, start])

theorem mem_allUses {gates : List Wires} {u : Use} :
    u ∈ allUses gates ↔ u.gate ∈ gates ∧ u.gate.inNid[u.pin]? = some u.src := by
  unfold allUses
  rw [List.mem_flatMap]
  constructor
  · rintro ⟨gate, mem, isUse⟩
    obtain ⟨⟨src, pin⟩, isPin, rfl⟩ := List.mem_map.mp isUse
    exact ⟨mem, List.mem_zipIdx_iff_getElem?.mp isPin⟩
  · rintro ⟨mem, isPin⟩
    exact ⟨u.gate, mem, List.mem_map.mpr ⟨(u.src, u.pin), List.mem_zipIdx_iff_getElem?.mpr isPin, rfl⟩⟩

theorem allUses_src (gates : List Wires) : (allUses gates).map (·.src) = usesOf gates := by
  unfold allUses usesOf
  rw [List.map_flatMap]
  congr
  funext gate
  rw [List.map_map]
  exact List.zipIdx_map_fst 0 gate.inNid

/-- The pins of one gate. -/
def gateUses (gate : Wires) : List Use := allUses [gate]

theorem allUses_cons (gate : Wires) (gates : List Wires) :
    allUses (gate :: gates) = gateUses gate ++ allUses gates := by
  rw [gateUses, allUses, allUses, allUses, List.flatMap_cons, List.flatMap_singleton]

theorem mem_gateUses {gate : Wires} {u : Use} (isUse : u ∈ gateUses gate) : u.gate = gate :=
  List.mem_singleton.mp (mem_allUses.mp isUse).1

theorem gateUses_src (gate : Wires) : (gateUses gate).map (·.src) = gate.inNid := by
  rw [gateUses, allUses_src, usesOf, List.flatMap_singleton]

/-- The pins of a gate in order, when it is the only one that drives its net. -/
theorem allUses_out {gates : List Wires} (nodup : (driversOf gates).Nodup) {gate : Wires}
    (mem : gate ∈ gates) : ((allUses gates).filter fun u => u.out = gate.outNid).map (·.src) =
      gate.inNid := by
  induction gates with
  | nil => cases mem
  | cons g gates ih =>
      rw [driversOf, List.map_cons, List.nodup_cons] at nodup
      rw [allUses_cons, List.filter_append, List.map_append]
      rcases List.mem_cons.mp mem with rfl | mem
      · have own : (gateUses gate).filter (fun u => u.out = gate.outNid) = gateUses gate := by
          rw [List.filter_eq_self]
          intro u isUse
          rw [Use.out, mem_gateUses isUse]
          simp
        have none : (allUses gates).filter (fun u => u.out = gate.outNid) = [] := by
          rw [List.filter_eq_nil_iff]
          intro u isUse same
          have isGate := List.mem_map_of_mem (f := (·.outNid)) (mem_allUses.mp isUse).1
          exact nodup.1 (of_decide_eq_true same ▸ isGate)
        rw [own, none, List.map_nil, List.append_nil, gateUses_src]
      · have other : (gateUses g).filter (fun u => u.out = gate.outNid) = [] := by
          rw [List.filter_eq_nil_iff]
          intro u isUse same
          rw [Use.out, mem_gateUses isUse] at same
          exact nodup.1 (of_decide_eq_true same ▸ List.mem_map_of_mem mem)
        rw [other, List.map_nil, List.nil_append]
        exact ih nodup.2 mem

variable {s : Signals} {gates : List Wires}

theorem Parsed.src_lt (parsed : Parsed s gates) {u : Use} (mem : u ∈ allUses gates) : u.src < s.nNet := by
  rw [parsed.counted.low]
  left
  rw [← allUses_src]
  exact List.mem_map_of_mem mem

theorem Parsed.out_lt (parsed : Parsed s gates) {u : Use} (mem : u ∈ allUses gates) : u.out < s.nNet := by
  rw [parsed.counted.low]
  right
  exact List.mem_map_of_mem (mem_allUses.mp mem).1

theorem Parsed.start (parsed : Parsed s gates) :
    Wired.Start (startOf s) (single s) (allUses gates) where
  ins := fun _ => rfl
  outs := fun _ => rfl
  po := parsed.po
  src := fun _ mem => parsed.src_lt mem
  out := fun _ mem => parsed.out_lt mem

theorem Parsed.shape (parsed : Parsed s gates) :
    Wired.Shape (startOf s) (single s) (allUses gates) (wired s gates) :=
  (parsed.start.run (allUses gates) [] (by simp)).1

theorem Parsed.tally (parsed : Parsed s gates) :
    Wired.Tally (startOf s) (single s) (allUses gates) (wired s gates) :=
  (parsed.start.run (allUses gates) [] (by simp)).2

theorem Parsed.uses_eq (parsed : Parsed s gates) (n : Nat) :
    s.parserArray false n = (allUses gates).countP fun u => u.src = n := by
  rw [parsed.counted.used, ← allUses_src, List.count_eq_countP, List.countP_map]
  apply List.countP_congr
  intro u _
  simp [Function.comp]

/-- `n_out` counts the uses and the ports of a signal that has uses. -/
theorem Parsed.allocNOut_used (parsed : Parsed s gates) {u : Use} (mem : u ∈ allUses gates) :
    allocNOut s u.src = ((allUses gates).countP fun u' => u'.src = u.src) + s.po.count u.src := by
  have used : 1 ≤ s.parserArray false u.src := by
    rw [parsed.uses_eq]
    exact List.countP_pos_iff.mpr ⟨u, mem, by simp⟩
  rw [allocNOut_eq, if_pos used, parsed.uses_eq]

/-- Connecting the first pins never leaves the arrays and does what `Wired.connect` does. -/
theorem Parsed.connect_prefix (parsed : Parsed s gates) {first others : List Use}
    (all : allUses gates = first ++ others) :
    ∃ w, first.foldlM (fun w u => connectPin u.gate w (u.src, u.pin)) (allocNlInOut s gates) = some w ∧
      Refines s.nNet (allocNIn gates) (allocNOut s) w
        (first.foldl (Wired.connect (single s)) (startOf s)) := by
  have start : Refines s.nNet (allocNIn gates) (allocNOut s) (allocNlInOut s gates) (startOf s) :=
    { nNet := rfl
      po := rfl
      label := fun n _ => ⟨rfl, rfl⟩
      ins := fun n _ => ⟨filled_replicate _, List.length_replicate⟩
      outs := fun n _ => ⟨filled_replicate _, List.length_replicate⟩
      branch := fun n high low => absurd low (by change ¬ n < s.nNet; omega) }
  refine Loop.foldlM_inv _ (fun seen w => Refines s.nNet (allocNIn gates) (allocNOut s) w
    (seen.foldl (Wired.connect (single s)) (startOf s))) first start ?_
  intro seen u after w before refines
  generalize isRest : after ++ others = rest
  have split : allUses gates = seen ++ u :: rest := by
    rw [all, before, ← isRest, List.append_assoc, List.cons_append]
  have mem : u ∈ allUses gates := by rw [split]; simp
  have srcLt := parsed.src_lt mem
  have outLt : u.gate.outNid < s.nNet := parsed.out_lt mem
  obtain ⟨shape, tally⟩ := parsed.start.run seen (u :: rest) split
  rw [List.foldl_append, List.foldl_cons, List.foldl_nil]
  generalize seen.foldl (Wired.connect (single s)) (startOf s) = v at *
  have signals : s.nNet ≤ v.nNet := shape.signals
  -- the pins before this one leave room for it
  have roomIn : (v.ins u.gate.outNid).length < allocNIn gates u.gate.outNid := by
    have all := allUses_out parsed.driversNodup (mem_allUses.mp mem).1
    rw [allocNIn_eq parsed.driversNodup (mem_allUses.mp mem).1, ← all,
      ← (shape.ins _ outLt).length_eq, List.length_map, List.length_map, split, List.filter_append,
      List.length_append, List.filter_cons_of_pos (by simp [Use.out]), List.length_cons]
    simp only [Use.out]
    omega
  have cap := parsed.allocNOut_used mem
  have total : ((allUses gates).countP fun u' => u'.src = u.src) =
      (seen.countP fun u' => u'.src = u.src) + ((rest.countP fun u' => u'.src = u.src) + 1) := by
    rw [split, List.countP_append, List.countP_cons_of_pos (by simp)]
  have slots := (refines.outs _ srcLt).2
  unfold connectPin Wired.connect
  dsimp only
  rw [slots]
  by_cases one : allocNOut s u.src = 1
  · have none : v.outs u.src = [] := by
      rw [shape.outsSingle _ srcLt (by simp [single, one]), List.map_eq_nil_iff,
        ← List.length_eq_zero_iff, ← List.countP_eq_length_filter]
      omega
    rw [if_pos one, single, if_pos (by simp [one])]
    exact refines.direct srcLt outLt roomIn none one
  · have many : single s u.src = false := by simp [single, one]
    have edges := tally.outs _ srcLt many
    have isStart : (startOf s).po = s.po := rfl
    rw [isStart] at edges
    rw [if_neg one, if_pos (by omega), many, if_neg Bool.false_ne_true]
    have step : ∃ w', connectionYesFout u.gate u.pin u.src w = some w' ∧
        Refines s.nNet (allocNIn gates) (allocNOut s) w' (v.branch u) :=
      refines.branchUse signals shape.linked srcLt outLt roomIn (by omega)
    obtain ⟨w', run, refines'⟩ := step
    have same : (v.branch u).po = v.po := rfl
    rw [run, Option.bind_some, refines'.po, same]
    by_cases port : v.po.idxOf u.src < v.po.length
    · have some : 0 < v.po.count u.src :=
        List.count_pos_iff.mpr (List.idxOf_lt_length_iff.mp port)
      have shape' := shape.branchUse many srcLt outLt
      have outs' : ((v.branch u).outs u.src).length = (v.outs u.src).length + 1 := by
        rw [Wired.branch_outs shape.linked (by omega), if_neg (by omega), if_pos rfl,
          List.length_append, List.length_singleton]
      rw [if_pos port, if_pos port, ← same, ← refines'.po]
      exact refines'.portBranch shape'.signals shape'.linked srcLt (by omega) _
    · rw [if_neg port, if_neg port]
      exact ⟨w', rfl, refines'⟩

/-- `connection_signal` builds the connected graph. -/
theorem Parsed.connectionSignal (parsed : Parsed s gates) : ∃ w, connectionSignal s gates = some w ∧
    Refines s.nNet (allocNIn gates) (allocNOut s) w (wired s gates) := by
  unfold SafRprGen.connectionSignal
  rw [connectionNSignal_eq]
  exact parsed.connect_prefix (List.append_nil _).symm

end SafRprGen
