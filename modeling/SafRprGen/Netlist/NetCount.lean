/-
Module: SafRprGen.Netlist.NetCount
Layer: Netlist
Purpose: The number of nets against the length of `nl[]`, which `alloc_nl` computes from the ports, the
  gates and their inputs. A signal that is neither declared nor driven is not in that sum, and its
  branches are: the array is overrun when such signals with fanout outnumber the cells that other signals
  leave unused.
Main exports: StaysInside, floatingFanouts, spareNets, staysInside_iff
-/
import SafRprGen.Netlist.Ports
import Mathlib.Algebra.BigOperators.Group.Finset.Piecewise
import Mathlib.Algebra.Order.BigOperators.Group.Finset

namespace SafRprGen

/-- `n_net` stays in `nl[]` while the signals are stored and while the pins are connected. -/
structure StaysInside (a : Accepted) : Prop where
  store : ∀ first, first <+: a.records →
    (storeSignal .empty first).2.nNet ≤ nlNum a.counts a.records
  connect : ∀ first, first <+: allUses a.gates → ∀ w,
    first.foldlM (fun w u => connectPin u.gate w (u.src, u.pin)) (allocNlInOut a.signals a.gates) =
      some w → w.nNet ≤ nlNum a.counts a.records

/-! ### Counting on names -/

/-- The names that the gates use. -/
def signalNames (records : List GateRecord) : Finset CStr :=
  (records.flatMap fun r => r.outName :: r.inName).toFinset

/-- The number of gate inputs with a name. -/
def nameUses (records : List GateRecord) (w : CStr) : Nat := (records.flatMap (·.inName)).count w

/-- The signal is no input and no gate drives it. -/
def isFloating (records : List GateRecord) (ports : List (Bool × CStr)) (w : CStr) : Bool :=
  w ∉ records.map (·.outName) && w ∉ inputsOf ports

/-- The signals without a driver that get branches. -/
def floatingFanouts (records : List GateRecord) (ports : List (Bool × CStr)) : Nat :=
  ((signalNames records).filter fun w =>
    isFloating records ports w = true ∧ 2 ≤ nameUses records w + (outputsOf ports).count w).card

/-- The cells of `nl[]` that nothing needs: of inputs declared again, of outputs that need no branch, and
of the use of a signal that has no other one. -/
def spareNets (counts : Counts) (records : List GateRecord) (ports : List (Bool × CStr)) : Nat :=
  (counts.nPi - (inputsOf ports).toFinset.card) +
    (counts.nPo - ∑ w ∈ signalNames records, min (nameUses records w) ((outputsOf ports).count w)) +
    ((signalNames records).filter fun w => isFloating records ports w = false ∧
      nameUses records w = 1 ∧ w ∉ outputsOf ports).card

/-! ### Names and numbers -/

variable {records : List GateRecord} {ports : List (Bool × CStr)} {s : Signals} {gates : List Wires}

/-- The signals are the names that the gates use. -/
theorem Loaded.signalNames_eq (loaded : Loaded records ports s gates) :
    signalNames records = (Finset.range s.nNet).image s.name := by
  have low := loaded.parsed.counted.low
  have uses := loaded.usesNamed
  have drivers := loaded.driversNamed
  ext w
  unfold signalNames
  rw [List.mem_toFinset, Finset.mem_image]
  have known : w ∈ (records.flatMap fun r => r.outName :: r.inName) ↔
      some w ∈ (records.flatMap (·.inName)).map some ∨ some w ∈ (records.map (·.outName)).map some := by
    simp only [List.mem_flatMap, List.mem_cons, List.mem_map, Option.some.injEq, exists_eq_right]
    constructor
    · rintro ⟨r, mem, rfl | isIn⟩
      · exact .inr ⟨r, mem, rfl⟩
      · exact .inl ⟨r, mem, isIn⟩
    · rintro (⟨r, mem, isIn⟩ | ⟨r, mem, rfl⟩)
      · exact ⟨r, mem, .inr isIn⟩
      · exact ⟨r, mem, .inl rfl⟩
  rw [known, ← uses, ← drivers, ← List.mem_append, ← List.map_append, List.mem_map]
  constructor
  · rintro ⟨n, mem, named⟩
    refine ⟨n, Finset.mem_range.mpr ((low n).mpr (List.mem_append.mp mem)), ?_⟩
    rw [Signals.name, List.getD_eq_getElem?_getD, named]
    rfl
  · rintro ⟨n, mem, rfl⟩
    have hn := Finset.mem_range.mp mem
    refine ⟨n, List.mem_append.mpr ((low n).mp hn), ?_⟩
    rw [Signals.name, List.getD_eq_getElem?_getD, List.getElem?_eq_getElem hn]
    rfl

theorem Loaded.name_injOn (loaded : Loaded records ports s gates) :
    Set.InjOn s.name (Finset.range s.nNet) := by
  intro n hn m hm same
  have hn := Finset.mem_range.mp (Finset.mem_coe.mp hn)
  have hm := Finset.mem_range.mp (Finset.mem_coe.mp hm)
  have isName := Signals.names_getElem? hn
  rw [same, ← Signals.names_getElem? hm] at isName
  exact (List.getElem?_inj hn loaded.parsed.counted.valid.nodup).mp isName

/-- A sum of the signals is one of their names. -/
theorem Loaded.sum_names (loaded : Loaded records ports s gates) (f : CStr → Nat) :
    ∑ n ∈ Finset.range s.nNet, f (s.name n) = ∑ w ∈ signalNames records, f w := by
  rw [loaded.signalNames_eq, Finset.sum_image fun n hn m hm => loaded.name_injOn hn hm]

/-! ### The number of nets -/

/-- Numbers below a bound and the others. -/
theorem sum_count_add (N : Nat) (xs : List Nat) :
    ∑ n ∈ Finset.range N, xs.count n + xs.countP (N ≤ ·) = xs.length := by
  induction xs with
  | nil => simp
  | cons x xs ih =>
      simp only [List.count_cons, List.countP_cons, List.length_cons, Finset.sum_add_distrib]
      have here : ∑ n ∈ Finset.range N, (if (x == n) = true then 1 else 0) =
          if x < N then 1 else 0 := by
        simp only [beq_iff_eq]
        rw [Finset.sum_ite_eq]
        simp
      rw [here]
      by_cases low : x < N
      · have high : ¬ N ≤ x := by omega
        simp only [low, high, decide_false, Bool.false_eq_true, if_true, if_false]
        omega
      · have high : N ≤ x := by omega
        simp only [low, high, decide_true, if_true, if_false]
        omega

/-- The uses of the signals with a property. -/
theorem countP_eq_sum (N : Nat) (p : Nat → Bool) {xs : List Nat} (low : ∀ x ∈ xs, x < N) :
    xs.countP p = ∑ n ∈ Finset.range N, if p n then xs.count n else 0 := by
  induction xs with
  | nil => simp
  | cons x xs ih =>
      have here : ∑ n ∈ Finset.range N, (if p n then (x :: xs).count n else 0) =
          ∑ n ∈ Finset.range N, ((if p n then xs.count n else 0) + if x = n then (if p x then 1 else 0)
            else 0) := by
        apply Finset.sum_congr rfl
        intro n _
        rw [List.count_cons]
        by_cases same : x = n
        · subst same
          by_cases holds : p x = true <;> simp [holds]
        · simp [same]
      rw [here, Finset.sum_add_distrib, ← ih fun x mem => low x (List.mem_cons_of_mem _ mem),
        Finset.sum_ite_eq, if_pos (Finset.mem_range.mpr (low x List.mem_cons_self)), List.countP_cons]

/-- The uses of a signal that get a branch each. -/
def fanUses (s : Signals) (n : Nat) : Nat := if single s n then 0 else s.parserArray false n

/-- A net for every signal, for every use that gets a branch and for every port that gets one. -/
theorem Parsed.nNet_eq (parsed : Parsed s gates) : (wired s gates).nNet =
    ∑ n ∈ Finset.range s.nNet, (1 + fanUses s n + min (s.po.count n) (fanUses s n)) := by
  have tally := parsed.tally
  have uses : (allUses gates).countP (fun u => !single s u.src) =
      ∑ n ∈ Finset.range s.nNet, fanUses s n := by
    have mapped : (allUses gates).countP (fun u => !single s u.src) =
        (usesOf gates).countP fun n => !single s n := by
      rw [← allUses_src, List.countP_map]
      rfl
    rw [mapped, countP_eq_sum s.nNet]
    · apply Finset.sum_congr rfl
      intro n _
      rw [fanUses, parsed.counted.used]
      cases single s n <;> rfl
    · intro n mem
      exact (parsed.counted.low n).mpr (.inl mem)
  have left : ∀ n ∈ Finset.range s.nNet,
      (wired s gates).po.count n = s.po.count n - fanUses s n := by
    intro n mem
    rw [tally.po n (Finset.mem_range.mp mem), fanUses, parsed.uses_eq]
    rfl
  have ports : (wired s gates).po.countP (s.nNet ≤ ·) =
      ∑ n ∈ Finset.range s.nNet, min (s.po.count n) (fanUses s n) := by
    have before := sum_count_add s.nNet s.po
    have after := sum_count_add s.nNet (wired s gates).po
    have none : s.po.countP (s.nNet ≤ ·) = 0 := by
      rw [List.countP_eq_zero]
      intro p mem high
      have := parsed.po p mem
      simp only [decide_eq_true_eq] at high
      omega
    have length : (wired s gates).po.length = s.po.length := parsed.shape.po.length_eq.symm
    have split : ∑ n ∈ Finset.range s.nNet, (wired s gates).po.count n +
        ∑ n ∈ Finset.range s.nNet, min (s.po.count n) (fanUses s n) =
          ∑ n ∈ Finset.range s.nNet, s.po.count n := by
      rw [← Finset.sum_add_distrib]
      apply Finset.sum_congr rfl
      intro n mem
      rw [left n mem]
      omega
    omega
  have start : (startOf s).nNet = s.nNet := rfl
  rw [tally.nNet, uses, start, ports, Finset.sum_add_distrib, Finset.sum_add_distrib]
  simp

/-- The nets that one signal needs, against what the array has for it. -/
theorem Loaded.balance (loaded : Loaded records ports s gates) {n : Nat} (low : n < s.nNet) :
    (1 + fanUses s n + min (s.po.count n) (fanUses s n)) +
        (if isFloating records ports (s.name n) = false ∧ nameUses records (s.name n) = 1 ∧
          s.name n ∉ outputsOf ports then 1 else 0) =
      (records.map (·.outName)).count (s.name n) + (if s.name n ∈ inputsOf ports then 1 else 0) +
        nameUses records (s.name n) +
        min (nameUses records (s.name n)) ((outputsOf ports).count (s.name n)) +
        if isFloating records ports (s.name n) = true ∧
          2 ≤ nameUses records (s.name n) + (outputsOf ports).count (s.name n) then 1 else 0 := by
  have isName := Signals.names_getElem? low
  have nodup := loaded.parsed.counted.valid.nodup
  have uses := (loaded.parsed.counted.used n).trans (count_named nodup loaded.usesNamed isName)
  have drivers := count_named nodup loaded.driversNamed isName
  have inputs := count_named nodup loaded.pi isName
  have outputs := count_named nodup loaded.po isName
  have driven := (List.nodup_iff_count_le_one.mp loaded.parsed.driversNodup) n
  have known := (loaded.parsed.counted.low n).mp low
  have clash : n ∈ s.pi → (driversOf gates).count n = 0 := fun mem =>
    List.count_eq_zero.mpr (loaded.parsed.piDriver n mem)
  have used : 0 < (usesOf gates).count n ∨ 0 < (driversOf gates).count n := by
    rw [List.count_pos_iff, List.count_pos_iff]
    exact known
  rw [← loaded.parsed.counted.used, uses] at used
  rw [drivers] at driven used clash
  rw [← List.count_pos_iff, inputs] at clash
  have floats : isFloating records ports (s.name n) = true ↔
      (records.map (·.outName)).count (s.name n) = 0 ∧ (inputsOf ports).count (s.name n) = 0 := by
    rw [isFloating, Bool.and_eq_true, decide_eq_true_eq, decide_eq_true_eq, List.count_eq_zero,
      List.count_eq_zero]
  have settled : isFloating records ports (s.name n) = false ↔
      ¬ ((records.map (·.outName)).count (s.name n) = 0 ∧ (inputsOf ports).count (s.name n) = 0) := by
    rw [← floats, Bool.not_eq_true]
  have isSingle : single s n = true ↔ (records.flatMap (·.inName)).count (s.name n) = 1 ∧
      (outputsOf ports).count (s.name n) = 0 := by
    rw [single, decide_eq_true_eq, allocNOut_eq, uses, outputs]
    split <;> omega
  have fan : fanUses s n = if (records.flatMap (·.inName)).count (s.name n) = 1 ∧
      (outputsOf ports).count (s.name n) = 0 then 0 else (records.flatMap (·.inName)).count (s.name n) := by
    unfold fanUses
    rw [uses]
    exact if_congr isSingle rfl rfl
  simp only [fan, outputs, nameUses, floats, settled, ← List.count_pos_iff]
  generalize (records.flatMap (·.inName)).count (s.name n) = u at *
  generalize (records.map (·.outName)).count (s.name n) = d at *
  generalize (inputsOf ports).count (s.name n) = i at *
  generalize (outputsOf ports).count (s.name n) = p at *
  split_ifs <;> omega

/-- Words among the names are as many as their counts say. -/
theorem sum_count_names {words : List CStr} (known : ∀ w ∈ words, w ∈ signalNames records) :
    ∑ w ∈ signalNames records, words.count w = words.length := by
  have counted := @Multiset.sum_count_eq_card _ _ (signalNames records) (words : Multiset CStr) known
  simp only [Multiset.coe_count, Multiset.coe_card] at counted
  convert counted using 3
  exact lawful_beq_subsingleton _ _

theorem Loaded.mem_names (loaded : Loaded records ports s gates) {nids : List Nat} {words : List CStr}
    (named : nids.map (s.table.names[·]?) = words.map some) : ∀ w ∈ words, w ∈ signalNames records := by
  intro w mem
  have isName : some w ∈ nids.map (s.table.names[·]?) := by
    rw [named]
    exact List.mem_map_of_mem mem
  obtain ⟨n, -, isName⟩ := List.mem_map.mp isName
  have low : n < s.nNet := (List.getElem?_eq_some_iff.mp isName).1
  rw [loaded.signalNames_eq, Finset.mem_image]
  rw [Signals.names_getElem? low] at isName
  exact ⟨n, Finset.mem_range.mpr low, Option.some.inj isName⟩

/-- The nets and the cells that nothing needs, against all cells. -/
theorem Loaded.nNet_le_iff {counts : Counts} (loaded : Loaded records ports s gates)
    (nModule : records.length = counts.nModule) (nPi : s.pi.length ≤ counts.nPi)
    (nPo : s.po.length = counts.nPo) : (wired s gates).nNet ≤ nlNum counts records ↔
      floatingFanouts records ports ≤ spareNets counts records ports := by
  have balance := Finset.sum_congr (rfl : Finset.range s.nNet = Finset.range s.nNet) fun n mem =>
    loaded.balance (Finset.mem_range.mp mem)
  have signals := loaded.parsed.nNet_eq
  rw [Finset.sum_add_distrib, ← signals, Finset.sum_add_distrib, Finset.sum_add_distrib,
    Finset.sum_add_distrib, Finset.sum_add_distrib,
    loaded.sum_names fun w => if isFloating records ports w = false ∧ nameUses records w = 1 ∧
      w ∉ outputsOf ports then 1 else 0,
    loaded.sum_names fun w => (records.map (·.outName)).count w,
    loaded.sum_names fun w => if w ∈ inputsOf ports then 1 else 0,
    loaded.sum_names fun w => nameUses records w,
    loaded.sum_names fun w => min (nameUses records w) ((outputsOf ports).count w),
    loaded.sum_names fun w => if isFloating records ports w = true ∧
      2 ≤ nameUses records w + (outputsOf ports).count w then 1 else 0,
    ← Finset.card_filter, ← Finset.card_filter, ← Finset.card_filter,
    sum_count_names (loaded.mem_names loaded.driversNamed)] at balance
  have uses : ∑ w ∈ signalNames records, nameUses records w = (records.map (·.inName.length)).sum := by
    have := sum_count_names (loaded.mem_names loaded.usesNamed)
    rw [List.length_flatMap] at this
    exact this
  have inputs : (signalNames records).filter (· ∈ inputsOf ports) = (inputsOf ports).toFinset := by
    ext w
    rw [Finset.mem_filter, List.mem_toFinset]
    exact and_iff_right_of_imp (loaded.mem_names loaded.pi w)
  have branches : ∑ w ∈ signalNames records, min (nameUses records w) ((outputsOf ports).count w) ≤
      (outputsOf ports).length := by
    rw [← sum_count_names (loaded.mem_names loaded.po)]
    exact Finset.sum_le_sum fun w _ => min_le_right _ _
  have piLength : (inputsOf ports).toFinset.card ≤ counts.nPi := by
    have same : s.pi.length = (inputsOf ports).length := by
      simpa using congrArg List.length loaded.pi
    have := List.toFinset_card_le (inputsOf ports)
    omega
  have poLength : s.po.length = (outputsOf ports).length := by
    simpa using congrArg List.length loaded.po
  rw [uses, inputs, List.length_map] at balance
  unfold floatingFanouts spareNets nlNum
  omega

/-! ### Every state -/

theorem connect_nNet_le (u : Use) (single : Nat → Bool) (v : Wired) :
    v.nNet ≤ (v.connect single u).nNet := by
  have one : (v.branch u).nNet = v.nNet + 1 := rfl
  have two : ∀ k, ((v.branch u).portBranch u.src k).nNet = v.nNet + 1 + 1 := fun _ => rfl
  unfold Wired.connect
  split
  · exact le_refl v.nNet
  · split
    · rw [two]
      omega
    · rw [one]
      omega

theorem foldl_connect_nNet_le (single : Nat → Bool) (uses : List Use) (v : Wired) :
    v.nNet ≤ (uses.foldl (Wired.connect single) v).nNet := by
  induction uses generalizing v with
  | nil => exact le_refl _
  | cons u uses ih => exact (connect_nNet_le u single v).trans (ih _)

theorem storeSignal_append (first rest : List GateRecord) (s : Signals) :
    (storeSignal s (first ++ rest)).2 = (storeSignal (storeSignal s first).2 rest).2 := by
  induction first generalizing s with
  | nil => rfl
  | cons r first ih =>
      rw [List.cons_append, storeSignal, storeSignal]
      exact ih _

/-- `nl[]` is not overrun exactly when the signals without a driver that get branches are at most as many
as the cells that nothing needs. -/
theorem staysInside_iff {text : List Char} {a : Accepted} (accepted : readFile text = .ok a) :
    ∃ ports, declaredPorts text = .ok ports ∧
      (StaysInside a ↔ floatingFanouts a.records ports ≤ spareNets a.counts a.records ports) := by
  obtain ⟨-, nModule, nPi, nPo, ports, declared, loaded⟩ := readFile_spec accepted
  refine ⟨ports, declared, ?_⟩
  rw [← loaded.nNet_le_iff nModule nPi nPo]
  constructor
  · intro inside
    obtain ⟨w, run, refines⟩ := loaded.parsed.connect_prefix (List.append_nil _).symm
    have low := inside.connect _ List.prefix_rfl w run
    rw [refines.nNet] at low
    exact low
  · intro low
    constructor
    · rintro first ⟨rest, split⟩
      obtain ⟨_, s₁, stored, -, -, counted⟩ := storeSignal_spec first counted_empty
      obtain ⟨_, s₂, stored', extends', -, -⟩ := storeSignal_spec rest counted
      have all : (storeSignal .empty a.records).2 = s₂ := by
        rw [← split, storeSignal_append, stored, stored']
      have most : s₁.nNet ≤ a.signals.nNet := by
        rw [Signals.nNet, Signals.nNet, loaded.table, all]
        exact extends'.names.length_le
      rw [stored]
      exact (most.trans (foldl_connect_nNet_le _ _ (startOf a.signals))).trans low
    · rintro first ⟨rest, split⟩ w run
      obtain ⟨w', run', refines⟩ := loaded.parsed.connect_prefix split.symm
      rw [run] at run'
      cases run'
      rw [refines.nNet]
      refine le_trans ?_ low
      rw [wired, ← split, List.foldl_append]
      exact foldl_connect_nNet_le _ _ _

/-- Two gates whose inputs are not declared. -/
def undeclaredText : List Char :=
  ("module m (z);\noutput z;\nAND2 U1 (.A(x), .B(y), .Z(w));\n" ++
    "AND2 U2 (.A(x), .B(y), .Z(z));\nendmodule\n").toList

/-- They need eight nets, and the array has seven. -/
theorem undeclaredText_overrun :
    ∃ a, readFile undeclaredText = .ok a ∧ ¬ StaysInside a := by
  have overrun : ((readFile undeclaredText).toOption.bind fun a =>
      ((allUses a.gates).foldlM (fun w u => connectPin u.gate w (u.src, u.pin))
        (allocNlInOut a.signals a.gates)).map fun w =>
          (nlNum a.counts a.records, w.nNet)) = some (7, 8) := by decide +kernel
  cases run : readFile undeclaredText with
  | error e =>
      rw [run] at overrun
      cases overrun
  | ok a =>
      rw [run] at overrun
      obtain ⟨w, connected, sizes⟩ := Option.map_eq_some_iff.mp overrun
      rw [Prod.mk.injEq] at sizes
      refine ⟨a, rfl, fun inside => ?_⟩
      have low := inside.connect _ List.prefix_rfl w connected
      omega

/-- A gate with declared inputs. -/
def declaredText : List Char :=
  "module m (a, b, z);\ninput a, b;\noutput z;\nAND2 U1 (.A(a), .B(b), .Z(z));\nendmodule\n".toList

theorem staysInside_declared :
    ∃ a, readFile declaredText = .ok a ∧ StaysInside a := by
  have records : ((readFile declaredText).toOption.map fun a => (a.counts, a.records)) = some
      (⟨1, 2, 1⟩, [⟨"U1".toList, .AND, "z".toList, ["a".toList, "b".toList]⟩]) := by decide +kernel
  have ports : declaredPorts declaredText = .ok [(true, "a".toList), (true, "b".toList),
      (false, "z".toList)] := by decide +kernel
  cases run : readFile declaredText with
  | error e =>
      rw [run] at records
      cases records
  | ok a =>
      rw [run] at records
      have sizes := Option.some.inj records
      rw [Prod.mk.injEq] at sizes
      obtain ⟨_, declared, inside⟩ := staysInside_iff run
      rw [ports] at declared
      cases declared
      refine ⟨a, rfl, inside.mpr ?_⟩
      rw [sizes.1, sizes.2]
      decide +kernel

end SafRprGen
