/-
Module: SafRprGen.Netlist.Signals
Layer: Netlist
Purpose: The signals of a netlist (`parser` of `netlist.c`). `store_signal` numbers the signal names in the
  order in which the gate records use them and counts uses and drivers, `hash_search_pi_po` looks up the
  ports, `analyze_asyntax_error` rejects a signal with two drivers.
Main exports: GateRecord, Signals, Wires, storeSignal, hashSearchPiPo, analyzeAsyntaxError, Stored
-/
import SafRprGen.Lib.NameTable
import SafRprGen.Netlist.Parse

namespace SafRprGen

open CText

/-- A record of `module_array` with all its pins; `m_n_in` is the number of input names. -/
structure GateRecord where
  nameIns : CStr
  type : GateType
  outName : CStr
  inName : List CStr
deriving DecidableEq, Repr

/-- A record is used only with all its pins set. -/
def ModuleRecord.complete (r : ModuleRecord) : Option GateRecord :=
  r.outName.bind fun outName => (r.inName.mapM id).map fun inName => ⟨r.nameIns, r.type, outName, inName⟩

/-- `HASH_SIZE`. -/
def hashSize : Nat := 5003

/-- A `char` as an `unsigned int`; `char` is signed. -/
def charKey (ch : Char) : UInt32 :=
  let byte := UInt32.ofNat (ch.toNat % 256)
  if byte < 128 then byte else byte - 256

/-- `hash_key`. Each of the two keys is computed from the other one, which is the key before it. -/
def hashKey (word : CStr) : Nat :=
  (word.foldl (fun key ch => 65599 * key + charKey ch) 0).toNat % hashSize

/-- The names and types of the nets, `parser_array` (`false` for inputs, `true` for outputs), the hash
table and the ports. -/
structure Signals where
  table : NameTable CStr
  parserArray : Bool → Nat → Nat
  type : Nat → GateType
  pi : List Nat
  po : List Nat

namespace Signals

/-- The state that `alloc_nl` and `alloc_hash_table` set up. -/
def empty : Signals := ⟨.empty, fun _ _ => 0, fun _ => .UNSET, [], []⟩

/-- `n_net` while the signals are stored. -/
def nNet (s : Signals) : Nat := s.table.names.length

/-- The name of a net. -/
def name (s : Signals) (n : Nat) : CStr := s.table.names.getD n []

/-- Write one cell of `parser_array`. -/
def setCount (s : Signals) (output : Bool) (n k : Nat) : Signals :=
  { s with
    parserArray :=
      Function.update s.parserArray output (Function.update (s.parserArray output) n k) }

/-- The search for a name in `store_signal`, which enters a name that is new. -/
def store (s : Signals) (output : Bool) (word : CStr) : Nat × Signals :=
  match s.table.search hashKey word with
  | some nid => (nid, s.setCount output nid (s.parserArray output nid + 1))
  | none =>
      (s.nNet, Signals.setCount { s with table := s.table.insert hashKey word } output s.nNet 1)

end Signals

/-- What `store_signal` adds to a record: `out_nid` and `in_nid`. -/
structure Wires where
  type : GateType
  outNid : Nat
  inNid : List Nat
deriving DecidableEq, Repr

/-- The inputs of a record in `store_signal`. -/
def storeInputs (s : Signals) : List CStr → List Nat × Signals
  | [] => ([], s)
  | word :: words =>
      let (nid, s) := s.store false word
      let (nids, s) := storeInputs s words
      (nid :: nids, s)

/-- One record in `store_signal`: the inputs and then the output. -/
def storeRecord (s : Signals) (r : GateRecord) : Wires × Signals :=
  let (inNid, s) := storeInputs s r.inName
  let (outNid, s) := s.store true r.outName
  (⟨r.type, outNid, inNid⟩, s)

/-- `store_signal`. -/
def storeSignal (s : Signals) : List GateRecord → List Wires × Signals
  | [] => ([], s)
  | r :: records =>
      let (gate, s) := storeRecord s r
      let (gates, s) := storeSignal s records
      (gate :: gates, s)

/-- `hash_search_pi_po`: `true` for an input, `false` for an output. -/
def hashSearchPiPo (input : Bool) (s : Signals) (word : CStr) : Except Stop Signals :=
  match s.table.search hashKey word with
  | none => .error (.error 3 word)
  | some nid =>
      if input then .ok { s with type := Function.update s.type nid .IN, pi := s.pi ++ [nid] }
      else .ok { s with po := s.po ++ [nid] }

/-- `analyze_asyntax_error`. -/
def analyzeAsyntaxError (s : Signals) : Except Stop Unit :=
  (List.range s.nNet).forM fun n =>
    if 1 ≤ s.parserArray true n ∧ s.type n = .IN then .error (.error 4 (s.name n))
    else if 2 ≤ s.parserArray true n then .error (.error 5 (s.name n))
    else .ok ()

/-! ### The signals that are stored -/

/-- What the gates of the records passed so far use and drive. -/
structure Counted (s : Signals) (uses drivers : List Nat) : Prop where
  valid : s.table.Valid hashKey
  used : ∀ n, s.parserArray false n = uses.count n
  driven : ∀ n, s.parserArray true n = drivers.count n
  low : ∀ n, n < s.nNet ↔ n ∈ uses ∨ n ∈ drivers

/-- Names keep their numbers, and types and ports are as before. -/
structure Extends (s s' : Signals) : Prop where
  names : s.table.names <+: s'.table.names
  type : s'.type = s.type
  pi : s'.pi = s.pi
  po : s'.po = s.po

theorem Extends.refl (s : Signals) : Extends s s := ⟨List.prefix_rfl, rfl, rfl, rfl⟩

theorem Extends.trans {s s' s'' : Signals} (h : Extends s s') (h' : Extends s' s'') : Extends s s'' :=
  ⟨h.names.trans h'.names, h'.type.trans h.type, h'.pi.trans h.pi, h'.po.trans h.po⟩

theorem Extends.getElem? {s s' : Signals} (h : Extends s s') {n : Nat} {w : CStr}
    (named : s.table.names[n]? = some w) : s'.table.names[n]? = some w := by
  obtain ⟨more, same⟩ := h.names
  rw [← same, List.getElem?_append_left (List.getElem?_eq_some_iff.mp named).1, named]

theorem counted_empty : Counted .empty [] [] where
  valid := NameTable.valid_empty
  used := fun n => rfl
  driven := fun n => rfl
  low := fun n => by simp [Signals.empty, Signals.nNet, NameTable.empty]

/-- One more use or driver. -/
theorem Signals.store_spec {s : Signals} {uses drivers : List Nat} (counted : Counted s uses drivers)
    (output : Bool) (word : CStr) : ∃ n s', s.store output word = (n, s') ∧ Extends s s' ∧
      s'.table.names[n]? = some word ∧
      Counted s' (if output then uses else uses ++ [n]) (if output then drivers ++ [n] else drivers) := by
  have one : ∀ (l : List Nat) (n k : Nat),
      (l ++ [n]).count k = if k = n then l.count n + 1 else l.count k := by
    intro l n k
    rw [List.count_append, List.count_singleton]
    by_cases here : k = n
    · subst here
      simp
    · rw [if_neg here, if_neg (by simpa using Ne.symm here), Nat.add_zero]
  have members : ∀ n k, (k ∈ uses ∨ k ∈ drivers) ∨ k = n ↔
      k ∈ (if output then uses else uses ++ [n]) ∨ k ∈ (if output then drivers ++ [n] else drivers) := by
    intro n k
    cases output <;> simp only [Bool.false_eq_true, if_false, if_true, List.mem_append,
      List.mem_singleton]
    · tauto
    · tauto
  have counts : ∀ (t : NameTable CStr) (n : Nat), ∀ k, k = s.parserArray output n + 1 →
      (∀ j, (Signals.setCount { s with table := t } output n k).parserArray false j =
        (if output then uses else uses ++ [n]).count j) ∧
      (∀ j, (Signals.setCount { s with table := t } output n k).parserArray true j =
        (if output then drivers ++ [n] else drivers).count j) := by
    rintro t n _ rfl
    cases output with
    | false =>
        refine ⟨fun j => ?_, fun j => by simpa [Signals.setCount] using counted.driven j⟩
        simp only [Signals.setCount, Function.update_self, Bool.false_eq_true, if_false, one]
        by_cases here : j = n
        · subst here
          rw [Function.update_self, if_pos rfl, counted.used]
        · rw [Function.update_of_ne here, if_neg here, counted.used]
    | true =>
        refine ⟨fun j => by simpa [Signals.setCount] using counted.used j, fun j => ?_⟩
        simp only [Signals.setCount, Function.update_self, if_true, one]
        by_cases here : j = n
        · subst here
          rw [Function.update_self, if_pos rfl, counted.driven]
        · rw [Function.update_of_ne here, if_neg here, counted.driven]
  unfold Signals.store
  cases found : s.table.search hashKey word with
  | some n =>
      have named := (NameTable.search_eq_some counted.valid).mp found
      have low : n < s.nNet := (List.getElem?_eq_some_iff.mp named).1
      obtain ⟨used, driven⟩ := counts s.table n _ rfl
      refine ⟨n, _, rfl, ⟨List.prefix_rfl, rfl, rfl, rfl⟩, named, counted.valid, used, driven, fun k => ?_⟩
      rw [← members, ← counted.low]
      constructor
      · exact .inl
      · rintro (h | rfl)
        · exact h
        · exact low
  | none =>
      have fresh := (NameTable.search_eq_none counted.valid).mp found
      have unused : ¬ (s.nNet ∈ uses ∨ s.nNet ∈ drivers) := by
        rw [← counted.low]
        exact lt_irrefl _
      rw [not_or] at unused
      have zero : s.parserArray output s.nNet = 0 := by
        cases output with
        | false => rw [counted.used, List.count_eq_zero.mpr unused.1]
        | true => rw [counted.driven, List.count_eq_zero.mpr unused.2]
      obtain ⟨used, driven⟩ := counts (s.table.insert hashKey word) s.nNet 1 (by rw [zero])
      refine ⟨s.nNet, _, rfl, ⟨List.prefix_append _ _, rfl, rfl, rfl⟩, ?_, counted.valid.insert fresh,
        used, driven, fun k => ?_⟩
      · change (s.table.names ++ [word])[s.table.names.length]? = some word
        simp
      · rw [← members, ← counted.low]
        change k < (s.table.names ++ [word]).length ↔ k < s.table.names.length ∨ k = s.table.names.length
        rw [List.length_append, List.length_singleton]
        omega

/-- The names of a gate's nets are those of its record. -/
structure Names (s : Signals) (r : GateRecord) (gate : Wires) : Prop where
  type : gate.type = r.type
  out : s.table.names[gate.outNid]? = some r.outName
  ins : gate.inNid.map (s.table.names[·]?) = r.inName.map some

theorem storeInputs_spec (words : List CStr) : ∀ {s : Signals} {uses drivers : List Nat},
    Counted s uses drivers → ∃ nids s', storeInputs s words = (nids, s') ∧ Extends s s' ∧
      nids.map (s'.table.names[·]?) = words.map some ∧ Counted s' (uses ++ nids) drivers := by
  induction words with
  | nil =>
      intro s uses drivers counted
      exact ⟨[], s, rfl, .refl s, rfl, by simpa using counted⟩
  | cons word words ih =>
      intro s uses drivers counted
      obtain ⟨n, s', first, extends', named, counted'⟩ := Signals.store_spec counted false word
      obtain ⟨nids, s'', rest, extends'', names, counted''⟩ := ih counted'
      refine ⟨n :: nids, s'', ?_, extends'.trans extends'', ?_, ?_⟩
      · rw [storeInputs, first]
        dsimp only
        rw [rest]
      · rw [List.map_cons, List.map_cons, names, extends''.getElem? named]
      · simpa using counted''

theorem storeRecord_spec (r : GateRecord) {s : Signals} {uses drivers : List Nat}
    (counted : Counted s uses drivers) : ∃ gate s', storeRecord s r = (gate, s') ∧ Extends s s' ∧
      Names s' r gate ∧ Counted s' (uses ++ gate.inNid) (drivers ++ [gate.outNid]) := by
  obtain ⟨nids, s', inputs, extends', names, counted'⟩ := storeInputs_spec r.inName counted
  obtain ⟨n, s'', output, extends'', named, counted''⟩ := Signals.store_spec counted' true r.outName
  refine ⟨⟨r.type, n, nids⟩, s'', ?_, extends'.trans extends'', ⟨rfl, named, ?_⟩, counted''⟩
  · rw [storeRecord, inputs]
    dsimp only
    rw [output]
  · rw [← names]
    apply List.map_congr_left
    intro nid mem
    have known : s'.table.names[nid]? ∈ r.inName.map some := by
      rw [← names]
      exact List.mem_map_of_mem mem
    obtain ⟨word, -, isName⟩ := List.mem_map.mp known
    rw [← isName]
    exact extends''.getElem? isName.symm

theorem Names.extends {s s' : Signals} {r : GateRecord} {gate : Wires} (names : Names s r gate)
    (h : Extends s s') : Names s' r gate := by
  refine ⟨names.type, h.getElem? names.out, ?_⟩
  rw [← names.ins]
  apply List.map_congr_left
  intro nid mem
  have known : s.table.names[nid]? ∈ r.inName.map some := by
    rw [← names.ins]
    exact List.mem_map_of_mem mem
  obtain ⟨word, -, isName⟩ := List.mem_map.mp known
  rw [← isName]
  exact h.getElem? isName.symm

/-- The uses of the signals, in the order in which they are connected. -/
def usesOf (gates : List Wires) : List Nat := gates.flatMap (·.inNid)

/-- The nets that gates drive. -/
def driversOf (gates : List Wires) : List Nat := gates.map (·.outNid)

theorem storeSignal_spec (records : List GateRecord) : ∀ {s : Signals} {uses drivers : List Nat},
    Counted s uses drivers → ∃ gates s', storeSignal s records = (gates, s') ∧ Extends s s' ∧
      List.Forall₂ (Names s') records gates ∧
      Counted s' (uses ++ usesOf gates) (drivers ++ driversOf gates) := by
  induction records with
  | nil =>
      intro s uses drivers counted
      exact ⟨[], s, rfl, .refl s, .nil, by simpa [usesOf, driversOf] using counted⟩
  | cons r records ih =>
      intro s uses drivers counted
      obtain ⟨gate, s', first, extends', names, counted'⟩ := storeRecord_spec r counted
      obtain ⟨gates, s'', rest, extends'', all, counted''⟩ := ih counted'
      refine ⟨gate :: gates, s'', ?_, extends'.trans extends'', .cons (names.extends extends'') all, ?_⟩
      · rw [storeSignal, first]
        dsimp only
        rw [rest]
      · simpa [usesOf, driversOf] using counted''

end SafRprGen
