/-
Module: SafRprGen.Fault.HashRange
Layer: Fault
Purpose: The range of `calcHash`. The sum of `hash.c` takes bytes from 128 up as negative, and the
  remainder keeps the sign, so a name of high bytes gives an index below the table. The index is a bucket
  exactly when the high bytes do not outweigh the rest, or the sum is a multiple of the table size.
Main exports: byteSum, highBytes, calcHash_isSome_iff, Bucketed, bucketed_iff
-/
import SafRprGen.Fault.FaultList
import SafRprGen.Netlist.ReadNet
import SafRprGen.Netlist.ExpandTdf

namespace SafRprGen

open CText

/-- The value of a byte. -/
def byte (ch : Char) : Nat := ch.toNat % 256

/-- The sum of the bytes of a text. -/
def byteSum (text : CStr) : Nat := (text.map byte).sum

/-- The number of bytes from 128 up. -/
def highBytes (text : CStr) : Nat := text.countP fun ch => decide (128 ≤ byte ch)

theorem signedChar_eq (ch : Char) :
    signedChar ch = (byte ch : Int) - 256 * (if 128 ≤ byte ch then 1 else 0 : Nat) := by
  unfold signedChar byte
  by_cases low : ch.toNat % 256 < 128
  · rw [if_pos low, if_neg (by omega)]
    simp
  · rw [if_neg low, if_pos (by omega)]
    simp

/-- The sum of `calcHash` takes 256 off for each high byte. -/
theorem foldl_signedChar (text : CStr) : ∀ start : Int,
    text.foldl (fun hashval ch => hashval + signedChar ch) start =
      start + byteSum text - 256 * highBytes text := by
  induction text with
  | nil => intro start; simp [byteSum, highBytes]
  | cons ch rest ih =>
      intro start
      rw [List.foldl_cons, ih, signedChar_eq]
      simp only [byteSum, highBytes, List.map_cons, List.sum_cons, List.countP_cons, decide_eq_true_eq]
      push_cast
      split <;> omega

/-- The index is in the table exactly when the sum is not negative or divides by the table size. -/
theorem calcHash_isSome_iff (buffer : CStr) :
    (∃ hash, calcHash buffer = some hash) ↔
      256 * highBytes buffer ≤ byteSum buffer ∨
        maxsizeHash ∣ 256 * highBytes buffer - byteSum buffer := by
  have sum := foldl_signedChar buffer 0
  unfold calcHash
  rw [sum, zero_add]
  by_cases low : 256 * highBytes buffer ≤ byteSum buffer
  · obtain ⟨n, eq⟩ : ∃ n : Nat, (byteSum buffer : Int) - 256 * highBytes buffer = n :=
      ⟨byteSum buffer - 256 * highBytes buffer, by omega⟩
    rw [eq]
    exact ⟨fun _ => .inl low, fun _ => ⟨n % maxsizeHash, rfl⟩⟩
  · obtain ⟨n, eq, pos⟩ : ∃ n : Nat, 256 * highBytes buffer - byteSum buffer = n ∧ 0 < n :=
      ⟨_, rfl, by omega⟩
    have negative : (byteSum buffer : Int) - 256 * highBytes buffer = -(n : Int) := by omega
    have rem : (-(n : Int)).tmod maxsizeHash = -((n % maxsizeHash : Nat) : Int) := by
      rw [Int.neg_tmod, ← Int.ofNat_tmod]
    rw [negative, eq, rem, or_iff_right low]
    constructor
    · rintro ⟨hash, found⟩
      apply Nat.dvd_of_mod_eq_zero
      cases here : n % maxsizeHash with
      | zero => rfl
      | succ k =>
          rw [here] at found
          cases found
    · intro divides
      rw [Nat.mod_eq_zero_of_dvd divides]
      exact ⟨0, rfl⟩

namespace Netlist

variable {c : Netlist} {m : FaultModel}

/-- What the table is used for: the hash of a line is a bucket, the node stored for the line is in that
bucket and met by the scans of all buckets, and the line finds it again, however many lines follow. -/
def Bucketed (c : Netlist) (m : FaultModel) (s : FaultState) (line : CStr) : Prop :=
  ∃ hash < maxsizeHash, calcHash (normalise line) = some hash ∧
    ∀ t, c.createFaultList m s line = some (true, t) →
      ∀ lines t', c.createFaultLists m lines t = some (true, t') →
        ∃ node ∈ t'.list hash, node.string = normalise line ∧ node ∈ scanFaults t' ∧
          c.createFaultList m t' line = some (true, t')

/-- A line that is in its bucket is found there. -/
theorem createFaultList_again {s : FaultState} {line : CStr} {hash : Nat} {node : FNODE}
    (hashed : calcHash (normalise line) = some hash) (mem : node ∈ s.list hash)
    (string : node.string = normalise line) : c.createFaultList m s line = some (true, s) := by
  have found : (s.list hash).any (fun node => node.string = normalise line) = true :=
    List.any_eq_true.mpr ⟨node, mem, decide_eq_true string⟩
  unfold createFaultList
  dsimp only
  rw [hashed, Option.map_some, if_pos found]

/-- The line of a call that succeeds is in its bucket. -/
theorem createFaultList_linked {s t : FaultState} {line : CStr} {hash : Nat}
    (hashed : calcHash (normalise line) = some hash)
    (run : c.createFaultList m s line = some (true, t)) :
    ∃ node ∈ t.list hash, node.string = normalise line := by
  unfold createFaultList at run
  dsimp only at run
  rw [hashed, Option.map_some] at run
  by_cases found : (s.list hash).any (fun node => node.string = normalise line) = true
  · rw [if_pos found] at run
    cases run
    obtain ⟨node, mem, same⟩ := List.any_eq_true.mp found
    exact ⟨node, mem, of_decide_eq_true same⟩
  · rw [if_neg found] at run
    cases created : c.createFaultNode m (normalise line) with
    | none =>
        rw [created] at run
        cases run
    | some node =>
        rw [created] at run
        cases run
        exact ⟨node, by simp, createFaultNode_string created⟩

/-- At any point of the loading the table serves a line exactly when the bytes of the normalised line give
an index in it. -/
theorem bucketed_iff {s₀ s : FaultState} {before : List CStr} (empty : s₀.list = fun _ => [])
    (run : c.createFaultLists m before s₀ = some (true, s)) (line : CStr) :
    Bucketed c m s line ↔
      256 * highBytes (normalise line) ≤ byteSum (normalise line) ∨
        maxsizeHash ∣ 256 * highBytes (normalise line) - byteSum (normalise line) := by
  have start : Stored c m s₀ := by
    constructor <;> simp [empty]
  obtain ⟨stored, -, -⟩ := createFaultLists_spec start run
  rw [← calcHash_isSome_iff]
  constructor
  · rintro ⟨hash, -, hashed, -⟩
    exact ⟨hash, hashed⟩
  · rintro ⟨hash, hashed⟩
    refine ⟨hash, calcHash_lt hashed, hashed, fun t run lines t' rest => ?_⟩
    obtain ⟨node, mem, string⟩ := createFaultList_linked hashed run
    obtain ⟨storedT, -, -⟩ := createFaultList_spec stored run
    obtain ⟨storedT', -, kept⟩ := createFaultLists_spec storedT rest
    have scanned : node ∈ scanFaults t' := (kept node).mpr (.inl (storedT.mem_scanFaults.mpr ⟨hash, mem⟩))
    obtain ⟨hash', mem'⟩ := storedT'.mem_scanFaults.mp scanned
    have same : hash' = hash := by
      have keyed := storedT'.keyed hash' node mem'
      rw [string, hashed] at keyed
      exact (Option.some.inj keyed).symm
    subst same
    exact ⟨node, mem', string, scanned, createFaultList_again hashed mem' string⟩

theorem bucketed_iff_and : Bucketed andNetlist .SAF emptyFaultState "a sa0\n".toList :=
  (@bucketed_iff andNetlist .SAF emptyFaultState emptyFaultState [] rfl rfl "a sa0\n".toList).mpr
    (.inl (by decide))

end Netlist

/-- An inverter whose input has a name of three bytes 128. -/
def highText : List Char :=
  ("module m (\x80\x80\x80, z);\ninput \x80\x80\x80;\noutput z;\n" ++
    "INV U1 (.A(\x80\x80\x80), .ZN(z));\nendmodule\n").toList

/-- A fault file with a fault of that input. -/
def highFaults : CStr := "\x80\x80\x80 sa0\n".toList

/-- The netlist and the fault file are accepted as far as the table, and the index of the fault is below
it. -/
theorem highFaults_unbucketed : ∃ net c, readNl highText = .ok net ∧ prepareCircuit .SAF net = some c ∧
    c.findNetByName "\x80\x80\x80".toList = some 0 ∧ Netlist.listedFaults highFaults = [highFaults] ∧
    (Netlist.createFaultNode c .SAF (normalise highFaults)).isSome = true ∧
    ∀ s, ¬ Netlist.Bucketed c .SAF s highFaults := by
  have computed : ((readNl highText).toOption.bind (prepareCircuit .SAF)).map
      (fun c => (c.findNetByName "\x80\x80\x80".toList,
        (Netlist.createFaultNode c .SAF (normalise highFaults)).isSome)) = some (some 0, true) := by
    decide +kernel
  have index : calcHash (normalise highFaults) = none := by decide +kernel
  cases read : readNl highText with
  | error e =>
      rw [read] at computed
      cases computed
  | ok net =>
      rw [read] at computed
      obtain ⟨c, prepared, both⟩ := Option.map_eq_some_iff.mp computed
      rw [Prod.mk.injEq] at both
      refine ⟨net, c, rfl, prepared, both.1, by decide +kernel, both.2, ?_⟩
      rintro s ⟨hash, -, hashed, -⟩
      rw [index] at hashed
      cases hashed

end SafRprGen
