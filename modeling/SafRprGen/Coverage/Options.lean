/-
Module: SafRprGen.Coverage.Options
Layer: Coverage
Purpose: The options of the coverage report (`coverage_options.c`). The list of pattern counts is read
  token by token, sorted, and kept without repetitions; the sums of the model rely on that order.
Main exports: CoverageConfig, setCoverageOption, readCounts_split, setPatternCounts_spec
-/
import SafRprGen.Lib.CText
import SafRprGen.Netlist.Basic
import Mathlib.Data.List.Sort

namespace SafRprGen

open CText

/-- `COVERAGE_MAX_PATTERN_COUNTS`. -/
def coverageMaxPatternCounts : Nat := 256

/-- `ULONG_MAX` of the target. -/
def ulongMax : Nat := 18446744073709551615

/-- `CoverageConfig`. -/
structure CoverageConfig where
  enabled : Bool
  patternCounts : List Nat
  withoutReplacement : Bool
  output : Option CStr
deriving DecidableEq, Repr

/-- `InitCoverageConfig`. -/
def initCoverageConfig : CoverageConfig := ⟨false, [], false, none⟩

/-- `ParsePatternCount`; a value above `ULONG_MAX` sets `errno`. -/
def parsePatternCount (text : CStr) : Option Nat :=
  if text.length = 0 || 32 ≤ text.length then none
  else if !text.all Char.isDigit then none
  else
    let count := digits text
    if count ≤ ulongMax ∧ 0 < count then some count else none

/-- The loop of `SetPatternCounts` that reads the tokens, with room for `room` more counts. -/
def readCounts : Nat → CStr → Option (List Nat)
  | 0, _ => none
  | room + 1, token =>
      (parsePatternCount (token.takeWhile (· != ','))).bind fun count =>
        match token.dropWhile (· != ',') with
        | [] => some [count]
        | _ :: rest => (readCounts room rest).map (count :: ·)

/-- The loop of `SetPatternCounts` that drops what repeats the count before it. -/
def dropRepeated : Option Nat → List Nat → List Nat
  | _, [] => []
  | last, count :: rest =>
      if last = some count then dropRepeated (some count) rest
      else count :: dropRepeated (some count) rest

/-- `SetPatternCounts`. -/
def setPatternCounts (config : CoverageConfig) (value : CStr) : Option CoverageConfig :=
  (readCounts coverageMaxPatternCounts value).map fun counts => { config with
    patternCounts := dropRepeated none (counts.insertionSort (· ≤ ·))
    enabled := true }

/-- `HasValue`. -/
def hasValue (value : Option CStr) : Bool :=
  value.any fun value => value != [] && value.head? != some '#' && value.head? != some '-'

/-- `SetCoverageOption`; the error is its message. -/
def setCoverageOption (config : CoverageConfig) (name : CStr) (value : Option CStr) :
    Except CStr CoverageConfig :=
  let error (text : String) : Except CStr CoverageConfig :=
    .error ("COMMAND ERROR: ".toList ++ name ++ text.toList)
  if name = "-calc_f".toList then
    match if hasValue value then value.bind (setPatternCounts config) else none with
    | some config => .ok config
    | none => error
        " requires positive integers separated by commas (e.g. 100,1000,10000; at most 256 values)\n"
  else if name = "-calc_f_nr".toList then
    if value = some "on".toList || value = some "1".toList then
      .ok { config with withoutReplacement := true }
    else if value = some "off".toList || value = some "0".toList then
      .ok { config with withoutReplacement := false }
    else error " requires on|off\n"
  else if hasValue value then .ok { config with output := value }
  else error " requires a value\n"

/-! ### The counts -/

theorem parsePatternCount_pos {text : CStr} {count : Nat} (parsed : parsePatternCount text = some count) :
    0 < count ∧ count ≤ ulongMax := by
  unfold parsePatternCount at parsed
  split at parsed
  · cases parsed
  · split at parsed
    · cases parsed
    · dsimp only at parsed
      split at parsed
      · rename_i inRange
        cases parsed
        exact ⟨inRange.2, inRange.1⟩
      · cases parsed

/-- Every requested count is positive. -/
theorem readCounts_pos : ∀ (room : Nat) {token : CStr} {counts : List Nat},
    readCounts room token = some counts → ∀ np ∈ counts, 0 < np := by
  intro room
  induction room with
  | zero => intro token counts run; cases run
  | succ room ih =>
      intro token counts run np mem
      obtain ⟨count, parsed, run⟩ := Option.bind_eq_some_iff.mp run
      have pos := (parsePatternCount_pos parsed).1
      split at run
      · cases run
        exact List.mem_singleton.mp mem ▸ pos
      · obtain ⟨more, rest, rfl⟩ := Option.map_eq_some_iff.mp run
        rcases List.mem_cons.mp mem with rfl | mem
        · exact pos
        · exact ih rest np mem

/-- What stays of a sorted list: its counts, each once, above the last one kept. -/
theorem dropRepeated_spec : ∀ {counts : List Nat} {last : Option Nat},
    counts.Pairwise (· ≤ ·) → (∀ l, last = some l → ∀ np ∈ counts, l ≤ np) →
      (dropRepeated last counts).Pairwise (· < ·) ∧
      (∀ l, last = some l → ∀ np ∈ dropRepeated last counts, l < np) ∧
      ∀ np, np ∈ dropRepeated last counts ↔ np ∈ counts ∧ last ≠ some np := by
  intro counts
  induction counts with
  | nil => intro last _ _; simp [dropRepeated]
  | cons count rest ih =>
      intro last sorted above
      obtain ⟨first, sorted⟩ := List.pairwise_cons.mp sorted
      obtain ⟨strict, low, mem⟩ := @ih (some count) sorted (by
        intro l eq np inRest
        cases eq
        exact first np inRest)
      unfold dropRepeated
      by_cases repeated : last = some count
      · subst repeated
        rw [if_pos rfl]
        refine ⟨strict, low, fun np => ?_⟩
        rw [mem, List.mem_cons]
        constructor
        · rintro ⟨inRest, ne⟩
          exact ⟨.inr inRest, ne⟩
        · rintro ⟨rfl | inRest, ne⟩
          · exact absurd rfl ne
          · exact ⟨inRest, ne⟩
      · rw [if_neg repeated]
        refine ⟨List.pairwise_cons.mpr ⟨low count rfl, strict⟩, ?_, fun np => ?_⟩
        · intro l eq np inRest
          subst eq
          have le : l ≤ count := above l rfl count List.mem_cons_self
          have ne : l ≠ count := fun same => repeated (by rw [same])
          rcases List.mem_cons.mp inRest with rfl | inRest
          · omega
          · have := low count rfl np inRest
            omega
        · rw [List.mem_cons, List.mem_cons, mem]
          constructor
          · rintro (rfl | ⟨inRest, ne⟩)
            · exact ⟨.inl rfl, repeated⟩
            · refine ⟨.inr inRest, fun same => ?_⟩
              have le : np ≤ count := above np same count List.mem_cons_self
              have ge := first np inRest
              exact ne (by rw [Nat.le_antisymm ge le])
          · rintro ⟨rfl | inRest, ne⟩
            · exact .inl rfl
            · by_cases same : np = count
              · exact .inl same
              · exact .inr ⟨inRest, fun eq => same (Option.some.inj eq).symm⟩

/-- The counts read are the values of the tokens between the commas. -/
theorem readCounts_split : ∀ (room : Nat) {token : CStr} {counts : List Nat},
    readCounts room token = some counts → (token.splitOn ',').mapM parsePatternCount = some counts := by
  intro room
  induction room with
  | zero => intro token counts run; cases run
  | succ room ih =>
      intro token counts run
      obtain ⟨count, parsed, run⟩ := Option.bind_eq_some_iff.mp run
      have split := @List.takeWhile_append_dropWhile _ (· != ',') token
      have noComma : ',' ∉ token.takeWhile (· != ',') := by
        intro mem
        have := List.mem_takeWhile_imp mem
        simp at this
      cases rest : token.dropWhile (· != ',') with
      | nil =>
          rw [rest] at run
          cases run
          rw [rest, List.append_nil] at split
          rw [split] at parsed noComma
          rw [List.splitOn_eq_singleton noComma]
          simp [parsed]
      | cons comma rest' =>
          rw [rest] at run
          obtain ⟨more, read, rfl⟩ := Option.map_eq_some_iff.mp run
          have isComma : comma = ',' := by
            have head := @List.head?_dropWhile_not _ (· != ',') token
            rw [rest] at head
            simpa using head
          subst isComma
          rw [rest] at split
          rw [← split, List.splitOn_append_cons_self_of_not_mem noComma, List.mapM_cons, parsed,
            Option.bind_eq_bind, Option.bind_some, ih read]
          rfl

/-- An accepted list is kept as its distinct counts in increasing order. -/
theorem setPatternCounts_spec {config config' : CoverageConfig} {value : CStr}
    (accepted : setPatternCounts config value = some config') :
    ∃ requested, (value.splitOn ',').mapM parsePatternCount = some requested ∧
      config'.patternCounts.Pairwise (· < ·) ∧
      (∀ np, np ∈ config'.patternCounts ↔ np ∈ requested) ∧ ∀ np ∈ config'.patternCounts, 0 < np := by
  obtain ⟨counts, read, rfl⟩ := Option.map_eq_some_iff.mp accepted
  have sorted : (counts.insertionSort (· ≤ ·)).Pairwise (· ≤ ·) := List.pairwise_insertionSort _ counts
  obtain ⟨strict, -, mem⟩ := @dropRepeated_spec _ none sorted (by simp)
  have same : ∀ np, np ∈ dropRepeated none (counts.insertionSort (· ≤ ·)) ↔ np ∈ counts := by
    intro np
    rw [mem, List.mem_insertionSort]
    simp
  exact ⟨counts, readCounts_split _ read, strict, same,
    fun np kept => readCounts_pos _ read np ((same np).mp kept)⟩

end SafRprGen
