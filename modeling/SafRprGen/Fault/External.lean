/-
Module: SafRprGen.Fault.External
Layer: Fault
Purpose: The file of external equivalences (`ReadExternalEquivalences`). Every line is blank, a comment or
  a pair of fault references; anything else, or a NUL byte, is an error. The pairs are merged in order.
Main exports: readExternalEquivalences, FaultReference, EquivLine, readExternalEquivalences_iff
-/
import SafRprGen.Fault.Equivalence
import SafRprGen.Lib.CText
import Mathlib.Data.Char
import Mathlib.Data.List.Lex

namespace SafRprGen

open CText

namespace Netlist

variable (c : Netlist)

/-- `strcmp`. -/
def strcmp (a b : CStr) : Ordering := if a < b then .lt else if a = b then .eq else .gt

/-- `sorted_nets`: the nets in the order of their names. -/
def sortedNets : List Nat := (List.range c.nNet).mergeSort fun a b => decide (c.name a ≤ c.name b)

/-- The `bsearch` for a name in `sorted_nets`. -/
def searchSorted (name : CStr) : Option (Option Nat) :=
  (bsearch c.nNet fun i => strcmp name (c.name (c.sortedNets.getD i 0))).map fun found =>
    found.map fun i => c.sortedNets.getD i 0

/-- `ParseFaultReference`; the inner `none` is its `false`. -/
def parseFaultReference (text : CStr) : Option (Option Nat) :=
  match splitLast '/' (strip text) with
  | none => some none
  | some (name, value) =>
      if name.isEmpty || (value != ['0'] && value != ['1']) then some none
      else
        (c.searchSorted name).map fun match_ =>
          match_.map fun net => faultId net (if value = ['0'] then .SF0 else .SF1)

/-- The body of the loop of `ReadExternalEquivalences`; the Boolean is false after an error. -/
def readEquivalenceLine (s : FaultState) (line : CStr) : Option (Bool × FaultState) :=
  if Char.ofNat 0 ∈ line then some (false, s)
  else
    let pair := strip line
    if pair.isEmpty || pair.head? == some '#' then some (true, s)
    else
      match splitFirst ',' pair with
      | none => some (false, s)
      | some (first, second) =>
          if ',' ∈ second then some (false, s)
          else
            (c.parseFaultReference first).bind fun firstFault =>
              match firstFault with
              | none => some (false, s)
              | some a =>
                  (c.parseFaultReference second).bind fun secondFault =>
                    match secondFault with
                    | none => some (false, s)
                    | some b => (c.mergeFaults s a b).map fun s =>
                        (true, { s with stats.inputPairs := s.stats.inputPairs + 1 })

/-- The loop, stopped by an error. -/
def readEquivalenceLines : List CStr → FaultState → Option (Bool × FaultState)
  | [], s => some (true, s)
  | line :: lines, s =>
      (c.readEquivalenceLine s line).bind fun (success, s) =>
        if success then readEquivalenceLines lines s else some (false, s)

/-- `ReadExternalEquivalences` on the contents of a file that can be read. -/
def readExternalEquivalences (s : FaultState) (input : CStr) : Option (Bool × FaultState) :=
  c.readEquivalenceLines (getlines input) s

variable {c}

/-! ### The grammar -/

/-- `name/0` or `name/1` between white space, for an existing net. -/
def FaultReference (c : Netlist) (text : CStr) (id : Nat) : Prop :=
  ∃ name net, name ≠ [] ∧ net < c.nNet ∧ c.name net = name ∧
    ((Stripped text (name ++ ['/', '0']) ∧ id = faultId net .SF0) ∨
      (Stripped text (name ++ ['/', '1']) ∧ id = faultId net .SF1))

/-- A line without NUL that is blank or a comment. -/
def IgnoredLine (line : CStr) : Prop :=
  Char.ofNat 0 ∉ line ∧ ∃ core, Stripped line core ∧ (core = [] ∨ core.head? = some '#')

/-- A line without NUL that is neither blank nor a comment and has exactly one comma, between two
references. -/
def PairLine (c : Netlist) (line : CStr) (pair : Nat × Nat) : Prop :=
  Char.ofNat 0 ∉ line ∧ ∃ first second, Stripped line (first ++ ',' :: second) ∧
    (first ++ ',' :: second).head? ≠ some '#' ∧ ',' ∉ first ∧ ',' ∉ second ∧
    c.FaultReference first pair.1 ∧ c.FaultReference second pair.2

/-- The lines are ignored or give these pairs, in order. -/
inductive EquivLines (c : Netlist) : List CStr → List (Nat × Nat) → Prop where
  | nil : EquivLines c [] []
  | ignored {line : CStr} {lines : List CStr} {pairs : List (Nat × Nat)} :
      IgnoredLine line → EquivLines c lines pairs → EquivLines c (line :: lines) pairs
  | pair {line : CStr} {lines : List CStr} {p : Nat × Nat} {pairs : List (Nat × Nat)} :
      c.PairLine line p → EquivLines c lines pairs → EquivLines c (line :: lines) (p :: pairs)

/-! ### The search in the sorted index -/

/-- Net names identify nets. -/
def NamesDistinct (c : Netlist) : Prop := ∀ a < c.nNet, ∀ b < c.nNet, c.name a = c.name b → a = b

theorem strcmp_eq_lt {a b : CStr} : strcmp a b = .lt ↔ a < b := by
  unfold strcmp
  split
  · simp [*]
  · split <;> simp [*]

theorem strcmp_eq_eq {a b : CStr} : strcmp a b = .eq ↔ a = b := by
  unfold strcmp
  split
  · rename_i less
    simp [less.ne]
  · split <;> simp [*]

theorem strcmp_eq_gt {a b : CStr} : strcmp a b = .gt ↔ b < a := by
  unfold strcmp
  split
  · rename_i less
    simp [less.le]
  · split
    · rename_i same
      simp [same]
    · rename_i notLess ne
      simp [lt_of_le_of_ne (not_lt.mp notLess) (Ne.symm ne)]

/-- The search finds the net with the name, if there is one. -/
theorem searchSorted_spec (name : CStr) :
    ∃ r, c.searchSorted name = some r ∧ (∀ net ∈ r, net < c.nNet ∧ c.name net = name) ∧
      (r = none → ∀ net < c.nNet, c.name net ≠ name) := by
  have sorted : c.sortedNets.Pairwise fun a b => c.name a ≤ c.name b := by
    have h := @List.pairwise_mergeSort _ (fun a b => decide (c.name a ≤ c.name b))
      (fun a b d h h' => by simp only [decide_eq_true_eq] at h h' ⊢; exact h.trans h')
      (fun a b => by simpa using le_total (c.name a) (c.name b)) (List.range c.nNet)
    simpa [sortedNets] using h
  have perm : c.sortedNets.Perm (List.range c.nNet) := List.mergeSort_perm _ _
  have length : c.sortedNets.length = c.nNet := by rw [perm.length_eq, List.length_range]
  have order : ∀ i j, i < j → j < c.nNet →
      c.name (c.sortedNets.getD i 0) ≤ c.name (c.sortedNets.getD j 0) := by
    intro i j less hj
    have hj : j < c.sortedNets.length := by omega
    rw [List.getD_eq_getElem _ _ (less.trans hj), List.getD_eq_getElem _ _ hj]
    exact List.pairwise_iff_getElem.mp sorted i j _ hj less
  obtain ⟨r, run, hit, miss⟩ :=
    @bsearch_spec c.nNet (fun i => strcmp name (c.name (c.sortedNets.getD i 0)))
      (fun i j less hj h => strcmp_eq_lt.mpr ((strcmp_eq_lt.mp h).trans_le (order i j less hj)))
      (fun i j less hj h => strcmp_eq_gt.mpr ((order i j less hj).trans_lt (strcmp_eq_gt.mp h)))
  refine ⟨r.map fun i => c.sortedNets.getD i 0, by rw [searchSorted, run]; rfl, ?_, ?_⟩
  · intro net hnet
    obtain ⟨i, found, rfl⟩ := Option.map_eq_some_iff.mp hnet
    obtain ⟨hi, equal⟩ := hit i found
    have hi : i < c.sortedNets.length := by omega
    refine ⟨?_, (strcmp_eq_eq.mp equal).symm⟩
    rw [List.getD_eq_getElem _ _ hi]
    exact List.mem_range.mp (perm.mem_iff.mp (List.getElem_mem hi))
  · intro none net hnet same
    have mem := perm.mem_iff.mpr (List.mem_range.mpr hnet)
    obtain ⟨i, hi, here⟩ := List.getElem_of_mem mem
    apply miss (Option.map_eq_none_iff.mp none) i (by omega)
    rw [strcmp_eq_eq, List.getD_eq_getElem _ _ hi, here, same]

/-! ### References and lines -/

theorem FaultReference.lt {text : CStr} {id : Nat} (h : c.FaultReference text id) :
    id < c.faultCount := by
  obtain ⟨name, net, -, hnet, -, ⟨-, rfl⟩ | ⟨-, rfl⟩⟩ := h
  · exact faultId_lt hnet _
  · exact faultId_lt hnet _

/-- `ParseFaultReference` accepts exactly the references, with their net and polarity. -/
theorem parseFaultReference_spec (distinct : c.NamesDistinct) (text : CStr) :
    ∃ r, c.parseFaultReference text = some r ∧ ∀ id, r = some id ↔ c.FaultReference text id := by
  have unfolds : ∀ {id}, c.FaultReference text id ↔ ∃ name net value, name ≠ [] ∧ net < c.nNet ∧
      c.name net = name ∧ strip text = name ++ '/' :: value ∧
      ((value = ['0'] ∧ id = faultId net .SF0) ∨ (value = ['1'] ∧ id = faultId net .SF1)) := by
    intro id
    constructor
    · rintro ⟨name, net, some, hnet, same, ⟨core, rfl⟩ | ⟨core, rfl⟩⟩
      · exact ⟨name, net, ['0'], some, hnet, same, stripped_iff.mp core, .inl ⟨rfl, rfl⟩⟩
      · exact ⟨name, net, ['1'], some, hnet, same, stripped_iff.mp core, .inr ⟨rfl, rfl⟩⟩
    · rintro ⟨name, net, value, some, hnet, same, core, ⟨rfl, rfl⟩ | ⟨rfl, rfl⟩⟩
      · exact ⟨name, net, some, hnet, same, .inl ⟨stripped_iff.mpr core, rfl⟩⟩
      · exact ⟨name, net, some, hnet, same, .inr ⟨stripped_iff.mpr core, rfl⟩⟩
  unfold parseFaultReference
  rcases @splitLast_spec '/' (strip text) with ⟨found, notIn⟩ | ⟨name, value, found, core, notIn⟩
  · refine ⟨none, by rw [found], fun id => ⟨fun h => (by cases h), fun h => ?_⟩⟩
    obtain ⟨name, net, value, -, -, -, core, -⟩ := unfolds.mp h
    rw [core] at notIn
    exact absurd (List.mem_append_right name List.mem_cons_self) notIn
  · rw [found]
    dsimp only
    -- the reference has the same last slash
    have parts : ∀ {name' value' : CStr}, strip text = name' ++ '/' :: value' →
        value' = ['0'] ∨ value' = ['1'] → name' = name ∧ value' = value := by
      intro name' value' core' isDigit
      have split : splitLast '/' (strip text) = some (name', value') :=
        splitLast_eq_some.mpr ⟨core', by rcases isDigit with rfl | rfl <;> decide⟩
      rw [found] at split
      cases split
      exact ⟨rfl, rfl⟩
    by_cases bad : (name.isEmpty || (value != ['0'] && value != ['1'])) = true
    · refine ⟨none, by rw [if_pos bad], fun id => ⟨fun h => (by cases h), fun h => ?_⟩⟩
      obtain ⟨name', net, value', ne, -, -, core', digit⟩ := unfolds.mp h
      obtain ⟨rfl, rfl⟩ := parts core' (digit.imp (·.1) (·.1))
      rcases digit with ⟨rfl, -⟩ | ⟨rfl, -⟩ <;> simp [ne] at bad
    · rw [if_neg bad]
      simp only [Bool.or_eq_true, List.isEmpty_iff, Bool.and_eq_true, bne_iff_ne, not_or, not_and,
        not_not] at bad
      obtain ⟨ne, digit⟩ := bad
      obtain ⟨r, run, hit, miss⟩ := c.searchSorted_spec name
      refine ⟨_, by rw [run]; rfl, fun id => ?_⟩
      constructor
      · intro h
        obtain ⟨net, rfl, rfl⟩ := Option.map_eq_some_iff.mp h
        obtain ⟨hnet, same⟩ := hit net rfl
        refine unfolds.mpr ⟨name, net, value, ne, hnet, same, core, ?_⟩
        by_cases zero : value = ['0']
        · exact .inl ⟨zero, by rw [if_pos zero]⟩
        · exact .inr ⟨digit zero, by rw [if_neg zero]⟩
      · intro h
        obtain ⟨name', net, value', -, hnet, same, core', digit⟩ := unfolds.mp h
        obtain ⟨rfl, rfl⟩ := parts core' (digit.imp (·.1) (·.1))
        cases r with
        | none => exact absurd same (miss rfl net hnet)
        | some net' =>
            obtain ⟨hnet', same'⟩ := hit net' rfl
            have isNet := distinct net' hnet' net hnet (same'.trans same.symm)
            subst isNet
            rcases digit with ⟨rfl, rfl⟩ | ⟨rfl, rfl⟩ <;> rfl

theorem IgnoredLine.not_pair {line : CStr} (ignored : IgnoredLine line) (p : Nat × Nat) :
    ¬ c.PairLine line p := by
  rintro ⟨-, first, second, core, notComment, -⟩
  obtain ⟨-, core', stripped, blank⟩ := ignored
  rw [← stripped_iff.mp stripped, stripped_iff.mp core] at blank
  rcases blank with empty | comment
  · simp at empty
  · exact notComment comment

theorem FaultReference.unique (distinct : c.NamesDistinct) {text : CStr} {id id' : Nat}
    (h : c.FaultReference text id) (h' : c.FaultReference text id') : id = id' := by
  obtain ⟨r, -, iff⟩ := parseFaultReference_spec distinct text
  exact Option.some.inj (((iff id).mpr h).symm.trans ((iff id').mpr h'))

theorem PairLine.unique (distinct : c.NamesDistinct) {line : CStr} {p p' : Nat × Nat}
    (h : c.PairLine line p) (h' : c.PairLine line p') : p = p' := by
  obtain ⟨-, first, second, core, -, notFirst, -, isA, isB⟩ := h
  obtain ⟨-, first', second', core', -, notFirst', -, isA', isB'⟩ := h'
  have same := (stripped_iff.mp core).symm.trans (stripped_iff.mp core')
  have split : splitFirst ',' (first ++ ',' :: second) = some (first', second') :=
    splitFirst_eq_some.mpr ⟨same, notFirst'⟩
  rw [splitFirst_eq_some.mpr ⟨rfl, notFirst⟩] at split
  cases split
  exact Prod.ext (isA.unique distinct isA') (isB.unique distinct isB')

/-- What one line does. -/
private structure LineRead (c : Netlist) (s : FaultState) (line : CStr) (ok : Bool) (s' : FaultState) :
    Prop where
  accepted : ok = true → (IgnoredLine line ∧ s' = s) ∨ ∃ p forest, c.PairLine line p ∧
    UnionFind.merge c.faultCount s.forest p.1 p.2 = some forest ∧
    s' = { s with forest, stats.inputPairs := s.stats.inputPairs + 1 }
  rejected : ok = false → ¬ IgnoredLine line ∧ ∀ p, ¬ c.PairLine line p

private theorem readEquivalenceLine_spec (distinct : c.NamesDistinct) {pairs : List (Nat × Nat)}
    {s : FaultState} (rep : UnionFind.Represents c.faultCount pairs s.forest) (line : CStr) :
    ∃ ok s', c.readEquivalenceLine s line = some (ok, s') ∧ LineRead c s line ok s' := by
  unfold readEquivalenceLine
  by_cases nul : Char.ofNat 0 ∈ line
  · rw [if_pos nul]
    exact ⟨false, s, rfl, ⟨fun h => (by cases h), fun _ => ⟨fun h => h.1 nul, fun _ h => h.1 nul⟩⟩⟩
  rw [if_neg nul]
  dsimp only
  by_cases blank : ((strip line).isEmpty || (strip line).head? == some '#') = true
  · rw [if_pos blank]
    refine ⟨true, s, rfl, ⟨fun _ => .inl ⟨⟨nul, strip line, stripped_strip line, ?_⟩, rfl⟩,
      fun h => by cases h⟩⟩
    simpa using blank
  rw [if_neg blank]
  have notIgnored : ¬ IgnoredLine line := by
    rintro ⟨-, core, stripped, isBlank⟩
    rw [stripped_iff.mp stripped] at blank
    exact blank (by simpa using isBlank)
  -- a pair line splits at its only comma
  have parts : ∀ {p}, c.PairLine line p → ∃ first second, splitFirst ',' (strip line) =
      some (first, second) ∧ ',' ∉ second ∧ c.FaultReference first p.1 ∧
      c.FaultReference second p.2 := by
    rintro p ⟨-, first, second, core, -, notFirst, notSecond, refs⟩
    exact ⟨first, second, splitFirst_eq_some.mpr ⟨stripped_iff.mp core, notFirst⟩, notSecond, refs⟩
  have reject : (∀ p, ¬ c.PairLine line p) → LineRead c s line false s := fun none =>
    ⟨fun h => (by cases h), fun _ => ⟨notIgnored, none⟩⟩
  cases comma : splitFirst ',' (strip line) with
  | none =>
      refine ⟨false, s, rfl, reject fun p h => ?_⟩
      obtain ⟨first, second, found, -⟩ := parts h
      rw [comma] at found
      cases found
  | some found =>
      obtain ⟨first, second⟩ := found
      dsimp only
      have known : ∀ {p}, c.PairLine line p → ',' ∉ second ∧ c.FaultReference first p.1 ∧
          c.FaultReference second p.2 := by
        intro p h
        obtain ⟨first', second', found, rest⟩ := parts h
        rw [comma] at found
        cases found
        exact rest
      by_cases more : ',' ∈ second
      · rw [if_pos more]
        exact ⟨false, s, rfl, reject fun p h => (known h).1 more⟩
      rw [if_neg more]
      obtain ⟨a, runA, refA⟩ := parseFaultReference_spec distinct first
      obtain ⟨b, runB, refB⟩ := parseFaultReference_spec distinct second
      rw [runA, Option.bind_some]
      cases a with
      | none =>
          refine ⟨false, s, rfl, reject fun p h => ?_⟩
          cases (refA p.1).mpr (known h).2.1
      | some a =>
          dsimp only
          rw [runB, Option.bind_some]
          cases b with
          | none =>
              refine ⟨false, s, rfl, reject fun p h => ?_⟩
              cases (refB p.2).mpr (known h).2.2
          | some b =>
              have isA := (refA a).mp rfl
              have isB := (refB b).mp rfl
              obtain ⟨forest, merged, -⟩ := rep.merge isA.lt isB.lt
              obtain ⟨core, notFirst⟩ := splitFirst_eq_some.mp comma
              simp only [Bool.or_eq_true, beq_iff_eq, not_or] at blank
              refine ⟨true, _, by simp only [mergeFaults, merged, Option.map_some]; rfl, ?_⟩
              exact ⟨fun _ => .inr ⟨(a, b), forest, ⟨nul, first, second,
                core ▸ stripped_strip line, core ▸ blank.2, notFirst, more, isA, isB⟩, merged, rfl⟩,
                fun h => by cases h⟩

/-- The loop accepts exactly the files whose lines are ignored or pairs, and merges the pairs. -/
private theorem readEquivalenceLines_spec (distinct : c.NamesDistinct) (lines : List CStr) :
    ∀ {pairs : List (Nat × Nat)} {s : FaultState},
      UnionFind.Represents c.faultCount pairs s.forest →
      ∃ ok s', c.readEquivalenceLines lines s = some (ok, s') ∧
        (ok = true ↔ ∃ more, c.EquivLines lines more) ∧
        ∀ more, c.EquivLines lines more →
          UnionFind.mergeAll c.faultCount s.forest more = some s'.forest ∧
          UnionFind.Represents c.faultCount (pairs ++ more) s'.forest ∧
          s' = { s with
            forest := s'.forest, stats.inputPairs := s.stats.inputPairs + more.length } := by
  induction lines with
  | nil =>
      intro pairs s rep
      refine ⟨true, s, rfl, by simp only [true_iff]; exact ⟨[], .nil⟩, fun more h => ?_⟩
      cases h
      exact ⟨rfl, by rwa [List.append_nil], rfl⟩
  | cons line lines ih =>
      intro pairs s rep
      obtain ⟨ok, s₁, run, read⟩ := readEquivalenceLine_spec distinct rep line
      unfold readEquivalenceLines
      rw [run, Option.bind_some]
      cases ok with
      | false =>
          obtain ⟨notIgnored, notPair⟩ := read.rejected rfl
          have none : ∀ more, ¬ c.EquivLines (line :: lines) more := by
            intro more h
            cases h with
            | ignored here _ => exact notIgnored here
            | pair here _ => exact notPair _ here
          refine ⟨false, s₁, rfl, ⟨fun h => (by cases h), ?_⟩, fun more h => absurd h (none more)⟩
          rintro ⟨more, h⟩
          exact absurd h (none more)
      | true =>
          dsimp only
          rw [if_pos rfl]
          rcases read.accepted rfl with ⟨ignored, rfl⟩ | ⟨p, forest, isPair, merged, rfl⟩
          · obtain ⟨ok, s', rest, iff, spec⟩ := ih rep
            refine ⟨ok, s', rest, iff.trans ⟨?_, ?_⟩, ?_⟩
            · rintro ⟨more, h⟩
              exact ⟨more, .ignored ignored h⟩
            · rintro ⟨more, h⟩
              cases h with
              | ignored _ h => exact ⟨more, h⟩
              | pair here _ => exact absurd here (ignored.not_pair _)
            · intro more h
              cases h with
              | ignored _ h => exact spec more h
              | pair here _ => exact absurd here (ignored.not_pair _)
          · have rep₁ : UnionFind.Represents c.faultCount (pairs ++ [p]) forest := by
              obtain ⟨-, _, _, -, -, -, -, isA, isB⟩ := isPair
              obtain ⟨forest', merged', rep'⟩ := rep.merge isA.lt isB.lt
              rw [merged] at merged'
              cases merged'
              exact rep'
            obtain ⟨ok, s', rest, iff, spec⟩ := @ih (pairs ++ [p]) { s with
              forest, stats.inputPairs := s.stats.inputPairs + 1 } rep₁
            refine ⟨ok, s', rest, iff.trans ⟨?_, ?_⟩, ?_⟩
            · rintro ⟨more, h⟩
              exact ⟨p :: more, .pair isPair h⟩
            · rintro ⟨more, h⟩
              cases h with
              | ignored here _ => exact absurd isPair (here.not_pair _)
              | pair _ h => exact ⟨_, h⟩
            · intro more h
              cases h with
              | ignored here _ => exact absurd isPair (here.not_pair _)
              | @pair _ _ p' more here h =>
                  obtain rfl := isPair.unique distinct here
                  obtain ⟨all, rep', frame⟩ := spec more h
                  refine ⟨?_, by simpa using rep', ?_⟩
                  · unfold UnionFind.mergeAll at all ⊢
                    rw [List.foldlM_cons, merged]
                    exact all
                  · rw [frame]
                    simp only [List.length_cons]
                    congr 2
                    omega

/-- The file is in the grammar line by line. -/
theorem equivLines_iff (lines : List CStr) :
    (∃ more, c.EquivLines lines more) ↔
      ∀ line ∈ lines, IgnoredLine line ∨ ∃ p, c.PairLine line p := by
  induction lines with
  | nil => exact ⟨fun _ line h => absurd h List.not_mem_nil, fun _ => ⟨[], .nil⟩⟩
  | cons line lines ih =>
      rw [List.forall_mem_cons, ← ih]
      constructor
      · rintro ⟨more, h⟩
        cases h with
        | ignored here h => exact ⟨.inl here, _, h⟩
        | pair here h => exact ⟨.inr ⟨_, here⟩, _, h⟩
      · rintro ⟨here | ⟨p, here⟩, more, h⟩
        · exact ⟨more, .ignored here h⟩
        · exact ⟨p :: more, .pair here h⟩

/-- The calls of the reader are those of `MergeFaults` for the listed pairs. -/
theorem readExternalEquivalences_spec (distinct : c.NamesDistinct) {pairs : List (Nat × Nat)}
    {s : FaultState} (rep : UnionFind.Represents c.faultCount pairs s.forest) (input : CStr) :
    ∃ ok s', c.readExternalEquivalences s input = some (ok, s') ∧
      (ok = true ↔ ∃ more, c.EquivLines (getlines input) more) ∧
      ∀ more, c.EquivLines (getlines input) more →
        UnionFind.mergeAll c.faultCount s.forest more = some s'.forest ∧
        UnionFind.Represents c.faultCount (pairs ++ more) s'.forest ∧
        s' = { s with
          forest := s'.forest, stats.inputPairs := s.stats.inputPairs + more.length } :=
  readEquivalenceLines_spec distinct (getlines input) rep

/-- The reader accepts exactly the files of the grammar. Afterwards the classes are the equivalence closure
of the earlier pairs and the listed ones, and `input_pairs` has grown by their number. -/
theorem readExternalEquivalences_iff (k : Circuit) (distinct : k.netlist.NamesDistinct) (opt : Opt)
    (model : opt.faultModel = k.model) (s s₀ t : FaultState)
    (init : k.netlist.initFaultEquivalence opt s = some (true, s₀)) (calls : List EquivCall)
    (low : ∀ call ∈ calls, k.netlist.CallInRange call)
    (run : calls.foldlM k.netlist.runCall s₀ = some t) (input : CStr) :
    ∃ ok t', k.netlist.readExternalEquivalences t input = some (ok, t') ∧
      (ok = true ↔
        ∀ line ∈ getlines input, IgnoredLine line ∨ ∃ p, k.netlist.PairLine line p) ∧
      (ok = true → ∃ pairs, k.netlist.EquivLines (getlines input) pairs ∧
        t'.stats.inputPairs = t.stats.inputPairs + pairs.length ∧
        ∀ a < k.netlist.faultCount, ∀ b < k.netlist.faultCount,
          UnionFind.Same t'.forest a b ↔ UnionFind.Closure
            ((k.netlist.initialFaults opt).map pairIds ++ callPairs calls ++ pairs) a b) := by
  have wf : k.netlist.WellFormed opt.faultModel := model ▸ k.wellFormed
  obtain ⟨ok, s₁, init', -, inv⟩ := initFaultEquivalence_spec wf s
  rw [init] at init'
  cases init'
  obtain ⟨t₁, run', rep⟩ := runCalls_spec (inv rfl).classes calls low
  rw [run] at run'
  cases run'
  obtain ⟨ok, t', read, iff, spec⟩ := readExternalEquivalences_spec distinct rep input
  rw [equivLines_iff] at iff
  refine ⟨ok, t', read, iff, fun accepted => ?_⟩
  obtain ⟨pairs, lines⟩ := (equivLines_iff _).mpr (iff.mp accepted)
  obtain ⟨-, rep', frame⟩ := spec pairs lines
  exact ⟨pairs, lines, by rw [frame], rep'.classes⟩

theorem readExternalEquivalences_iff_and :
    ∃ s₀ ok t', andNetlist.initFaultEquivalence ⟨.SAF, none, none⟩ emptyFaultState = some (true, s₀) ∧
      andNetlist.readExternalEquivalences s₀ "# pairs\n a/1 , b/1\n".toList = some (ok, t') ∧
      (ok = true ↔ ∀ line ∈ getlines "# pairs\n a/1 , b/1\n".toList,
        IgnoredLine line ∨ ∃ p, andNetlist.PairLine line p) := by
  obtain ⟨ok, s₀, init, isOk, -⟩ :=
    @initFaultEquivalence_spec _ ⟨.SAF, none, none⟩ andNetlist_wellFormed emptyFaultState
  have good : ok = true := isOk.mpr (by decide)
  subst good
  have distinct : andNetlist.NamesDistinct := by
    unfold NamesDistinct
    decide
  obtain ⟨ok, t', read, iff, -⟩ := readExternalEquivalences_iff andCircuit distinct
    ⟨.SAF, none, none⟩ rfl emptyFaultState s₀ s₀ init [] (by simp) rfl
    "# pairs\n a/1 , b/1\n".toList
  exact ⟨s₀, ok, t', init, read, iff⟩

end Netlist

end SafRprGen
