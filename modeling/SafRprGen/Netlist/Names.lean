/-
Module: SafRprGen.Netlist.Names
Layer: Netlist
Purpose: The names of the nets. `connection_signal` makes up a name for every branch to a pin and renames a
  signal whose output port becomes a branch; `expand_tdf.c` makes up one for every first-frame copy. No name
  is compared with another one, so the names are distinct only when the names of the file leave room for the
  ones that are made up.
Main exports: branchLabels, stemLabels, Unclashing, connected_names_nodup_iff, expanded_names_nodup_iff
-/
import SafRprGen.Netlist.ReadGraph

namespace SafRprGen

/-- The names of the nets in the order of `nl`. -/
def Netlist.names (c : Netlist) : List CStr := c.nl.map (·.name)

/-! ### The names that are made up -/

/-- A name after `connection_po_fout` has renamed the net `k` times. -/
def stemLabel (name : CStr) : Nat → CStr
  | 0 => name
  | k + 1 => stemLabel name k ++ "_stem".toList

/-- How often a signal is renamed while the pins `seen` are connected: once with every branch, until all
its ports are branches. -/
def renamings (s : Signals) (seen : List Use) (n : Nat) : Nat :=
  if single s n then 0 else min (seen.countP fun u => u.src = n) (s.po.count n)

/-- The name of a signal when the pins `seen` are connected. -/
def signalLabel (s : Signals) (seen : List Use) (n : Nat) : CStr :=
  stemLabel (s.name n) (renamings s seen n)

/-- The name of the branch to a pin that is connected after `seen`. -/
def branchLabel (s : Signals) (seen : List Use) (u : Use) : CStr :=
  signalLabel s seen u.src ++ '_' :: signalLabel s seen u.out ++ ['_', pinNameArray.getD u.pin ' ']

/-- The names of the branches to the pins `rest`, which are connected after `seen`. -/
def branchLabelsFrom (s : Signals) : List Use → List Use → List CStr
  | _, [] => []
  | seen, u :: rest =>
      (if single s u.src then [] else [branchLabel s seen u]) ++ branchLabelsFrom s (seen ++ [u]) rest

/-- The names that the signals of the pins `rest` are given, which are connected after `seen`. -/
def stemLabelsFrom (s : Signals) : List Use → List Use → List CStr
  | _, [] => []
  | seen, u :: rest =>
      (if renamings s (seen ++ [u]) u.src = renamings s seen u.src then []
        else [signalLabel s (seen ++ [u]) u.src]) ++ stemLabelsFrom s (seen ++ [u]) rest

/-- The names of all branches to pins. -/
def branchLabels (s : Signals) (gates : List Wires) : List CStr := branchLabelsFrom s [] (allUses gates)

/-- The names of all stems of output ports. -/
def stemLabels (s : Signals) (gates : List Wires) : List CStr := stemLabelsFrom s [] (allUses gates)

/-- No signal of the file has a name that is made up for a branch or a stem, and no two pins make up the
same name. -/
structure Unclashing (s : Signals) (gates : List Wires) : Prop where
  branch : ∀ label ∈ branchLabels s gates, label ∉ s.table.names
  stem : ∀ label ∈ stemLabels s gates, label ∉ s.table.names
  pins : (branchLabels s gates).Nodup

/-! ### The names that `connection_signal` gives -/

variable {s : Signals} {seen rest : List Use}

theorem branchLabelsFrom_append (first : List Use) : ∀ seen, branchLabelsFrom s seen (first ++ rest) =
    branchLabelsFrom s seen first ++ branchLabelsFrom s (seen ++ first) rest := by
  induction first with
  | nil => intro seen; simp [branchLabelsFrom]
  | cons u first ih => intro seen; simp [branchLabelsFrom, ih]

theorem stemLabelsFrom_append (first : List Use) : ∀ seen, stemLabelsFrom s seen (first ++ rest) =
    stemLabelsFrom s seen first ++ stemLabelsFrom s (seen ++ first) rest := by
  induction first with
  | nil => intro seen; simp [stemLabelsFrom]
  | cons u first ih => intro seen; simp [stemLabelsFrom, ih]

/-- The renamings of a signal after one more pin. -/
theorem renamings_snoc (u : Use) (n : Nat) : renamings s (seen ++ [u]) n =
    if n = u.src ∧ single s n = false ∧ seen.countP (fun u => u.src = n) < s.po.count n
    then renamings s seen n + 1 else renamings s seen n := by
  unfold renamings
  rw [Wired.countP_append]
  cases one : single s n with
  | true => simp
  | false =>
      simp only [Bool.false_eq_true, if_false, true_and, decide_eq_true_eq]
      by_cases here : n = u.src
      · subst here
        rw [if_pos rfl]
        by_cases port : seen.countP (fun u' => u'.src = u.src) < s.po.count u.src
        · rw [if_pos ⟨rfl, port⟩]
          omega
        · rw [if_neg fun h => port h.2]
          omega
      · rw [if_neg (Ne.symm here), if_neg fun h => here h.1, Nat.add_zero]

theorem renamings_le_snoc (u : Use) (n : Nat) : renamings s seen n ≤ renamings s (seen ++ [u]) n := by
  rw [renamings_snoc]
  split
  · exact Nat.le_succ _
  · exact le_rfl

theorem signalLabel_snoc {u : Use} {n : Nat} (other : n ≠ u.src) :
    signalLabel s (seen ++ [u]) n = signalLabel s seen n := by
  unfold signalLabel
  rw [renamings_snoc, if_neg fun h => other h.1]

namespace Wired

/-- The names of the nets. -/
def names (v : Wired) : List CStr := (List.range v.nNet).map v.name

/-- A new net comes last. -/
theorem names_fresh (v : Wired) (name : CStr) : (v.fresh name).names = v.names ++ [name] := by
  unfold names
  change (List.range (v.nNet + 1)).map _ = _
  rw [List.range_succ, List.map_append, List.map_singleton]
  congr 1
  · apply List.map_congr_left
    intro n mem
    exact Function.update_of_ne (Nat.ne_of_lt (List.mem_range.mp mem)) _ _
  · exact congrArg (fun name => [name]) (Function.update_self _ _ _)

theorem names_branch (v : Wired) (u : Use) : (v.branch u).names = v.names ++ [v.branchName u] :=
  v.names_fresh _

end Wired

/-- Giving one entry another value exchanges the two values. -/
theorem map_update_perm {α : Type} (f : Nat → α) {l : List Nat} (nodup : l.Nodup) {a : Nat} (mem : a ∈ l)
    (x : α) : (l.map (Function.update f a x) ++ [f a]).Perm (l.map f ++ [x]) := by
  have front := List.perm_cons_erase mem
  have others : (l.erase a).map (Function.update f a x) = (l.erase a).map f := by
    apply List.map_congr_left
    intro n isOther
    exact Function.update_of_ne (nodup.mem_erase_iff.mp isOther).1 _ _
  have left := (front.map (Function.update f a x)).append_right [f a]
  have right := (front.map f).append_right [x]
  rw [List.map_cons, Function.update_self, others] at left
  rw [List.map_cons] at right
  refine left.trans (.trans ?_ right.symm)
  exact (List.perm_append_singleton _ _).trans
    ((List.Perm.swap x (f a) _).trans (List.perm_append_singleton x (f a :: (l.erase a).map f)).symm)

namespace Wired

/-- The new net takes the name of the signal and the signal a new one: the new name is added. -/
theorem names_portBranch {v : Wired} {src : Nat} (low : src < v.nNet) (k : Nat) :
    (v.portBranch src k).names.Perm (v.names ++ [v.name src ++ "_stem".toList]) := by
  have names : (v.portBranch src k).names =
      (List.range v.nNet).map (Function.update v.name src (v.name src ++ "_stem".toList)) ++
        [v.name src] := by
    change (List.range (v.nNet + 1)).map (Function.update (Function.update v.name v.nNet (v.name src)) src
      (v.name src ++ "_stem".toList)) = _
    rw [List.range_succ, List.map_append, List.map_singleton]
    congr 1
    · apply List.map_congr_left
      intro n mem
      have old : n ≠ v.nNet := Nat.ne_of_lt (List.mem_range.mp mem)
      rw [Function.update_apply, Function.update_of_ne old, Function.update_apply]
    · rw [Function.update_of_ne (Nat.ne_of_gt low), Function.update_self]
  rw [names]
  exact map_update_perm v.name List.nodup_range (List.mem_range.mpr low) _

/-- What the names are when the pins `seen` are connected. -/
structure Named (s : Signals) (seen : List Use) (v : Wired) : Prop where
  signal : ∀ n < s.nNet, v.name n = signalLabel s seen n
  all : v.names.Perm (s.table.names ++ (branchLabelsFrom s [] seen ++ stemLabelsFrom s [] seen))

theorem branchLabelsFrom_snoc (u : Use) : branchLabelsFrom s [] (seen ++ [u]) =
    branchLabelsFrom s [] seen ++ if single s u.src then [] else [branchLabel s seen u] := by
  rw [branchLabelsFrom_append, List.nil_append, branchLabelsFrom, branchLabelsFrom, List.append_nil]

theorem stemLabelsFrom_snoc (u : Use) : stemLabelsFrom s [] (seen ++ [u]) =
    stemLabelsFrom s [] seen ++ if renamings s (seen ++ [u]) u.src = renamings s seen u.src then []
      else [signalLabel s (seen ++ [u]) u.src] := by
  rw [stemLabelsFrom_append, List.nil_append, stemLabelsFrom, stemLabelsFrom, List.append_nil]

/-- Connecting one more pin. -/
theorem Named.connect {v : Wired} {u : Use} (named : Named s seen v) (srcLt : u.src < s.nNet)
    (outLt : u.out < s.nNet) (signals : s.nNet ≤ v.nNet)
    (ports : single s u.src = false →
      v.po.count u.src = s.po.count u.src - seen.countP fun u' => u'.src = u.src) :
    Named s (seen ++ [u]) (v.connect (single s) u) := by
  have others : renamings s (seen ++ [u]) u.src = renamings s seen u.src →
      ∀ n, signalLabel s (seen ++ [u]) n = signalLabel s seen n := by
    intro same n
    by_cases here : n = u.src
    · subst here
      rw [signalLabel, signalLabel, same]
    · exact signalLabel_snoc here
  unfold Wired.connect
  cases one : single s u.src with
  | true =>
      have same : renamings s (seen ++ [u]) u.src = renamings s seen u.src := by
        rw [renamings_snoc, if_neg fun h => by rw [one] at h; cases h.2.1]
      rw [if_pos rfl]
      refine ⟨fun n low => (named.signal n low).trans (others same n).symm, ?_⟩
      rw [branchLabelsFrom_snoc, stemLabelsFrom_snoc, one, if_pos rfl, if_pos same, List.append_nil,
        List.append_nil]
      exact named.all
  | false =>
      have label : v.branchName u = branchLabel s seen u := by
        rw [branchName, named.signal _ srcLt, named.signal _ outLt]
        rfl
      have before : ∀ n < s.nNet, (v.branch u).name n = signalLabel s seen n := by
        intro n low
        have old : (v.branch u).name n = v.name n := Function.update_of_ne (by omega) _ _
        rw [old, named.signal n low]
      rw [if_neg Bool.false_ne_true]
      by_cases port : v.po.idxOf u.src < v.po.length
      · have left : 0 < v.po.count u.src := List.count_pos_iff.mpr (List.idxOf_lt_length_iff.mp port)
        have next : renamings s (seen ++ [u]) u.src = renamings s seen u.src + 1 := by
          rw [renamings_snoc, if_pos ⟨rfl, one, by have := ports one; omega⟩]
        have changed : renamings s (seen ++ [u]) u.src ≠ renamings s seen u.src := by omega
        have stem : (v.branch u).name u.src ++ "_stem".toList = signalLabel s (seen ++ [u]) u.src := by
          rw [before _ srcLt, signalLabel, signalLabel, next]
          rfl
        rw [if_pos port]
        constructor
        · intro n low
          by_cases here : n = u.src
          · subst here
            rw [← stem]
            exact Function.update_self _ _ _
          · rw [signalLabel_snoc here, ← before n low]
            have kept : ((v.branch u).portBranch u.src (v.po.idxOf u.src)).name n =
                Function.update (v.branch u).name (v.branch u).nNet ((v.branch u).name u.src) n :=
              Function.update_of_ne here _ _
            have old : n ≠ (v.branch u).nNet := by
              change n ≠ v.nNet + 1
              omega
            rw [kept, Function.update_of_ne old]
        · have grown := @names_portBranch (v.branch u) u.src
            (by change u.src < v.nNet + 1; omega) (v.po.idxOf u.src)
          rw [stem, names_branch, label] at grown
          rw [branchLabelsFrom_snoc, stemLabelsFrom_snoc, one, if_neg Bool.false_ne_true,
            if_neg changed]
          apply grown.trans
          apply (((named.all.append_right _).append_right _)).trans
          simp only [List.append_assoc]
          refine List.Perm.append_left _ (List.Perm.append_left _ ?_)
          exact List.perm_append_comm_assoc _ _ _
      · have none : v.po.count u.src = 0 := List.count_eq_zero.mpr fun mem =>
          port (List.idxOf_lt_length_iff.mpr mem)
        have same : renamings s (seen ++ [u]) u.src = renamings s seen u.src := by
          rw [renamings_snoc, if_neg]
          rintro ⟨-, -, few⟩
          have := ports one
          omega
        rw [if_neg port]
        refine ⟨fun n low => (before n low).trans (others same n).symm, ?_⟩
        rw [names_branch, label, branchLabelsFrom_snoc, stemLabelsFrom_snoc, one,
          if_neg Bool.false_ne_true, if_pos same, List.append_nil]
        apply (named.all.append_right _).trans
        simp only [List.append_assoc]
        exact List.Perm.append_left _ (List.Perm.append_left _ List.perm_append_comm)

end Wired

/-! ### Stems -/

theorem stemLabel_add (name : CStr) (k j : Nat) :
    stemLabel name (k + j) = stemLabel (stemLabel name k) j := by
  induction j with
  | zero => rfl
  | succ j ih => exact congrArg (· ++ "_stem".toList) ih

theorem stemLabel_inj {name name' : CStr} {k : Nat} (same : stemLabel name k = stemLabel name' k) :
    name = name' := by
  induction k with
  | zero => exact same
  | succ k ih => exact ih (List.append_cancel_right same)

/-- Of two names that agree once renamed, one is the other one renamed. -/
theorem stemLabel_cancel {name name' : CStr} {k j : Nat} (less : k ≤ j)
    (same : stemLabel name k = stemLabel name' j) : name = stemLabel name' (j - k) := by
  have split : stemLabel name' j = stemLabel (stemLabel name' (j - k)) k := by
    rw [← stemLabel_add, Nat.sub_add_cancel less]
  exact stemLabel_inj (same.trans split)

/-- A signal has been given every name up to the number of its renamings. -/
theorem mem_stemLabelsFrom {label : CStr} : label ∈ stemLabelsFrom s [] seen ↔
    ∃ n k, 0 < k ∧ k ≤ renamings s seen n ∧ label = stemLabel (s.name n) k := by
  induction seen using List.reverseRecOn with
  | nil =>
      simp only [stemLabelsFrom, List.not_mem_nil, false_iff]
      rintro ⟨n, k, pos, few, -⟩
      simp only [renamings, List.countP_nil, Nat.zero_min, ite_self] at few
      omega
  | append_singleton seen u ih =>
      rw [Wired.stemLabelsFrom_snoc, List.mem_append, ih]
      have others : ∀ n, n ≠ u.src → renamings s (seen ++ [u]) n = renamings s seen n := by
        intro n other
        rw [renamings_snoc, if_neg fun h => other h.1]
      have next : renamings s (seen ++ [u]) u.src = renamings s seen u.src ∨
          renamings s (seen ++ [u]) u.src = renamings s seen u.src + 1 := by
        rw [renamings_snoc]
        split
        · exact .inr rfl
        · exact .inl rfl
      constructor
      · rintro (⟨n, k, pos, few, rfl⟩ | new)
        · exact ⟨n, k, pos, few.trans (renamings_le_snoc u n), rfl⟩
        · split at new
          · cases new
          · rename_i changed
            rw [List.mem_singleton] at new
            exact ⟨u.src, _, by omega, le_rfl, new⟩
      · rintro ⟨n, k, pos, few, rfl⟩
        by_cases old : k ≤ renamings s seen n
        · exact .inl ⟨n, k, pos, old, rfl⟩
        · have here : n = u.src := by
            by_contra other
            exact old (others n other ▸ few)
          subst here
          have last : k = renamings s (seen ++ [u]) u.src := by omega
          right
          rw [if_neg (by omega), List.mem_singleton, last]
          rfl

/-- The names that signals are given are distinct when none of them is the name of a signal. -/
theorem nodup_stemLabelsFrom (distinct : ∀ a < s.nNet, ∀ b < s.nNet, s.name a = s.name b → a = b)
    (low : ∀ u ∈ seen, u.src < s.nNet)
    (apart : ∀ label ∈ stemLabelsFrom s [] seen, ∀ n < s.nNet, s.name n ≠ label) :
    (stemLabelsFrom s [] seen).Nodup := by
  induction seen using List.reverseRecOn with
  | nil => exact List.nodup_nil
  | append_singleton seen u ih =>
      have apart' := apart
      rw [Wired.stemLabelsFrom_snoc] at apart' ⊢
      have before := ih (fun u' mem => low u' (List.mem_append_left _ mem))
        fun label mem => apart' label (List.mem_append_left _ mem)
      split
      · rwa [List.append_nil]
      · rename_i changed
        rw [List.nodup_append]
        refine ⟨before, List.nodup_singleton _, ?_⟩
        rintro label old label' new rfl
        rw [List.mem_singleton] at new
        obtain ⟨n, k, pos, few, rfl⟩ := mem_stemLabelsFrom.mp old
        have srcLt := low u (by simp)
        have nLt : n < s.nNet := by
          by_contra high
          have unused : seen.countP (fun u => u.src = n) = 0 := by
            rw [List.countP_eq_zero]
            intro u' mem same
            have := low u' (List.mem_append_left _ mem)
            exact high (of_decide_eq_true same ▸ this)
          rw [renamings, unused, Nat.zero_min, ite_self] at few
          omega
        have grown := few.trans (renamings_le_snoc u n)
        have more := @renamings_le_snoc s seen u u.src
        unfold signalLabel at new
        rcases Nat.lt_trichotomy k (renamings s (seen ++ [u]) u.src) with less | same | greater
        · have isStem : stemLabel (s.name u.src) (renamings s (seen ++ [u]) u.src - k) ∈
              stemLabelsFrom s [] (seen ++ [u]) :=
            mem_stemLabelsFrom.mpr ⟨u.src, _, by omega, Nat.sub_le _ _, rfl⟩
          exact apart _ isStem n nLt (stemLabel_cancel less.le new)
        · subst same
          have here := distinct n nLt u.src srcLt (stemLabel_inj new)
          subst here
          omega
        · have isStem : stemLabel (s.name n) (k - renamings s (seen ++ [u]) u.src) ∈
              stemLabelsFrom s [] (seen ++ [u]) :=
            mem_stemLabelsFrom.mpr ⟨n, _, by omega, (Nat.sub_le _ _).trans grown, rfl⟩
          exact apart _ isStem u.src srcLt (stemLabel_cancel greater.le new.symm)

/-! ### Distinct names -/

/-- The last character of a branch is that of its pin. -/
theorem getLast?_branchLabelsFrom {label : CStr} (mem : label ∈ branchLabelsFrom s seen rest) :
    ∃ pin : Nat, label.getLast? = some (pinNameArray.getD pin ' ') := by
  induction rest generalizing seen with
  | nil => cases mem
  | cons u rest ih =>
      rw [branchLabelsFrom, List.mem_append] at mem
      rcases mem with mem | mem
      · split at mem
        · cases mem
        · rw [List.mem_singleton] at mem
          refine ⟨u.pin, ?_⟩
          rw [mem, branchLabel, List.getLast?_append]
          rfl
      · exact ih mem

theorem pinNameArray_upper (pin : Nat) :
    pinNameArray.getD pin ' ' ≠ 'm' ∧ pinNameArray.getD pin ' ' ≠ 't' := by
  by_cases low : pin < pinNameArray.length
  · rw [List.getD_eq_getElem _ _ low]
    have all : ∀ ch ∈ pinNameArray, ch ≠ 'm' ∧ ch ≠ 't' :=
      @of_decide_eq_true _ (List.decidableBAll _ _) (by decide)
    exact all _ (List.getElem_mem low)
  · rw [List.getD_eq_default _ _ (not_lt.mp low)]
    decide

theorem getLast?_stemLabel {name : CStr} {k : Nat} (pos : 0 < k) :
    (stemLabel name k).getLast? = some 'm' := by
  cases k with
  | zero => omega
  | succ k =>
      rw [stemLabel, List.getLast?_append]
      rfl

variable {gates : List Wires}

theorem range_map_getD {α : Type} (l : List α) (default : α) :
    (List.range l.length).map (fun n => l.getD n default) = l := by
  apply List.ext_getElem (by simp)
  intro n low low'
  rw [List.getElem_map, List.getElem_range]
  exact List.getD_eq_getElem _ _ low'

theorem startOf_names (s : Signals) : (startOf s).names = s.table.names :=
  range_map_getD s.table.names []

/-- The names when the first pins are connected. -/
theorem Parsed.named (parsed : Parsed s gates) (seen : List Use) :
    ∀ rest, allUses gates = seen ++ rest →
      Wired.Named s seen (seen.foldl (Wired.connect (single s)) (startOf s)) := by
  induction seen using List.reverseRecOn with
  | nil =>
      intro rest _
      constructor
      · intro n _
        have zero : renamings s [] n = 0 := by
          rw [renamings, List.countP_nil, Nat.zero_min, ite_self]
        rw [signalLabel, zero]
        rfl
      · rw [List.foldl_nil, startOf_names, branchLabelsFrom, stemLabelsFrom, List.append_nil,
          List.append_nil]
  | append_singleton seen u ih =>
      intro rest split
      have split' : allUses gates = seen ++ u :: rest := by rw [split, List.append_assoc]; rfl
      have mem : u ∈ allUses gates := by rw [split']; simp
      obtain ⟨shape, tally⟩ := parsed.start.run seen (u :: rest) split'
      rw [List.foldl_append, List.foldl_cons, List.foldl_nil]
      apply (ih (u :: rest) split').connect (parsed.src_lt mem) (parsed.out_lt mem) shape.signals
      intro many
      have left := tally.po u.src (parsed.src_lt mem)
      rw [many, if_neg Bool.false_ne_true] at left
      exact left

/-- The names of the connected netlist are those of the file and those that are made up. -/
theorem Parsed.names_perm (parsed : Parsed s gates) : (wired s gates).names.Perm
    (s.table.names ++ (branchLabels s gates ++ stemLabels s gates)) :=
  (parsed.named (allUses gates) [] (by simp)).all

theorem Parsed.name_inj (parsed : Parsed s gates) :
    ∀ a < s.nNet, ∀ b < s.nNet, s.name a = s.name b → a = b := by
  intro a ha b hb same
  refine (List.getElem?_inj ha parsed.counted.valid.nodup).mp ?_
  rw [Signals.names_getElem? ha, Signals.names_getElem? hb, same]

theorem mem_names {w : CStr} : w ∈ s.table.names ↔ ∃ n < s.nNet, s.name n = w := by
  constructor
  · intro mem
    obtain ⟨n, low, here⟩ := List.getElem_of_mem mem
    exact ⟨n, low, (List.getD_eq_getElem _ _ low).trans here⟩
  · rintro ⟨n, low, rfl⟩
    exact List.mem_of_getElem? (Signals.names_getElem? low)

/-- The names are distinct exactly when the file leaves room for those that are made up. -/
theorem Parsed.names_nodup_iff (parsed : Parsed s gates) :
    (wired s gates).names.Nodup ↔ Unclashing s gates := by
  rw [parsed.names_perm.nodup_iff]
  have separate : ∀ label ∈ branchLabels s gates, ∀ label' ∈ stemLabels s gates, label ≠ label' := by
    rintro label isBranch label' isStem rfl
    obtain ⟨pin, last⟩ := getLast?_branchLabelsFrom isBranch
    obtain ⟨n, k, pos, -, rfl⟩ := mem_stemLabelsFrom.mp isStem
    rw [getLast?_stemLabel pos] at last
    exact (pinNameArray_upper pin).1 (Option.some.inj last).symm
  constructor
  · intro nodup
    obtain ⟨-, made, apart⟩ := List.nodup_append.mp nodup
    obtain ⟨pins, -, -⟩ := List.nodup_append.mp made
    exact ⟨fun label mem old => apart label old label (List.mem_append_left _ mem) rfl,
      fun label mem old => apart label old label (List.mem_append_right _ mem) rfl, pins⟩
  · intro clear
    have stems : (stemLabels s gates).Nodup := by
      apply nodup_stemLabelsFrom parsed.name_inj (fun u => parsed.src_lt)
      intro label isStem n low same
      exact clear.stem label isStem (mem_names.mpr ⟨n, low, same⟩)
    refine List.nodup_append.mpr ⟨parsed.counted.valid.nodup,
      List.nodup_append.mpr ⟨clear.pins, stems, separate⟩, ?_⟩
    rintro name old label made rfl
    rcases List.mem_append.mp made with isBranch | isStem
    · exact clear.branch name isBranch old
    · exact clear.stem name isStem old

/-! ### The names of the copies -/

/-- The names that `duplicate_frame_name` makes up. -/
def Netlist.frameLabels (o : Netlist) : List CStr :=
  (List.range o.nNet).flatMap fun n => if o.type n = .IN then [] else [duplicateFrameName (o.name n) .one]

theorem Netlist.names_eq (c : Netlist) : c.names = (List.range c.nNet).map c.name := by
  have all := congrArg (List.map (·.name)) (range_map_getD c.nl default)
  rw [List.map_map] at all
  exact all.symm

/-- The second frame keeps the names. -/
theorem Netlist.expanded_names (o : Netlist) :
    o.expanded.names.Perm (o.names ++ o.frameLabels) := by
  have copies : ∀ n, (o.copies n).map (·.name) =
      (if o.type n = .IN then [] else [duplicateFrameName (o.name n) .one]) ++ [o.name n] := by
    intro n
    by_cases input : o.type n = .IN
    · rw [Netlist.copies, if_pos input, if_pos input, List.map_singleton, copy, if_pos input]
      rfl
    · rw [Netlist.copies, if_neg input, if_neg input, List.map_cons, List.map_singleton]
      simp only [copy, if_neg input]
      rfl
  rw [o.names_eq, frameLabels, names, expanded, List.map_flatMap]
  refine .trans (List.Perm.flatMap_left _ fun n _ => ?_) (List.map_append_flatMap_perm _ _ _).symm
  rw [copies]
  exact List.perm_append_singleton _ _

/-- The copies have distinct names when the nets do and no net is named like a first-frame copy. -/
theorem Netlist.expanded_names_nodup_iff (o : Netlist) : o.expanded.names.Nodup ↔
    o.names.Nodup ∧ ∀ label ∈ o.frameLabels, label ∉ o.names := by
  rw [o.expanded_names.nodup_iff, List.nodup_append]
  constructor
  · rintro ⟨nodup, -, apart⟩
    exact ⟨nodup, fun label made old => apart label old label made rfl⟩
  · rintro ⟨nodup, apart⟩
    refine ⟨nodup, ?_, fun name old label made same => apart label made (same ▸ old)⟩
    rw [frameLabels, List.nodup_flatMap]
    constructor
    · intro n _
      split
      · exact List.nodup_nil
      · exact List.nodup_singleton _
    · rw [names_eq] at nodup
      refine (List.pairwise_map.mp nodup).imp fun {n n'} other => ?_
      intro label made made'
      dsimp only at made made'
      split at made
      · cases made
      · split at made'
        · cases made'
        · rw [List.mem_singleton] at made made'
          exact other (List.append_cancel_right (made.symm.trans made'))

theorem getLast?_frameLabels {o : Netlist} {label : CStr} (mem : label ∈ o.frameLabels) :
    label.getLast? = some 't' := by
  obtain ⟨n, -, mem⟩ := List.mem_flatMap.mp mem
  split at mem
  · cases mem
  · rw [List.mem_singleton] at mem
    rw [mem, duplicateFrameName, List.getLast?_append]
    rfl

/-- The nets of the netlist that the analysis works on: for transition faults the copies in both frames. -/
def createdNets (m : FaultModel) (net : ReadNet) : Option Netlist :=
  match m with
  | .SAF => some (net.wiring.netlist net.pi)
  | .TDF => net.wiring.expandTdfNetlist net.pi

/-- No signal of the file has a name that is made up, and no two pins make up the same name. -/
structure Nameable (m : FaultModel) (a : Accepted) (net : ReadNet) : Prop where
  connected : Unclashing a.signals a.gates
  frame : m = .TDF → ∀ label ∈ (net.wiring.netlist net.pi).frameLabels, label ∉ a.signals.table.names

/-- Whether two nets have the same name is decided by the names of the file. -/
theorem createdNets_names_iff {m : FaultModel} {text : List Char} {a : Accepted} {net : ReadNet}
    {c : Netlist} (accepted : readFile text = .ok a) (read : readNl text = .ok net)
    (created : createdNets m net = some c) : c.names.Nodup ↔ Nameable m a net := by
  obtain ⟨-, -, -, -, ports, -, loaded⟩ := readFile_spec accepted
  obtain ⟨pi, -, refines⟩ := readNl_spec accepted read
  have names : (net.wiring.netlist net.pi).names = (wired a.signals a.gates).names := by
    rw [Netlist.names_eq, Wired.names, Wiring.netlist_nNet, refines.nNet]
    exact List.map_congr_left fun n mem => refines.netlist_name net.pi (List.mem_range.mp mem)
  have perm := names ▸ loaded.parsed.names_perm
  have connected := names ▸ loaded.parsed.names_nodup_iff
  cases m with
  | SAF =>
      cases created
      rw [connected]
      exact ⟨fun clear => ⟨clear, fun h => by cases h⟩, fun clear => clear.connected⟩
  | TDF =>
      have isExpanded : c = (net.wiring.netlist net.pi).expanded := by
        unfold createdNets at created
        dsimp only at created
        rw [pi] at created ⊢
        exact ((loaded.expandTdfNetlist_eq_some refines).mp created).2
      -- made-up names of the first pass end in another character
      have files : ∀ label ∈ (net.wiring.netlist net.pi).frameLabels,
          (label ∈ (net.wiring.netlist net.pi).names ↔ label ∈ a.signals.table.names) := by
        intro label made
        rw [perm.mem_iff, List.mem_append, or_iff_left]
        intro made'
        have last := getLast?_frameLabels made
        rcases List.mem_append.mp made' with isBranch | isStem
        · obtain ⟨pin, last'⟩ := getLast?_branchLabelsFrom isBranch
          exact (pinNameArray_upper pin).2 (Option.some.inj (last'.symm.trans last))
        · obtain ⟨n, k, pos, -, rfl⟩ := mem_stemLabelsFrom.mp isStem
          rw [getLast?_stemLabel pos] at last
          cases last
      rw [isExpanded, Netlist.expanded_names_nodup_iff, connected]
      constructor
      · rintro ⟨clear, apart⟩
        exact ⟨clear, fun _ label made old => apart label made ((files label made).mpr old)⟩
      · intro clear
        exact ⟨clear.connected, fun label made old =>
          clear.frame rfl label made ((files label made).mp old)⟩

end SafRprGen
