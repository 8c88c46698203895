/-
Module: SafRprGen.Lib.HoareSort
Layer: Lib
Purpose: Quicksort in place with Hoare's partition, on signed indices as in C, where the right cursor may
  step one below the range. The scans have no bound of their own: they stop because an item on each side
  always blocks them, which is the invariant here. The result is a permutation of the range that leaves
  every other cell alone.
Main exports: qsort, qsort_spec, Rearranged.perm
-/
import SafRprGen.Lib.Loop
import Mathlib.Logic.Equiv.Basic
import Mathlib.Data.Int.Order.Basic
import Mathlib.Order.Nat
import Mathlib.Data.List.Nodup

namespace HoareSort

variable {α : Type*} (key : α → Nat)

/-- The item at a signed index. -/
def cell (items : Nat → α) (i : Int) : α := items i.toNat

/-- `while (key(items[l]) < pivot) l++`. -/
def scanUp (items : Nat → α) (pivot : Nat) (fuel : Nat) (l : Int) : Option Int :=
  Loop.whileLoop (fun l => if key (cell items l) < pivot then some (l + 1) else none) fuel l

/-- `while (key(items[r]) > pivot) r--`. -/
def scanDown (items : Nat → α) (pivot : Nat) (fuel : Nat) (r : Int) : Option Int :=
  Loop.whileLoop (fun r => if pivot < key (cell items r) then some (r - 1) else none) fuel r

/-- Exchange two cells. -/
def swap (items : Nat → α) (i j : Int) : Nat → α := items ∘ Equiv.swap i.toNat j.toNat

/-- The cells and the two cursors. -/
abbrev State (α : Type*) := (Nat → α) × Int × Int

/-- One pass of the partition loop, `none` inside when a scan runs out of fuel. -/
def partitionPass (pivot fuel : Nat) : Option (State α) → Option (Option (State α))
  | none => none
  | some (items, l, r) =>
      if l ≤ r then
        match scanUp key items pivot fuel l, scanDown key items pivot fuel r with
        | some l, some r =>
            if l ≤ r then some (some (swap items l r, l + 1, r - 1)) else some (some (items, l, r))
        | _, _ => some none
      else none

/-- The partition loop. -/
def partition (pivot fuel : Nat) (s : State α) : Option (State α) :=
  (Loop.whileLoop (partitionPass key pivot fuel) fuel (some s)).join

/-- Sort the cells from `left` to `right`. -/
def qsort : Nat → (Nat → α) → Int → Int → Option (Nat → α)
  | 0, _, _, _ => none
  | fuel + 1, items, left, right =>
      if left ≥ right then some items
      else
        let pivot := key (cell items ((left + right) / 2))
        match partition key pivot ((right - left).toNat + 3) (items, left, right) with
        | none => none
        | some (items, l, r) =>
            (qsort fuel items left r).bind fun items => qsort fuel items l right

variable {key}

/-- `items'` is `items` with the cells from `left` to `right` permuted. -/
def Rearranged (items items' : Nat → α) (left right : Int) : Prop :=
  ∃ σ : Equiv.Perm Nat, items' = items ∘ σ ∧ ∀ i : Nat, (i < left ∨ right < i) → σ i = i

theorem Rearranged.refl (items : Nat → α) (left right : Int) : Rearranged items items left right :=
  ⟨Equiv.refl Nat, rfl, fun _ _ => rfl⟩

theorem Rearranged.trans {items items' items'' : Nat → α} {left right : Int}
    (h : Rearranged items items' left right) (h' : Rearranged items' items'' left right) :
    Rearranged items items'' left right := by
  obtain ⟨σ, rfl, fixed⟩ := h
  obtain ⟨τ, rfl, fixed'⟩ := h'
  refine ⟨τ.trans σ, rfl, fun i hi => ?_⟩
  rw [Equiv.trans_apply, fixed' i hi, fixed i hi]

theorem Rearranged.widen {items items' : Nat → α} {left right left' right' : Int}
    (h : Rearranged items items' left right) (hl : left' ≤ left) (hr : right ≤ right') :
    Rearranged items items' left' right' := by
  obtain ⟨σ, eq, fixed⟩ := h
  exact ⟨σ, eq, fun i hi => fixed i (by omega)⟩

theorem rearranged_swap (items : Nat → α) {left right i j : Int} (pos : 0 ≤ left) (hi : left ≤ i)
    (hj : j ≤ right) (le : i ≤ j) : Rearranged items (swap items i j) left right := by
  refine ⟨Equiv.swap i.toNat j.toNat, rfl, fun k hk => ?_⟩
  exact Equiv.swap_apply_of_ne_of_ne (by omega) (by omega)

/-- A permuted range has the same items, each as often as before. -/
theorem Rearranged.perm {items items' : Nat → α} {left len : Nat}
    (h : Rearranged items items' left (left + len - 1)) :
    ((List.range' left len).map items').Perm ((List.range' left len).map items) := by
  obtain ⟨σ, rfl, fixed⟩ := h
  have moved : ((List.range' left len).map σ).Perm (List.range' left len) := by
    have distinct : (List.range' left len).Nodup := List.nodup_range'
    apply (List.perm_ext_iff_of_nodup (distinct.map σ.injective) distinct).mpr
    intro i
    simp only [List.mem_map, List.mem_range'_1]
    constructor
    · rintro ⟨j, hj, rfl⟩
      by_contra out
      have same := σ.injective (fixed (σ j) (by omega))
      omega
    · intro hi
      refine ⟨σ.symm i, ?_, by simp⟩
      by_contra out
      have same := fixed (σ.symm i) (by omega)
      simp only [Equiv.apply_symm_apply] at same
      omega
  simpa using moved.map items

/-- The upward scan stops at the first cell that is not below the pivot, so at or before any given one. -/
theorem scanUp_spec {items : Nat → α} {pivot : Nat} (fuel : Nat) {l stop : Int} (le : l ≤ stop)
    (blocks : pivot ≤ key (cell items stop)) (enough : (stop - l).toNat < fuel) :
    ∃ l', scanUp key items pivot fuel l = some l' ∧ l ≤ l' ∧ l' ≤ stop ∧
      pivot ≤ key (cell items l') := by
  have step : ∀ k k', l ≤ k ∧ k ≤ stop →
      (if key (cell items k) < pivot then some (k + 1) else none) = some k' →
      (l ≤ k' ∧ k' ≤ stop) ∧ (stop - k').toNat < (stop - k).toNat := by
    rintro k k' ⟨low, high⟩ next
    by_cases below : key (cell items k) < pivot
    · simp only [below, if_true, Option.some.injEq] at next
      have ne : k ≠ stop := by
        rintro rfl
        omega
      subst next
      exact ⟨⟨by omega, by omega⟩, by omega⟩
    · simp [below] at next
  obtain ⟨l', run, ⟨low, high⟩, exit⟩ := Loop.whileLoop_total (fun k => l ≤ k ∧ k ≤ stop)
    (fun k => (stop - k).toNat) step fuel l ⟨le_refl l, le⟩ enough
  exact ⟨l', run, low, high, by simpa using exit⟩

/-- The downward scan stops at or above any cell that is not above the pivot. -/
theorem scanDown_spec {items : Nat → α} {pivot : Nat} (fuel : Nat) {r stop : Int} (le : stop ≤ r)
    (blocks : key (cell items stop) ≤ pivot) (enough : (r - stop).toNat < fuel) :
    ∃ r', scanDown key items pivot fuel r = some r' ∧ stop ≤ r' ∧ r' ≤ r ∧
      key (cell items r') ≤ pivot := by
  have step : ∀ k k', stop ≤ k ∧ k ≤ r →
      (if pivot < key (cell items k) then some (k - 1) else none) = some k' →
      (stop ≤ k' ∧ k' ≤ r) ∧ (k' - stop).toNat < (k - stop).toNat := by
    rintro k k' ⟨low, high⟩ next
    by_cases above : pivot < key (cell items k)
    · simp only [above, if_true, Option.some.injEq] at next
      have ne : k ≠ stop := by
        rintro rfl
        omega
      subst next
      exact ⟨⟨by omega, by omega⟩, by omega⟩
    · simp [above] at next
  obtain ⟨r', run, ⟨low, high⟩, exit⟩ := Loop.whileLoop_total (fun k => stop ≤ k ∧ k ≤ r)
    (fun k => (k - stop).toNat) step fuel r ⟨le, le_refl r⟩ enough
  exact ⟨r', run, low, high, by simpa using exit⟩

/-- The partition invariant: while the cursors have not crossed, a cell at or above the pivot blocks the
left cursor and one at or below it blocks the right one. -/
structure Partitioning (key : α → Nat) (pivot : Nat) (items : Nat → α) (left right : Int)
    (s : State α) : Prop where
  rearranged : Rearranged items s.1 left right
  low : left ≤ s.2.1
  high : s.2.2 ≤ right
  blockUp : s.2.1 ≤ s.2.2 → ∃ i, s.2.1 ≤ i ∧ i ≤ right ∧ pivot ≤ key (cell s.1 i)
  blockDown : s.2.1 ≤ s.2.2 → ∃ i, left ≤ i ∧ i ≤ s.2.2 ∧ key (cell s.1 i) ≤ pivot

theorem cell_swap_left (items : Nat → α) (i j : Int) : cell (swap items i j) i = cell items j := by
  simp [cell, swap]

theorem cell_swap_right (items : Nat → α) (i j : Int) : cell (swap items i j) j = cell items i := by
  simp [cell, swap]

/-- One pass of the partition loop moves both cursors inwards, or ends it. -/
theorem partitionPass_spec {pivot : Nat} (fuel : Nat) {items : Nat → α} {left right : Int} {s : State α}
    (pos : 0 ≤ left) (enough : (right - left).toNat < fuel)
    (inv : Partitioning key pivot items left right s) (more : s.2.1 ≤ s.2.2) :
    ∃ s', partitionPass key pivot fuel (some s) = some (some s') ∧
      Partitioning key pivot items left right s' ∧
      (s'.2.2 - s'.2.1 + 1).toNat < (s.2.2 - s.2.1 + 1).toNat ∧ s.2.1 ≤ s'.2.1 ∧ s'.2.2 ≤ s.2.2 ∧
      ∀ i, s.2.1 ≤ i → i ≤ s.2.2 → key (cell s.1 i) = pivot → s.2.1 < s'.2.1 ∧ s'.2.2 < s.2.2 := by
  obtain ⟨cells, l, r⟩ := s
  obtain ⟨i, hli, hir, hi⟩ := inv.blockUp more
  obtain ⟨j, hlj, hjr, hj⟩ := inv.blockDown more
  have low := inv.low
  have high := inv.high
  simp only at low high more hli hir hi hlj hjr hj ⊢
  obtain ⟨l', up, hll, hli', hup⟩ := scanUp_spec fuel hli hi (by omega)
  obtain ⟨r', down, hjr', hrr, hdown⟩ := scanDown_spec fuel hjr hj (by omega)
  by_cases cross : l' ≤ r'
  · refine ⟨(swap cells l' r', l' + 1, r' - 1), ?_, ⟨?_, ?_, ?_, ?_, ?_⟩, ?_, ?_, ?_, ?_⟩
    · simp [partitionPass, more, up, down, cross]
    · exact inv.rearranged.trans (rearranged_swap cells pos (by omega) (by omega) cross)
    · simp only; omega
    · simp only; omega
    · intro again
      simp only at again
      exact ⟨r', by simp only; omega, by omega, by rw [cell_swap_right]; exact hup⟩
    · intro again
      simp only at again
      exact ⟨l', by omega, by simp only; omega, by rw [cell_swap_left]; exact hdown⟩
    · simp only; omega
    · simp only; omega
    · simp only; omega
    · intro _ _ _ _
      simp only
      omega
  · refine ⟨(cells, l', r'), ?_, ⟨inv.rearranged, ?_, ?_, ?_, ?_⟩, ?_, hll, hrr, ?_⟩
    · simp [partitionPass, more, up, down, cross]
    · simp only; omega
    · simp only; omega
    · intro h; exact absurd h cross
    · intro h; exact absurd h cross
    · simp only; omega
    · intro k hlk hkr hk
      obtain ⟨l'', up', -, hlk', -⟩ := scanUp_spec fuel hlk hk.ge (by omega)
      obtain ⟨r'', down', hkr', -, -⟩ := scanDown_spec fuel hkr hk.le (by omega)
      rw [up] at up'
      rw [down] at down'
      cases up'
      cases down'
      omega

/-- The partition loop ends with the cursors crossed and both strictly inside the range. -/
theorem partition_spec (key : α → Nat) (items : Nat → α) {left right : Int} (fuel : Nat) (pos : 0 ≤ left)
    (lt : left < right) (enough : (right - left).toNat + 2 < fuel) :
    ∃ cells l r, partition key (key (cell items ((left + right) / 2))) fuel (items, left, right) =
        some (cells, l, r) ∧ Rearranged items cells left right ∧ left < l ∧ r < right ∧ r < l := by
  have mid : left ≤ (left + right) / 2 ∧ (left + right) / 2 ≤ right := by omega
  generalize hp : key (cell items ((left + right) / 2)) = pivot
  have start : Partitioning key pivot items left right (items, left, right) :=
    ⟨.refl items left right, le_refl _, le_refl _,
      fun _ => ⟨_, mid.1, mid.2, hp.ge⟩, fun _ => ⟨_, mid.1, mid.2, hp.le⟩⟩
  obtain ⟨s, first, inv, -, -, -, inward⟩ :=
    partitionPass_spec fuel pos (by omega) start lt.le
  obtain ⟨in1, in2⟩ := inward _ mid.1 mid.2 hp
  simp only at in1 in2
  obtain ⟨fuel, rfl⟩ : ∃ k, fuel = k + 1 := ⟨fuel - 1, by omega⟩
  have step : ∀ t t', (∃ s', t = some s' ∧ Partitioning key pivot items left right s' ∧
        s.2.1 ≤ s'.2.1 ∧ s'.2.2 ≤ s.2.2) → partitionPass key pivot (fuel + 1) t = some t' →
      (∃ s', t' = some s' ∧ Partitioning key pivot items left right s' ∧
        s.2.1 ≤ s'.2.1 ∧ s'.2.2 ≤ s.2.2) ∧
      (t'.elim 0 fun s' => (s'.2.2 - s'.2.1 + 1).toNat) <
        (t.elim 0 fun s' => (s'.2.2 - s'.2.1 + 1).toNat) := by
    rintro t t' ⟨s', rfl, inv', hl, hr⟩ next
    by_cases more : s'.2.1 ≤ s'.2.2
    · obtain ⟨s'', next', inv'', less, hl', hr', -⟩ :=
        partitionPass_spec (fuel + 1) pos (by omega) inv' more
      rw [next'] at next
      cases next
      exact ⟨⟨s'', rfl, inv'', by omega, by omega⟩, less⟩
    · obtain ⟨cells, l, r⟩ := s'
      simp [partitionPass, more] at next
  obtain ⟨t, run, ⟨⟨cells, l, r⟩, rfl, inv', hl, hr⟩, exit⟩ := Loop.whileLoop_total _ _ step fuel
    (some s) ⟨s, rfl, inv, le_refl _, le_refl _⟩ (by simp only [Option.elim]; omega)
  simp only at hl hr
  refine ⟨cells, l, r, ?_, inv'.rearranged, by omega, by omega, ?_⟩
  · rw [partition, Loop.whileLoop_pass first, run]
    rfl
  · by_contra notCrossed
    obtain ⟨s'', next, -⟩ :=
      partitionPass_spec (fuel + 1) pos (by omega) inv' (by simp only; omega)
    rw [next] at exit
    cases exit

/-- Enough fuel sorts: the result permutes the range and keeps every other cell. -/
theorem qsort_spec (key : α → Nat) : ∀ (fuel : Nat) (items : Nat → α) (left right : Int), 0 ≤ left →
    (right - left + 1).toNat < fuel →
    ∃ items', qsort key fuel items left right = some items' ∧ Rearranged items items' left right := by
  intro fuel
  induction fuel with
  | zero => intro _ _ _ _ h; omega
  | succ fuel ih =>
      intro items left right pos enough
      by_cases small : left ≥ right
      · exact ⟨items, by simp [qsort, small], .refl items left right⟩
      · obtain ⟨cells, l, r, run, arranged, hl, hr, crossed⟩ :=
          partition_spec key items ((right - left).toNat + 3) pos (show left < right by omega)
            (by omega)
        obtain ⟨lower, runL, arrangedL⟩ := ih cells left r pos (by omega)
        obtain ⟨upper, runU, arrangedU⟩ := ih lower l right (by omega) (by omega)
        refine ⟨upper, ?_, ?_⟩
        · simp [qsort, small, run, runL, runU]
        · exact (arranged.trans (arrangedL.widen (le_refl _) hr.le)).trans
            (arrangedU.widen hl.le (le_refl _))

/-- More fuel gives the same result. -/
theorem qsort_mono : ∀ (fuel : Nat) {items items' : Nat → α} {left right : Int},
    qsort key fuel items left right = some items' →
    ∀ more, qsort key (fuel + more) items left right = some items' := by
  intro fuel
  induction fuel with
  | zero => intro _ _ _ _ run; cases run
  | succ fuel ih =>
      intro items items' left right run more
      rw [Nat.add_right_comm]
      unfold qsort at run ⊢
      by_cases small : left ≥ right
      · rw [if_pos small] at run ⊢
        exact run
      · rw [if_neg small] at run ⊢
        simp only at run ⊢
        cases split : partition key (key (cell items ((left + right) / 2)))
            ((right - left).toNat + 3) (items, left, right) with
        | none => simp [split] at run
        | some s =>
            obtain ⟨cells, l, r⟩ := s
            simp only [split] at run ⊢
            obtain ⟨lower, runL, runU⟩ := Option.bind_eq_some_iff.mp run
            rw [ih runL more]
            exact ih runU more

/-! ### Order -/

/-- A permuted range takes its cells from the range. -/
theorem Rearranged.all {items items' : Nat → α} {left right : Int}
    (h : Rearranged items items' left right) (pos : 0 ≤ left) {P : α → Prop}
    (all : ∀ i, left ≤ i → i ≤ right → P (cell items i)) :
    ∀ i, left ≤ i → i ≤ right → P (cell items' i) := by
  obtain ⟨σ, rfl, fixed⟩ := h
  intro i hl hr
  have moved : left ≤ σ i.toNat ∧ (σ i.toNat : Int) ≤ right := by
    by_contra out
    have same := σ.injective (fixed (σ i.toNat) (by omega))
    omega
  have there := all (σ i.toNat) moved.1 moved.2
  simpa [cell] using there

theorem Rearranged.outside {items items' : Nat → α} {left right : Int}
    (h : Rearranged items items' left right) {i : Int} (pos : 0 ≤ i) (out : i < left ∨ right < i) :
    cell items' i = cell items i := by
  obtain ⟨σ, rfl, fixed⟩ := h
  simp [cell, fixed i.toNat (by omega)]

theorem cell_swap_of_ne (items : Nat → α) {i j k : Int} (hi : 0 ≤ i) (hj : 0 ≤ j) (hk : 0 ≤ k)
    (ki : k ≠ i) (kj : k ≠ j) : cell (swap items i j) k = cell items k := by
  simp only [cell, swap, Function.comp_apply]
  rw [Equiv.swap_apply_of_ne_of_ne (by omega) (by omega)]

/-- What the upward scan passed over is below the pivot, and where it stops is not. -/
theorem scanUp_below {items : Nat → α} {pivot fuel : Nat} {l l' : Int}
    (run : scanUp key items pivot fuel l = some l') :
    l ≤ l' ∧ (∀ i, l ≤ i → i < l' → key (cell items i) < pivot) ∧ pivot ≤ key (cell items l') := by
  obtain ⟨⟨le, below⟩, exit⟩ := Loop.whileLoop_inv
    (fun k => l ≤ k ∧ ∀ i, l ≤ i → i < k → key (cell items i) < pivot) (by
      rintro k k' ⟨le, below⟩ next
      by_cases here : key (cell items k) < pivot
      · simp only [here, if_true, Option.some.injEq] at next
        subst next
        refine ⟨by omega, fun i hl hi => ?_⟩
        rcases (show i = k ∨ i < k by omega) with rfl | before
        · exact here
        · exact below i hl before
      · simp [here] at next) fuel l l' ⟨le_refl l, fun i _ _ => by omega⟩ run
  exact ⟨le, below, by simpa using exit⟩

/-- What the downward scan passed over is above the pivot, and where it stops is not. -/
theorem scanDown_above {items : Nat → α} {pivot fuel : Nat} {r r' : Int}
    (run : scanDown key items pivot fuel r = some r') :
    r' ≤ r ∧ (∀ i, r' < i → i ≤ r → pivot < key (cell items i)) ∧ key (cell items r') ≤ pivot := by
  obtain ⟨⟨le, above⟩, exit⟩ := Loop.whileLoop_inv
    (fun k => k ≤ r ∧ ∀ i, k < i → i ≤ r → pivot < key (cell items i)) (by
      rintro k k' ⟨le, above⟩ next
      by_cases here : pivot < key (cell items k)
      · simp only [here, if_true, Option.some.injEq] at next
        subst next
        refine ⟨by omega, fun i hi hr => ?_⟩
        rcases (show i = k ∨ k < i by omega) with rfl | after
        · exact here
        · exact above i after hr
      · simp [here] at next) fuel r r' ⟨le_refl r, fun i _ _ => by omega⟩ run
  exact ⟨le, above, by simpa using exit⟩

/-- The order invariant of the partition loop: nothing above the pivot is left of the left cursor, and
nothing below it right of the right one. -/
structure Split (key : α → Nat) (pivot : Nat) (left right : Int) (s : State α) : Prop where
  low : left ≤ s.2.1
  high : s.2.2 ≤ right
  below : ∀ i, left ≤ i → i < s.2.1 → key (cell s.1 i) ≤ pivot
  above : ∀ i, s.2.2 < i → i ≤ right → pivot ≤ key (cell s.1 i)

theorem partitionPass_split {pivot fuel : Nat} {left right : Int} {s s' : State α} (pos : 0 ≤ left)
    (split : Split key pivot left right s)
    (run : partitionPass key pivot fuel (some s) = some (some s')) : Split key pivot left right s' := by
  obtain ⟨cells, l, r⟩ := s
  obtain ⟨low, high, below, above⟩ := split
  simp only at low high below above
  by_cases more : l ≤ r
  · cases up : scanUp key cells pivot fuel l with
    | none => simp [partitionPass, more, up] at run
    | some l' =>
        cases down : scanDown key cells pivot fuel r with
        | none => simp [partitionPass, more, up, down] at run
        | some r' =>
            obtain ⟨hl, passedUp, stopUp⟩ := scanUp_below up
            obtain ⟨hr, passedDown, stopDown⟩ := scanDown_above down
            have below' : ∀ i, left ≤ i → i < l' → key (cell cells i) ≤ pivot := by
              intro i hi hl'
              by_cases before : i < l
              · exact below i hi before
              · exact (passedUp i (by omega) hl').le
            have above' : ∀ i, r' < i → i ≤ right → pivot ≤ key (cell cells i) := by
              intro i hr' hi
              by_cases after : r < i
              · exact above i after hi
              · exact (passedDown i hr' (by omega)).le
            by_cases cross : l' ≤ r'
            · simp only [partitionPass, more, up, down, cross, if_true, Option.some.injEq] at run
              subst run
              refine ⟨by simp only; omega, by simp only; omega, fun i hi hl' => ?_, fun i hr' hi => ?_⟩
              · simp only at hl' ⊢
                rcases (show i = l' ∨ i < l' by omega) with rfl | before
                · rw [cell_swap_left]
                  exact stopDown
                · rw [cell_swap_of_ne cells (by omega) (by omega) (by omega) (by omega) (by omega)]
                  exact below' i hi before
              · simp only at hr' ⊢
                rcases (show i = r' ∨ r' < i by omega) with rfl | after
                · rw [cell_swap_right]
                  exact stopUp
                · rw [cell_swap_of_ne cells (by omega) (by omega) (by omega) (by omega) (by omega)]
                  exact above' i after hi
            · simp only [partitionPass, more, up, down, cross, if_true, if_false, Option.some.injEq]
                at run
              subst run
              exact ⟨by simp only; omega, by simp only; omega, below', above'⟩
  · simp [partitionPass, more] at run

theorem partition_split {pivot fuel : Nat} {items cells : Nat → α} {left right l r : Int}
    (pos : 0 ≤ left) (run : partition key pivot fuel (items, left, right) = some (cells, l, r)) :
    Split key pivot left right (cells, l, r) := by
  have start : Split key pivot left right (items, left, right) :=
    ⟨le_refl _, le_refl _, fun i _ _ => by simp only at *; omega, fun i _ _ => by simp only at *; omega⟩
  have loop := Option.join_eq_some_iff.mp run
  have kept := Loop.whileLoop_inv
    (fun t : Option (State α) => ∀ s, t = some s → Split key pivot left right s)
    (by
      intro t t' split next s' eq
      subst eq
      cases t with
      | none => cases next
      | some s => exact partitionPass_split pos (split s rfl) next)
    fuel _ _ (by intro s eq; cases eq; exact start) loop
  exact kept.1 _ rfl

/-- The cells of the range are in order. -/
def Sorted (key : α → Nat) (items : Nat → α) (left right : Int) : Prop :=
  ∀ i j, left ≤ i → i ≤ j → j ≤ right → key (cell items i) ≤ key (cell items j)

/-- The range comes out in order. -/
theorem qsort_sorted : ∀ (fuel : Nat) (items items' : Nat → α) (left right : Int), 0 ≤ left →
    (right - left + 1).toNat < fuel → qsort key fuel items left right = some items' →
    Sorted key items' left right := by
  intro fuel
  induction fuel with
  | zero => intro _ _ _ _ _ h; omega
  | succ fuel ih =>
      intro items items' left right pos enough done
      by_cases small : left ≥ right
      · intro i j hi hij hj
        obtain rfl : i = j := by omega
        exact le_refl _
      · obtain ⟨cells, l, r, run, -, hl, hr, crossed⟩ :=
          partition_spec key items ((right - left).toNat + 3) pos (show left < right by omega)
            (by omega)
        obtain ⟨-, -, below, above⟩ := partition_split pos run
        obtain ⟨lower, runL, arrangedL⟩ := qsort_spec key fuel cells left r pos (by omega)
        obtain ⟨upper, runU, arrangedU⟩ := qsort_spec key fuel lower l right (by omega) (by omega)
        obtain rfl : upper = items' := by simpa [qsort, small, run, runL, runU] using done
        have sortedL := ih cells lower left r pos (by omega) runL
        have sortedU := ih lower upper l right (by omega) (by omega) runU
        have keptL : ∀ i, left ≤ i → i < l → cell upper i = cell lower i :=
          fun i hi hil => arrangedU.outside (by omega) (.inl hil)
        have low : ∀ i, left ≤ i → i < l → key (cell upper i) ≤ key (cell items ((left + right) / 2)) := by
          intro i hi hil
          rw [keptL i hi hil]
          by_cases part : i ≤ r
          · exact arrangedL.all (P := fun x => key x ≤ _) pos
              (fun k hk hkr => below k hk (by simp only; omega)) i hi part
          · rw [arrangedL.outside (by omega) (.inr (by omega))]
            exact below i hi hil
        have high : ∀ i, r < i → left ≤ i → i ≤ right →
            key (cell items ((left + right) / 2)) ≤ key (cell upper i) := by
          have before : ∀ i, r < i → left ≤ i → i ≤ right →
              key (cell items ((left + right) / 2)) ≤ key (cell lower i) := by
            intro i hri hi hir
            rw [arrangedL.outside (by omega) (.inr hri)]
            exact above i hri hir
          intro i hri hi hir
          by_cases part : l ≤ i
          · exact arrangedU.all (P := fun x => _ ≤ key x) (by omega)
              (fun k hk hkr => before k (by omega) (by omega) hkr) i part hir
          · rw [keptL i hi (by omega)]
            exact before i hri hi hir
        intro i j hi hij hj
        by_cases left' : j ≤ r
        · rw [keptL i hi (by omega), keptL j (by omega) (by omega)]
          exact sortedL i j hi hij left'
        · by_cases right' : l ≤ i
          · exact sortedU i j right' hij hj
          · exact (low i hi (by omega)).trans (high j (by omega) (by omega) hj)

/-! ### Accesses -/

/-- Why a run that watches its accesses stops. -/
inductive Refused where
  | outside (i : Int)
  | fuel
deriving Repr, DecidableEq

/-- A cell is read or written inside the range only. -/
def access (left right i : Int) : Except Refused Unit :=
  if left ≤ i ∧ i ≤ right then .ok () else .error (.outside i)

theorem access_ok {left right i : Int} (hl : left ≤ i) (hr : i ≤ right) :
    access left right i = .ok () :=
  if_pos ⟨hl, hr⟩

section Watched

variable {α : Type} (key : α → Nat)

/-- `scanUp`, every read watched. -/
def scanUpIn (items : Nat → α) (left right : Int) (pivot fuel : Nat) (l : Int) : Except Refused Int :=
  Loop.exceptLoop .fuel
    (fun l => do
      access left right l
      pure (if key (cell items l) < pivot then some (l + 1) else none))
    fuel l

/-- `scanDown`, every read watched. -/
def scanDownIn (items : Nat → α) (left right : Int) (pivot fuel : Nat) (r : Int) : Except Refused Int :=
  Loop.exceptLoop .fuel
    (fun r => do
      access left right r
      pure (if pivot < key (cell items r) then some (r - 1) else none))
    fuel r

/-- `partitionPass`, every access watched. -/
def partitionPassIn (left right : Int) (pivot fuel : Nat) (s : State α) :
    Except Refused (Option (State α)) :=
  if s.2.1 ≤ s.2.2 then do
    let l ← scanUpIn key s.1 left right pivot fuel s.2.1
    let r ← scanDownIn key s.1 left right pivot fuel s.2.2
    if l ≤ r then
      access left right l
      access left right r
      pure (some (swap s.1 l r, l + 1, r - 1))
    else pure (some (s.1, l, r))
  else pure none

/-- `qsort`, every access of a call watched against the range of that call. -/
def qsortIn : Nat → (Nat → α) → Int → Int → Except Refused (Nat → α)
  | 0, _, _, _ => .error .fuel
  | fuel + 1, items, left, right =>
      if left ≥ right then .ok items
      else do
        access left right ((left + right) / 2)
        let pivot := key (cell items ((left + right) / 2))
        let passes := (right - left).toNat + 3
        let s ← Loop.exceptLoop .fuel (partitionPassIn key left right pivot passes) passes
          (items, left, right)
        let items ← qsortIn fuel s.1 left s.2.2
        qsortIn fuel items s.2.1 right

variable {key}

/-- A blocked upward scan reads up to the cell that blocks it. -/
theorem scanUpIn_eq {items : Nat → α} {pivot fuel : Nat} {left right l l' stop : Int} (hl : left ≤ l)
    (le : l ≤ stop) (hr : stop ≤ right) (blocks : pivot ≤ key (cell items stop))
    (run : scanUp key items pivot fuel l = some l') :
    scanUpIn key items left right pivot fuel l = .ok l' := by
  have watched : ∃ t, scanUpIn key items left right pivot fuel l = .ok t ∧
      (l' = t ∧ left ≤ t ∧ t ≤ stop) :=
    Loop.exceptLoop_of_whileLoop (fun k k' => k = k' ∧ left ≤ k' ∧ k' ≤ stop) (by
      rintro k _ ⟨rfl, low, high⟩
      refine ⟨_, by rw [access_ok low (by omega)]; rfl, ?_⟩
      by_cases here : key (cell items k) < pivot
      · have ne : k ≠ stop := by
          rintro rfl
          omega
        simp only [here, if_true]
        exact .some ⟨rfl, by omega, by omega⟩
      · simp only [here, if_false]
        exact .none) fuel ⟨rfl, hl, le⟩ run
  obtain ⟨t, done, rfl, -⟩ := watched
  exact done

/-- A blocked downward scan reads down to the cell that blocks it. -/
theorem scanDownIn_eq {items : Nat → α} {pivot fuel : Nat} {left right r r' stop : Int} (hr : r ≤ right)
    (le : stop ≤ r) (hl : left ≤ stop) (blocks : key (cell items stop) ≤ pivot)
    (run : scanDown key items pivot fuel r = some r') :
    scanDownIn key items left right pivot fuel r = .ok r' := by
  have watched : ∃ t, scanDownIn key items left right pivot fuel r = .ok t ∧
      (r' = t ∧ t ≤ right ∧ stop ≤ t) :=
    Loop.exceptLoop_of_whileLoop (fun k k' => k = k' ∧ k' ≤ right ∧ stop ≤ k') (by
      rintro k _ ⟨rfl, high, low⟩
      refine ⟨_, by rw [access_ok (by omega) high]; rfl, ?_⟩
      by_cases here : pivot < key (cell items k)
      · have ne : k ≠ stop := by
          rintro rfl
          omega
        simp only [here, if_true]
        exact .some ⟨rfl, by omega, by omega⟩
      · simp only [here, if_false]
        exact .none) fuel ⟨rfl, hr, le⟩ run
  obtain ⟨t, done, rfl, -⟩ := watched
  exact done

/-- A pass under the partition invariant stays in the range. -/
theorem partitionPassIn_eq {pivot fuel : Nat} {items : Nat → α} {left right : Int} {s : State α}
    (pos : 0 ≤ left) (enough : (right - left).toNat < fuel)
    (inv : Partitioning key pivot items left right s) :
    ∃ r, partitionPassIn key left right pivot fuel s = .ok r ∧
      partitionPass key pivot fuel (some s) = r.map some ∧
      ∀ s', r = some s' → Partitioning key pivot items left right s' := by
  by_cases more : s.2.1 ≤ s.2.2
  · obtain ⟨i, hli, hir, hi⟩ := inv.blockUp more
    obtain ⟨j, hlj, hjr, hj⟩ := inv.blockDown more
    have low := inv.low
    have high := inv.high
    obtain ⟨l', up, hll, hli', -⟩ := scanUp_spec fuel hli hi (by omega)
    obtain ⟨r', down, hjr', hrr, -⟩ := scanDown_spec fuel hjr hj (by omega)
    obtain ⟨s', next, inv', -⟩ := partitionPass_spec fuel pos enough inv more
    refine ⟨some s', ?_, next, fun _ eq => by cases eq; exact inv'⟩
    obtain ⟨cells, l, r⟩ := s
    simp only at more low high hli hjr up down hll hrr
    have upIn := scanUpIn_eq low hli hir hi up
    have downIn := scanDownIn_eq high hjr hlj hj down
    simp only [partitionPass, more, up, down, if_true] at next
    simp only [partitionPassIn, more, upIn, downIn, if_true]
    by_cases cross : l' ≤ r'
    · simp only [cross, if_true, Option.some.injEq] at next
      have atL : access left right l' = .ok () := access_ok (by omega) (by omega)
      have atR : access left right r' = .ok () := access_ok (by omega) (by omega)
      simp only [Bind.bind, Except.bind, cross, if_true, atL, atR, next]
      rfl
    · simp only [cross, if_false, Option.some.injEq] at next
      simp only [Bind.bind, Except.bind, cross, if_false, next]
      rfl
  · obtain ⟨cells, l, r⟩ := s
    simp only at more
    refine ⟨none, ?_, ?_, fun _ eq => by cases eq⟩
    · simp only [partitionPassIn, more, if_false]
      rfl
    · simp [partitionPass, more]

/-- Watching the accesses changes nothing: all of them are in the range of their call. -/
theorem qsortIn_eq : ∀ (fuel : Nat) (items items' : Nat → α) (left right : Int), 0 ≤ left →
    (right - left + 1).toNat < fuel → qsort key fuel items left right = some items' →
    qsortIn key fuel items left right = .ok items' := by
  intro fuel
  induction fuel with
  | zero => intro _ _ _ _ _ h; omega
  | succ fuel ih =>
      intro items items' left right pos enough done
      by_cases small : left ≥ right
      · rw [qsort, if_pos small] at done
        cases done
        rw [qsortIn, if_pos small]
      · have mid : left ≤ (left + right) / 2 ∧ (left + right) / 2 ≤ right := by omega
        obtain ⟨cells, l, r, run, -, hl, hr, -⟩ :=
          partition_spec key items ((right - left).toNat + 3) pos (show left < right by omega)
            (by omega)
        obtain ⟨lower, runL, -⟩ := qsort_spec key fuel cells left r pos (by omega)
        obtain ⟨upper, runU, -⟩ := qsort_spec key fuel lower l right (by omega) (by omega)
        obtain rfl : upper = items' := by simpa [qsort, small, run, runL, runU] using done
        generalize hp : key (cell items ((left + right) / 2)) = pivot at run
        have start : Partitioning key pivot items left right (items, left, right) :=
          ⟨.refl items left right, le_refl _, le_refl _,
            fun _ => ⟨_, mid.1, mid.2, hp.ge⟩, fun _ => ⟨_, mid.1, mid.2, hp.le⟩⟩
        have watched : ∃ s, Loop.exceptLoop .fuel
              (partitionPassIn key left right pivot ((right - left).toNat + 3))
              ((right - left).toNat + 3) (items, left, right) = .ok s ∧
            (some (cells, l, r) = some s ∧ Partitioning key pivot items left right s) :=
          Loop.exceptLoop_of_whileLoop
            (fun t s => t = some s ∧ Partitioning key pivot items left right s) (by
              rintro _ s ⟨rfl, inv⟩
              obtain ⟨next, passIn, pass, keep⟩ :=
                partitionPassIn_eq pos (show (right - left).toNat < (right - left).toNat + 3 by omega) inv
              refine ⟨next, passIn, ?_⟩
              rw [pass]
              cases next with
              | none => exact .none
              | some s' => exact .some ⟨rfl, keep s' rfl⟩)
            _ ⟨rfl, start⟩ (Option.join_eq_some_iff.mp run)
        obtain ⟨s, loop, eq, -⟩ := watched
        cases eq
        rw [qsortIn, if_neg small]
        simp only [access_ok mid.1 mid.2, hp, loop, Bind.bind, Except.bind,
          ih cells lower left r pos (by omega) runL, ih lower upper l right (by omega) (by omega) runU]

end Watched

end HoareSort
