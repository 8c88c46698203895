/-
Module: SafRprGen.Lib.FirstMin
Layer: Lib
Purpose: A scan that keeps, for every key, the first element of least rank. What it keeps depends only on
  which elements share a key, and the elements it keeps are as many as there are keys.
Main exports: firstMin, IsFirstMin, firstMin_eq_some, scan_eq, count_eq, winners_length, perm_flatMap_classes
-/
import Mathlib.Data.Finset.Dedup
import Mathlib.Data.Finset.Card
import Mathlib.Logic.Function.Basic

namespace FirstMin

variable {α κ : Type*} [DecidableEq κ] (rank : α → Nat) (key : α → κ)

/-- An element replaces the one kept when its rank is lower. -/
def keep (best : Option α) (x : α) : Option α :=
  match best with
  | none => some x
  | some b => if rank x < rank b then some x else some b

/-- The element left after all were seen. -/
def firstMin (xs : List α) : Option α := xs.foldl (keep rank) none

/-- An element of least rank, before every other one of that rank. -/
def IsFirstMin (xs : List α) (x : α) : Prop :=
  ∃ before after, xs = before ++ x :: after ∧ (∀ y ∈ before, rank x < rank y) ∧
    ∀ y ∈ after, rank x ≤ rank y

/-- One element of the scan with keys. -/
def scanStep (best : κ → Option α) (x : α) : κ → Option α :=
  Function.update best (key x) (keep rank (best (key x)) x)

/-- Counting the keys that are seen for the first time. -/
def countStep (s : (κ → Option α) × Nat) (x : α) : (κ → Option α) × Nat :=
  (scanStep rank key s.1 x, if (s.1 (key x)).isNone then s.2 + 1 else s.2)

variable {rank key}

/-! ### The first element of least rank -/

theorem IsFirstMin.mem {xs : List α} {x : α} (h : IsFirstMin rank xs x) : x ∈ xs := by
  obtain ⟨before, after, rfl, -, -⟩ := h
  simp

theorem IsFirstMin.le {xs : List α} {x : α} (h : IsFirstMin rank xs x) {y : α} (hy : y ∈ xs) :
    rank x ≤ rank y := by
  obtain ⟨before, after, rfl, lower, least⟩ := h
  rcases List.mem_append.mp hy with hy | hy
  · exact (lower y hy).le
  · rcases List.mem_cons.mp hy with rfl | hy
    · exact le_refl _
    · exact least y hy

theorem IsFirstMin.unique {xs : List α} {x y : α} (hx : IsFirstMin rank xs x)
    (hy : IsFirstMin rank xs y) : x = y := by
  have leX := fun z => @IsFirstMin.le _ _ _ _ hx z
  have leY := fun z => @IsFirstMin.le _ _ _ _ hy z
  have memX := hx.mem
  have memY := hy.mem
  obtain ⟨before, after, split, lowerX, -⟩ := hx
  obtain ⟨before', after', split', lowerY, -⟩ := hy
  rw [split] at split'
  rcases List.append_eq_append_iff.mp split' with ⟨l, rest, here⟩ | ⟨l, rest, here⟩
  · cases l with
    | nil => exact (List.cons.inj here).1
    | cons z l =>
        have same : x = z := (List.cons.inj here).1
        have less := lowerY x (by rw [rest, same]; simp)
        exact absurd (leX y memY) (by omega)
  · cases l with
    | nil => exact (List.cons.inj here).1.symm
    | cons z l =>
        have same : y = z := (List.cons.inj here).1
        have less := lowerX y (by rw [rest, same]; simp)
        exact absurd (leY x memX) (by omega)

theorem firstMin_snoc (xs : List α) (x : α) :
    firstMin rank (xs ++ [x]) = keep rank (firstMin rank xs) x := by
  simp [firstMin]

/-- The scan finds an element of least rank, the first one, if there is any element. -/
theorem firstMin_spec (xs : List α) :
    (firstMin rank xs = none ∧ xs = []) ∨ ∃ x, firstMin rank xs = some x ∧ IsFirstMin rank xs x := by
  induction xs using List.reverseRecOn with
  | nil => exact .inl ⟨rfl, rfl⟩
  | append_singleton xs x ih =>
      right
      rw [firstMin_snoc]
      rcases ih with ⟨found, rfl⟩ | ⟨b, found, isMin⟩
      · rw [found]
        exact ⟨x, rfl, [], [], rfl, by simp, by simp⟩
      · rw [found]
        unfold keep
        dsimp only
        by_cases less : rank x < rank b
        · rw [if_pos less]
          exact ⟨x, rfl, xs, [], rfl, fun y hy => less.trans_le (isMin.le hy), by simp⟩
        · rw [if_neg less]
          obtain ⟨before, after, rfl, lower, least⟩ := isMin
          refine ⟨b, rfl, before, after ++ [x], by simp, lower, fun y hy => ?_⟩
          rcases List.mem_append.mp hy with hy | hy
          · exact least y hy
          · rw [List.mem_singleton.mp hy]
            exact not_lt.mp less

theorem firstMin_eq_some {xs : List α} {x : α} :
    firstMin rank xs = some x ↔ IsFirstMin rank xs x := by
  rcases @firstMin_spec _ rank xs with ⟨found, rfl⟩ | ⟨y, found, isMin⟩
  · rw [found]
    refine ⟨fun h => (by cases h), fun h => ?_⟩
    exact absurd h.mem List.not_mem_nil
  · rw [found]
    constructor
    · intro h
      cases h
      exact isMin
    · intro h
      rw [isMin.unique h]

theorem firstMin_eq_none {xs : List α} : firstMin rank xs = none ↔ xs = [] := by
  rcases @firstMin_spec _ rank xs with ⟨found, rfl⟩ | ⟨y, found, isMin⟩
  · simp [found]
  · rw [found]
    simp [List.ne_nil_of_mem isMin.mem]

/-- Among the elements with a property, in the order of ranks and then positions, it is the first. -/
theorem IsFirstMin.position {p : α → Bool} {xs : List α} {x : α}
    (h : IsFirstMin rank (xs.filter p) x) :
    ∃ i, (x, i) ∈ xs.zipIdx ∧ ∀ y j, (y, j) ∈ xs.zipIdx → p y = true →
      rank x < rank y ∨ (rank x = rank y ∧ i ≤ j) := by
  obtain ⟨before, after, split, lower, least⟩ := h
  obtain ⟨l₁, rest, rfl, rfl, here⟩ := List.filter_eq_append_iff.mp split
  obtain ⟨l₂, l₃, rfl, none, -, rfl⟩ := List.filter_eq_cons_iff.mp here
  refine ⟨(l₁ ++ l₂).length, ?_, fun y j mem isP => ?_⟩
  · rw [List.mem_zipIdx_iff_getElem?, ← List.append_assoc]
    simp
  · have found := List.mem_zipIdx_iff_getElem?.mp mem
    dsimp only at found
    rw [← List.append_assoc] at found
    rcases lt_trichotomy j (l₁ ++ l₂).length with less | same | more
    · rw [List.getElem?_append_left less] at found
      rcases List.mem_append.mp (List.mem_of_getElem? found) with mem | mem
      · exact .inl (lower y (List.mem_filter.mpr ⟨mem, isP⟩))
      · exact absurd isP (none y mem)
    · have here : (l₁ ++ l₂ ++ x :: l₃)[j]? = some x := by simp [same]
      rw [here] at found
      cases found
      exact .inr ⟨rfl, same.ge⟩
    · rw [List.getElem?_append_right more.le] at found
      have mem : y ∈ l₃ := by
        obtain ⟨k, hk⟩ := Nat.exists_eq_add_of_lt more
        rw [hk, show (l₁ ++ l₂).length + k + 1 - (l₁ ++ l₂).length = k + 1 by omega,
          List.getElem?_cons_succ] at found
        exact List.mem_of_getElem? found
      have le := least y (List.mem_filter.mpr ⟨mem, isP⟩)
      rcases le.lt_or_eq with lt | eq
      · exact .inl lt
      · exact .inr ⟨eq, more.le⟩

/-! ### The scan with keys -/

/-- Every key has the first least of its elements. -/
theorem scan_eq (xs : List α) (k : κ) :
    xs.foldl (scanStep rank key) (fun _ => none) k =
      firstMin rank (xs.filter fun x => decide (key x = k)) := by
  induction xs using List.reverseRecOn generalizing k with
  | nil => rfl
  | append_singleton xs x ih =>
      rw [List.foldl_append, List.foldl_cons, List.foldl_nil, scanStep, List.filter_append]
      by_cases here : key x = k
      · subst here
        rw [Function.update_self, ih]
        simp [firstMin_snoc]
      · rw [Function.update_of_ne (Ne.symm here), ih]
        simp [here]

/-- The number counted is the number of keys. -/
theorem count_eq (xs : List α) :
    xs.foldl (countStep rank key) (fun _ => none, 0) =
      (xs.foldl (scanStep rank key) (fun _ => none), (xs.map key).toFinset.card) := by
  induction xs using List.reverseRecOn with
  | nil => rfl
  | append_singleton xs x ih =>
      rw [List.foldl_append, List.foldl_append, List.foldl_cons, List.foldl_nil, ih, countStep]
      refine Prod.ext rfl ?_
      have fresh : (xs.foldl (scanStep rank key) (fun _ => none) (key x)).isNone = true ↔
          key x ∉ (xs.map key).toFinset := by
        rw [scan_eq, Option.isNone_iff_eq_none, firstMin_eq_none, List.filter_eq_nil_iff]
        simp
      dsimp only
      rw [List.map_append, List.toFinset_append, List.map_cons, List.map_nil, Finset.union_comm,
        List.toFinset_cons, List.toFinset_nil, insert_empty_eq, Finset.singleton_union]
      by_cases new : key x ∈ (xs.map key).toFinset
      · rw [if_neg (by rw [fresh]; exact not_not.mpr new), Finset.insert_eq_of_mem new]
      · rw [if_pos (fresh.mpr new), Finset.card_insert_of_notMem new]

/-- The elements that are kept. -/
def winners [DecidableEq α] (rank : α → Nat) (key : α → κ) (xs : List α) : List α :=
  xs.filter fun x => decide (firstMin rank (xs.filter fun y => decide (key y = key x)) = some x)

/-- One element is kept for every key. -/
theorem winners_length [DecidableEq α] {xs : List α} (nodup : xs.Nodup) :
    (winners rank key xs).length = (xs.map key).toFinset.card := by
  have image : (xs.map key).toFinset = (winners rank key xs).toFinset.image key := by
    ext k
    simp only [List.mem_toFinset, List.mem_map, Finset.mem_image, winners, List.mem_filter,
      decide_eq_true_eq]
    constructor
    · rintro ⟨x, hx, rfl⟩
      rcases @firstMin_spec _ rank (xs.filter fun y => decide (key y = key x)) with
        ⟨-, empty⟩ | ⟨y, found, isMin⟩
      · exact absurd (decide_eq_true rfl) (List.filter_eq_nil_iff.mp empty x hx)
      · obtain ⟨hy, same⟩ := List.mem_filter.mp isMin.mem
        have same : key y = key x := of_decide_eq_true same
        exact ⟨y, ⟨hy, by rw [same]; exact found⟩, same⟩
    · rintro ⟨x, ⟨hx, -⟩, rfl⟩
      exact ⟨x, hx, rfl⟩
  have kept : (winners rank key xs).Nodup := nodup.filter _
  rw [image, Finset.card_image_of_injOn, List.toFinset_card_of_nodup kept]
  intro x hx y hy same
  have keptX := (List.mem_filter.mp (List.mem_toFinset.mp hx)).2
  have keptY := (List.mem_filter.mp (List.mem_toFinset.mp hy)).2
  rw [decide_eq_true_eq] at keptX keptY
  rw [same, keptY] at keptX
  exact (Option.some.inj keptX).symm

theorem winners_unique [DecidableEq α] {xs : List α} {x y : α} (hx : x ∈ winners rank key xs)
    (hy : y ∈ winners rank key xs) (same : key x = key y) : x = y := by
  have keptX := of_decide_eq_true (List.mem_filter.mp hx).2
  have keptY := of_decide_eq_true (List.mem_filter.mp hy).2
  rw [same, keptY] at keptX
  exact (Option.some.inj keptX).symm

/-- Every key has the element that is kept for it. -/
theorem exists_winner [DecidableEq α] {xs : List α} {y : α} (hy : y ∈ xs) :
    ∃ x ∈ winners rank key xs, key x = key y := by
  rcases @firstMin_spec _ rank (xs.filter fun x => decide (key x = key y)) with
      ⟨-, empty⟩ | ⟨x, found, isMin⟩
  · exact absurd (decide_eq_true rfl) (List.filter_eq_nil_iff.mp empty y hy)
  · obtain ⟨hx, same⟩ := List.mem_filter.mp isMin.mem
    have same : key x = key y := of_decide_eq_true same
    exact ⟨x, List.mem_filter.mpr ⟨hx, decide_eq_true (by rw [same]; exact found)⟩, same⟩

/-! ### Listing the classes -/

/-- The wanted items of every class, each behind the one its class was found by, are the wanted items. -/
theorem perm_flatMap_classes {ι : Type*} [DecidableEq ι] {items : List ι} (nodup : items.Nodup)
    {wanted : ι → Bool} {cls : ι → κ} {chosen : List α} {own : α → ι}
    (isWanted : ∀ x ∈ chosen, own x ∈ items ∧ wanted (own x) = true)
    (distinct : (chosen.map fun x => cls (own x)).Nodup)
    (cover : ∀ i ∈ items, wanted i = true → ∃ x ∈ chosen, cls (own x) = cls i) :
    (chosen.flatMap fun x => own x :: (items.filter fun i =>
      wanted i && decide (cls i = cls (own x))).filter fun i => decide (i ≠ own x)).Perm
        (items.filter wanted) := by
  refine (List.perm_ext_iff_of_nodup ?_ (nodup.filter _)).mpr fun i => ?_
  · rw [List.nodup_flatMap]
    refine ⟨fun x _ => List.nodup_cons.mpr ⟨fun mem => ?_, (nodup.filter _).filter _⟩, ?_⟩
    · exact of_decide_eq_true (List.mem_filter.mp mem).2 rfl
    · -- items of two classes differ in their class
      have cls_eq : ∀ x ∈ chosen, ∀ i ∈ own x :: (items.filter fun i =>
          wanted i && decide (cls i = cls (own x))).filter fun i => decide (i ≠ own x),
            cls i = cls (own x) := by
        intro x _ i mem
        rcases List.mem_cons.mp mem with rfl | mem
        · rfl
        · have inClass := (List.mem_filter.mp (List.mem_filter.mp mem).1).2
          exact of_decide_eq_true (Bool.and_eq_true_iff.mp inClass).2
      refine ((List.pairwise_map.mp distinct).imp_of_mem ?_)
      intro x y hx hy differ i memX memY
      exact differ ((cls_eq x hx i memX).symm.trans (cls_eq y hy i memY))
  · rw [List.mem_flatMap, List.mem_filter]
    constructor
    · rintro ⟨x, hx, mem⟩
      rcases List.mem_cons.mp mem with rfl | mem
      · exact isWanted x hx
      · obtain ⟨low, inClass⟩ := List.mem_filter.mp (List.mem_filter.mp mem).1
        exact ⟨low, (Bool.and_eq_true_iff.mp inClass).1⟩
    · rintro ⟨low, isIn⟩
      obtain ⟨x, hx, same⟩ := cover i low isIn
      refine ⟨x, hx, ?_⟩
      by_cases self : i = own x
      · exact self ▸ List.mem_cons_self
      · refine List.mem_cons_of_mem _
          (List.mem_filter.mpr ⟨List.mem_filter.mpr ⟨low, ?_⟩, decide_eq_true self⟩)
        rw [isIn, Bool.true_and]
        exact decide_eq_true same.symm

end FirstMin
