/-
Module: SafRprGen.Lib.UnionFind
Layer: Lib
Purpose: Union-find over the nodes below `n`, with path compression and linking by size. A node without a
  parent of its own is a root. The parent links are acyclic, so every walk ends; compression moves no node
  to another root, and linking two roots joins exactly their classes. After any sequence of calls two nodes
  have one root exactly when the equivalence closure of the merged pairs relates them, and the size stored
  at a root is the size of its class. A merge joins two classes at most, so that the number of classes is
  known up to the number of pairs.
Main exports: Forest, find, merge, RootOf, Valid, find_spec, merge_spec, Represents, classCount
-/
import SafRprGen.Lib.Dag
import SafRprGen.Lib.Loop
import Mathlib.Combinatorics.Enumerative.DoubleCounting
import Mathlib.Data.Finset.Range
import Mathlib.Data.Nat.Find
import Mathlib.Data.Set.Card
import Mathlib.Logic.Relation

namespace UnionFind

/-- Parent links, and class sizes at the roots. -/
@[ext]
structure Forest where
  parent : Nat → Nat
  size : Nat → Nat

/-- Every node a root of its own. -/
def singletons : Forest := ⟨id, fun _ => 1⟩

/-- One step of the walk to the root. -/
def walkPass (parent : Nat → Nat) (x : Nat) : Option Nat :=
  if parent x = x then none else some (parent x)

/-- The walk to the root, which changes nothing. -/
def walk (n : Nat) (u : Forest) (x : Nat) : Option Nat :=
  Loop.whileLoop (walkPass u.parent) (n + 1) x

/-- One step of path compression. -/
def compressPass (root : Nat) (s : Nat × (Nat → Nat)) : Option (Nat × (Nat → Nat)) :=
  if s.1 = root then none else some (s.2 s.1, Function.update s.2 s.1 root)

/-- The root of a node; the nodes on the way become its children. -/
def find (n : Nat) (u : Forest) (x : Nat) : Option (Nat × Forest) :=
  (walk n u x).bind fun root =>
    (Loop.whileLoop (compressPass root) (n + 1) (x, u.parent)).map fun s =>
      (root, { u with parent := s.2 })

/-- Link the root of the smaller class under the other one. -/
def link (u : Forest) (a b : Nat) : Forest :=
  if a = b then u
  else
    let (big, small) := if u.size a < u.size b then (b, a) else (a, b)
    ⟨Function.update u.parent small big, Function.update u.size big (u.size big + u.size small)⟩

/-- Join the classes of two nodes. -/
def merge (n : Nat) (u : Forest) (a b : Nat) : Option Forest :=
  (find n u a).bind fun (rootA, u) => (find n u b).map fun (rootB, u) => link u rootA rootB

/-! ### Roots -/

/-- The root that the parent links lead to. -/
inductive RootOf (parent : Nat → Nat) : Nat → Nat → Prop where
  | root {r : Nat} : parent r = r → RootOf parent r r
  | step {x r : Nat} : RootOf parent (parent x) r → RootOf parent x r

variable {n : Nat} {parent : Nat → Nat} {u : Forest}

theorem RootOf.isRoot {x r : Nat} (h : RootOf parent x r) : parent r = r := by
  induction h with
  | root h => exact h
  | step _ ih => exact ih

theorem RootOf.of_root {x r : Nat} (isRoot : parent x = x) (h : RootOf parent x r) : r = x := by
  induction h with
  | root _ => rfl
  | step _ ih =>
      rw [isRoot] at ih
      exact ih isRoot

theorem RootOf.unique {x r s : Nat} (h : RootOf parent x r) (h' : RootOf parent x s) : r = s := by
  induction h with
  | root isRoot => exact (h'.of_root isRoot).symm
  | step _ ih =>
      cases h' with
      | root isRoot => exact ih (by rw [isRoot]; exact .root isRoot)
      | step h' => exact ih h'

/-- What a changed link does: a node whose path avoids it keeps its root, the others get the new one. -/
theorem RootOf.update {a r x s : Nat} (isRoot : parent r = r) (ne : a ≠ r) (h : RootOf parent x s) :
    (RootOf (Function.update parent a r) x s ∧ s ≠ a) ∨
      (RootOf (Function.update parent a r) x r ∧ RootOf parent a s) := by
  have root : RootOf (Function.update parent a r) r r := by
    apply RootOf.root
    rw [Function.update_of_ne (Ne.symm ne)]
    exact isRoot
  have here : RootOf (Function.update parent a r) a r := by
    apply RootOf.step
    rw [Function.update_self]
    exact root
  induction h with
  | @root s selfRoot =>
      by_cases same : s = a
      · subst same
        exact .inr ⟨here, .root selfRoot⟩
      · refine .inl ⟨.root ?_, same⟩
        rw [Function.update_of_ne same]
        exact selfRoot
  | @step x s below ih =>
      by_cases same : x = a
      · subst same
        exact .inr ⟨here, .step below⟩
      · have up : ∀ {t}, RootOf (Function.update parent a r) (parent x) t →
            RootOf (Function.update parent a r) x t := by
          intro t h
          apply RootOf.step
          rw [Function.update_of_ne same]
          exact h
        rcases ih with ⟨kept, other⟩ | ⟨moved, passes⟩
        · exact .inl ⟨up kept, other⟩
        · exact .inr ⟨up moved, passes⟩

/-- The link of a node that is not a root. -/
def links (parent : Nat → Nat) (x : Nat) : List Nat := if parent x = x then [] else [parent x]

/-- The links are acyclic and stay below `n`. -/
def Acyclic (n : Nat) (parent : Nat → Nat) : Prop := Dag.Acyclic n (links parent)

theorem Acyclic.parent_lt (acyclic : Acyclic n parent) {x : Nat} (hx : x < n) : parent x < n := by
  obtain ⟨_, lower⟩ := acyclic
  by_cases isRoot : parent x = x
  · rw [isRoot]
    exact hx
  · exact (lower x hx (parent x) (by simp [links, isRoot])).1

theorem Acyclic.exists_root (acyclic : Acyclic n parent) :
    ∀ x < n, ∃ r, r < n ∧ RootOf parent x r := by
  refine Dag.Acyclic.induction acyclic ?_
  intro x hx ih
  by_cases isRoot : parent x = x
  · exact ⟨x, hx, .root isRoot⟩
  · obtain ⟨r, hr, above⟩ := ih (parent x) (by simp [links, isRoot])
    exact ⟨r, hr, .step above⟩

theorem RootOf.lt (acyclic : Acyclic n parent) {x r : Nat} (hx : x < n) (h : RootOf parent x r) :
    r < n := by
  obtain ⟨s, hs, h'⟩ := acyclic.exists_root x hx
  rw [h.unique h']
  exact hs

/-- A parent map in which every node below `n` has a root is acyclic. -/
theorem acyclic_of_roots (low : ∀ x < n, parent x < n) (roots : ∀ x < n, ∃ r, RootOf parent x r) :
    Acyclic n parent := by
  classical
  -- the distance to the root is the rank
  have steps : ∀ {x r}, RootOf parent x r → ∃ k, parent (parent^[k] x) = parent^[k] x := by
    intro x r h
    induction h with
    | root isRoot => exact ⟨0, isRoot⟩
    | step _ ih =>
        obtain ⟨k, at_root⟩ := ih
        exact ⟨k + 1, at_root⟩
  let rank : Nat → Nat := fun x =>
    if h : ∃ k, parent (parent^[k] x) = parent^[k] x then Nat.find h else 0
  refine ⟨rank, fun x hx y hy => ?_⟩
  unfold links at hy
  split at hy
  · exact absurd hy List.not_mem_nil
  · rename_i notRoot
    rw [List.mem_singleton.mp hy]
    refine ⟨low x hx, ?_⟩
    obtain ⟨r, hr⟩ := roots x hx
    obtain ⟨s, hs⟩ := roots (parent x) (low x hx)
    have hereX := steps hr
    have hereP := steps hs
    simp only [rank, dif_pos hereX, dif_pos hereP]
    have positive : Nat.find hereX ≠ 0 := by
      intro zero
      have := Nat.find_spec hereX
      rw [zero] at this
      exact notRoot this
    obtain ⟨k, hk⟩ := Nat.exists_eq_succ_of_ne_zero positive
    have found := Nat.find_spec hereX
    rw [hk, Function.iterate_succ_apply] at found
    have := Nat.find_le (h := hereP) found
    omega

/-! ### The walk -/

theorem walk_spec (acyclic : Acyclic n u.parent) {x : Nat} (hx : x < n) :
    ∃ r, walk n u x = some r ∧ RootOf u.parent x r := by
  obtain ⟨r, -, isRoot⟩ := acyclic.exists_root x hx
  obtain ⟨rank, bounded, lower⟩ := Dag.Acyclic.boundedRank acyclic
  obtain ⟨t, run, ⟨-, same⟩, exit⟩ := @Loop.whileLoop_total _ (walkPass u.parent)
    (fun y => y < n ∧ ∀ s, RootOf u.parent y s → RootOf u.parent x s) rank
    (by
      rintro y y' ⟨hy, same⟩ next
      unfold walkPass at next
      split at next
      · cases next
      · rename_i notRoot
        cases next
        obtain ⟨lt, less⟩ := lower y hy (u.parent y) (by simp [links, notRoot])
        exact ⟨⟨lt, fun s h => same s (.step h)⟩, less⟩)
    (n + 1) x ⟨hx, fun _ h => h⟩ (Nat.lt_succ_of_lt (bounded x hx))
  have atRoot : u.parent t = t := by
    unfold walkPass at exit
    split at exit
    · assumption
    · cases exit
  exact ⟨t, run, same t (.root atRoot)⟩

/-! ### Path compression -/

/-- A root is below the nodes that lead to it. -/
theorem RootOf.rank_lt {rank : Nat → Nat}
    (lower : ∀ x < n, ∀ y ∈ links parent x, y < n ∧ rank y < rank x) {x r : Nat}
    (h : RootOf parent x r) : x < n → x = r ∨ rank r < rank x := by
  induction h with
  | root _ => exact fun _ => .inl rfl
  | @step x r _ ih =>
      intro hx
      by_cases isRoot : parent x = x
      · rw [isRoot] at ih
        exact ih hx
      · obtain ⟨lt, less⟩ := lower x hx (parent x) (by simp [links, isRoot])
        rcases ih lt with same | below
        · exact .inr (same ▸ less)
        · exact .inr (below.trans less)

/-- Compression keeps the links acyclic and every root. -/
theorem compress_spec (acyclic : Acyclic n parent) {x r : Nat} (hx : x < n)
    (root : RootOf parent x r) :
    ∃ s, Loop.whileLoop (compressPass r) (n + 1) (x, parent) = some s ∧ Acyclic n s.2 ∧
      ∀ y t, RootOf parent y t → RootOf s.2 y t := by
  obtain ⟨rank, bounded, lower⟩ := Dag.Acyclic.boundedRank acyclic
  obtain ⟨s, run, ⟨-, -, lower', kept⟩, -⟩ := @Loop.whileLoop_total _ (compressPass r)
    (fun s => s.1 < n ∧ RootOf s.2 s.1 r ∧
      (∀ y < n, ∀ z ∈ links s.2 y, z < n ∧ rank z < rank y) ∧
      ∀ y t, RootOf parent y t → RootOf s.2 y t)
    (fun s => rank s.1)
    (by
      rintro ⟨y, q⟩ s' ⟨hy, rootY, lower, kept⟩ next
      unfold compressPass at next
      split at next
      · cases next
      · rename_i ne
        cases next
        dsimp only at hy rootY lower kept ne ⊢
        have notRoot : q y ≠ y := fun isRoot => ne (rootY.of_root isRoot).symm
        obtain ⟨lt, less⟩ := lower y hy (q y) (by simp [links, notRoot])
        have above : RootOf q (q y) r := by
          cases rootY with
          | root isRoot => exact absurd rfl ne
          | step above => exact above
        have moved : ∀ z t, RootOf q z t → RootOf (Function.update q y r) z t := by
          intro z t h
          rcases h.update rootY.isRoot ne with ⟨same, -⟩ | ⟨new, passes⟩
          · exact same
          · rw [passes.unique rootY]
            exact new
        refine ⟨⟨lt, moved _ _ above, ?_, fun z t h => moved z t (kept z t h)⟩, less⟩
        intro z hz w hw
        by_cases same : z = y
        · subst same
          simp only [links, Function.update_self, Ne.symm ne, if_false, List.mem_singleton] at hw
          rw [hw]
          exact ⟨rootY.lt ⟨rank, lower⟩ hz, (rootY.rank_lt lower hz).resolve_left ne⟩
        · simp only [links, Function.update_of_ne same] at hw
          exact lower z hz w hw)
    (n + 1) (x, parent) ⟨hx, root, lower, fun _ _ h => h⟩ (Nat.lt_succ_of_lt (bounded x hx))
  exact ⟨s, run, ⟨rank, lower'⟩, kept⟩

/-! ### Classes -/

/-- The nodes of the class of a root. -/
def classOf (n : Nat) (parent : Nat → Nat) (r : Nat) : Set Nat := { x | x < n ∧ RootOf parent x r }

/-- The links are acyclic and the size at every root is that of its class. -/
structure Valid (n : Nat) (u : Forest) : Prop where
  acyclic : Acyclic n u.parent
  size : ∀ r < n, u.parent r = r → u.size r = (classOf n u.parent r).ncard

/-- Two nodes have one root. -/
def Same (u : Forest) (x y : Nat) : Prop := ∃ r, RootOf u.parent x r ∧ RootOf u.parent y r

theorem Same.symm {x y : Nat} (h : Same u x y) : Same u y x := by
  obtain ⟨r, hx, hy⟩ := h
  exact ⟨r, hy, hx⟩

theorem Same.trans {x y z : Nat} (h : Same u x y) (h' : Same u y z) : Same u x z := by
  obtain ⟨r, hx, hy⟩ := h
  obtain ⟨s, hy', hz⟩ := h'
  exact ⟨r, hx, hy.unique hy' ▸ hz⟩

theorem Valid.refl (valid : Valid n u) {x : Nat} (hx : x < n) : Same u x x := by
  obtain ⟨r, -, root⟩ := valid.acyclic.exists_root x hx
  exact ⟨r, root, root⟩

/-- A forest in which every node has the root it had. -/
theorem Valid.of_roots {u' : Forest} (valid : Valid n u) (acyclic : Acyclic n u'.parent)
    (size : u'.size = u.size) (kept : ∀ x r, RootOf u.parent x r → RootOf u'.parent x r) :
    Valid n u' ∧ ∀ x < n, ∀ r, RootOf u'.parent x r ↔ RootOf u.parent x r := by
  have iff : ∀ x < n, ∀ r, RootOf u'.parent x r ↔ RootOf u.parent x r := by
    intro x hx r
    refine ⟨fun h => ?_, kept x r⟩
    obtain ⟨s, -, root⟩ := valid.acyclic.exists_root x hx
    exact (kept x s root).unique h ▸ root
  refine ⟨⟨acyclic, fun r hr isRoot => ?_⟩, iff⟩
  have root : RootOf u.parent r r := (iff r hr r).mp (.root isRoot)
  rw [size, valid.size r hr root.isRoot]
  congr 1
  ext x
  exact ⟨fun h => ⟨h.1, kept x r h.2⟩, fun h => ⟨h.1, (iff x h.1 r).mp h.2⟩⟩

/-- `find` returns the root that the plain walk reaches, and changes no class. -/
theorem find_spec (valid : Valid n u) {x : Nat} (hx : x < n) :
    ∃ r u', find n u x = some (r, u') ∧ walk n u x = some r ∧ RootOf u.parent x r ∧ Valid n u' ∧
      u'.size = u.size ∧ ∀ y < n, ∀ t, RootOf u'.parent y t ↔ RootOf u.parent y t := by
  obtain ⟨r, walked, root⟩ := walk_spec valid.acyclic hx
  obtain ⟨s, run, acyclic, kept⟩ := compress_spec valid.acyclic hx root
  obtain ⟨valid', iff⟩ := @Valid.of_roots _ _ ⟨s.2, u.size⟩ valid acyclic rfl kept
  refine ⟨r, ⟨s.2, u.size⟩, ?_, walked, root, valid', rfl, iff⟩
  unfold find
  rw [walked, Option.bind_some, run]
  rfl

/-- Linking one root under another: the joined class gets the root and the sum of the sizes. -/
private theorem Valid.linkUnder (valid : Valid n u) {big small : Nat} (hb : big < n) (hs : small < n)
    (rootB : u.parent big = big) (rootS : u.parent small = small) (ne : small ≠ big) :
    Valid n ⟨Function.update u.parent small big,
        Function.update u.size big (u.size big + u.size small)⟩ ∧
      ∀ x < n, ∀ r, RootOf (Function.update u.parent small big) x r ↔
        (RootOf u.parent x r ∧ r ≠ small) ∨ (RootOf u.parent x small ∧ r = big) := by
  have roots : ∀ x < n, ∀ r, RootOf (Function.update u.parent small big) x r ↔
      (RootOf u.parent x r ∧ r ≠ small) ∨ (RootOf u.parent x small ∧ r = big) := by
    intro x hx r
    obtain ⟨s, -, root⟩ := valid.acyclic.exists_root x hx
    have now : ∀ {t}, RootOf u.parent x t → ((RootOf (Function.update u.parent small big) x t ∧
        t ≠ small) ∨ (RootOf (Function.update u.parent small big) x big ∧ t = small)) := by
      intro t h
      rcases h.update rootB ne with kept | ⟨moved, passes⟩
      · exact .inl kept
      · exact .inr ⟨moved, passes.of_root rootS⟩
    constructor
    · intro h
      rcases now root with ⟨kept, other⟩ | ⟨moved, rfl⟩
      · rw [h.unique kept]
        exact .inl ⟨root, other⟩
      · exact .inr ⟨root, h.unique moved⟩
    · rintro (⟨h, other⟩ | ⟨h, rfl⟩)
      · exact ((now h).resolve_right fun moved => other moved.2).1
      · exact ((now h).resolve_left fun kept => kept.2 rfl).1
  refine ⟨⟨?_, ?_⟩, roots⟩
  · apply acyclic_of_roots
    · intro x hx
      dsimp only
      by_cases same : x = small
      · rw [same, Function.update_self]
        exact hb
      · rw [Function.update_of_ne same]
        exact valid.acyclic.parent_lt hx
    · intro x hx
      obtain ⟨s, -, root⟩ := valid.acyclic.exists_root x hx
      by_cases same : s = small
      · exact ⟨big, (roots x hx big).mpr (.inr ⟨same ▸ root, rfl⟩)⟩
      · exact ⟨s, (roots x hx s).mpr (.inl ⟨root, same⟩)⟩
  · intro r hr isRoot
    dsimp only at isRoot ⊢
    have other : r ≠ small := by
      rintro rfl
      rw [Function.update_self] at isRoot
      exact ne isRoot.symm
    rw [Function.update_of_ne other] at isRoot
    by_cases here : r = big
    · subst here
      rw [Function.update_self, valid.size r hr isRoot, valid.size small hs rootS,
        ← Set.ncard_union_eq ?_ (Set.finite_lt_nat n |>.subset fun x h => h.1)
          (Set.finite_lt_nat n |>.subset fun x h => h.1)]
      · congr 1
        ext x
        constructor
        · rintro (⟨hx, root⟩ | ⟨hx, root⟩)
          · exact ⟨hx, (roots x hx r).mpr (.inl ⟨root, other⟩)⟩
          · exact ⟨hx, (roots x hx r).mpr (.inr ⟨root, rfl⟩)⟩
        · rintro ⟨hx, root⟩
          rcases (roots x hx r).mp root with ⟨root, -⟩ | ⟨root, -⟩
          · exact .inl ⟨hx, root⟩
          · exact .inr ⟨hx, root⟩
      · apply Set.disjoint_left.mpr
        intro x h h'
        exact ne (h'.2.unique h.2)
    · rw [Function.update_of_ne here, valid.size r hr isRoot]
      congr 1
      ext x
      constructor
      · rintro ⟨hx, root⟩
        exact ⟨hx, (roots x hx r).mpr (.inl ⟨root, other⟩)⟩
      · rintro ⟨hx, root⟩
        exact ⟨hx, (((roots x hx r).mp root).resolve_right fun h => here h.2).1⟩

/-- Linking two roots joins their classes and no others. -/
theorem link_spec (valid : Valid n u) {a b : Nat} (ha : a < n) (hb : b < n)
    (rootA : u.parent a = a) (rootB : u.parent b = b) :
    Valid n (link u a b) ∧ ∀ x < n, ∀ y < n, Same (link u a b) x y ↔
      Same u x y ∨ (RootOf u.parent x a ∧ RootOf u.parent y b) ∨
        (RootOf u.parent x b ∧ RootOf u.parent y a) := by
  -- the classes joined do not depend on which root is linked
  have joined : ∀ {big small : Nat}, big < n → small < n → u.parent big = big →
      u.parent small = small → small ≠ big →
      let u' : Forest := ⟨Function.update u.parent small big,
        Function.update u.size big (u.size big + u.size small)⟩
      Valid n u' ∧ ∀ x < n, ∀ y < n, Same u' x y ↔
        Same u x y ∨ (RootOf u.parent x big ∧ RootOf u.parent y small) ∨
          (RootOf u.parent x small ∧ RootOf u.parent y big) := by
    intro big small hbig hsmall isBig isSmall ne u'
    obtain ⟨valid', roots⟩ := valid.linkUnder hbig hsmall isBig isSmall ne
    refine ⟨valid', fun x hx y hy => ⟨?_, ?_⟩⟩
    · rintro ⟨r, nowX, nowY⟩
      rcases (roots x hx r).mp nowX with ⟨rootX, -⟩ | ⟨rootX, isX⟩
      · rcases (roots y hy r).mp nowY with ⟨rootY, -⟩ | ⟨rootY, isY⟩
        · exact .inl ⟨r, rootX, rootY⟩
        · exact .inr (.inl ⟨isY ▸ rootX, rootY⟩)
      · rcases (roots y hy r).mp nowY with ⟨rootY, -⟩ | ⟨rootY, -⟩
        · exact .inr (.inr ⟨rootX, isX ▸ rootY⟩)
        · exact .inl ⟨small, rootX, rootY⟩
    · rintro (⟨r, rootX, rootY⟩ | ⟨rootX, rootY⟩ | ⟨rootX, rootY⟩)
      · by_cases same : r = small
        · subst same
          exact ⟨big, (roots x hx big).mpr (.inr ⟨rootX, rfl⟩),
            (roots y hy big).mpr (.inr ⟨rootY, rfl⟩)⟩
        · exact ⟨r, (roots x hx r).mpr (.inl ⟨rootX, same⟩), (roots y hy r).mpr (.inl ⟨rootY, same⟩)⟩
      · exact ⟨big, (roots x hx big).mpr (.inl ⟨rootX, Ne.symm ne⟩),
          (roots y hy big).mpr (.inr ⟨rootY, rfl⟩)⟩
      · exact ⟨big, (roots x hx big).mpr (.inr ⟨rootX, rfl⟩),
          (roots y hy big).mpr (.inl ⟨rootY, Ne.symm ne⟩)⟩
  unfold link
  by_cases same : a = b
  · subst same
    rw [if_pos rfl]
    refine ⟨valid, fun x _ y _ => ⟨.inl, ?_⟩⟩
    rintro (same | ⟨rootX, rootY⟩ | ⟨rootX, rootY⟩)
    · exact same
    · exact ⟨a, rootX, rootY⟩
    · exact ⟨a, rootX, rootY⟩
  · rw [if_neg same]
    by_cases smaller : u.size a < u.size b
    · rw [if_pos smaller]
      obtain ⟨valid', classes⟩ := joined hb ha rootB rootA same
      refine ⟨valid', fun x hx y hy => (classes x hx y hy).trans ?_⟩
      rw [or_comm (a := RootOf u.parent x b ∧ RootOf u.parent y a)]
    · rw [if_neg smaller]
      exact joined ha hb rootA rootB (Ne.symm same)

/-- `merge` joins the classes of the two nodes and no others. -/
theorem merge_spec (valid : Valid n u) {a b : Nat} (ha : a < n) (hb : b < n) :
    ∃ u', merge n u a b = some u' ∧ Valid n u' ∧ ∀ x < n, ∀ y < n, Same u' x y ↔
      Same u x y ∨ (Same u x a ∧ Same u y b) ∨ (Same u x b ∧ Same u y a) := by
  obtain ⟨r, u₁, findA, -, rootA, valid₁, -, roots₁⟩ := find_spec valid ha
  obtain ⟨s, u₂, findB, -, rootB, valid₂, -, roots₂⟩ := find_spec valid₁ hb
  have hr := rootA.lt valid.acyclic ha
  have rootB := (roots₁ b hb s).mp rootB
  have hs := rootB.lt valid.acyclic hb
  have same₂ : ∀ x < n, ∀ t, RootOf u₂.parent x t ↔ RootOf u.parent x t :=
    fun x hx t => (roots₂ x hx t).trans (roots₁ x hx t)
  have classes₂ : ∀ x < n, ∀ y < n, Same u₂ x y ↔ Same u x y := by
    intro x hx y hy
    unfold Same
    simp only [same₂ x hx, same₂ y hy]
  have inClass : ∀ {x z t}, x < n → RootOf u.parent z t → (RootOf u₂.parent x t ↔ Same u x z) := by
    intro x z t hx rootZ
    rw [same₂ x hx]
    refine ⟨fun root => ⟨t, root, rootZ⟩, ?_⟩
    rintro ⟨t', root, rootZ'⟩
    exact rootZ.unique rootZ' ▸ root
  obtain ⟨valid', classes⟩ := link_spec valid₂ hr hs
    ((same₂ r hr r).mpr (.root rootA.isRoot)).isRoot ((same₂ s hs s).mpr (.root rootB.isRoot)).isRoot
  refine ⟨link u₂ r s, ?_, valid', fun x hx y hy => (classes x hx y hy).trans ?_⟩
  · unfold merge
    rw [findA, Option.bind_some]
    dsimp only
    rw [findB, Option.map_some]
  · rw [classes₂ x hx y hy, inClass hx rootA, inClass hy rootB, inClass hx rootB, inClass hy rootA]

/-! ### Sequences of calls -/

/-- The equivalence closure of a list of pairs. -/
def Closure (pairs : List (Nat × Nat)) : Nat → Nat → Prop :=
  Relation.EqvGen fun x y => (x, y) ∈ pairs

theorem Closure.mono {pairs pairs' : List (Nat × Nat)} (sub : ∀ p ∈ pairs, p ∈ pairs') {x y : Nat}
    (h : Closure pairs x y) : Closure pairs' x y := by
  induction h with
  | rel x y h => exact .rel x y (sub _ h)
  | refl x => exact .refl x
  | symm x y _ ih => exact .symm x y ih
  | trans x y z _ _ ih ih' => exact .trans x y z ih ih'

theorem closure_nil {x y : Nat} (h : Closure [] x y) : x = y := by
  induction h with
  | rel x y h => exact absurd h List.not_mem_nil
  | refl x => rfl
  | symm x y _ ih => exact ih.symm
  | trans x y z _ _ ih ih' => exact ih.trans ih'

/-- One more pair joins two classes. -/
theorem closure_snoc (pairs : List (Nat × Nat)) (a b x y : Nat) :
    Closure (pairs ++ [(a, b)]) x y ↔
      Closure pairs x y ∨ (Closure pairs x a ∧ Closure pairs y b) ∨
        (Closure pairs x b ∧ Closure pairs y a) := by
  have old : ∀ {x y}, Closure pairs x y → Closure (pairs ++ [(a, b)]) x y :=
    fun h => h.mono fun p hp => List.mem_append_left _ hp
  have new : Closure (pairs ++ [(a, b)]) a b := .rel a b (List.mem_append_right _ List.mem_cons_self)
  constructor
  · intro h
    induction h with
    | rel x y h =>
        rcases List.mem_append.mp h with h | h
        · exact .inl (.rel x y h)
        · obtain ⟨rfl, rfl⟩ := Prod.mk.inj (List.mem_singleton.mp h)
          exact .inr (.inl ⟨.refl x, .refl y⟩)
    | refl x => exact .inl (.refl x)
    | symm x y _ ih =>
        rcases ih with h | ⟨hx, hy⟩ | ⟨hx, hy⟩
        · exact .inl (.symm x y h)
        · exact .inr (.inr ⟨hy, hx⟩)
        · exact .inr (.inl ⟨hy, hx⟩)
    | trans x y z _ _ ih ih' =>
        rcases ih with h | ⟨hx, hy⟩ | ⟨hx, hy⟩ <;> rcases ih' with h' | ⟨hy', hz⟩ | ⟨hy', hz⟩
        · exact .inl (.trans _ _ _ h h')
        · exact .inr (.inl ⟨.trans _ _ _ h hy', hz⟩)
        · exact .inr (.inr ⟨.trans _ _ _ h hy', hz⟩)
        · exact .inr (.inl ⟨hx, .trans _ _ _ (.symm _ _ h') hy⟩)
        · exact .inr (.inl ⟨hx, hz⟩)
        · exact .inl (.trans _ _ _ hx (.symm _ _ hz))
        · exact .inr (.inr ⟨hx, .trans _ _ _ (.symm _ _ h') hy⟩)
        · exact .inl (.trans _ _ _ hx (.symm _ _ hz))
        · exact .inr (.inr ⟨hx, hz⟩)
  · rintro (h | ⟨hx, hy⟩ | ⟨hx, hy⟩)
    · exact old h
    · exact .trans _ _ _ (old hx) (.trans _ _ _ new (.symm _ _ (old hy)))
    · exact .trans _ _ _ (old hx) (.trans _ _ _ (.symm _ _ new) (.symm _ _ (old hy)))

/-- The closure depends on which pairs are listed, not on their order, direction or number. -/
theorem closure_congr {pairs pairs' : List (Nat × Nat)}
    (same : ∀ x y, ((x, y) ∈ pairs ∨ (y, x) ∈ pairs) ↔ ((x, y) ∈ pairs' ∨ (y, x) ∈ pairs')) (x y : Nat) :
    Closure pairs x y ↔ Closure pairs' x y := by
  have one : ∀ {ps qs : List (Nat × Nat)},
      (∀ x y, (x, y) ∈ ps → (x, y) ∈ qs ∨ (y, x) ∈ qs) → ∀ {x y}, Closure ps x y → Closure qs x y := by
    intro ps qs sub x y h
    induction h with
    | rel x y h =>
        rcases sub x y h with h | h
        · exact .rel x y h
        · exact .symm y x (.rel y x h)
    | refl x => exact .refl x
    | symm x y _ ih => exact .symm x y ih
    | trans x y z _ _ ih ih' => exact .trans x y z ih ih'
  exact ⟨one fun x y h => (same x y).mp (.inl h), one fun x y h => (same x y).mpr (.inl h)⟩

/-- The classes of the forest are those of the closure of the pairs. -/
structure Represents (n : Nat) (pairs : List (Nat × Nat)) (u : Forest) : Prop where
  valid : Valid n u
  classes : ∀ x < n, ∀ y < n, Same u x y ↔ Closure pairs x y

theorem represents_singletons (n : Nat) : Represents n [] singletons where
  valid := by
    refine ⟨⟨id, fun x _ y hy => ?_⟩, fun r hr _ => ?_⟩
    · simp [links, singletons] at hy
    · have one : classOf n singletons.parent r = {r} := by
        ext x
        constructor
        · rintro ⟨-, root⟩
          exact (root.of_root rfl).symm
        · rintro rfl
          exact ⟨hr, .root rfl⟩
      rw [one, Set.ncard_singleton]
      rfl
  classes := by
    intro x _ y _
    constructor
    · rintro ⟨r, rootX, rootY⟩
      rw [← rootX.of_root rfl, ← rootY.of_root rfl]
      exact .refl r
    · intro h
      rw [closure_nil h]
      exact ⟨y, .root rfl, .root rfl⟩

variable {pairs : List (Nat × Nat)}

theorem Represents.find (rep : Represents n pairs u) {x : Nat} (hx : x < n) :
    ∃ r u', UnionFind.find n u x = some (r, u') ∧ RootOf u.parent x r ∧ Represents n pairs u' ∧
      ∀ y < n, ∀ t, RootOf u'.parent y t ↔ RootOf u.parent y t := by
  obtain ⟨r, u', run, -, root, valid, -, roots⟩ := find_spec rep.valid hx
  refine ⟨r, u', run, root, ⟨valid, fun x hx y hy => ?_⟩, roots⟩
  rw [← rep.classes x hx y hy]
  unfold Same
  simp only [roots x hx, roots y hy]

theorem Represents.merge (rep : Represents n pairs u) {a b : Nat} (ha : a < n) (hb : b < n) :
    ∃ u', UnionFind.merge n u a b = some u' ∧ Represents n (pairs ++ [(a, b)]) u' := by
  obtain ⟨u', run, valid, classes⟩ := merge_spec rep.valid ha hb
  refine ⟨u', run, valid, fun x hx y hy => ?_⟩
  rw [classes x hx y hy, closure_snoc, rep.classes x hx y hy, rep.classes x hx a ha,
    rep.classes y hy b hb, rep.classes x hx b hb, rep.classes y hy a ha]

/-- A list of merges. -/
def mergeAll (n : Nat) (u : Forest) (pairs : List (Nat × Nat)) : Option Forest :=
  pairs.foldlM (fun u p => UnionFind.merge n u p.1 p.2) u

theorem Represents.mergeAll (more : List (Nat × Nat)) :
    ∀ {pairs u}, Represents n pairs u → (∀ p ∈ more, p.1 < n ∧ p.2 < n) →
      ∃ u', UnionFind.mergeAll n u more = some u' ∧ Represents n (pairs ++ more) u' := by
  induction more with
  | nil =>
      intro pairs u rep _
      exact ⟨u, rfl, by rwa [List.append_nil]⟩
  | cons p more ih =>
      intro pairs u rep low
      obtain ⟨ha, hb⟩ := low p List.mem_cons_self
      obtain ⟨u₁, run, rep₁⟩ := rep.merge ha hb
      obtain ⟨u', run', rep'⟩ := ih rep₁ fun q hq => low q (List.mem_cons_of_mem _ hq)
      refine ⟨u', ?_, ?_⟩
      · unfold UnionFind.mergeAll at run' ⊢
        rw [List.foldlM_cons, run]
        exact run'
      · rwa [List.append_assoc, List.singleton_append] at rep'

/-! ### Counting classes -/

/-- The class of a node. -/
def closureClass (pairs : List (Nat × Nat)) (x : Nat) : Set Nat := { y | Closure pairs x y }

theorem closureClass_eq {pairs : List (Nat × Nat)} {x y : Nat} :
    closureClass pairs x = closureClass pairs y ↔ Closure pairs x y := by
  constructor
  · intro same
    have mem : y ∈ closureClass pairs y := .refl y
    rw [← same] at mem
    exact mem
  · intro joined
    ext z
    exact ⟨.trans y x z (.symm x y joined), .trans x y z joined⟩

open scoped Classical in
/-- The number of classes of a list of pairs that meet a set. -/
noncomputable def classCount (pairs : List (Nat × Nat)) (nodes : Finset Nat) : Nat :=
  (nodes.image (closureClass pairs)).card

/-- A map that tells no more elements apart has no more values. -/
theorem card_image_le_of_factors {α β γ : Type*} [DecidableEq β] [DecidableEq γ] {f : α → β} {g : α → γ}
    {S : Finset α} (factors : ∀ x ∈ S, ∀ y ∈ S, f x = f y → g x = g y) :
    (S.image g).card ≤ (S.image f).card := by
  apply Finset.card_le_card_of_forall_subsingleton (fun z b => ∃ x ∈ S, g x = z ∧ f x = b)
  · intro z mem
    obtain ⟨x, inS, rfl⟩ := Finset.mem_image.mp mem
    exact ⟨f x, Finset.mem_image_of_mem f inS, x, inS, rfl, rfl⟩
  · rintro b - z ⟨-, x, inS, rfl, rfl⟩ z' ⟨-, y, inS', rfl, same⟩
    exact factors x inS y inS' same.symm

/-- The classes are counted by any map that tells them apart. -/
theorem classCount_eq {α : Type*} [DecidableEq α] {pairs : List (Nat × Nat)} {nodes : Finset Nat}
    {root : Nat → α} (iff : ∀ x ∈ nodes, ∀ y ∈ nodes, root x = root y ↔ Closure pairs x y) :
    classCount pairs nodes = (nodes.image root).card := by
  classical
  unfold classCount
  apply le_antisymm
  · exact card_image_le_of_factors fun x hx y hy same => closureClass_eq.mpr ((iff x hx y hy).mp same)
  · exact card_image_le_of_factors fun x hx y hy same => (iff x hx y hy).mpr (closureClass_eq.mp same)

/-- A set that meets the classes of another has as many. -/
theorem classCount_of_cover {pairs : List (Nat × Nat)} {nodes all : Finset Nat} (sub : nodes ⊆ all)
    (cover : ∀ x ∈ all, ∃ y ∈ nodes, Closure pairs y x) : classCount pairs nodes = classCount pairs all := by
  classical
  unfold classCount
  congr 1
  apply (Finset.image_subset_image sub).antisymm
  intro z mem
  obtain ⟨x, inAll, rfl⟩ := Finset.mem_image.mp mem
  obtain ⟨y, inNodes, joined⟩ := cover x inAll
  exact Finset.mem_image.mpr ⟨y, inNodes, closureClass_eq.mpr joined⟩

/-- More pairs join classes. -/
theorem classCount_append_le (pairs more : List (Nat × Nat)) (nodes : Finset Nat) :
    classCount (pairs ++ more) nodes ≤ classCount pairs nodes := by
  classical
  refine card_image_le_of_factors fun x _ y _ same => closureClass_eq.mpr ?_
  exact (closureClass_eq.mp same).mono fun p mem => List.mem_append_left _ mem

/-- One pair joins two classes at most. -/
theorem classCount_le_snoc (pairs : List (Nat × Nat)) (a b : Nat) (nodes : Finset Nat) :
    classCount pairs nodes ≤ classCount (pairs ++ [(a, b)]) nodes + 1 := by
  classical
  -- away from the class of `b` the classes stay apart
  let others := nodes.filter fun x => closureClass pairs x ≠ closureClass pairs b
  have apart : (others.image (closureClass pairs)).card ≤ classCount (pairs ++ [(a, b)]) nodes := by
    refine (card_image_le_of_factors fun x hx y hy same => ?_).trans
      (Finset.card_le_card (Finset.image_subset_image (Finset.filter_subset _ nodes)))
    have notX := (Finset.mem_filter.mp hx).2
    have notY := (Finset.mem_filter.mp hy).2
    rw [ne_eq, closureClass_eq] at notX notY
    rw [closureClass_eq] at same ⊢
    rcases (closure_snoc pairs a b x y).mp same with joined | ⟨-, joined⟩ | ⟨joined, -⟩
    · exact joined
    · exact absurd joined notY
    · exact absurd joined notX
  have sub : nodes.image (closureClass pairs) ⊆ insert (closureClass pairs b)
      (others.image (closureClass pairs)) := by
    intro z mem
    obtain ⟨x, inNodes, rfl⟩ := Finset.mem_image.mp mem
    by_cases here : closureClass pairs x = closureClass pairs b
    · exact Finset.mem_insert.mpr (.inl here)
    · exact Finset.mem_insert_of_mem (Finset.mem_image_of_mem _ (Finset.mem_filter.mpr ⟨inNodes, here⟩))
  calc classCount pairs nodes ≤ (insert (closureClass pairs b) (others.image (closureClass pairs))).card :=
        Finset.card_le_card sub
    _ ≤ (others.image (closureClass pairs)).card + 1 := Finset.card_insert_le _ _
    _ ≤ classCount (pairs ++ [(a, b)]) nodes + 1 := Nat.add_le_add_right apart 1

/-- Every pair removes one class at most. -/
theorem classCount_le_append (pairs more : List (Nat × Nat)) (nodes : Finset Nat) :
    classCount pairs nodes ≤ classCount (pairs ++ more) nodes + more.length := by
  induction more using List.reverseRecOn with
  | nil => simp
  | append_singleton more p ih =>
      have last := classCount_le_snoc (pairs ++ more) p.1 p.2 nodes
      rw [Prod.mk.eta, List.append_assoc] at last
      rw [List.length_append, List.length_singleton]
      omega

end UnionFind
