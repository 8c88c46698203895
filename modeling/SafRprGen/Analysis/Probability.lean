/-
Module: SafRprGen.Analysis.Probability
Layer: Analysis
Purpose: The density of a set of cubes (`probability.c`): a decision diagram for each cube, their
  disjunction, and the share of minterms. The decision-diagram package is a parameter that comes with
  the meaning of its operations; the multi-precision arithmetic is exact.
Main exports: Cudd, parseCube, runBDD, covered, runBDD_eq
-/
import Mathlib.Data.Rat.Defs
import Mathlib.Data.Fintype.BigOperators
import SafRprGen.Xid.Xfilling

namespace SafRprGen

/-- The decision diagrams of CUDD over `n` variables, as far as they are used: the operations and what a
diagram stands for. -/
structure Cudd (n : Nat) where
  DdNode : Type
  readOne : DdNode
  readLogicZero : DdNode
  bddIthVar : Fin n → DdNode
  not : DdNode → DdNode
  bddAnd : DdNode → DdNode → DdNode
  bddOr : DdNode → DdNode → DdNode
  apaCountMinterm : DdNode → Nat
  /-- The Boolean function of a diagram. -/
  eval : DdNode → (Fin n → Bool) → Bool
  eval_one : ∀ y, eval readOne y = true
  eval_zero : ∀ y, eval readLogicZero y = false
  eval_var : ∀ i y, eval (bddIthVar i) y = y i
  eval_not : ∀ a y, eval (not a) y = !eval a y
  eval_and : ∀ a b y, eval (bddAnd a b) y = (eval a y && eval b y)
  eval_or : ∀ a b y, eval (bddOr a b) y = (eval a y || eval b y)
  count : ∀ a, apaCountMinterm a = (Finset.univ.filter fun y => eval a y = true).card

/-- The Boolean functions themselves. -/
def Cudd.functions (n : Nat) : Cudd n where
  DdNode := (Fin n → Bool) → Bool
  readOne := fun _ => true
  readLogicZero := fun _ => false
  bddIthVar := fun i y => y i
  not := fun a y => !a y
  bddAnd := fun a b y => a y && b y
  bddOr := fun a b y => a y || b y
  apaCountMinterm := fun a => (Finset.univ.filter fun y => a y = true).card
  eval := id
  eval_one := fun _ => rfl
  eval_zero := fun _ => rfl
  eval_var := fun _ _ => rfl
  eval_not := fun _ _ => rfl
  eval_and := fun _ _ _ => rfl
  eval_or := fun _ _ _ => rfl
  count := fun _ => rfl

namespace Cudd

variable {n : Nat} (gbm : Cudd n)

/-- One round of `parseCube`; `none` is the exit on a character that is no bit. -/
def parseBit (cubeStr : CStr) (cubeBdd : gbm.DdNode) (i : Fin n) : Option gbm.DdNode :=
  match cubeStr[(i : Nat)]? with
  | some '0' => some (gbm.bddAnd cubeBdd (gbm.not (gbm.bddIthVar i)))
  | some '1' => some (gbm.bddAnd cubeBdd (gbm.bddIthVar i))
  | some 'X' => some cubeBdd
  | _ => none

/-- `parseCube`. -/
def parseCube (cubeStr : CStr) : Option gbm.DdNode :=
  (List.finRange n).foldlM (gbm.parseBit cubeStr) gbm.readOne

/-- `RunBDD`: the density, exactly. -/
def runBDD (cubes : List CStr) : Option ℚ :=
  let finalBdd := cubes.foldlM
    (fun finalBdd cube => (gbm.parseCube cube).map fun cubeBdd => gbm.bddOr finalBdd cubeBdd)
    gbm.readLogicZero
  finalBdd.map fun b => (gbm.apaCountMinterm b : ℚ) / 2 ^ n

end Cudd

namespace Netlist

variable {c : Netlist}

instance (cube : CStr) (y : c.Assignment) : Decidable (c.CubeAgrees cube y) := by
  unfold CubeAgrees
  infer_instance

/-- The assignments of a set of cubes. -/
def covered (c : Netlist) (cubes : List CStr) : Finset c.Assignment :=
  Finset.univ.filter fun y => ∃ cube ∈ cubes, c.CubeAgrees cube y

theorem mem_covered {cubes : List CStr} {y : c.Assignment} :
    y ∈ c.covered cubes ↔ ∃ cube ∈ cubes, c.CubeAgrees cube y := by
  simp [covered]

/-- The cubes that `InlineXID` returns can be read. -/
def CubeText (c : Netlist) (cube : CStr) : Prop :=
  cube.length = c.nPi ∧ ∀ ch ∈ cube, ch = '0' ∨ ch = '1' ∨ ch = 'X'

/-- The diagram of a cube stands for the assignments that agree with it. -/
theorem parseCube_spec (gbm : Cudd c.nPi) {cube : CStr} (text : c.CubeText cube) :
    ∃ b, gbm.parseCube cube = some b ∧ ∀ y, gbm.eval b y = true ↔ c.CubeAgrees cube y := by
  have general : ∀ (is : List (Fin c.nPi)) (b : gbm.DdNode), ∃ b',
      is.foldlM (gbm.parseBit cube) b = some b' ∧
        ∀ y, gbm.eval b' y = true ↔ gbm.eval b y = true ∧ ∀ i ∈ is,
          (cube[(i : Nat)]? = some '0' → y i = false) ∧ (cube[(i : Nat)]? = some '1' → y i = true) := by
    intro is
    induction is with
    | nil => intro b; exact ⟨b, rfl, by simp⟩
    | cons i is ih =>
        intro b
        have hi : (i : Nat) < cube.length := by
          rw [text.1]
          exact i.isLt
        have read : cube[(i : Nat)]? = some (cube[(i : Nat)]) := List.getElem?_eq_getElem hi
        rw [List.foldlM_cons]
        rcases text.2 _ (List.getElem_mem hi) with zero | one | open_
        · obtain ⟨b', run, meaning⟩ := ih (gbm.bddAnd b (gbm.not (gbm.bddIthVar i)))
          refine ⟨b', ?_, fun y => ?_⟩
          · simpa [Cudd.parseBit, read, zero] using run
          · rw [meaning, gbm.eval_and, gbm.eval_not, gbm.eval_var]
            simp [read, zero, and_assoc]
        · obtain ⟨b', run, meaning⟩ := ih (gbm.bddAnd b (gbm.bddIthVar i))
          refine ⟨b', ?_, fun y => ?_⟩
          · simpa [Cudd.parseBit, read, one] using run
          · rw [meaning, gbm.eval_and, gbm.eval_var]
            simp [read, one, and_assoc]
        · obtain ⟨b', run, meaning⟩ := ih b
          refine ⟨b', ?_, fun y => ?_⟩
          · simpa [Cudd.parseBit, read, open_] using run
          · rw [meaning]
            simp [read, open_]
  obtain ⟨b, run, meaning⟩ := general (List.finRange c.nPi) gbm.readOne
  refine ⟨b, run, fun y => ?_⟩
  rw [meaning, gbm.eval_one]
  simp [CubeAgrees]

/-- The density is the share of the assignments that some cube contains, each counted once. -/
theorem runBDD_eq (gbm : Cudd c.nPi) {cubes : List CStr} (texts : ∀ cube ∈ cubes, c.CubeText cube) :
    gbm.runBDD cubes = some (((c.covered cubes).card : ℚ) / 2 ^ c.nPi) := by
  have general : ∀ (cubes : List CStr), (∀ cube ∈ cubes, c.CubeText cube) → ∀ b : gbm.DdNode, ∃ b',
      cubes.foldlM
          (fun finalBdd cube => (gbm.parseCube cube).map fun cubeBdd => gbm.bddOr finalBdd cubeBdd)
          b = some b' ∧
        ∀ y, gbm.eval b' y = true ↔ gbm.eval b y = true ∨ ∃ cube ∈ cubes, c.CubeAgrees cube y := by
    intro cubes
    induction cubes with
    | nil => intro _ b; exact ⟨b, rfl, by simp⟩
    | cons cube cubes ih =>
        intro texts b
        obtain ⟨cubeBdd, parsed, agrees⟩ := parseCube_spec gbm (texts cube List.mem_cons_self)
        obtain ⟨b', run, meaning⟩ :=
          ih (fun q hq => texts q (List.mem_cons_of_mem _ hq)) (gbm.bddOr b cubeBdd)
        refine ⟨b', ?_, fun y => ?_⟩
        · rw [List.foldlM_cons]
          simpa [parsed] using run
        · rw [meaning, gbm.eval_or, Bool.or_eq_true, agrees, or_assoc, List.exists_mem_cons_iff]
  obtain ⟨b, run, meaning⟩ := general cubes texts gbm.readLogicZero
  have count : gbm.apaCountMinterm b = (c.covered cubes).card := by
    rw [gbm.count]
    congr 1
    ext y
    rw [Finset.mem_filter, meaning, gbm.eval_zero, mem_covered]
    simp
  unfold Cudd.runBDD
  dsimp only
  rw [run, Option.map_some, count]

end Netlist

end SafRprGen
