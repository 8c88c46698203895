/-
Module: SafRprGen.Lib.Dimacs
Layer: Lib
Purpose: Clauses over integer literals as incremental SAT solvers read them: a stream of nonzero literals
  in which `0` closes a clause. A literal is true under `M : Nat → Bool` when the sign agrees with the
  value of its variable. The gate lemmas at the end are the two halves of a Tseitin definition for the
  shapes circuits use.
Main exports: Clause, Clause.Holds, Models, stream, parse, parse_stream, lit, manyInput_models
-/
import Mathlib.Data.Int.Order.Basic
import Mathlib.Data.List.Basic
import Mathlib.Tactic.Common

namespace Dimacs

/-- A literal is a nonzero integer, its sign the polarity. -/
abbrev Clause := List Int

/-- Truth of a literal. -/
def LitHolds (M : Nat → Bool) (l : Int) : Prop := M l.natAbs = decide (0 < l)

instance (M : Nat → Bool) (l : Int) : Decidable (LitHolds M l) := by
  unfold LitHolds
  infer_instance

/-- A clause holds when one of its literals does. -/
def Clause.Holds (M : Nat → Bool) (cl : Clause) : Prop := ∃ l ∈ cl, LitHolds M l

instance (M : Nat → Bool) (cl : Clause) : Decidable (cl.Holds M) := by
  unfold Clause.Holds
  infer_instance

/-- An assignment models a clause set when every clause holds. -/
def Models (M : Nat → Bool) (cls : List Clause) : Prop := ∀ cl ∈ cls, Clause.Holds M cl

instance (M : Nat → Bool) (cls : List Clause) : Decidable (Models M cls) := by
  unfold Models
  infer_instance

/-- The literals sent to the solver for a list of clauses. -/
def stream (cls : List Clause) : List Int := cls.flatMap (· ++ [0])

/-- How the solver reads the stream: literals collect in `pending` until a `0` closes the clause. -/
def parseFrom : Clause → List Int → List Clause
  | _, [] => []
  | pending, l :: rest =>
      if l = 0 then pending :: parseFrom [] rest else parseFrom (pending ++ [l]) rest

/-- The clauses of a stream; an unclosed rest does not count. -/
def parse (s : List Int) : List Clause := parseFrom [] s

private theorem parseFrom_clause (rest : List Int) :
    ∀ (cl pending : Clause), (∀ l ∈ cl, l ≠ 0) →
      parseFrom pending (cl ++ 0 :: rest) = (pending ++ cl) :: parse rest := by
  intro cl
  induction cl with
  | nil => intro pending _; simp [parseFrom, parse]
  | cons l cl ih =>
      intro pending nonzero
      have hl : l ≠ 0 := nonzero l List.mem_cons_self
      rw [List.cons_append, parseFrom, if_neg hl,
        ih (pending ++ [l]) (fun k hk => nonzero k (List.mem_cons_of_mem _ hk))]
      simp

/-- Clauses of nonzero literals come back from their stream. -/
theorem parse_stream :
    ∀ (cls : List Clause), (∀ cl ∈ cls, ∀ l ∈ cl, l ≠ 0) → parse (stream cls) = cls := by
  intro cls
  induction cls with
  | nil => intro _; rfl
  | cons cl cls ih =>
      intro nonzero
      have split : stream (cl :: cls) = cl ++ 0 :: stream cls := by simp [stream]
      rw [split, parse, parseFrom_clause _ _ _ (nonzero cl List.mem_cons_self), List.nil_append,
        ih (fun k hk => nonzero k (List.mem_cons_of_mem _ hk))]

@[simp] theorem models_nil (M : Nat → Bool) : Models M [] := by
  intro cl h
  exact absurd h List.not_mem_nil

@[simp] theorem models_append (M : Nat → Bool) (cls cls' : List Clause) :
    Models M (cls ++ cls') ↔ Models M cls ∧ Models M cls' := by
  simp [Models, or_imp, forall_and]

@[simp] theorem models_cons (M : Nat → Bool) (cl : Clause) (cls : List Clause) :
    Models M (cl :: cls) ↔ cl.Holds M ∧ Models M cls := by
  simp [Models]

theorem models_flatMap {α : Type*} (M : Nat → Bool) (xs : List α) (clauses : α → List Clause) :
    Models M (xs.flatMap clauses) ↔ ∀ x ∈ xs, Models M (clauses x) := by
  simp only [Models, List.mem_flatMap, forall_exists_index, and_imp]
  exact ⟨fun h x hx cl hcl => h cl x hx hcl, fun h cl x hx hcl => h x hx cl hcl⟩

/-- The empty clause has no model. -/
theorem not_holds_nil (M : Nat → Bool) : ¬ Clause.Holds M [] := by
  rintro ⟨l, hl, _⟩
  exact List.not_mem_nil hl

@[simp] theorem holds_cons (M : Nat → Bool) (l : Int) (cl : Clause) :
    Clause.Holds M (l :: cl) ↔ LitHolds M l ∨ Clause.Holds M cl := by
  simp [Clause.Holds]

@[simp] theorem holds_nil_iff (M : Nat → Bool) : Clause.Holds M [] ↔ False :=
  iff_of_false (not_holds_nil M) id

@[simp] theorem holds_append (M : Nat → Bool) (cl cl' : Clause) :
    Clause.Holds M (cl ++ cl') ↔ Clause.Holds M cl ∨ Clause.Holds M cl' := by
  simp only [Clause.Holds, List.mem_append, or_and_right, exists_or]

/-- Literals that avoid the variables changed keep their clauses. -/
theorem Clause.Holds.congr {M M' : Nat → Bool} {cl : Clause}
    (same : ∀ l ∈ cl, M l.natAbs = M' l.natAbs) : cl.Holds M ↔ cl.Holds M' := by
  constructor
  · rintro ⟨l, hl, h⟩
    exact ⟨l, hl, by rw [LitHolds, ← same l hl]; exact h⟩
  · rintro ⟨l, hl, h⟩
    exact ⟨l, hl, by rw [LitHolds, same l hl]; exact h⟩

/-- The literal of variable `v` with the given polarity. -/
def lit (positive : Bool) (v : Nat) : Int := if positive then (v : Int) else -(v : Int)

@[simp] theorem litHolds_lit {M : Nat → Bool} {positive : Bool} {v : Nat} (hv : 0 < v) :
    LitHolds M (lit positive v) ↔ M v = positive := by
  have negative : ¬ (v : Int) < 0 := by omega
  cases positive <;> simp [LitHolds, lit, hv, negative]

theorem lit_ne_zero {positive : Bool} {v : Nat} (hv : 0 < v) : lit positive v ≠ 0 := by
  cases positive <;> simp [lit] <;> omega

@[simp] theorem natAbs_lit (positive : Bool) (v : Nat) : (lit positive v).natAbs = v := by
  cases positive <;> simp [lit]

/-- The clauses that define `z` as "every input has value `whenAll`" up to an output polarity: one
clause with all inputs and one for each input. -/
def manyInput (whenAll out : Bool) (inputs : List Nat) (z : Nat) : List Clause :=
  (inputs.map (lit (!whenAll)) ++ [lit out z]) ::
    inputs.map (fun v => [lit whenAll v, lit (!out) z])

/-- The many-input clauses say that the output has value `out` exactly when all inputs have value
`whenAll`. -/
theorem manyInput_models {M : Nat → Bool} {whenAll out : Bool} {inputs : List Nat} {z : Nat}
    (hz : 0 < z) (pos : ∀ v ∈ inputs, 0 < v) :
    Models M (manyInput whenAll out inputs z) ↔
      M z = if inputs.all (fun v => M v == whenAll) then out else !out := by
  have wide : Clause.Holds M (inputs.map (lit (!whenAll)) ++ [lit out z]) ↔
      (∃ v ∈ inputs, M v = !whenAll) ∨ M z = out := by
    rw [holds_append]
    refine or_congr ⟨?_, ?_⟩ (by simp [hz])
    · rintro ⟨l, hl, h⟩
      obtain ⟨v, hv, rfl⟩ := List.mem_map.mp hl
      exact ⟨v, hv, (litHolds_lit (pos v hv)).mp h⟩
    · rintro ⟨v, hv, h⟩
      exact ⟨lit (!whenAll) v, List.mem_map_of_mem hv, (litHolds_lit (pos v hv)).mpr h⟩
  have narrow : Models M (inputs.map (fun v => [lit whenAll v, lit (!out) z])) ↔
      ∀ v ∈ inputs, M v = whenAll ∨ M z = !out := by
    simp only [Models, List.forall_mem_map]
    apply forall₂_congr
    intro v hv
    simp [hz, pos v hv]
  rw [manyInput, models_cons, wide, narrow]
  by_cases all : ∀ v ∈ inputs, M v = whenAll
  · have yes : inputs.all (fun v => M v == whenAll) = true := by simpa using all
    rw [if_pos yes]
    constructor
    · rintro ⟨⟨v, hv, h⟩ | h, _⟩
      · rw [all v hv] at h
        cases whenAll <;> simp at h
      · exact h
    · intro h
      exact ⟨Or.inr h, fun v hv => Or.inl (all v hv)⟩
  · have no : ¬ inputs.all (fun v => M v == whenAll) = true := by simpa using all
    rw [if_neg no]
    push Not at all
    obtain ⟨v, hv, differs⟩ := all
    constructor
    · rintro ⟨_, h⟩
      exact (h v hv).resolve_left differs
    · intro h
      refine ⟨Or.inl ⟨v, hv, ?_⟩, fun _ _ => Or.inr h⟩
      cases hM : M v <;> cases whenAll <;> simp_all

theorem manyInput_ne_zero {whenAll out : Bool} {inputs : List Nat} {z : Nat} (hz : 0 < z)
    (pos : ∀ v ∈ inputs, 0 < v) : ∀ cl ∈ manyInput whenAll out inputs z, ∀ l ∈ cl, l ≠ 0 := by
  intro cl hcl l hl
  rcases List.mem_cons.mp hcl with rfl | hcl
  · rcases List.mem_append.mp hl with hl | hl
    · obtain ⟨v, hv, rfl⟩ := List.mem_map.mp hl
      exact lit_ne_zero (pos v hv)
    · rw [List.mem_singleton.mp hl]
      exact lit_ne_zero hz
  · obtain ⟨v, hv, rfl⟩ := List.mem_map.mp hcl
    rcases List.mem_pair.mp hl with rfl | rfl
    · exact lit_ne_zero (pos v hv)
    · exact lit_ne_zero hz

/-- Two clauses that copy (`same`) or invert a variable. -/
def copyInput (same : Bool) (a z : Nat) : List Clause :=
  [[lit (!same) a, lit true z], [lit same a, lit false z]]

theorem copyInput_ne_zero {same : Bool} {a z : Nat} (ha : 0 < a) (hz : 0 < z) :
    ∀ cl ∈ copyInput same a z, ∀ l ∈ cl, l ≠ 0 := by
  simp [copyInput, lit_ne_zero ha, lit_ne_zero hz]

theorem copyInput_models {M : Nat → Bool} (same : Bool) {a z : Nat} (ha : 0 < a) (hz : 0 < z) :
    Models M (copyInput same a z) ↔ M z = if same then M a else !M a := by
  simp only [copyInput, models_cons, models_nil, and_true, holds_cons, holds_nil_iff, or_false,
    litHolds_lit ha, litHolds_lit hz]
  cases same <;> cases M a <;> cases M z <;> simp

/-- Four clauses that forbid the rows of a two-input function of exclusive-or kind: `z = a ⊕ b`, or its
complement when `odd` is false. -/
theorem xor_models {M : Nat → Bool} {a b z : Nat} (odd : Bool) (cls : List Clause) (ha : 0 < a)
    (hb : 0 < b) (hz : 0 < z)
    (rows : cls.Perm [[lit false a, lit false b, lit (!odd) z], [lit true a, lit true b, lit (!odd) z],
      [lit true a, lit false b, lit odd z], [lit false a, lit true b, lit odd z]]) :
    Models M cls ↔ M z = (if odd then xor (M a) (M b) else !xor (M a) (M b)) := by
  have reorder : Models M cls ↔
      Models M [[lit false a, lit false b, lit (!odd) z], [lit true a, lit true b, lit (!odd) z],
        [lit true a, lit false b, lit odd z], [lit false a, lit true b, lit odd z]] := by
    simp only [Models]
    exact forall_congr' fun cl => imp_congr_left rows.mem_iff
  rw [reorder]
  simp only [models_cons, models_nil, and_true, holds_cons, holds_nil_iff, or_false,
    litHolds_lit ha, litHolds_lit hb, litHolds_lit hz]
  cases odd <;> cases M a <;> cases M b <;> cases M z <;> simp

end Dimacs
