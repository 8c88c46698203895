/-
Module: SafRprGen.Fdp.DetectionCircuit
Layer: Fdp
Purpose: The comparator clauses (`detection_circuit.c`): a difference variable for each observed net in
  the fanout of the fault, their disjunction when there are several, and the unit clauses that excite the
  fault and require a difference.
Main exports: createConsDC, comparatorClauses, createConsDC_eq, comparator_models
-/
import SafRprGen.Fdp.FaultyCircuit

namespace SafRprGen

open Dimacs

/-- The clauses of one exclusive-or gate, in the order of `CreateConsDC_XOR`. -/
def diffClauses (gc fc diffVar : Nat) : List Clause :=
  [[lit false gc, lit false fc, lit false diffVar], [lit false gc, lit true fc, lit true diffVar],
   [lit true gc, lit false fc, lit true diffVar], [lit true gc, lit true fc, lit false diffVar]]

/-- The clauses of the disjunction of the variables `xs`, in the order of `CreateConsDC_OR`. -/
def orClauses (xs : List Nat) (zVar : Nat) : List Clause :=
  xs.map (fun x => [lit false x, lit true zVar]) ++ [xs.map (lit true) ++ [lit false zVar]]

namespace Netlist

variable (c : Netlist)

/-- One round of `CreateConsDC_XOR`. -/
def dcXorStep (g : Globals) (i : Nat) : Globals :=
  if g.tpo i then
    let diffVar := g.totalVars + 1
    { g with totalVars := diffVar }.ccadicalAddAll (diffClauses (c.varsgc i) (g.varsfc i) diffVar)
  else g

/-- `CreateConsDC_XOR`. -/
def createConsDCXor (g : Globals) : Globals := (List.range c.nNet).foldl c.dcXorStep g

/-- `CreateConsDC_OR`: the difference variables are the last `numtranpo` ones. -/
def createConsDCOr (g : Globals) : Globals :=
  if 1 < g.numtranpo then
    let zVar := g.totalVars + 1
    let firstXorVar := zVar - g.numtranpo
    { g with totalVars := zVar }.ccadicalAddAll
      (orClauses (List.range' firstXorVar (zVar - firstXorVar)) zVar)
  else g

/-- The units of `CreateConsDC_FE`: the good and the faulty value of the site, for a transition fault the
frame-1 value, and the last variable. -/
def exciteClauses (f : FNODE) (g : Globals) : List Clause :=
  [[lit (!f.type.stuck) (c.varsgc f.netptr)], [lit f.type.stuck (g.varsfc f.netptr)]] ++
    (match f.excNetptr with
      | none => []
      | some exc => [[lit f.type.stuck (c.varsgc exc)]]) ++
    [[lit true g.totalVars]]

/-- `CreateConsDC`. -/
def createConsDC (f : FNODE) (g : Globals) : Globals :=
  let g := createConsDCOr (c.createConsDCXor g)
  g.ccadicalAddAll (c.exciteClauses f g)

variable {c}

/-- The observed nets in the fanout, in index order. -/
def comparedNets (c : Netlist) (g : Globals) : List Nat := (List.range c.nNet).filter g.tpo

theorem createConsDCXor_eq (g : Globals) :
    c.createConsDCXor g = { g with
      totalVars := g.totalVars + (c.comparedNets g).length
      solver := g.solver ++ ((c.comparedNets g).zipIdx (g.totalVars + 1)).flatMap
        fun p => diffClauses (c.varsgc p.1) (g.varsfc p.1) p.2 } := by
  have general : ∀ (is : List Nat) (g : Globals), is.foldl c.dcXorStep g = { g with
      totalVars := g.totalVars + (is.filter g.tpo).length
      solver := g.solver ++ ((is.filter g.tpo).zipIdx (g.totalVars + 1)).flatMap
        fun p => diffClauses (c.varsgc p.1) (g.varsfc p.1) p.2 } := by
    intro is
    induction is with
    | nil => intro g; simp
    | cons i is ih =>
        intro g
        rw [List.foldl_cons, ih]
        cases tpo : g.tpo i with
        | true =>
            simp only [dcXorStep, tpo, if_true, Globals.ccadicalAddAll, List.filter_cons,
              List.length_cons, List.zipIdx_cons, List.flatMap_cons, List.append_assoc]
            congr 1
            omega
        | false => simp [dcXorStep, tpo]
  exact general (List.range c.nNet) g

/-- All clauses of the comparator. -/
def comparatorClauses (c : Netlist) (f : FNODE) (g : Globals) : List Clause :=
  let nets := c.comparedNets g
  let first := g.totalVars + 1
  let last := if 1 < nets.length then g.totalVars + nets.length + 1 else g.totalVars + nets.length
  ((nets.zipIdx first).flatMap fun p => diffClauses (c.varsgc p.1) (g.varsfc p.1) p.2) ++
    (if 1 < nets.length then orClauses (List.range' first nets.length) last else []) ++
    c.exciteClauses f { g with totalVars := last }

/-- The variable that stands for a difference somewhere. -/
def detectVar (c : Netlist) (g : Globals) : Nat :=
  if 1 < (c.comparedNets g).length then g.totalVars + (c.comparedNets g).length + 1
  else g.totalVars + (c.comparedNets g).length

theorem comparatorClauses_split (f : FNODE) (g : Globals) :
    c.comparatorClauses f g =
      ((c.comparedNets g).zipIdx (g.totalVars + 1)).flatMap
          (fun p => diffClauses (c.varsgc p.1) (g.varsfc p.1) p.2) ++
        (if 1 < (c.comparedNets g).length then
          orClauses (List.range' (g.totalVars + 1) (c.comparedNets g).length) (c.detectVar g) else []) ++
        c.exciteClauses f { g with totalVars := c.detectVar g } := rfl

theorem createConsDC_eq {f : FNODE} {g : Globals} (count : g.numtranpo = (c.comparedNets g).length) :
    c.createConsDC f g = { g with
      totalVars := c.detectVar g, solver := g.solver ++ c.comparatorClauses f g } := by
  simp only [createConsDC, createConsDCXor_eq, createConsDCOr, count, comparatorClauses, detectVar]
  by_cases several : 1 < (c.comparedNets g).length
  · have first : g.totalVars + (c.comparedNets g).length + 1 - (c.comparedNets g).length =
        g.totalVars + 1 := by omega
    have len : g.totalVars + (c.comparedNets g).length + 1 - (g.totalVars + 1) =
        (c.comparedNets g).length := by omega
    simp only [several, if_true, first, len, Globals.ccadicalAddAll, List.append_assoc]
    rfl
  · simp only [several, if_false, Globals.ccadicalAddAll, List.append_assoc, List.nil_append]
    rfl

theorem diffClauses_models {M : Nat → Bool} {gc fc diffVar : Nat} (hg : 0 < gc) (hf : 0 < fc)
    (hd : 0 < diffVar) :
    Models M (diffClauses gc fc diffVar) ↔ M diffVar = xor (M gc) (M fc) := by
  simp only [diffClauses, models_cons, models_nil, and_true, holds_cons, holds_nil_iff, or_false,
    litHolds_lit hg, litHolds_lit hf, litHolds_lit hd]
  cases M gc <;> cases M fc <;> cases M diffVar <;> simp

theorem orClauses_models {M : Nat → Bool} {xs : List Nat} {zVar : Nat} (pos : ∀ x ∈ xs, 0 < x)
    (hz : 0 < zVar) : Models M (orClauses xs zVar) ↔ (M zVar = true ↔ ∃ x ∈ xs, M x = true) := by
  have reordered : Models M (orClauses xs zVar) ↔ Models M (manyInput false false xs zVar) := by
    rw [orClauses, manyInput, models_append, models_cons, models_cons, and_comm]
    simp
  rw [reordered, manyInput_models hz pos]
  have all : xs.all (fun v => M v == false) = true ↔ ¬ ∃ x ∈ xs, M x = true := by
    simp
  by_cases some : ∃ x ∈ xs, M x = true
  · rw [if_neg (fun h => all.mp h some), iff_true_right some]
    rfl
  · rw [if_pos (all.mpr some), iff_false_right some, Bool.not_eq_true]

/-- What the comparator clauses say. -/
structure ComparatorModel (c : Netlist) (f : FNODE) (g : Globals) (M : Nat → Bool) : Prop where
  diff : ∀ p ∈ (c.comparedNets g).zipIdx (g.totalVars + 1),
    M p.2 = xor (M (c.varsgc p.1)) (M (g.varsfc p.1))
  disj : 1 < (c.comparedNets g).length →
    (M (c.detectVar g) = true ↔
      ∃ v ∈ List.range' (g.totalVars + 1) (c.comparedNets g).length, M v = true)
  good : M (c.varsgc f.netptr) = !f.type.stuck
  faulty : M (g.varsfc f.netptr) = f.type.stuck
  exc : ∀ e, f.excNetptr = some e → M (c.varsgc e) = f.type.stuck
  detect : M (c.detectVar g) = true

/-- The variables the comparator reads are positive. -/
structure ComparatorVars (c : Netlist) (f : FNODE) (g : Globals) : Prop where
  gc : ∀ n < c.nNet, 0 < c.varsgc n
  fc : ∀ n < c.nNet, 0 < g.varsfc n
  site : f.netptr < c.nNet
  exc : ∀ e, f.excNetptr = some e → e < c.nNet
  some : 0 < (c.comparedNets g).length

private theorem compared_lt {g : Globals} {p : Nat × Nat}
    (hp : p ∈ (c.comparedNets g).zipIdx (g.totalVars + 1)) : p.1 < c.nNet ∧ 0 < p.2 := by
  have mem := List.fst_mem_of_mem_zipIdx hp
  have low := List.le_snd_of_mem_zipIdx hp
  exact ⟨List.mem_range.mp (List.mem_filter.mp mem).1, by omega⟩

private theorem detectVar_pos {f : FNODE} {g : Globals} (vars : ComparatorVars c f g) :
    0 < c.detectVar g := by
  have := vars.some
  unfold detectVar
  split <;> omega

private theorem range_pos {g : Globals} :
    ∀ v ∈ List.range' (g.totalVars + 1) (c.comparedNets g).length, 0 < v := by
  intro v hv
  have := (List.mem_range'_1.mp hv).1
  omega

theorem excite_models {f : FNODE} {g : Globals} {last : Nat} (vars : ComparatorVars c f g)
    (hlast : 0 < last) (M : Nat → Bool) :
    Models M (c.exciteClauses f { g with totalVars := last }) ↔
      M (c.varsgc f.netptr) = (!f.type.stuck) ∧ M (g.varsfc f.netptr) = f.type.stuck ∧
        (∀ e, f.excNetptr = some e → M (c.varsgc e) = f.type.stuck) ∧ M last = true := by
  have exc : Models M (match f.excNetptr with
        | none => []
        | some exc => [[lit f.type.stuck (c.varsgc exc)]]) ↔
      ∀ e, f.excNetptr = some e → M (c.varsgc e) = f.type.stuck := by
    cases he : f.excNetptr with
    | none => simp
    | some e => simp [litHolds_lit (vars.gc e (vars.exc e he))]
  rw [exciteClauses, models_append, models_append, exc]
  simp only [models_cons, models_nil, and_true, holds_cons, holds_nil_iff, or_false,
    litHolds_lit (vars.gc _ vars.site), litHolds_lit (vars.fc _ vars.site), litHolds_lit hlast, and_assoc]

theorem comparator_models {f : FNODE} {g : Globals} (vars : ComparatorVars c f g) (M : Nat → Bool) :
    Models M (c.comparatorClauses f g) ↔ ComparatorModel c f g M := by
  have hlast := detectVar_pos vars
  have diffs : Models M (((c.comparedNets g).zipIdx (g.totalVars + 1)).flatMap
        fun p => diffClauses (c.varsgc p.1) (g.varsfc p.1) p.2) ↔
      ∀ p ∈ (c.comparedNets g).zipIdx (g.totalVars + 1),
        M p.2 = xor (M (c.varsgc p.1)) (M (g.varsfc p.1)) := by
    rw [models_flatMap]
    apply forall₂_congr
    intro p hp
    obtain ⟨hn, hv⟩ := compared_lt hp
    exact diffClauses_models (vars.gc _ hn) (vars.fc _ hn) hv
  have disj : Models M (if 1 < (c.comparedNets g).length then
        orClauses (List.range' (g.totalVars + 1) (c.comparedNets g).length) (c.detectVar g) else []) ↔
      (1 < (c.comparedNets g).length → (M (c.detectVar g) = true ↔
        ∃ v ∈ List.range' (g.totalVars + 1) (c.comparedNets g).length, M v = true)) := by
    by_cases several : 1 < (c.comparedNets g).length
    · rw [if_pos several, orClauses_models range_pos hlast]
      exact ⟨fun h _ => h, fun h => h several⟩
    · rw [if_neg several]
      exact ⟨fun _ h => absurd h several, fun _ => models_nil M⟩
  rw [comparatorClauses_split, models_append, models_append, diffs, disj, excite_models vars hlast]
  constructor
  · rintro ⟨⟨diff, disj⟩, good, faulty, exc, detect⟩
    exact ⟨diff, disj, good, faulty, exc, detect⟩
  · rintro ⟨diff, disj, good, faulty, exc, detect⟩
    exact ⟨⟨diff, disj⟩, good, faulty, exc, detect⟩

theorem comparator_ne_zero {f : FNODE} {g : Globals} (vars : ComparatorVars c f g) :
    ∀ cl ∈ c.comparatorClauses f g, ∀ l ∈ cl, l ≠ 0 := by
  have hlast := detectVar_pos vars
  intro cl hcl l hl
  rw [comparatorClauses_split] at hcl
  rcases List.mem_append.mp hcl with hcl | hcl
  · rcases List.mem_append.mp hcl with hcl | hcl
    · obtain ⟨p, hp, hcl⟩ := List.mem_flatMap.mp hcl
      obtain ⟨hn, hv⟩ := compared_lt hp
      have gc : ∀ b, lit b (c.varsgc p.1) ≠ 0 := fun _ => lit_ne_zero (vars.gc _ hn)
      have fc : ∀ b, lit b (g.varsfc p.1) ≠ 0 := fun _ => lit_ne_zero (vars.fc _ hn)
      have diff : ∀ b, lit b p.2 ≠ 0 := fun _ => lit_ne_zero hv
      simp only [diffClauses, List.mem_cons, List.not_mem_nil, or_false] at hcl
      rcases hcl with rfl | rfl | rfl | rfl <;>
        simp only [List.mem_cons, List.not_mem_nil, or_false] at hl <;>
        rcases hl with rfl | rfl | rfl <;> first | exact gc _ | exact fc _ | exact diff _
    · split at hcl
      · rcases List.mem_append.mp hcl with hcl | hcl
        · obtain ⟨v, hv, rfl⟩ := List.mem_map.mp hcl
          rcases List.mem_pair.mp hl with rfl | rfl
          · exact lit_ne_zero (range_pos v hv)
          · exact lit_ne_zero hlast
        · rw [List.mem_singleton.mp hcl] at hl
          rcases List.mem_append.mp hl with hl | hl
          · obtain ⟨v, hv, rfl⟩ := List.mem_map.mp hl
            exact lit_ne_zero (range_pos v hv)
          · rw [List.mem_singleton.mp hl]
            exact lit_ne_zero hlast
      · exact absurd hcl List.not_mem_nil
  · simp only [exciteClauses, List.mem_append, List.mem_cons, List.not_mem_nil, or_false] at hcl
    rcases hcl with ((rfl | rfl) | hcl) | rfl
    · rw [List.mem_singleton.mp hl]
      exact lit_ne_zero (vars.gc _ vars.site)
    · rw [List.mem_singleton.mp hl]
      exact lit_ne_zero (vars.fc _ vars.site)
    · cases he : f.excNetptr with
      | none => simp [he] at hcl
      | some e =>
          simp only [he, List.mem_singleton] at hcl
          rw [hcl, List.mem_singleton] at hl
          exact hl ▸ lit_ne_zero (vars.gc _ (vars.exc e he))
    · rw [List.mem_singleton.mp hl]
      exact lit_ne_zero hlast

end Netlist

end SafRprGen
