/-
Module: SafRprGen.Fdp.EssentialLog
Layer: Fdp
Purpose: `EssentialAssignment` with a record of the implications that `assign_ea_value` drops because the
  net has the opposite value already. Erasing the record gives the run of the program. Every value the run
  records is the good value under all detecting assignments, and a dropped implication shows that there is
  no detecting assignment.
Main exports: EaLog, essentialAssignmentLog, essentialAssignmentLog_erase, essentialAssignment_necessary
-/
import SafRprGen.Fdp.EssentialAssignment

namespace SafRprGen

open Dimacs

/-- The globals and the implications dropped so far. -/
structure EaLog where
  g : Globals
  dropped : List (Nat × Bool)

namespace Netlist

variable (c : Netlist)

/-- `assign_ea_value`, recording a call for a net that has the opposite value. -/
def assignEaValueLog (s : EaLog) (call : Nat × Bool) : EaLog where
  g := c.assignEaValue s.g call.1 call.2
  dropped :=
    if s.g.eaFlag call.1 && s.g.logicValue call.1 != call.2 then s.dropped ++ [call] else s.dropped

/-- One pass of the implication loop. Only the calls of `back_implication` can be dropped:
`forward_implication`, like `assign_unique_value`, skips a net that has a value before it calls. -/
def implicationPassLog (s : EaLog) : Option EaLog :=
  if s.g.que.count = 0 then none
  else
    let (t, g) := c.queDEQ s.g
    let s := (c.backCalls t (g.logicValue t)).foldl c.assignEaValueLog ⟨g, s.dropped⟩
    some { s with g := c.forwardImplication s.g t }

/-- `EssentialAssignment`. -/
def essentialAssignmentLog (f : FNODE) (g : Globals) : Option EaLog :=
  (c.uniqueSensitization (c.walkStart f g).1 (c.walkStart f g).2).bind fun g =>
    Loop.whileLoop c.implicationPassLog (c.nNet + 1)
      (c.assignEaValueLog ⟨g, []⟩ (f.netptr, !f.type.stuck))

variable {c} {m : FaultModel} {f : FNODE}

/-! ### The record changes nothing -/

theorem foldl_assignEaValueLog (calls : List (Nat × Bool)) :
    ∀ s : EaLog, (calls.foldl c.assignEaValueLog s).g =
      calls.foldl (fun g call => c.assignEaValue g call.1 call.2) s.g := by
  induction calls with
  | nil => intro s; rfl
  | cons call calls ih =>
      intro s
      rw [List.foldl_cons, List.foldl_cons]
      exact ih _

theorem implicationPassLog_erase (c : Netlist) (s : EaLog) :
    (c.implicationPassLog s).map (·.g) = c.implicationPass s.g := by
  unfold implicationPassLog implicationPass
  split
  · rfl
  · simp only [Option.map_some, foldl_assignEaValueLog, backImplication_eq]

/-- Without the record the run is that of `EssentialAssignment`. -/
theorem essentialAssignmentLog_erase (f : FNODE) (g : Globals) :
    (c.essentialAssignmentLog f g).map (·.g) = c.essentialAssignment f g := by
  change _ = (c.uniqueSensitization (c.walkStart f g).1 (c.walkStart f g).2).bind _
  unfold essentialAssignmentLog
  cases c.uniqueSensitization (c.walkStart f g).1 (c.walkStart f g).2 with
  | none => rfl
  | some g₁ =>
      exact Loop.whileLoop_erase (·.g) (implicationPassLog_erase c) (c.nNet + 1)
        (c.assignEaValueLog ⟨g₁, []⟩ (f.netptr, !f.type.stuck))

/-! ### What is recorded -/

/-- Values so far are essential, and a dropped implication contradicts one of them. -/
structure LogInv (c : Netlist) (m : FaultModel) (f : FNODE) (g₀ : Globals) (s : EaLog) : Prop where
  ea : EaInv c m f g₀ s.g
  dropped : s.dropped ≠ [] → ∀ x, ¬ c.Detects m f x

theorem LogInv.assign {g₀ : Globals} {s : EaLog} (inv : LogInv c m f g₀ s) {call : Nat × Bool}
    (lt : call.1 < c.nNet) (essential : c.Essential m f call.1 call.2) :
    LogInv c m f g₀ (c.assignEaValueLog s call) where
  ea := (inv.ea.assign lt essential).1
  dropped := by
    unfold assignEaValueLog
    dsimp only
    split
    · rename_i opposite
      rw [Bool.and_eq_true, bne_iff_ne] at opposite
      intro _ x det
      -- both values are essential
      exact opposite.2 ((inv.ea.sound _ opposite.1 x det).symm.trans (essential x det))
    · exact inv.dropped

theorem LogInv.foldl {g₀ : Globals} (calls : List (Nat × Bool)) :
    (∀ call ∈ calls, call.1 < c.nNet ∧ c.Essential m f call.1 call.2) →
      ∀ s, LogInv c m f g₀ s → LogInv c m f g₀ (calls.foldl c.assignEaValueLog s) := by
  induction calls with
  | nil => intro _ s inv; exact inv
  | cons call calls ih =>
      intro essential s inv
      rw [List.foldl_cons]
      apply ih fun other hother => essential other (List.mem_cons_of_mem _ hother)
      obtain ⟨lt, here⟩ := essential call List.mem_cons_self
      exact inv.assign lt here

/-- One pass takes a net with an essential value and assigns what follows from it. -/
theorem LogInv.pass {g₀ : Globals} {s s' : EaLog} (rules : EaRules c m f)
    (inv : LogInv c m f g₀ s)
    (next : c.implicationPassLog s = some s') : LogInv c m f g₀ s' := by
  have erased := implicationPassLog_erase c s
  rw [next, Option.map_some] at erased
  refine ⟨(inv.ea.pass rules erased.symm).1, ?_⟩
  unfold implicationPassLog at next
  split at next
  · cases next
  · rename_i busy
    obtain ⟨known, taken⟩ := inv.ea.dequeue busy
    have called : LogInv c m f g₀ ⟨(c.queDEQ s.g).2, s.dropped⟩ := ⟨taken, inv.dropped⟩
    have calls := LogInv.foldl _
      (rules.back (taken.low _ known) (taken.sound _ known)) _ called
    cases next
    exact calls.dropped

/-- Whatever `EssentialAssignment` records is the good value of the net under every detecting assignment,
so its unit clauses hold for all of them. An implication that `assign_ea_value` drops because the net has
the opposite value shows that no assignment detects the fault. -/
theorem essentialAssignment_necessary (k : Circuit) (f : FNODE) (g : Globals)
    (fault : k.netlist.IsFault k.model f) :
    ∃ s, k.netlist.essentialAssignmentLog f g = some s ∧
      k.netlist.essentialAssignment f g = some s.g ∧
      (∀ n, s.g.eaFlag n = true → n < k.netlist.nNet ∧
        ∀ x, k.netlist.Detects k.model f x → k.netlist.good x n = s.g.logicValue n) ∧
      (∃ units, s.g.solver = g.solver ++ units ∧
        ∀ x, k.netlist.Detects k.model f x → ∀ M : Nat → Bool,
          (∀ n < k.netlist.nNet, g.normalScopeRequiredNet n = true →
            M (k.netlist.varsgc n) = k.netlist.good x n) → Models M units) ∧
      (s.dropped ≠ [] → ∀ x, ¬ k.netlist.Detects k.model f x) := by
  have wf := k.wellFormed
  have rules := wf.eaRules fault
  obtain ⟨g₁, walked, ea⟩ := uniqueSensitization_spec rules g
  have start : LogInv k.netlist k.model f g ⟨g₁, []⟩ := ⟨ea, fun more => absurd rfl more⟩
  have site : LogInv k.netlist k.model f g
      (k.netlist.assignEaValueLog ⟨g₁, []⟩ (f.netptr, !f.type.stuck)) :=
    start.assign fault.netLt rules.excited
  obtain ⟨s, loop, inv, -⟩ := @Loop.whileLoop_total _ k.netlist.implicationPassLog
    (LogInv k.netlist k.model f g)
    (fun s => s.g.que.count + k.netlist.unmarked s.g.eaFlag)
    (by
      intro s s' inv next
      have erased := implicationPassLog_erase k.netlist s
      rw [next, Option.map_some] at erased
      exact ⟨inv.pass rules next, (inv.ea.pass rules erased.symm).2⟩)
    (k.netlist.nNet + 1) _ site (by have := site.ea.budget; omega)
  have run : k.netlist.essentialAssignmentLog f g = some s := by
    unfold essentialAssignmentLog
    rw [walked]
    exact loop
  obtain ⟨units, solver, unit⟩ := inv.ea.units
  refine ⟨s, run, ?_, ?_, ⟨units, solver, ?_⟩, inv.dropped⟩
  · rw [← essentialAssignmentLog_erase, run]
    rfl
  · exact fun n flagged => ⟨inv.ea.low n flagged, inv.ea.sound n flagged⟩
  · intro x det M agrees cl hcl
    obtain ⟨n, v, hn, required, essential, rfl⟩ := unit cl hcl
    refine ⟨_, List.mem_singleton_self _, ?_⟩
    rw [litHolds_lit (wf.varsgc_pos hn), agrees n hn required]
    exact essential x det

theorem essentialAssignment_necessary_and :
    ∃ s : EaLog, andNetlist.essentialAssignment andFault initGlobalVars = some s.g ∧
      ∀ n, s.g.eaFlag n = true → n < 3 ∧
        ∀ x, andNetlist.Detects .SAF andFault x → andNetlist.good x n = s.g.logicValue n := by
  obtain ⟨s, -, run, sound, -, -⟩ :=
    essentialAssignment_necessary andCircuit andFault initGlobalVars andFault_isFault
  exact ⟨s, run, sound⟩

end Netlist

end SafRprGen
