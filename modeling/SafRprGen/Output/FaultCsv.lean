/-
Module: SafRprGen.Output.FaultCsv
Layer: Output
Purpose: The rows of the density report (`fault_csv.c`). A result gives one row for its target and one for
  every other fault of the class, which has its count and its completion left blank.
Main exports: Gmp, csvRow, writeFaultResult, fdpCsv
-/
import SafRprGen.Analysis.Density
import SafRprGen.Fault.Target

namespace SafRprGen

/-- The conversions of GMP: `%.10Fe` of `gmp_snprintf`, and `mpf_set_str` in base ten into a variable of
the given precision. -/
structure Gmp where
  snprintf : ℚ → CStr
  setStr : Nat → CStr → Option ℚ

/-- A row of fields. -/
def csvRow (fields : List CStr) : CStr := [','].intercalate fields ++ ['\n']

/-- The header that `AnalyzeFaultDensity` writes. -/
def fdpHeader : CStr :=
  csvRow ["net_name".toList, "f_type".toList, "cube_cnt".toList, "complete".toList, "fdp".toList,
    "rep_net_name".toList, "rep_f_type".toList]

/-- `%d` of a count. -/
def printCount (n : Nat) : CStr := Nat.toDigits 10 n

/-- A call of `WriteFaultResult`: the target, its result, and the entries `GetEquivalentFaults` lists. -/
structure WrittenResult where
  target : FNODE
  result : FaultResult
  members : List Nat

namespace WrittenResult

variable (gmp : Gmp) (c : Netlist) (m : FaultModel) (r : WrittenResult)

/-- `density_str`. -/
def densityStr : CStr := (gmp.snprintf r.result.density).take 63

/-- The row of the target. -/
def targetRow : CStr :=
  csvRow [r.target.name, faultTypeName m r.target.type, printCount r.result.cubeCnt,
    printCount (if r.result.complete then 1 else 0), r.densityStr gmp, r.target.name,
    faultTypeName m r.target.type]

/-- The row of an equivalent fault. -/
def memberRow (id : Nat) : CStr :=
  csvRow [c.name (memberNet id), faultTypeName m (memberType id), [], [], r.densityStr gmp, r.target.name,
    faultTypeName m r.target.type]

/-- The entries that get a row of their own. -/
def otherMembers : List Nat :=
  r.members.filter fun id => !(memberNet id = r.target.netptr && memberType id = r.target.type)

/-- `WriteFaultResult`, row by row. -/
def writeFaultResult : List CStr :=
  r.targetRow gmp m :: r.otherMembers.map (r.memberRow gmp c m)

end WrittenResult

/-- The file after the results. -/
def fdpCsv (gmp : Gmp) (c : Netlist) (m : FaultModel) (results : List WrittenResult) : CStr :=
  fdpHeader ++ (results.flatMap (WrittenResult.writeFaultResult gmp c m)).flatten

/-! ### Rows -/

theorem csvRow_cons (field next : CStr) (fields : List CStr) :
    csvRow (field :: next :: fields) = field ++ ',' :: csvRow (next :: fields) := by
  simp [csvRow, List.intercalate]

theorem csvRow_single (field : CStr) : csvRow [field] = field ++ ['\n'] := by
  simp [csvRow, List.intercalate]

/-- A row is one line when its fields have no newline. -/
theorem getlines_csvRow {fields : List CStr} (whole : ∀ field ∈ fields, '\n' ∉ field) (rest : CStr) :
    CText.getlines (csvRow fields ++ rest) = csvRow fields :: CText.getlines rest := by
  have line : '\n' ∉ [','].intercalate fields := by
    induction fields with
    | nil => simp
    | cons field fields ih =>
        obtain ⟨first, whole⟩ := List.forall_mem_cons.mp whole
        cases fields with
        | nil => simpa using first
        | cons next fields =>
            have later := ih whole
            rw [List.intercalate_cons_cons]
            simp [first, later]
  unfold csvRow
  rw [List.append_assoc]
  exact CText.getlines_line line rest

end SafRprGen
