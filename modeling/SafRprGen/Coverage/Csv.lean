/-
Module: SafRprGen.Coverage.Csv
Layer: Coverage
Purpose: The reader of the density report (`coverage.c`) and its agreement with the writer. The reader
  finds its columns by their names and cuts the lines at commas; the rows the writer makes have their
  fields where the header says, so every row is counted and every positive density is added.
Main exports: csvField, accumulateFaults, CsvName, PrintsDensity, accumulateFaults_fdpCsv
-/
import SafRprGen.Coverage.Model
import SafRprGen.Output.FaultCsv

namespace SafRprGen

open CText

/-! ### Fields -/

/-- The loop of `CsvField` over the columns before the one wanted. -/
def csvSkip : Nat → CStr → Option CStr
  | 0, p => some p
  | column + 1, p =>
      match p.dropWhile (· != ',') with
      | [] => none
      | _ :: rest => csvSkip column rest

/-- What ends a field. -/
def fieldEnd (ch : Char) : Bool := ch = ',' || ch = '\r' || ch = '\n'

/-- `CsvField` into an array of `size` bytes. -/
def csvField (line : CStr) (index size : Nat) : CStr :=
  match csvSkip index line with
  | none => []
  | some p => (p.takeWhile fun ch => !fieldEnd ch).take (size - 1)

/-- The loop of `CsvFindColumn` from the column `index` on. The bound on the passes is the length of the
header, which every pass shortens. -/
def csvFindColumnFrom (name : CStr) : Nat → Nat → CStr → Option Nat
  | 0, _, _ => none
  | fuel + 1, index, p =>
      if p.takeWhile (fun ch => !fieldEnd ch) = name then some index
      else
        match p.dropWhile (· != ',') with
        | [] => none
        | _ :: rest => csvFindColumnFrom name fuel (index + 1) rest

/-- `CsvFindColumn`; `none` is its `-1`. -/
def csvFindColumn (header name : CStr) : Option Nat :=
  csvFindColumnFrom name (header.length + 1) 0 header

/-- `CsvColumns`. -/
structure CsvColumns where
  fdp : Nat
  cubeCnt : Nat
  complete : Nat
deriving DecidableEq, Repr

/-- `ReadCsvColumns`. -/
def readCsvColumns (header : CStr) : Option CsvColumns :=
  match csvFindColumn header "fdp".toList, csvFindColumn header "cube_cnt".toList,
    csvFindColumn header "complete".toList with
  | some fdp, some cubeCnt, some complete => some ⟨fdp, cubeCnt, complete⟩
  | _, _, _ => none

/-! ### Faults -/

/-- `FaultCounts`. -/
structure FaultCounts where
  total : Nat
  undetectable : Nat
  equivalent : Nat
  incomplete : Nat
deriving DecidableEq, Repr

/-- The errors of `AccumulateFaults`. -/
inductive CsvError where
  | empty
  | columns
  | invalidFdp (fdp : CStr) (lineNumber : Nat)
  | noFaultRows
deriving DecidableEq, Repr

/-- The message of an error. -/
def CsvError.message (path : CStr) : CsvError → CStr
  | .empty => "ERROR: calc F: empty FDP CSV: ".toList ++ path ++ ['\n']
  | .columns => "ERROR: calc F requires fdp, cube_cnt and complete columns\n".toList
  | .invalidFdp fdp lineNumber =>
      "ERROR: calc F: invalid fdp '".toList ++ fdp ++ "' at ".toList ++ path ++
        ':' :: printCount lineNumber ++ ['\n']
  | .noFaultRows => "ERROR: calc F: no fault rows in ".toList ++ path ++ ['\n']

variable (gmp : Gmp) (mpf : ℚ → ℚ) (precision : Nat)

/-- The density of a field, when `AccumulateFaults` accepts it. -/
def readFdp (fdp : CStr) : Option ℚ :=
  (gmp.setStr precision fdp).filter fun density => decide (0 ≤ density) && decide (density ≤ 1)

/-- The call of `CoverageModelAddFault`; `none` once the arithmetic of a call has failed. -/
def addFault (model : Option CoverageModel) (density : ℚ) : Option CoverageModel :=
  model.bind fun model => coverageModelAddFault mpf model density

/-- The loop of `AccumulateFaults` after the line `lineNumber`, with the model and the counts. -/
def accumulateRows (columns : CsvColumns) : Nat → List CStr → Option CoverageModel × FaultCounts →
    Except CsvError (Option CoverageModel × FaultCounts)
  | _, [], s => .ok s
  | lineNumber, line :: rest, (model, counts) =>
      let lineNumber := lineNumber + 1
      let fdp := csvField line columns.fdp 64
      -- a line without the field counts as an empty one
      if fdp.isEmpty then accumulateRows columns lineNumber rest (model, counts)
      else
        match readFdp gmp precision fdp with
        | none => .error (.invalidFdp fdp lineNumber)
        | some density =>
            let counts := { counts with
              total := counts.total + 1
              equivalent :=
                counts.equivalent + if (csvField line columns.cubeCnt 32).isEmpty then 1 else 0
              incomplete :=
                counts.incomplete + if csvField line columns.complete 8 = ['0'] then 1 else 0 }
            if density = 0 then
              accumulateRows columns lineNumber rest
                (model, { counts with undetectable := counts.undetectable + 1 })
            else accumulateRows columns lineNumber rest (addFault mpf model density, counts)

/-- `AccumulateFaults` on the text of the file. -/
def accumulateFaults (csv : CStr) (model : CoverageModel) :
    Except CsvError (Option CoverageModel × FaultCounts) :=
  match getlines csv with
  | [] => .error .empty
  | header :: lines =>
      match readCsvColumns header with
      | none => .error .columns
      | some columns =>
          (accumulateRows gmp mpf precision columns 1 lines (some model, ⟨0, 0, 0, 0⟩)).bind fun s =>
            if s.2.total = 0 then .error .noFaultRows else .ok s

/-! ### Reading a written row -/

theorem dropWhile_comma {field : CStr} (noComma : ',' ∉ field) (rest : CStr) :
    (field ++ ',' :: rest).dropWhile (· != ',') = ',' :: rest := by
  induction field with
  | nil => simp
  | cons ch field ih =>
      obtain ⟨ne, noComma⟩ := not_or.mp fun h => noComma (List.mem_cons.mpr h)
      rw [List.cons_append, List.dropWhile_cons_of_pos (by simp [Ne.symm ne]), ih noComma]

/-- The first field of a row is dropped. -/
theorem csvSkip_row {field : CStr} (noComma : ',' ∉ field) (next : CStr) (fields : List CStr)
    (column : Nat) :
    csvSkip (column + 1) (csvRow (field :: next :: fields)) = csvSkip column (csvRow (next :: fields)) := by
  rw [csvRow_cons, csvSkip, dropWhile_comma noComma]

theorem takeWhile_field {field : CStr} (clean : ∀ ch ∈ field, fieldEnd ch = false) {stop : Char}
    (ends : fieldEnd stop = true) (rest : CStr) :
    (field ++ stop :: rest).takeWhile (fun ch => !fieldEnd ch) = field := by
  rw [List.takeWhile_append_of_pos (by simpa using clean)]
  simp [ends]

/-- The first field of a row is what the reader cuts off. -/
theorem takeWhile_row {field : CStr} (clean : ∀ ch ∈ field, fieldEnd ch = false) (fields : List CStr) :
    (csvRow (field :: fields)).takeWhile (fun ch => !fieldEnd ch) = field := by
  cases fields with
  | nil => rw [csvRow_single, takeWhile_field clean rfl]
  | cons next fields => rw [csvRow_cons, takeWhile_field clean rfl]

/-- The header names the columns the reader asks for. -/
theorem readCsvColumns_fdpHeader : readCsvColumns fdpHeader = some ⟨4, 2, 3⟩ := by decide +kernel

/-- The fields of a row of the report. -/
theorem csvField_row {name type cubeCnt complete density rep repType : CStr} (noName : ',' ∉ name)
    (noType : ',' ∉ type) (cleanCnt : ∀ ch ∈ cubeCnt, fieldEnd ch = false)
    (cleanComplete : ∀ ch ∈ complete, fieldEnd ch = false)
    (cleanDensity : ∀ ch ∈ density, fieldEnd ch = false) :
    let row := csvRow [name, type, cubeCnt, complete, density, rep, repType]
    (∀ size, csvField row 2 size = cubeCnt.take (size - 1)) ∧
      (∀ size, csvField row 3 size = complete.take (size - 1)) ∧
      ∀ size, csvField row 4 size = density.take (size - 1) := by
  have noComma : ∀ {field : CStr}, (∀ ch ∈ field, fieldEnd ch = false) → ',' ∉ field := by
    intro field clean mem
    exact absurd (clean ',' mem) (by decide)
  have atCnt : csvSkip 2 (csvRow [name, type, cubeCnt, complete, density, rep, repType]) =
      some (csvRow [cubeCnt, complete, density, rep, repType]) := by
    rw [csvSkip_row noName, csvSkip_row noType]
    rfl
  have atComplete : csvSkip 3 (csvRow [name, type, cubeCnt, complete, density, rep, repType]) =
      some (csvRow [complete, density, rep, repType]) := by
    rw [csvSkip_row noName, csvSkip_row noType, csvSkip_row (noComma cleanCnt)]
    rfl
  have atDensity : csvSkip 4 (csvRow [name, type, cubeCnt, complete, density, rep, repType]) =
      some (csvRow [density, rep, repType]) := by
    rw [csvSkip_row noName, csvSkip_row noType, csvSkip_row (noComma cleanCnt),
      csvSkip_row (noComma cleanComplete)]
    rfl
  simp only [csvField, atCnt, atComplete, atDensity, takeWhile_row cleanCnt, takeWhile_row cleanComplete,
    takeWhile_row cleanDensity, implies_true, and_self]

/-! ### Reading a file -/

/-- A line as the reader takes it: with this density, counted as equivalent and as incomplete or not. -/
structure RowRead (line : CStr) (density : ℚ) (equivalent incomplete : Bool) : Prop where
  some : csvField line 4 64 ≠ []
  read : readFdp gmp precision (csvField line 4 64) = .some density
  cubeCnt : (csvField line 2 32).isEmpty = equivalent
  complete : csvField line 3 8 = ['0'] ↔ incomplete = true

/-- A line with what is read from it. -/
structure ReadLine where
  line : CStr
  density : ℚ
  equivalent : Bool
  incomplete : Bool

/-- The counts after some more lines. -/
def FaultCounts.after (counts : FaultCounts) (rows : List ReadLine) : FaultCounts where
  total := counts.total + rows.length
  undetectable := counts.undetectable + rows.countP fun row => decide (row.density = 0)
  equivalent := counts.equivalent + rows.countP (·.equivalent)
  incomplete := counts.incomplete + rows.countP (·.incomplete)

theorem FaultCounts.after_cons (counts : FaultCounts) (row : ReadLine) (rest : List ReadLine) :
    counts.after (row :: rest) = FaultCounts.after
      ⟨counts.total + 1, counts.undetectable + (if row.density = 0 then 1 else 0),
        counts.equivalent + (if row.equivalent then 1 else 0),
        counts.incomplete + if row.incomplete then 1 else 0⟩ rest := by
  simp only [FaultCounts.after, List.length_cons, List.countP_cons, decide_eq_true_eq, FaultCounts.mk.injEq]
  refine ⟨?_, ?_, ?_, ?_⟩ <;> omega

variable {gmp mpf precision}

/-- The loop counts every line, and adds the densities that are not zero in the order of the lines. -/
theorem accumulateRows_eq : ∀ (rows : List ReadLine) (lineNumber : Nat) (model : Option CoverageModel)
    (counts : FaultCounts),
    (∀ row ∈ rows, RowRead gmp precision row.line row.density row.equivalent row.incomplete) →
      accumulateRows gmp mpf precision ⟨4, 2, 3⟩ lineNumber (rows.map ReadLine.line) (model, counts) =
        .ok (((rows.map ReadLine.density).filter fun density => decide (density ≠ 0)).foldl
          (addFault mpf) model, counts.after rows) := by
  intro rows
  induction rows with
  | nil => intro _ model counts _; rfl
  | cons row rest ih =>
      intro lineNumber model counts reads
      obtain ⟨⟨some, read, cubeCnt, complete⟩, reads⟩ := List.forall_mem_cons.mp reads
      have nonempty : (csvField row.line 4 64).isEmpty = false := by
        simpa [List.isEmpty_iff] using some
      simp only [List.map_cons, accumulateRows, nonempty, Bool.false_eq_true, if_false, read, cubeCnt,
        complete]
      by_cases zero : row.density = 0
      · rw [if_pos zero, ih _ _ _ reads, List.filter_cons_of_neg (by simp [zero])]
        simp only [FaultCounts.after_cons, zero, if_true]
      · rw [if_neg zero, ih _ _ _ reads, List.filter_cons_of_pos (by simp [zero]), List.foldl_cons]
        simp only [FaultCounts.after_cons, zero, if_false, Nat.add_zero]

theorem foldl_addFault (densities : List ℚ) (model : CoverageModel) :
    densities.foldl (addFault mpf) (some model) = coverageModelAddFaults mpf model densities := by
  have failed : ∀ densities : List ℚ, densities.foldl (addFault mpf) none = none := by
    intro densities
    induction densities with
    | nil => rfl
    | cons D rest ih => rw [List.foldl_cons]; exact ih
  induction densities generalizing model with
  | nil => rfl
  | cons D rest ih =>
      rw [List.foldl_cons, coverageModelAddFaults, List.foldlM_cons]
      change rest.foldl (addFault mpf) (coverageModelAddFault mpf model D) = _
      cases coverageModelAddFault mpf model D with
      | none => exact failed rest
      | some model => exact ih model

/-! ### The writer's rows -/

/-- A name as `get_token` leaves it. -/
def CsvName (name : CStr) : Prop :=
  ∀ ch ∈ name, ch ≠ ',' ∧ ch ≠ ' ' ∧ ch ≠ '\n' ∧ ch ≠ Char.ofNat 0

instance (name : CStr) : Decidable (CsvName name) :=
  List.decidableBAll (fun ch => ch ≠ ',' ∧ ch ≠ ' ' ∧ ch ≠ '\n' ∧ ch ≠ Char.ofNat 0) name

/-- A density is printed as a decimal between zero and one that is zero for zero only, in characters of a
number, and short enough for the buffer. -/
structure PrintsDensity (gmp : Gmp) (precision : Nat) (D value : ℚ) : Prop where
  clean : ∀ ch ∈ gmp.snprintf D, fieldEnd ch = false
  nonempty : gmp.snprintf D ≠ []
  fits : (gmp.snprintf D).length < 64
  read : gmp.setStr precision (gmp.snprintf D) = some value
  nonneg : 0 ≤ value
  le_one : value ≤ 1
  zero : value = 0 ↔ D = 0

theorem printCount_clean (n : Nat) : ∀ ch ∈ printCount n, fieldEnd ch = false := by
  intro ch mem
  have digit := Nat.isDigit_of_mem_toDigits (by omega) (by omega) mem
  unfold fieldEnd
  by_contra ends
  simp only [Bool.not_eq_false, Bool.or_eq_true, decide_eq_true_eq] at ends
  rcases ends with (rfl | rfl) | rfl <;> exact absurd digit (by decide)

theorem faultTypeName_clean (m : FaultModel) (type : FaultType) :
    ∀ ch ∈ faultTypeName m type, fieldEnd ch = false := by
  cases m <;> cases type <;> exact @of_decide_eq_true _ (List.decidableBAll _ _) (by decide)

theorem densityStr_eq {r : WrittenResult} {value : ℚ}
    (printed : PrintsDensity gmp precision r.result.density value) :
    r.densityStr gmp = gmp.snprintf r.result.density :=
  List.take_of_length_le (by have := printed.fits; omega)

theorem readFdp_printed {D value : ℚ} (printed : PrintsDensity gmp precision D value) :
    readFdp gmp precision (gmp.snprintf D) = some value := by
  simp [readFdp, printed.read, printed.nonneg, printed.le_one]

variable {c : Netlist} {m : FaultModel}

/-- The density of a row comes back. -/
theorem density_field {r : WrittenResult} {value : ℚ}
    (printed : PrintsDensity gmp precision r.result.density value) {line : CStr}
    (field : csvField line 4 64 = (r.densityStr gmp).take (64 - 1)) :
    csvField line 4 64 ≠ [] ∧ readFdp gmp precision (csvField line 4 64) = some value := by
  have short := printed.fits
  rw [field, densityStr_eq printed, List.take_of_length_le (by omega)]
  exact ⟨printed.nonempty, readFdp_printed printed⟩

theorem targetRow_read {r : WrittenResult} {value : ℚ} (named : CsvName r.target.name)
    (printed : PrintsDensity gmp precision r.result.density value) :
    RowRead gmp precision (r.targetRow gmp m) value false (!r.result.complete) := by
  have noType : ',' ∉ faultTypeName m r.target.type := by
    intro mem
    exact absurd (faultTypeName_clean m r.target.type ',' mem) (by decide)
  obtain ⟨cnt, complete, fdp⟩ := @csvField_row r.target.name (faultTypeName m r.target.type)
    (printCount r.result.cubeCnt) (printCount (if r.result.complete then 1 else 0)) (r.densityStr gmp)
    r.target.name (faultTypeName m r.target.type) (fun mem => (named ',' mem).1 rfl) noType
    (printCount_clean _) (printCount_clean _) (by rw [densityStr_eq printed]; exact printed.clean)
  obtain ⟨some, read⟩ := density_field printed (fdp 64)
  refine ⟨some, read, ?_, ?_⟩
  · have digits : printCount r.result.cubeCnt ≠ [] := Nat.toDigits_ne_nil
    rw [WrittenResult.targetRow, cnt 32]
    simpa [List.isEmpty_iff] using digits
  · rw [WrittenResult.targetRow, complete 8]
    cases r.result.complete <;> decide

theorem memberRow_read {r : WrittenResult} {value : ℚ} {id : Nat} (named : CsvName (c.name (memberNet id)))
    (printed : PrintsDensity gmp precision r.result.density value) :
    RowRead gmp precision (r.memberRow gmp c m id) value true false := by
  have noType : ',' ∉ faultTypeName m (memberType id) := by
    intro mem
    exact absurd (faultTypeName_clean m (memberType id) ',' mem) (by decide)
  obtain ⟨cnt, complete, fdp⟩ := @csvField_row (c.name (memberNet id)) (faultTypeName m (memberType id))
    [] [] (r.densityStr gmp) r.target.name (faultTypeName m r.target.type)
    (fun mem => (named ',' mem).1 rfl) noType (by simp) (by simp)
    (by rw [densityStr_eq printed]; exact printed.clean)
  obtain ⟨some, read⟩ := density_field printed (fdp 64)
  refine ⟨some, read, ?_, ?_⟩
  · rw [WrittenResult.memberRow, cnt 32]
    rfl
  · rw [WrittenResult.memberRow, complete 8]
    simp

/-- What is read from the rows of a result. -/
def WrittenResult.readLines (gmp : Gmp) (c : Netlist) (m : FaultModel) (value : ℚ → ℚ)
    (r : WrittenResult) : List ReadLine :=
  ⟨r.targetRow gmp m, value r.result.density, false, !r.result.complete⟩ ::
    r.otherMembers.map fun id => ⟨r.memberRow gmp c m id, value r.result.density, true, false⟩

theorem line_readLines (value : ℚ → ℚ) (r : WrittenResult) :
    (r.readLines gmp c m value).map ReadLine.line = r.writeFaultResult gmp c m := by
  simp [WrittenResult.readLines, WrittenResult.writeFaultResult, Function.comp_def]

theorem density_readLines (value : ℚ → ℚ) (r : WrittenResult) :
    (r.readLines gmp c m value).map ReadLine.density =
      List.replicate (r.writeFaultResult gmp c m).length (value r.result.density) := by
  simp [WrittenResult.readLines, WrittenResult.writeFaultResult, Function.comp_def, List.replicate_succ]

/-- A written file is read as its rows. -/
theorem getlines_rows : ∀ {rows : List CStr},
    (∀ row ∈ rows, ∃ fields, row = csvRow fields ∧ ∀ field ∈ fields, '\n' ∉ field) →
      getlines rows.flatten = rows := by
  intro rows
  induction rows with
  | nil => intro _; rfl
  | cons row rest ih =>
      intro good
      obtain ⟨⟨fields, eq, whole⟩, later⟩ := List.forall_mem_cons.mp good
      rw [List.flatten_cons, eq, getlines_csvRow whole, ih later]

/-- Every row of a result is one line. -/
theorem writeFaultResult_rows {r : WrittenResult} {value : ℚ} (named : CsvName r.target.name)
    (members : ∀ id ∈ r.members, CsvName (c.name (memberNet id)))
    (printed : PrintsDensity gmp precision r.result.density value) :
    ∀ row ∈ r.writeFaultResult gmp c m, ∃ fields, row = csvRow fields ∧ ∀ field ∈ fields, '\n' ∉ field := by
  have whole : ∀ {field : CStr}, (∀ ch ∈ field, fieldEnd ch = false) → '\n' ∉ field := by
    intro field clean mem
    exact absurd (clean '\n' mem) (by decide)
  have name : ∀ {field : CStr}, CsvName field → '\n' ∉ field := fun named mem => (named '\n' mem).2.2.1 rfl
  have density : '\n' ∉ r.densityStr gmp := by
    rw [densityStr_eq printed]
    exact whole printed.clean
  intro row mem
  rcases List.mem_cons.mp mem with rfl | mem
  · refine ⟨_, rfl, fun field mem => ?_⟩
    simp only [List.mem_cons, List.not_mem_nil, or_false] at mem
    rcases mem with rfl | rfl | rfl | rfl | rfl | rfl | rfl
    exacts [name named, whole (faultTypeName_clean _ _), whole (printCount_clean _),
      whole (printCount_clean _), density, name named, whole (faultTypeName_clean _ _)]
  · obtain ⟨id, other, rfl⟩ := List.mem_map.mp mem
    refine ⟨_, rfl, fun field mem => ?_⟩
    simp only [List.mem_cons, List.not_mem_nil, or_false] at mem
    rcases mem with rfl | rfl | rfl | rfl | rfl | rfl | rfl
    exacts [name (members id (List.mem_filter.mp other).1), whole (faultTypeName_clean _ _), by simp,
      by simp, density, name named, whole (faultTypeName_clean _ _)]

/-! ### The counts of a written file -/

theorem length_writeFaultResult (r : WrittenResult) :
    (r.writeFaultResult gmp c m).length = r.otherMembers.length + 1 := by
  simp [WrittenResult.writeFaultResult]

/-- One row for each target, the others for the other members. -/
theorem length_rows (results : List WrittenResult) :
    (results.flatMap (WrittenResult.writeFaultResult gmp c m)).length =
      (results.flatMap WrittenResult.otherMembers).length + results.length := by
  induction results with
  | nil => rfl
  | cons r rest ih =>
      rw [List.flatMap_cons, List.flatMap_cons, List.length_append, List.length_append, ih,
        length_writeFaultResult, List.length_cons]
      omega

/-- The counts of the lines of a result. -/
theorem after_result (value : ℚ → ℚ) {r : WrittenResult}
    (zero : value r.result.density = 0 ↔ r.result.density = 0) (counts : FaultCounts) :
    counts.after (r.readLines gmp c m value) =
      ⟨counts.total + (r.writeFaultResult gmp c m).length,
        counts.undetectable +
          (if r.result.density = 0 then (r.writeFaultResult gmp c m).length else 0),
        counts.equivalent + r.otherMembers.length,
        counts.incomplete + if r.result.complete then 0 else 1⟩ := by
  rw [length_writeFaultResult]
  simp only [FaultCounts.after, WrittenResult.readLines, List.length_cons, List.length_map,
    List.countP_cons, List.countP_map, Function.comp_def, zero, FaultCounts.mk.injEq, true_and]
  refine ⟨?_, ?_, ?_⟩
  · by_cases here : r.result.density = 0 <;> simp [here]
  · simp
  · cases r.result.complete <;> simp

theorem FaultCounts.after_append (counts : FaultCounts) (rows rows' : List ReadLine) :
    counts.after (rows ++ rows') = (counts.after rows).after rows' := by
  simp only [FaultCounts.after, List.length_append, List.countP_append, Nat.add_assoc]

/-- The counts of the lines of some results. -/
theorem after_results (value : ℚ → ℚ) : ∀ {results : List WrittenResult} (counts : FaultCounts),
    (∀ r ∈ results, value r.result.density = 0 ↔ r.result.density = 0) →
      counts.after (results.flatMap (WrittenResult.readLines gmp c m value)) =
        ⟨counts.total + (results.flatMap (WrittenResult.writeFaultResult gmp c m)).length,
          counts.undetectable + ((results.filter fun r => decide (r.result.density = 0)).flatMap
            (WrittenResult.writeFaultResult gmp c m)).length,
          counts.equivalent + (results.flatMap WrittenResult.otherMembers).length,
          counts.incomplete + results.countP fun r => !r.result.complete⟩ := by
  intro results
  induction results with
  | nil => intro _ _; rfl
  | cons r rest ih =>
      intro counts zero
      obtain ⟨first, zero⟩ := List.forall_mem_cons.mp zero
      rw [List.flatMap_cons, FaultCounts.after_append, after_result value first, ih _ zero]
      simp only [List.flatMap_cons, List.length_append, List.filter_cons, List.countP_cons,
        FaultCounts.mk.injEq, decide_eq_true_eq]
      refine ⟨by omega, ?_, by omega, ?_⟩
      · by_cases here : r.result.density = 0
        · simp only [here, if_true, List.flatMap_cons, List.length_append]
          omega
        · simp only [here, if_false]
          omega
      · cases r.result.complete
        · simp only [Bool.not_false, Bool.false_eq_true, if_true, if_false]
          omega
        · simp only [Bool.not_true, Bool.false_eq_true, if_true, if_false]
          omega

/-- The densities that are added are those of the rows whose class can be detected. -/
theorem densities_results (value : ℚ → ℚ) : ∀ {results : List WrittenResult},
    (∀ r ∈ results, value r.result.density = 0 ↔ r.result.density = 0) →
      (((results.flatMap (WrittenResult.readLines gmp c m value)).map ReadLine.density).filter
          fun density => decide (density ≠ 0)) =
        (results.filter fun r => decide (r.result.density ≠ 0)).flatMap fun r =>
          (r.writeFaultResult gmp c m).map fun _ => value r.result.density := by
  intro results
  induction results with
  | nil => intro _; rfl
  | cons r rest ih =>
      intro zero
      obtain ⟨first, zero⟩ := List.forall_mem_cons.mp zero
      rw [List.flatMap_cons, List.map_append, List.filter_append, density_readLines, ih zero]
      by_cases here : r.result.density = 0
      · have noDensity : value r.result.density = 0 := first.mpr here
        rw [List.filter_cons_of_neg (by simp [here]), List.filter_replicate_of_neg (by simp [noDensity])]
        rfl
      · have density : value r.result.density ≠ 0 := fun h => here (first.mp h)
        rw [List.filter_cons_of_pos (by simp [here]), List.filter_replicate_of_pos (by simp [density]),
          List.flatMap_cons, List.map_const']

/-- The reader agrees with the writer: a file with at least one result is accepted, every row is counted,
and the printed density of each row whose class can be detected is added once. -/
theorem accumulateFaults_fdpCsv (value : ℚ → ℚ) {results : List WrittenResult} (some : results ≠ [])
    (names : ∀ r ∈ results, CsvName r.target.name ∧ ∀ id ∈ r.members, CsvName (c.name (memberNet id)))
    (printed : ∀ r ∈ results, PrintsDensity gmp precision r.result.density (value r.result.density))
    (model : CoverageModel) :
    let rows := results.flatMap (WrittenResult.writeFaultResult gmp c m)
    accumulateFaults gmp mpf precision (fdpCsv gmp c m results) model =
      .ok (coverageModelAddFaults mpf model
          ((results.filter fun r => decide (r.result.density ≠ 0)).flatMap fun r =>
            (r.writeFaultResult gmp c m).map fun _ => value r.result.density),
        { total := rows.length
          undetectable := ((results.filter fun r => decide (r.result.density = 0)).flatMap
            (WrittenResult.writeFaultResult gmp c m)).length
          equivalent := rows.length - results.length
          incomplete := results.countP fun r => !r.result.complete }) := by
  intro rows
  have zero : ∀ r ∈ results, value r.result.density = 0 ↔ r.result.density = 0 :=
    fun r mem => (printed r mem).zero
  have lines : getlines (fdpCsv gmp c m results) = fdpHeader :: rows := by
    have good : ∀ row ∈ rows, ∃ fields, row = csvRow fields ∧ ∀ field ∈ fields, '\n' ∉ field := by
      intro row mem
      obtain ⟨r, ofResult, mem⟩ := List.mem_flatMap.mp mem
      exact writeFaultResult_rows (names r ofResult).1 (names r ofResult).2 (printed r ofResult) row mem
    rw [fdpCsv, fdpHeader, getlines_csvRow (by decide), getlines_rows good]
  have written : (results.flatMap (WrittenResult.readLines gmp c m value)).map ReadLine.line = rows := by
    rw [List.map_flatMap]
    simp only [line_readLines, rows]
  have reads : ∀ row ∈ results.flatMap (WrittenResult.readLines gmp c m value),
      RowRead gmp precision row.line row.density row.equivalent row.incomplete := by
    intro row mem
    obtain ⟨r, ofResult, mem⟩ := List.mem_flatMap.mp mem
    rcases List.mem_cons.mp mem with rfl | mem
    · exact targetRow_read (names r ofResult).1 (printed r ofResult)
    · obtain ⟨id, other, rfl⟩ := List.mem_map.mp mem
      exact memberRow_read ((names r ofResult).2 id (List.mem_filter.mp other).1) (printed r ofResult)
  have loop := @accumulateRows_eq gmp mpf precision _ 1 (.some model) ⟨0, 0, 0, 0⟩ reads
  rw [written, after_results value _ zero, densities_results value zero, foldl_addFault] at loop
  have count : rows.length = (results.flatMap WrittenResult.otherMembers).length + results.length :=
    length_rows results
  have pos : 0 < results.length := List.length_pos_iff.mpr some
  simp only [accumulateFaults, lines, readCsvColumns_fdpHeader, loop, Except.bind, Nat.zero_add]
  rw [if_neg (by change rows.length ≠ 0; omega)]
  simp only [Except.ok.injEq, Prod.mk.injEq, FaultCounts.mk.injEq, true_and, and_true]
  refine ⟨rfl, ?_⟩
  omega

/-- GMP on two densities. -/
def threeEighths : Gmp where
  snprintf D := if D = 3 / 8 then "3.7500000000e-01".toList else "0.0000000000e+00".toList
  setStr _ text :=
    if text = "3.7500000000e-01".toList then some (3 / 8)
    else if text = "0.0000000000e+00".toList then some 0
    else none

/-- A file without results is refused. -/
theorem accumulateFaults_noResults : ¬ ∃ s, accumulateFaults threeEighths id (coveragePrecision 2)
    (fdpCsv threeEighths andNetlist .SAF []) (coverageModelInit [1] false 2) = .ok s := by
  rintro ⟨s, run⟩
  have lines : getlines (fdpCsv threeEighths andNetlist .SAF []) = [fdpHeader] := by
    decide +kernel
  simp only [accumulateFaults, lines, readCsvColumns_fdpHeader] at run
  cases run

/-- A class of three faults that can be detected, and a fault whose analysis found nothing. -/
def twoResults : List WrittenResult :=
  [⟨⟨"z\tsa0\n".toList, "z".toList, .SF0, 0, none⟩, ⟨[], 3, true, 3 / 8⟩, [0, 2, 4]⟩,
    ⟨⟨"a\tsa1\n".toList, "a".toList, .SF1, 1, none⟩, ⟨[], 0, false, 0⟩, [3]⟩]

theorem accumulateFaults_fdpCsv_and : accumulateFaults threeEighths id (coveragePrecision 2)
    (fdpCsv threeEighths andNetlist .SAF twoResults) (coverageModelInit [1] false 2) =
      .ok (coverageModelAddFaults id (coverageModelInit [1] false 2) [3 / 8, 3 / 8, 3 / 8],
        ⟨4, 1, 2, 1⟩) := by
  have printed : ∀ r ∈ twoResults,
      PrintsDensity threeEighths (coveragePrecision 2) r.result.density (id r.result.density) := by
    intro r mem
    simp only [twoResults, List.mem_cons, List.not_mem_nil, or_false] at mem
    rcases mem with rfl | rfl
    · exact ⟨@of_decide_eq_true _ (List.decidableBAll _ _) (by decide +kernel), by decide +kernel,
        by decide +kernel, by decide +kernel, by decide +kernel, by decide +kernel, by decide +kernel⟩
    · exact ⟨@of_decide_eq_true _ (List.decidableBAll _ _) (by decide +kernel), by decide +kernel,
        by decide +kernel, by decide +kernel, by decide +kernel, by decide +kernel, by decide +kernel⟩
  have names : ∀ r ∈ twoResults, CsvName r.target.name ∧
      ∀ id ∈ r.members, CsvName (andNetlist.name (memberNet id)) := by
    decide +kernel
  apply (accumulateFaults_fdpCsv id (by decide) names printed _).trans
  refine congrArg Except.ok (Prod.ext ?_ (by decide +kernel))
  apply congrArg (coverageModelAddFaults id _)
  decide +kernel

end SafRprGen
