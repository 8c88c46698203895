/-
Module: SafRprGen.Output.Log
Layer: Output
Purpose: The log (`OutLogfile`) and what its counts mean. The equivalence counts are those of the classes of
  the requested faults, whatever nodes the pruning left and whatever roots the merges chose; the log agrees
  with the rows of the density report, and its entries can be told apart.
Main exports: writeReport, outLogfile, LogEntry, wantedFaults, LogCounts, log_counts
-/
import SafRprGen.Cli.Options
import SafRprGen.Output.Densities

namespace SafRprGen

open CText Netlist

/-! ### The text -/

/-- The times of the log, as `%.3f` prints them. -/
structure LogTimes where
  wall : CStr
  cpu : CStr
  cadical : CStr
  bdd : CStr
  xid : CStr
  read : CStr
deriving DecidableEq, Repr

/-- `ExtractCircuitName`. -/
def extractCircuitName (path : CStr) : CStr :=
  let filename := match splitLast '/' path with
    | none => path
    | some (_, filename) => filename
  match splitLast '.' filename with
  | none => filename
  | some (stem, _) => if stem = [] then filename else stem

/-- `%d` of an `int`. -/
def printInt (z : Int) : CStr := if z < 0 then '-' :: printCount z.natAbs else printCount z.natAbs

/-- The labels and values of `WriteReport`; a null pointer is printed as `(null)`. -/
def logFields (netName : CStr) (o : Cli.OPTION) (s : FaultState) (workers : Nat) (times : LogTimes) :
    List (CStr × CStr) :=
  let seconds (time : CStr) : CStr := time ++ " sec".toList
  [("Target Circuit".toList, netName),
    ("Name of Target Fault File".toList, o.fault.getD "(null)".toList),
    ("Fault Model".toList, if o.faultModel = .TDF then "TDF (LOC; capture PPO only)".toList
      else "SAF".toList),
    ("Normal CNF Scope".toList, "on (affected-output TFI)".toList),
    ("Essential Assignment".toList, "on".toList),
    ("Number of Target Faults".toList, printCount s.numinit),
    ("Number of Equivalent Faults".toList, printInt s.numequiv),
    ("External Equivalence File".toList, o.equiv.getD "(none)".toList),
    ("External Equivalence Pairs".toList, printCount s.stats.inputPairs),
    ("Targets Before External Equivalence".toList, printCount s.stats.targetsBeforeExternal),
    ("Targets After External Equivalence".toList, printCount s.stats.targetsAfterExternal),
    ("Number of Output Faults".toList, printCount s.stats.outputFaults),
    ("Don't-care Method".toList, "XID".toList),
    ("Fault Workers".toList, printCount workers),
    ("CPU Accounting".toList, "parent + all worker processes".toList),
    ("Time".toList, seconds times.wall),
    ("CPU Time".toList, seconds times.cpu),
    ("CPU Time (CaDiCaL)".toList, seconds times.cadical),
    ("CPU Time (BDD)".toList, seconds times.bdd),
    ("CPU Time (Don't care)".toList, seconds times.xid),
    ("CPU Time (Read Fault)".toList, seconds times.read)]

/-- A label, in a column of 42, and its value. -/
def logLine (label value : CStr) : CStr :=
  ['/', '/', ' ', ' '] ++ label ++ List.replicate (42 - label.length) ' ' ++ [':', ' '] ++ value

def logRule : CStr := '/' :: '/' :: List.replicate 80 '-'

def logTitle : CStr := "//                AnalyzeFaultDetectionProbability Information".toList

/-- `WriteReport`. -/
def writeReport (fields : List (CStr × CStr)) : CStr :=
  ([logRule, logTitle, logRule] ++ fields.map (fun field => logLine field.1 field.2) ++ [logRule]).flatMap
    fun line => line ++ ['\n']

/-- How `OutLogfile` ends: where the file cannot be opened, or with its result, the file and what it
printed. -/
inductive LogRun where
  | exited (stdout : CStr)
  | returned (okay : Bool) (file stdout : CStr)
deriving DecidableEq, Repr

/-- `OutLogfile`, for a file that can or cannot be opened and written and for a standard output without or
with an error. -/
def outLogfile (log : CStr) (fields : List (CStr × CStr)) (opens writes prints : Bool) : LogRun :=
  if !opens then .exited ("\n  FILE ERROR: file open error. \"".toList ++ log ++ "\" cannot open.\n".toList)
  else if !writes then .returned false (writeReport fields) []
  else .returned prints (writeReport fields) ('\n' :: '\n' :: writeReport fields)

/-- A log gives a value for a label. -/
def LogEntry (log label value : CStr) : Prop := logLine label value ++ ['\n'] ∈ getlines log

/-! ### Reading an entry -/

theorem getlines_flatMap {lines : List CStr} (whole : ∀ line ∈ lines, '\n' ∉ line) :
    getlines (lines.flatMap fun line => line ++ ['\n']) = lines.map fun line => line ++ ['\n'] := by
  induction lines with
  | nil => rfl
  | cons line lines ih =>
      rw [List.flatMap_cons, List.append_assoc, List.singleton_append,
        getlines_line (whole line List.mem_cons_self),
        ih fun line mem => whole line (List.mem_cons_of_mem _ mem), List.map_cons]

/-- A label that fits its column and does not end in a blank. -/
structure LogLabel (label : CStr) : Prop where
  fits : label.length ≤ 42
  ends : label.getLast? ≠ some ' '
  line : '\n' ∉ label

/-- A padded label gives the label back. -/
theorem LogLabel.unpad {label label' : CStr} (isLabel : LogLabel label) (isLabel' : LogLabel label')
    {m n : Nat}
    (same : label ++ List.replicate m ' ' = label' ++ List.replicate n ' ') : label = label' := by
  have blank : ∀ {label label' : CStr} {m n : Nat} {more : CStr}, LogLabel label' → label' = label ++ more →
      List.replicate m ' ' = more ++ List.replicate n ' ' → label = label' := by
    rintro label _ m n more isLabel' rfl pad
    cases last : more.getLast? with
    | none => rw [List.getLast?_eq_none_iff.mp last, List.append_nil]
    | some ch =>
        have isBlank : ch = ' ' := by
          have mem : ch ∈ List.replicate m ' ' := by
            rw [pad]
            exact List.mem_append_left _ (List.mem_of_getLast? last)
          exact List.eq_of_mem_replicate mem
        refine absurd ?_ isLabel'.ends
        rw [List.getLast?_append, last, isBlank]
        rfl
  rcases List.append_eq_append_iff.mp same with ⟨more, isMore, pad⟩ | ⟨more, isMore, pad⟩
  · exact blank isLabel' isMore pad
  · exact (blank isLabel isMore pad).symm

/-- The text before the colon. -/
private theorem length_column {label : CStr} (isLabel : LogLabel label) :
    (['/', '/', ' ', ' '] ++ (label ++ List.replicate (42 - label.length) ' ')).length = 46 := by
  have fits := isLabel.fits
  rw [List.length_append, List.length_append, List.length_replicate]
  change 4 + _ = _
  omega

private theorem logLine_eq (label value : CStr) : logLine label value =
    (['/', '/', ' ', ' '] ++ (label ++ List.replicate (42 - label.length) ' ')) ++ ':' :: ' ' :: value := by
  unfold logLine
  simp only [List.append_assoc]
  rfl

theorem take_logLine {label : CStr} (isLabel : LogLabel label) (value : CStr) :
    (logLine label value).take 46 = ['/', '/', ' ', ' '] ++
      (label ++ List.replicate (42 - label.length) ' ') := by
  rw [logLine_eq]
  exact List.take_left' (length_column isLabel)

theorem drop_logLine {label : CStr} (isLabel : LogLabel label) (value : CStr) :
    (logLine label value).drop 46 = ':' :: ' ' :: value := by
  rw [logLine_eq]
  exact List.drop_left' (length_column isLabel)

theorem line_logLine {label value : CStr} (isLabel : LogLabel label) (plain : '\n' ∉ value) :
    '\n' ∉ logLine label value := by
  have fixed : '\n' ∉ ['/', '/', ' ', ' '] ∧ '\n' ∉ [':', ' '] := by decide
  have blank : '\n' ∉ List.replicate (42 - label.length) ' ' := fun mem =>
    absurd (List.eq_of_mem_replicate mem) (by decide)
  simp only [logLine, List.mem_append, not_or]
  exact ⟨⟨⟨⟨fixed.1, isLabel.line⟩, blank⟩, fixed.2⟩, plain⟩

/-- A line is one of a label and one value. -/
theorem LogLabel.logLine_inj {label label' value value' : CStr} (isLabel : LogLabel label)
    (isLabel' : LogLabel label') (same : logLine label value = logLine label' value') :
    label = label' ∧ value = value' := by
  have before := congrArg (List.take 46) same
  have after := congrArg (List.drop 46) same
  rw [take_logLine isLabel, take_logLine isLabel'] at before
  rw [drop_logLine isLabel, drop_logLine isLabel'] at after
  rw [List.cons.injEq, List.cons.injEq] at after
  exact ⟨isLabel.unpad isLabel' (List.append_cancel_left before), after.2.2⟩

/-- The frame of the log has no entries. -/
theorem LogLabel.ne_frame {label : CStr} (isLabel : LogLabel label) (value : CStr) :
    logLine label value ≠ logRule ∧ logLine label value ≠ logTitle := by
  have colon : ((logLine label value).drop 46).head? = some ':' := by rw [drop_logLine isLabel]; rfl
  have rule : (logRule.drop 46).head? ≠ some ':' := by decide
  have title : (logTitle.drop 46).head? ≠ some ':' := by decide
  constructor
  · intro same
    exact rule (same ▸ colon)
  · intro same
    exact title (same ▸ colon)

/-- The entries of a log are its fields. -/
theorem logEntry_iff {fields : List (CStr × CStr)} (labels : ∀ field ∈ fields, LogLabel field.1)
    (values : ∀ field ∈ fields, '\n' ∉ field.2) {label : CStr} (isLabel : LogLabel label) (value : CStr) :
    LogEntry (writeReport fields) label value ↔ (label, value) ∈ fields := by
  have frame : '\n' ∉ logRule ∧ '\n' ∉ logTitle := by decide
  have whole : ∀ line ∈ [logRule, logTitle, logRule] ++
      fields.map (fun field => logLine field.1 field.2) ++ [logRule], '\n' ∉ line := by
    intro line mem
    simp only [List.cons_append, List.nil_append, List.mem_cons, List.mem_append, List.mem_map,
      List.not_mem_nil, or_false] at mem
    rcases mem with rfl | rfl | rfl | ⟨field, isField, rfl⟩ | rfl
    · exact frame.1
    · exact frame.2
    · exact frame.1
    · exact line_logLine (labels field isField) (values field isField)
    · exact frame.1
  have apart := isLabel.ne_frame value
  unfold LogEntry writeReport
  rw [getlines_flatMap whole, List.mem_map]
  constructor
  · rintro ⟨line, mem, same⟩
    rw [List.append_cancel_right_eq] at same
    subst same
    simp only [List.cons_append, List.nil_append, List.mem_cons, List.mem_append, List.mem_map,
      List.not_mem_nil, or_false, apart.1, apart.2, false_or] at mem
    obtain ⟨field, isField, same⟩ := mem
    obtain ⟨rfl, rfl⟩ := (labels field isField).logLine_inj isLabel same
    exact isField
  · intro isField
    refine ⟨_, ?_, rfl⟩
    exact List.mem_append_left _ (List.mem_append_right _ (List.mem_map.mpr ⟨_, isField, rfl⟩))

/-- The labels of `WriteReport`. -/
def logLabels : List CStr :=
  (logFields [] Cli.optInit emptyFaultState 0 ⟨[], [], [], [], [], []⟩).map (·.1)

theorem logLabels_label : ∀ label ∈ logLabels, LogLabel label := by
  have each : ∀ label ∈ logLabels, label.length ≤ 42 ∧ label.getLast? ≠ some ' ' ∧ '\n' ∉ label := by decide
  exact fun label mem => ⟨(each label mem).1, (each label mem).2.1, (each label mem).2.2⟩

theorem logLabels_nodup : logLabels.Nodup := by decide

section Entries

variable {netName : CStr} {o : Cli.OPTION} {s : FaultState} {workers : Nat} {times : LogTimes}

theorem map_logFields : (logFields netName o s workers times).map (·.1) = logLabels := rfl

/-- A label of the log has one value. -/
theorem logEntry_field (values : ∀ field ∈ logFields netName o s workers times, '\n' ∉ field.2)
    {label value : CStr}
    (isField : (label, value) ∈ logFields netName o s workers times) (value' : CStr) :
    LogEntry (writeReport (logFields netName o s workers times)) label value' ↔ value' = value := by
  have labels : ∀ field ∈ logFields netName o s workers times, LogLabel field.1 := fun field mem =>
    logLabels_label _ (map_logFields ▸ List.mem_map_of_mem mem)
  rw [logEntry_iff labels values (labels _ isField)]
  constructor
  · intro other
    have nodup := logLabels_nodup
    rw [← @map_logFields netName o s workers times] at nodup
    exact congrArg Prod.snd (List.inj_on_of_nodup_map nodup other isField rfl)
  · rintro rfl
    exact isField

end Entries

/-! ### The counts -/

namespace Netlist

variable {c : Netlist}

open scoped Classical in
/-- The entries of the requested faults. -/
noncomputable def wantedFaults (c : Netlist) (opt : Opt) : Finset Nat :=
  (Finset.range c.faultCount).filter fun id => Wanted c opt (memberNet id) (memberType id)

theorem mem_wantedFaults {opt : Opt} {id : Nat} :
    id ∈ wantedFaults c opt ↔ id < c.faultCount ∧ Wanted c opt (memberNet id) (memberType id) := by
  simp only [wantedFaults, Finset.mem_filter, Finset.mem_range]

/-- The number of classes of requested faults, under the structural pairs and those of an external file. -/
noncomputable def wantedClasses (c : Netlist) (opt : Opt) (pairs : List (Nat × Nat)) : Nat :=
  UnionFind.classCount ((c.initialFaults opt).map pairIds ++ pairs) (wantedFaults c opt)

/-- What the log counts, in terms of the requested faults. -/
structure LogCounts (c : Netlist) (opt : Opt) (pairs : List (Nat × Nat)) (t : FaultState) : Prop where
  inputPairs : t.stats.inputPairs = pairs.length
  before : t.stats.targetsBeforeExternal = wantedClasses c opt []
  after : t.stats.targetsAfterExternal = wantedClasses c opt pairs
  outputFaults : t.stats.outputFaults = (wantedFaults c opt).card
  numinit : t.numinit = wantedClasses c opt pairs
  numequiv : t.numequiv = ((wantedFaults c opt).card - wantedClasses c opt pairs : Nat)
  targets : (c.initTargetOrder t).length = wantedClasses c opt pairs

theorem wantedClasses_le (c : Netlist) (opt : Opt) (pairs : List (Nat × Nat)) :
    wantedClasses c opt pairs ≤ (wantedFaults c opt).card := by
  unfold wantedClasses UnionFind.classCount
  exact Finset.card_image_le

/-- An external pair joins two classes at most. -/
theorem wantedClasses_append (c : Netlist) (opt : Opt) (pairs : List (Nat × Nat)) :
    wantedClasses c opt pairs ≤ wantedClasses c opt [] ∧
      wantedClasses c opt [] ≤ wantedClasses c opt pairs + pairs.length := by
  unfold wantedClasses
  rw [List.append_nil]
  exact ⟨UnionFind.classCount_append_le _ _ _, UnionFind.classCount_le_append _ _ _⟩

section Loaded

variable {opt : Opt} {s t : FaultState}

theorem Covered.mem_wantedFaults (covered : Covered c opt s) {id : Nat} :
    id ∈ wantedFaults c opt ↔ id < c.faultCount ∧ c.requested opt s id = true := by
  rw [Netlist.mem_wantedFaults]
  exact and_congr_right fun low => (covered.requested id low).symm

/-- The pruned table has a node in each class of requested faults, and nodes of such faults only. -/
theorem Covered.classCount (covered : Covered c opt s) (pairs : List (Nat × Nat)) :
    UnionFind.classCount ((c.initialFaults opt).map pairIds ++ pairs) (nodeIds s) =
      wantedClasses c opt pairs := by
  apply UnionFind.classCount_of_cover
  · intro id mem
    obtain ⟨fault, isNode, rfl⟩ := List.mem_map.mp (List.mem_toFinset.mp mem)
    exact covered.mem_wantedFaults.mpr ⟨covered.stored.nodesLt fault isNode, covered.nodes fault isNode⟩
  · intro id mem
    obtain ⟨low, requested⟩ := covered.mem_wantedFaults.mp mem
    obtain ⟨fault, isNode, joined⟩ := covered.cover id low requested
    refine ⟨nodeId fault, List.mem_toFinset.mpr (List.mem_map_of_mem isNode), ?_⟩
    exact joined.mono fun p mem => List.mem_append_left _ mem

theorem Covered.card_wantedFaults (covered : Covered c opt s) :
    ((List.range c.faultCount).filter (c.requested opt s)).length = (wantedFaults c opt).card := by
  rw [← List.toFinset_card_of_nodup (List.nodup_range.filter _)]
  congr 1
  ext id
  rw [covered.mem_wantedFaults, List.mem_toFinset, List.mem_filter, List.mem_range]

/-- The counts of the state that `ReadFault` leaves. -/
theorem Covered.logCounts {root : Nat → Nat} {pairs : List (Nat × Nat)} (covered : Covered c opt s)
    (done : Finalized c opt s root t) (counted : Counted ((c.initialFaults opt).map pairIds) pairs s t)
    (fresh : s.stats = ⟨0, 0, 0, 0⟩)
    (classes : ∀ a < c.faultCount, ∀ b < c.faultCount, root a = root b ↔ SameClass c opt pairs a b) :
    LogCounts c opt pairs t := by
  have numinit : t.numinit = wantedClasses c opt pairs := by
    rw [done.numinit, card_targetClasses covered.stored.nodesLt classes, covered.classCount]
  have outputFaults : t.stats.outputFaults = (wantedFaults c opt).card := by
    rw [done.outputFaults, covered.card_wantedFaults]
  refine ⟨?_, ?_, ?_, outputFaults, numinit, ?_, ?_⟩
  · rw [counted.inputPairs, fresh, Nat.zero_add]
  · rw [counted.before, ← covered.classCount, List.append_nil]
  · rw [counted.after, covered.classCount]
  · rw [done.numequiv, numinit, outputFaults, Nat.cast_sub (wantedClasses_le c opt pairs)]
  · rw [(perm_initTargetOrder c t).length_eq, ← done.numinit_eq covered.stored, numinit]

end Loaded

end Netlist

/-- A density report has a row for each requested fault. -/
theorem DensityReport.length_rows {c : Netlist} {opt : Opt} {t : FaultState}
    {results : List (FNODE × FaultResult)}
    {written : List WrittenResult} (report : DensityReport c opt t results written) :
    (written.flatMap reportedFaults).length = (wantedFaults c opt).card := by
  rw [← List.toFinset_card_of_nodup report.once]
  apply Finset.card_bij (fun fault _ => faultId fault.1 fault.2)
  · intro fault mem
    have wanted := (report.exact fault.1 fault.2).mp (List.mem_toFinset.mp mem)
    refine mem_wantedFaults.mpr ⟨faultId_lt wanted.low _, ?_⟩
    rwa [memberNet_faultId, memberType_faultId]
  · intro fault _ fault' _ same
    have net := congrArg memberNet same
    have type := congrArg memberType same
    rw [memberNet_faultId, memberNet_faultId] at net
    rw [memberType_faultId, memberType_faultId] at type
    exact Prod.ext net type
  · intro id mem
    have wanted := (mem_wantedFaults.mp mem).2
    exact ⟨(memberNet id, memberType id), List.mem_toFinset.mpr ((report.exact _ _).mpr wanted),
      faultId_member id⟩

/-! ### What the log says -/

/-- The texts of a log that its caller chooses are no more than one line each. -/
structure PlainLog (netName : CStr) (o : Cli.OPTION) (times : LogTimes) : Prop where
  netName : '\n' ∉ netName
  fault : ∀ path ∈ o.fault, '\n' ∉ path
  equiv : ∀ path ∈ o.equiv, '\n' ∉ path
  times : ∀ time ∈ [times.wall, times.cpu, times.cadical, times.bdd, times.xid, times.read], '\n' ∉ time

theorem printCount_line (n : Nat) : '\n' ∉ printCount n := fun mem =>
  absurd (Nat.isDigit_of_mem_toDigits (by omega) (by omega) mem) (by decide)

theorem printInt_line (z : Int) : '\n' ∉ printInt z := by
  have digits := printCount_line z.natAbs
  unfold printInt
  split
  · exact List.not_mem_cons_of_ne_of_not_mem (by decide) digits
  · exact digits

theorem getD_line {path : Option CStr} {default : CStr} (plain : ∀ text ∈ path, '\n' ∉ text)
    (isDefault : '\n' ∉ default) : '\n' ∉ path.getD default := by
  cases path with
  | none => exact isDefault
  | some text => exact plain text rfl

theorem PlainLog.values {netName : CStr} {o : Cli.OPTION} {times : LogTimes}
    (plain : PlainLog netName o times)
    (s : FaultState) (workers : Nat) : ∀ field ∈ logFields netName o s workers times, '\n' ∉ field.2 := by
  have seconds : ∀ time ∈ [times.wall, times.cpu, times.cadical, times.bdd, times.xid, times.read],
      '\n' ∉ time ++ " sec".toList := fun time mem =>
    List.not_mem_append (plain.times time mem) (by decide)
  have model : '\n' ∉ (if o.faultModel = .TDF then "TDF (LOC; capture PPO only)".toList
      else "SAF".toList) := by
    split <;> decide
  simp only [List.forall_mem_cons] at seconds
  obtain ⟨wall, cpu, cadical, bdd, xid, read, -⟩ := seconds
  unfold logFields
  simp only [List.forall_mem_cons]
  exact ⟨plain.netName, getD_line plain.fault (by decide), model, by decide, by decide, printCount_line _,
    printInt_line _, getD_line plain.equiv (by decide), printCount_line _, printCount_line _,
    printCount_line _,
    printCount_line _, by decide, printCount_line _, by decide, wall, cpu, cadical, bdd, xid, read,
    List.forall_mem_nil _⟩

/-- The counts that a log gives. -/
structure LogGives (log : CStr) (targets equivalent pairs before after output : Nat) : Prop where
  targets : ∀ value, LogEntry log "Number of Target Faults".toList value ↔ value = printCount targets
  equivalent : ∀ value, LogEntry log "Number of Equivalent Faults".toList value ↔
    value = printCount equivalent
  pairs : ∀ value, LogEntry log "External Equivalence Pairs".toList value ↔ value = printCount pairs
  before : ∀ value, LogEntry log "Targets Before External Equivalence".toList value ↔
    value = printCount before
  after : ∀ value, LogEntry log "Targets After External Equivalence".toList value ↔ value = printCount after
  output : ∀ value, LogEntry log "Number of Output Faults".toList value ↔ value = printCount output

theorem Netlist.LogCounts.entries {c : Netlist} {opt : Opt} {pairs : List (Nat × Nat)} {t : FaultState}
    (counts : LogCounts c opt pairs t) {netName : CStr} {o : Cli.OPTION} {times : LogTimes}
    (plain : PlainLog netName o times) (workers : Nat) :
    LogGives (writeReport (logFields netName o t workers times)) (wantedClasses c opt pairs)
      ((wantedFaults c opt).card - wantedClasses c opt pairs) pairs.length (wantedClasses c opt [])
      (wantedClasses c opt pairs) (wantedFaults c opt).card := by
  have fields : ∀ label value, (label, value) ∈ logFields netName o t workers times → ∀ value',
      LogEntry (writeReport (logFields netName o t workers times)) label value' ↔ value' = value :=
    fun label value => logEntry_field (plain.values t workers)
  have equivalent :
      printInt t.numequiv = printCount ((wantedFaults c opt).card - wantedClasses c opt pairs) := by
    rw [counts.numequiv, printInt, if_neg (by omega), Int.natAbs_natCast]
  refine ⟨?_, ?_, ?_, ?_, ?_, ?_⟩
  · rw [← counts.numinit]
    exact fields _ _ (List.mem_of_getElem? (i := 5) rfl)
  · rw [← equivalent]
    exact fields _ _ (List.mem_of_getElem? (i := 6) rfl)
  · rw [← counts.inputPairs]
    exact fields _ _ (List.mem_of_getElem? (i := 8) rfl)
  · rw [← counts.before]
    exact fields _ _ (List.mem_of_getElem? (i := 9) rfl)
  · rw [← counts.after]
    exact fields _ _ (List.mem_of_getElem? (i := 10) rfl)
  · rw [← counts.outputFaults]
    exact fields _ _ (List.mem_of_getElem? (i := 11) rfl)

/-- The log of a run on nets with names that a fault file can tell apart and on readable lists. `ReadFault`
succeeds, and the counts are those of the requested faults: how many classes the structural pairs leave, how
many of them all pairs leave, and how many faults are not targets. Every external pair joins two classes at
most. A density report has a call for each target and a row for each output fault, and a reader of the log
finds just these numbers under their labels. -/
theorem log_counts (k : Circuit) (opt : Opt) (model : opt.faultModel = k.model)
    (names : TellingNames k.netlist)
    (nets : 0 < k.netlist.nNet) (small : k.netlist.nNet ≤ intMax / 2) (valid : ReadableFaults k.netlist opt)
    (pairs : List (Nat × Nat)) (external : ExternalPairs k.netlist opt pairs) (s : FaultState)
    (empty : s.list = fun _ => []) :
    ∃ t, k.netlist.readFault opt s = some (true, t) ∧ LogCounts k.netlist opt pairs t ∧
      (wantedClasses k.netlist opt pairs ≤ wantedClasses k.netlist opt [] ∧
        wantedClasses k.netlist opt [] ≤ wantedClasses k.netlist opt pairs + pairs.length ∧
        wantedClasses k.netlist opt [] ≤ (wantedFaults k.netlist opt).card) ∧
      (∀ results written, results.map (·.1) = k.netlist.initTargetOrder t →
        DensityReport k.netlist opt t results written →
          written.length = t.numinit ∧ (written.flatMap reportedFaults).length = t.stats.outputFaults) ∧
      ∀ netName o times workers, PlainLog netName o times →
        LogGives (writeReport (logFields netName o t workers times)) (wantedClasses k.netlist opt pairs)
          ((wantedFaults k.netlist opt).card - wantedClasses k.netlist opt pairs) pairs.length
          (wantedClasses k.netlist opt []) (wantedClasses k.netlist opt pairs)
            (wantedFaults k.netlist opt).card := by
  have wf : k.netlist.WellFormed opt.faultModel := model ▸ k.wellFormed
  obtain ⟨loaded, root, t, run, covered, done, classes, counted, fresh⟩ :=
    wf.pairGraph.readFault_run wf.acyclicDeps names nets small valid external empty
  have counts := covered.logCounts done counted fresh classes
  obtain ⟨fewer, lost⟩ := wantedClasses_append k.netlist opt pairs
  refine ⟨t, run, counts, ⟨fewer, lost, wantedClasses_le k.netlist opt []⟩,
    fun results written targets report => ?_,
    fun netName o times workers plain => counts.entries plain workers⟩
  have calls : results.length = written.length := report.calls.length_eq
  constructor
  · rw [← calls, ← List.length_map, targets, counts.targets, counts.numinit]
  · rw [report.length_rows, counts.outputFaults]

theorem tellingNames_andNetlist : TellingNames andNetlist :=
  @TellingNames.of_letters andNetlist ['z', 'a', 'b'] (by decide) (by decide)
    (@of_decide_eq_true _ (List.decidableBAll _ _) (by decide))

theorem log_counts_and : ∃ t, andNetlist.readFault ⟨.SAF, none, some "a/1,b/1\n".toList⟩ emptyFaultState =
      some (true, t) ∧ LogCounts andNetlist ⟨.SAF, none, some "a/1,b/1\n".toList⟩ [(3, 5)] t ∧
    LogGives (writeReport (logFields (extractCircuitName "circuit/and.v".toList)
        { Cli.optInit with equiv := some "pairs.txt".toList } t 1
        ⟨"0.001".toList, "0.001".toList, "0.000".toList, "0.000".toList, "0.000".toList, "0.000".toList⟩))
      (wantedClasses andNetlist ⟨.SAF, none, some "a/1,b/1\n".toList⟩ [(3, 5)])
      ((wantedFaults andNetlist ⟨.SAF, none, some "a/1,b/1\n".toList⟩).card -
        wantedClasses andNetlist ⟨.SAF, none, some "a/1,b/1\n".toList⟩ [(3, 5)]) 1
      (wantedClasses andNetlist ⟨.SAF, none, some "a/1,b/1\n".toList⟩ [])
      (wantedClasses andNetlist ⟨.SAF, none, some "a/1,b/1\n".toList⟩ [(3, 5)])
      (wantedFaults andNetlist ⟨.SAF, none, some "a/1,b/1\n".toList⟩).card := by
  obtain ⟨t, run, counts, -, -, gives⟩ := log_counts andCircuit ⟨.SAF, none, some "a/1,b/1\n".toList⟩ rfl
    tellingNames_andNetlist (by decide) (by decide) (fun file isFile => by cases isFile)
    [(3, 5)] readsPair_and emptyFaultState rfl
  refine ⟨t, run, counts, gives _ _ _ 1 ⟨by decide, fun path isPath => (by cases isPath), ?_, by decide⟩⟩
  intro path isPath
  cases isPath
  decide

end SafRprGen
