/-
Module: SafRprGen.Cli.Options
Layer: Cli
Purpose: The options (`options.c`). They are read from the arguments and from the lines of a setting file;
  whatever they are and in whatever order they come, `OPT` accepts only options the program can work with.
Main exports: OPTION, optSet, optRead, finalizeCoverageConfig, opt, OptionsReady, opt_ready
-/
import SafRprGen.Coverage.Options
import SafRprGen.Fault.FaultList
import SafRprGen.Output.FaultCsv

namespace SafRprGen.Cli

open CText

/-! ### The options -/

/-- `OPTION`; the bound of `-cube_fdp_max` has its text and its value. -/
structure OPTION where
  net : Option CStr
  fault : Option CStr
  equiv : Option CStr
  limit : Int
  log : Option CStr
  fdp : Option CStr
  cube : Option CStr
  jobs : Int
  progress : Bool
  faultModel : FaultModel
  cubeFdpMax : Option (CStr × ℚ)
  cubeIncludeIncomplete : Bool
  coverage : CoverageConfig
deriving DecidableEq, Repr

/-- How the options end the program: with a message, at a setting file that cannot be opened, or where
`strdup` gets a null pointer. -/
inductive OptError where
  | message (text : CStr)
  | fileOpen (filename : CStr)
  | nullString
deriving DecidableEq, Repr

/-- `OPTinit`. -/
def optInit : OPTION :=
  ⟨none, none, none, 0, none, none, none, 1, true, .SAF, none, false, initCoverageConfig⟩

/-- `IsPathOption`. -/
def isPathOption (name : CStr) : Bool :=
  name = "-net".toList || name = "-fault".toList || name = "-equiv".toList || name = "-log".toList ||
    name = "-fdp".toList || name = "-cube".toList || name = "-set".toList

/-- `CheckOptionValue`. -/
def checkOptionValue (name : CStr) (value : Option CStr) : Bool :=
  value.any fun value =>
    match value.dropWhile isSpace with
    | [] => false
    | ch :: _ => ch != '#' && (!isPathOption name || ch != '-')

/-- The error of `CheckOptionValue`. -/
def requiresValue (name : CStr) : OptError :=
  .message ("COMMAND ERROR: ".toList ++ name ++ " requires a value\n".toList)

/-- `strtol` in base ten: the value and what follows it; `none` when there are no digits. -/
def strtol (text : CStr) : Option (Int × CStr) :=
  let text := text.dropWhile isSpace
  let negative := text.head? = some '-'
  let number := if negative || text.head? = some '+' then text.tail else text
  if (number.takeWhile Char.isDigit).isEmpty then none
  else some (if negative then -(digits number : Int) else digits number, number.dropWhile Char.isDigit)

/-- An argument that is a number from `low` to `high`. What is too large for a `long` sets `errno`; it is
out of every range that is asked for. -/
def readInteger (value : Option CStr) (low high : Int) : Option Int :=
  match value.bind strtol with
  | some (number, []) => if low ≤ number ∧ number ≤ high then some number else none
  | _ => none

/-- `SetPatternLimit`. -/
def setPatternLimit (o : OPTION) (value : Option CStr) : Except OptError OPTION :=
  match readInteger value (-2 ^ 31) (2 ^ 31 - 1) with
  | some limit => .ok { o with limit := limit }
  | none => .error (.message "COMMAND ERROR: -limit requires an integer\n".toList)

/-- `on`, `off` and what else is read for them. -/
def onOff (value : Option CStr) : Option Bool :=
  if value = some "on".toList || value = some "1".toList then some true
  else if value = some "off".toList || value = some "0".toList then some false
  else none

/-- `SetCubeIncludeIncomplete`. -/
def setCubeIncludeIncomplete (o : OPTION) (value : Option CStr) : Except OptError OPTION :=
  match onOff value with
  | some on => .ok { o with cubeIncludeIncomplete := on }
  | none => .error (.message "COMMAND ERROR: -cube_include_incomplete requires on|off\n".toList)

/-- `IsRuntimeOption`. -/
def isRuntimeOption (name : CStr) : Bool := name = "-jobs".toList || name = "-progress".toList

/-- `SetRuntimeOption`. -/
def setRuntimeOption (o : OPTION) (name : CStr) (value : Option CStr) : Except OptError OPTION :=
  if name = "-jobs".toList then
    match readInteger value 1 256 with
    | some jobs => .ok { o with jobs := jobs }
    | none => .error (.message "COMMAND ERROR: -jobs requires an integer 1..256\n".toList)
  else
    match onOff value with
    | some on => .ok { o with progress := on }
    | none => .error (.message ("COMMAND ERROR: ".toList ++ name ++ " requires on|off\n".toList))

/-- `IsCoverageOption`. -/
def isCoverageOption (name : CStr) : Bool :=
  name = "-calc_f".toList || name = "-calc_f_nr".toList || name = "-calc_f_out".toList

/-- The error for an option that is not known. -/
def notExpected (name : CStr) : OptError :=
  .message ("\n\tCOMMAND ERROR: option setup is failed. \"".toList ++ name ++
    "\" is not expected.\n\n".toList)

/-- The options that are paths; a null pointer is a path that is not set. -/
def setPath (o : OPTION) (name : CStr) (path : Option CStr) : Option OPTION :=
  if name = "-net".toList then some { o with net := path }
  else if name = "-fault".toList then some { o with fault := path }
  else if name = "-equiv".toList then some { o with equiv := path }
  else if name = "-log".toList then some { o with log := path }
  else if name = "-fdp".toList then some { o with fdp := path }
  else if name = "-cube".toList then some { o with cube := path }
  else none

/-! ### Numbers -/

/-- A sign, if there is one, and what follows; `true` is the minus. -/
def takeSign : CStr → Bool × CStr
  | '-' :: rest => (true, rest)
  | '+' :: rest => (false, rest)
  | text => (false, text)

/-- The exponent after a mantissa and what follows it. A mark without digits is not part of the number. -/
def takeExponent (mark : Char → Bool) (text : CStr) : Int × CStr :=
  let (negative, rest) := takeSign text.tail
  let exponent : Int := digits rest
  if text.head?.any mark && rest.head?.any Char.isDigit then
    (if negative then -exponent else exponent, rest.dropWhile Char.isDigit)
  else (0, text)

def isHexDigit (ch : Char) : Bool := ch.isDigit || ('a' ≤ ch && ch ≤ 'f') || ('A' ≤ ch && ch ≤ 'F')

def hexDigitValue (ch : Char) : Nat := if ch.isDigit then ch.toNat - 48 else ch.toLower.toNat - 87

/-- The number with digits to a base, and an exponent to another one, that the text begins with. -/
def takeNumber (base scale : Nat) (isDigit mark : Char → Bool) (text : CStr) : Option (ℚ × CStr) :=
  let whole := text.takeWhile isDigit
  let rest := text.dropWhile isDigit
  let point := rest.head? = some '.'
  let fraction := if point then rest.tail.takeWhile isDigit else []
  if whole.isEmpty && fraction.isEmpty then none
  else
    let (exponent, rest) := takeExponent mark (if point then rest.tail.dropWhile isDigit else rest)
    let mantissa := (whole ++ fraction).foldl (fun value ch => value * base + hexDigitValue ch) 0
    some (mantissa / (base ^ fraction.length : Nat) * (scale : ℚ) ^ exponent, rest)

/-- `strtod`: the number that the text begins with and what follows it. No number is read from an infinity or
a NaN, which the caller refuses. -/
def strtod (text : CStr) : Option (ℚ × CStr) :=
  let (negative, number) := takeSign (text.dropWhile isSpace)
  let hex :=
    match number with
    | '0' :: x :: rest =>
        if x = 'x' || x = 'X' then takeNumber 16 2 isHexDigit (fun ch => ch = 'p' || ch = 'P') rest else none
    | _ => none
  let value := hex <|> takeNumber 10 10 Char.isDigit (fun ch => ch = 'e' || ch = 'E') number
  value.map fun (x, rest) => (if negative then -x else x, rest)

/-- `isfinite` of the `double` that is nearest to the number. -/
def isFinite (x : ℚ) : Bool :=
  let overflow : ℚ := ((2 ^ 54 - 1) * 2 ^ 970 : Nat)
  decide (-overflow < x ∧ x < overflow)

/-- `strtod` reads the whole text as a finite number. -/
def finiteNumber (text : CStr) : Bool :=
  match strtod text with
  | some (x, []) => isFinite x
  | _ => false

example : strtod " -0x1.8p1 ".toList = some (-3, " ".toList) ∧
    finiteNumber "1.7976931348623158e308".toList = true ∧
    finiteNumber "1.7976931348623159e308".toList = false ∧ finiteNumber "1e".toList = false := by
  decide +kernel

section Settings

variable (gmp : Gmp)

/-- `SetCubeFDPMax`. -/
def setCubeFdpMax (o : OPTION) (value : Option CStr) : Except OptError OPTION :=
  let error : Except OptError OPTION :=
    .error (.message "COMMAND ERROR: -cube_fdp_max requires a number in [0, 1]\n".toList)
  match value with
  | none => error
  | some text =>
      if text.isEmpty || !finiteNumber text then error
      else
        match gmp.setStr 8192 (if text.head? = some '+' then text.tail else text) with
        | some maximum =>
            if 0 ≤ maximum ∧ maximum ≤ 1 then .ok { o with cubeFdpMax := some (text, maximum) } else error
        | none => error

/-- The options that the arguments and the setting file set in the same way; `none` for the others. -/
def setCommonOption (o : OPTION) (name : CStr) (value : Option CStr) : Option (Except OptError OPTION) :=
  if name = "-cube_include_incomplete".toList then some (setCubeIncludeIncomplete o value)
  else if name = "-cube_fdp_max".toList then some (setCubeFdpMax gmp o value)
  else if isRuntimeOption name then some (setRuntimeOption o name value)
  else if isCoverageOption name then
    some (match setCoverageOption o.coverage name value with
      | .ok coverage => .ok { o with coverage := coverage }
      | .error text => .error (.message text))
  else none

/-! ### The setting file -/

/-- `" \t\r\n"`. -/
def isDelim (ch : Char) : Bool := ch = ' ' || ch = '\t' || ch = '\r' || ch = '\n'

/-- The first delimiters of `OPTreadValue`: `" \n"` for the netlist, `"\n"` for the other files. -/
def firstDelim (isNet : Bool) (ch : Char) : Bool := ch = '\n' || (isNet && ch = ' ')

/-- `OPTreadValue`. -/
def optReadValue (context : CStr) (delim : Char → Bool) : Except OptError (Option CStr) :=
  match strtok delim context with
  | none => .ok none
  | some (token, _) =>
      match token.dropWhile fun ch => ch = ' ' || ch = '\t' with
      | [] => .ok none
      | text =>
          match strtok isDelim text with
          | none => .error .nullString
          | some (value, _) => .ok (some value)

/-- The body of the loop of `OPTread`. -/
def optReadLine (o : OPTION) (buffer : CStr) : Except OptError OPTION :=
  if buffer.head? = some '-' then
    match strtok isDelim buffer with
    | none => .ok o
    | some (name, context) =>
        let token := (strtok isDelim context).map (·.1)
        if (isPathOption name || name = "-limit".toList) && !checkOptionValue name (some context) then
          .error (requiresValue name)
        else
          match setCommonOption gmp o name token with
          | some result => result
          | none =>
              if name = "-saf".toList then .ok { o with faultModel := .SAF }
              else if name = "-tdf".toList then .ok { o with faultModel := .TDF }
              else if name = "-limit".toList then setPatternLimit o token
              else if (setPath o name none).isNone then .error (notExpected name)
              else
                (optReadValue context (firstDelim (name = "-net".toList))).bind fun path =>
                  if name = "-cube".toList && path.isNone then
                    .error (.message "COMMAND ERROR: -cube requires an output directory\n".toList)
                  else
                    match setPath o name path with
                    | some o => .ok o
                    | none => .error (notExpected name)
  else .ok o

/-- `OPTread`. -/
def optRead (files : CStr → Option CStr) (o : OPTION) (filename : CStr) : Except OptError OPTION :=
  match files filename with
  | none => .error (.fileOpen filename)
  | some text => (fgetsAll maxsizeBuffer text).foldlM (optReadLine gmp) o

/-! ### The arguments -/

/-- The body of the loop of `OPTset`, with the argument and the one after it; the Boolean says that the
second was taken as well. -/
def optSetPass (files : CStr → Option CStr) (o : OPTION) (name : CStr) (next : Option CStr) :
    Except OptError (OPTION × Bool) :=
  if (isPathOption name || name = "-limit".toList) && !checkOptionValue name next then
    .error (requiresValue name)
  else
    match setCommonOption gmp o name next with
    | some result => result.map fun o => (o, true)
    | none =>
        if name = "-saf".toList then .ok ({ o with faultModel := .SAF }, false)
        else if name = "-tdf".toList then .ok ({ o with faultModel := .TDF }, false)
        else if name = "-limit".toList then (setPatternLimit o next).map fun o => (o, true)
        else if name = "-set".toList then
          match next with
          | none => .error (requiresValue name)
          | some filename => (optRead gmp files o filename).map fun o => (o, true)
        else
          match setPath o name next with
          | some o => .ok (o, true)
          | none => .error (notExpected name)

/-- `OPTset`. -/
def optSet (files : CStr → Option CStr) : List CStr → OPTION → Except OptError OPTION
  | [], o => .ok o
  | [name], o => (optSetPass gmp files o name none).map (·.1)
  | name :: next :: rest, o =>
      (optSetPass gmp files o name (some next)).bind fun (o, taken) =>
        match taken with
        | true => optSet files rest o
        | false => optSet files (next :: rest) o

end Settings

/-! ### The checks -/

/-- `OPTcheckFile`. -/
def optCheckFile (o : OPTION) : Except OptError OPTION :=
  let missing (file : String) : Except OptError OPTION :=
    .error (.message ("\n\tCOMMAND ERROR: option setup is failed. no ".toList ++ file.toList ++
      " file.\n\n".toList))
  if o.net.isNone then missing "netlist"
  else if o.log.isNone then missing "log"
  else if o.fdp.isNone then missing "fdp result"
  else .ok o

/-- `DefaultOutputPath`. -/
def defaultOutputPath (fdpPath : CStr) : CStr :=
  match splitLast '.' fdpPath with
  | some (stem, extension) =>
      if '/' ∈ extension then fdpPath ++ "_F".toList ++ ".csv".toList
      else stem ++ "_F".toList ++ '.' :: extension
  | none => fdpPath ++ "_F".toList ++ ".csv".toList

/-- `FinalizeCoverageConfig`. -/
def finalizeCoverageConfig (config : CoverageConfig) (fdpPath : CStr) (logPath cubePath : Option CStr) :
    Except OptError CoverageConfig :=
  if !config.enabled then
    if config.withoutReplacement || config.output.isSome then
      .error (.message "COMMAND ERROR: -calc_f_nr and -calc_f_out require -calc_f\n".toList)
    else .ok config
  else
    let output := config.output.getD (defaultOutputPath fdpPath)
    if output = fdpPath || logPath = some output || cubePath = some output then
      .error (.message "COMMAND ERROR: -calc_f_out must differ from -fdp, -log and -cube\n".toList)
    else .ok { config with output := some output }

/-- `OPT` on the arguments after the name of the program. -/
def opt (gmp : Gmp) (files : CStr → Option CStr) (arguments : List CStr) :
    Except OptError OPTION :=
  (optSet gmp files arguments optInit).bind fun o =>
    if o.cube.isSome && (o.cube = o.fdp || o.cube = o.log) then
      .error (.message "COMMAND ERROR: -cube directory must differ from -fdp and -log files\n".toList)
    else if o.equiv.isSome && o.faultModel != .SAF then
      .error (.message "COMMAND ERROR: -equiv supports SAF only; cannot be used with -tdf\n".toList)
    else
      (optCheckFile o).bind fun o =>
        (finalizeCoverageConfig o.coverage (o.fdp.getD []) o.log o.cube).map fun coverage =>
          { o with coverage := coverage }

/-! ### What the options keep -/

/-- The counts as `SetPatternCounts` leaves them. -/
structure CountsKept (config : CoverageConfig) : Prop where
  sorted : config.patternCounts.Pairwise (· < ·)
  range : ∀ np ∈ config.patternCounts, 0 < np ∧ np ≤ ulongMax
  length : config.patternCounts.length ≤ coverageMaxPatternCounts
  enabled : config.enabled = true ↔ config.patternCounts ≠ []

/-- What every option keeps. -/
structure OptionsKept (o : OPTION) : Prop where
  limit : -2 ^ 31 ≤ o.limit ∧ o.limit ≤ 2 ^ 31 - 1
  jobs : 1 ≤ o.jobs ∧ o.jobs ≤ 256
  cubeFdpMax : ∀ e ∈ o.cubeFdpMax, 0 ≤ e.2 ∧ e.2 ≤ 1
  counts : CountsKept o.coverage

theorem optInit_kept : OptionsKept optInit where
  limit := by decide
  jobs := by decide
  cubeFdpMax := fun e isMax => by cases isMax
  counts := ⟨.nil, fun np mem => (by cases mem), Nat.zero_le _, by decide⟩

theorem readCounts_length : ∀ (room : Nat) {token : CStr} {counts : List Nat},
    readCounts room token = some counts → counts ≠ [] ∧ counts.length ≤ room ∧ ∀ np ∈ counts,
    np ≤ ulongMax := by
  intro room
  induction room with
  | zero =>
      intro token counts run
      cases run
  | succ room ih =>
      intro token counts run
      obtain ⟨count, parsed, run⟩ := Option.bind_eq_some_iff.mp run
      have high := (parsePatternCount_pos parsed).2
      split at run
      · cases run
        exact ⟨List.cons_ne_nil _ _, Nat.le_add_left 1 room, List.forall_mem_singleton.mpr high⟩
      · obtain ⟨more, rest, rfl⟩ := Option.map_eq_some_iff.mp run
        obtain ⟨-, length, below⟩ := ih rest
        exact ⟨List.cons_ne_nil _ _, Nat.succ_le_succ length, List.forall_mem_cons.mpr ⟨high, below⟩⟩

theorem dropRepeated_sublist :
    ∀ (counts : List Nat) (last : Option Nat), (dropRepeated last counts).Sublist counts := by
  intro counts
  induction counts with
  | nil => exact fun _ => .slnil
  | cons count rest ih =>
      intro last
      unfold dropRepeated
      split
      · exact (ih _).cons _
      · exact (ih _).cons_cons _

/-- An accepted list of counts. -/
theorem setPatternCounts_kept {config config' : CoverageConfig} {value : CStr}
    (accepted : setPatternCounts config value = some config') : CountsKept config' := by
  obtain ⟨requested, -, sorted, -, positive⟩ := setPatternCounts_spec accepted
  obtain ⟨counts, read, rfl⟩ := Option.map_eq_some_iff.mp accepted
  obtain ⟨some, length, below⟩ := readCounts_length _ read
  have kept := dropRepeated_sublist (counts.insertionSort (· ≤ ·)) none
  refine ⟨sorted, fun np mem => ⟨positive np mem, ?_⟩, ?_, iff_of_true rfl ?_⟩
  · exact below np ((List.mem_insertionSort (· ≤ ·)).mp (kept.subset mem))
  · apply kept.length_le.trans
    rwa [List.length_insertionSort]
  · intro empty
    obtain ⟨count, mem⟩ := List.exists_mem_of_ne_nil counts some
    have ordered : (counts.insertionSort (· ≤ ·)).Pairwise (· ≤ ·) := List.pairwise_insertionSort _ counts
    have inKept := ((@dropRepeated_spec _ none ordered (by simp)).2.2 count).mpr
      ⟨(List.mem_insertionSort (· ≤ ·)).mpr mem, by simp⟩
    exact absurd inKept (List.eq_nil_iff_forall_not_mem.mp empty count)

theorem setCoverageOption_kept {config config' : CoverageConfig} (kept : CountsKept config) {name : CStr}
    {value : Option CStr} (set : setCoverageOption config name value = .ok config') :
    CountsKept config' := by
  unfold setCoverageOption at set
  dsimp only at set
  split at set
  · split at set
    · rename_i accepted
      cases set
      split at accepted
      · obtain ⟨text, -, accepted⟩ := Option.bind_eq_some_iff.mp accepted
        exact setPatternCounts_kept accepted
      · cases accepted
    · cases set
  · split at set
    · split at set
      · cases set
        exact ⟨kept.sorted, kept.range, kept.length, kept.enabled⟩
      · split at set
        · cases set
          exact ⟨kept.sorted, kept.range, kept.length, kept.enabled⟩
        · cases set
    · split at set
      · cases set
        exact ⟨kept.sorted, kept.range, kept.length, kept.enabled⟩
      · cases set

theorem readInteger_range {value : Option CStr} {low high number : Int}
    (read : readInteger value low high = some number) : low ≤ number ∧ number ≤ high := by
  unfold readInteger at read
  split at read
  · split at read
    · rename_i inRange
      cases read
      exact inRange
    · cases read
  · cases read

theorem setPatternLimit_kept {o o' : OPTION} (kept : OptionsKept o) {value : Option CStr}
    (set : setPatternLimit o value = .ok o') : OptionsKept o' := by
  unfold setPatternLimit at set
  split at set
  · rename_i read
    cases set
    exact { kept with limit := readInteger_range read }
  · cases set

theorem setCubeIncludeIncomplete_kept {o o' : OPTION} (kept : OptionsKept o) {value : Option CStr}
    (set : setCubeIncludeIncomplete o value = .ok o') : OptionsKept o' := by
  unfold setCubeIncludeIncomplete at set
  split at set
  · cases set
    exact { kept with }
  · cases set

theorem setRuntimeOption_kept {o o' : OPTION} (kept : OptionsKept o) {name : CStr} {value : Option CStr}
    (set : setRuntimeOption o name value = .ok o') : OptionsKept o' := by
  unfold setRuntimeOption at set
  split at set
  · split at set
    · rename_i read
      cases set
      exact { kept with jobs := readInteger_range read }
    · cases set
  · split at set
    · cases set
      exact { kept with }
    · cases set

theorem setPath_kept {o o' : OPTION} (kept : OptionsKept o) {name : CStr} {path : Option CStr}
    (set : setPath o name path = some o') : OptionsKept o' := by
  unfold setPath at set
  repeat
    split at set
    · cases set
      exact { kept with }
  cases set

section Kept

variable {gmp : Gmp} {files : CStr → Option CStr} {o o' : OPTION}

theorem setCubeFdpMax_kept (kept : OptionsKept o) {value : Option CStr}
    (set : setCubeFdpMax gmp o value = .ok o') : OptionsKept o' := by
  unfold setCubeFdpMax at set
  dsimp only at set
  split at set
  · cases set
  · split at set
    · cases set
    · split at set
      · split at set
        · rename_i inRange
          cases set
          refine { kept with cubeFdpMax := fun e isMax => ?_ }
          cases isMax
          exact inRange
        · cases set
      · cases set

theorem setCommonOption_kept (kept : OptionsKept o) {name : CStr} {value : Option CStr}
    (set : setCommonOption gmp o name value = some (.ok o')) : OptionsKept o' := by
  unfold setCommonOption at set
  split at set
  · exact setCubeIncludeIncomplete_kept kept (Option.some.inj set)
  · split at set
    · exact setCubeFdpMax_kept kept (Option.some.inj set)
    · split at set
      · exact setRuntimeOption_kept kept (Option.some.inj set)
      · split at set
        · rw [Option.some.injEq] at set
          split at set
          · rename_i coverage
            cases set
            exact { kept with counts := setCoverageOption_kept kept.counts coverage }
          · cases set
        · cases set

/-- A line of the setting file keeps what the options keep. -/
theorem optReadLine_kept (kept : OptionsKept o) {buffer : CStr}
    (read : optReadLine gmp o buffer = .ok o') : OptionsKept o' := by
  unfold optReadLine at read
  split at read
  · split at read
    · cases read
      exact kept
    · dsimp only at read
      split at read
      · cases read
      · split at read
        · rename_i common
          exact setCommonOption_kept kept (common.trans (congrArg some read))
        · split at read
          · cases read
            exact { kept with }
          · split at read
            · cases read
              exact { kept with }
            · split at read
              · exact setPatternLimit_kept kept read
              · split at read
                · cases read
                · obtain ⟨path, -, read⟩ := Loop.bind_eq_ok.mp read
                  split at read
                  · cases read
                  · split at read
                    · rename_i set
                      cases read
                      exact setPath_kept kept set
                    · cases read
  · cases read
    exact kept

/-- Lines that are read one after the other keep it. -/
theorem foldlM_kept {lines : List CStr} : ∀ {o : OPTION}, OptionsKept o →
    lines.foldlM (optReadLine gmp) o = .ok o' → OptionsKept o' := by
  induction lines with
  | nil =>
      intro o kept read
      cases read
      exact kept
  | cons line lines ih =>
      intro o kept read
      rw [List.foldlM_cons] at read
      obtain ⟨middle, first, rest⟩ := Loop.bind_eq_ok.mp read
      exact ih (optReadLine_kept kept first) rest

theorem optRead_kept (kept : OptionsKept o) {filename : CStr}
    (read : optRead gmp files o filename = .ok o') : OptionsKept o' := by
  unfold optRead at read
  split at read
  · cases read
  · exact foldlM_kept kept read

theorem optSetPass_kept (kept : OptionsKept o) {name : CStr} {next : Option CStr} {taken : Bool}
    (set : optSetPass gmp files o name next = .ok (o', taken)) : OptionsKept o' := by
  unfold optSetPass at set
  split at set
  · cases set
  · split at set
    · rename_i common
      obtain ⟨_, done, same⟩ := Loop.map_eq_ok.mp set
      cases same
      exact setCommonOption_kept kept (common.trans (congrArg some done))
    · split at set
      · cases set
        exact { kept with }
      · split at set
        · cases set
          exact { kept with }
        · split at set
          · obtain ⟨_, done, same⟩ := Loop.map_eq_ok.mp set
            cases same
            exact setPatternLimit_kept kept done
          · split at set
            · split at set
              · cases set
              · obtain ⟨_, done, same⟩ := Loop.map_eq_ok.mp set
                cases same
                exact optRead_kept kept done
            · split at set
              · rename_i path
                cases set
                exact setPath_kept kept path
              · cases set

/-- Arguments in any order keep it, whatever setting files they name. -/
theorem optSet_kept {arguments : List CStr} : ∀ {o : OPTION}, OptionsKept o →
    optSet gmp files arguments o = .ok o' → OptionsKept o' := by
  induction arguments using List.twoStepInduction with
  | nil =>
      intro o kept set
      cases set
      exact kept
  | singleton name =>
      intro o kept set
      obtain ⟨⟨_, _⟩, pass, rfl⟩ := Loop.map_eq_ok.mp set
      exact optSetPass_kept kept pass
  | cons_cons name next rest ihRest ihNext =>
      intro o kept set
      obtain ⟨⟨middle, taken⟩, pass, set⟩ := Loop.bind_eq_ok.mp set
      have kept := optSetPass_kept kept pass
      cases taken with
      | true => exact ihRest kept set
      | false => exact ihNext next kept set

end Kept

/-! ### What `OPT` accepts -/

/-- The default output is never the density report itself. -/
theorem defaultOutputPath_ne (fdpPath : CStr) : defaultOutputPath fdpPath ≠ fdpPath := by
  have longer : fdpPath.length < (defaultOutputPath fdpPath).length := by
    unfold defaultOutputPath
    rcases splitLast_spec fdpPath with ⟨found, -⟩ | ⟨stem, extension, found, split, -⟩
    · rw [found]
      simp
    · rw [found]
      dsimp only
      split
      · simp
      · conv_lhs => rw [split]
        simp
  intro same
  rw [same] at longer
  exact lt_irrefl _ longer

/-- Options the program can work with. -/
structure OptionsReady (o : OPTION) : Prop extends OptionsKept o where
  net : o.net.isSome = true
  log : o.log.isSome = true
  fdp : o.fdp.isSome = true
  cube : o.cube.isSome = true → o.cube ≠ o.fdp ∧ o.cube ≠ o.log
  equiv : o.equiv.isSome = true → o.faultModel = .SAF
  output : o.coverage.enabled = true → ∃ output, o.coverage.output = some output ∧
    o.fdp ≠ some output ∧ o.log ≠ some output ∧ o.cube ≠ some output
  disabled : o.coverage.enabled = false → o.coverage = initCoverageConfig

/-- The files that must be set. -/
theorem optCheckFile_ok {o o' : OPTION} (checked : optCheckFile o = .ok o') :
    o' = o ∧ o.net.isSome = true ∧ o.log.isSome = true ∧ o.fdp.isSome = true := by
  unfold optCheckFile at checked
  dsimp only at checked
  split at checked
  · cases checked
  · rename_i net
    split at checked
    · cases checked
    · rename_i log
      split at checked
      · cases checked
      · rename_i fdp
        cases checked
        rw [Bool.not_eq_true, Option.isNone_eq_false_iff] at net log fdp
        exact ⟨rfl, net, log, fdp⟩

theorem finalizeCoverageConfig_ok {config config' : CoverageConfig} {fdpPath : CStr}
    {logPath cubePath : Option CStr}
    (kept : CountsKept config)
    (final : finalizeCoverageConfig config fdpPath logPath cubePath = .ok config') :
    CountsKept config' ∧
      (config'.enabled = true → ∃ output, config'.output = some output ∧ output ≠ fdpPath ∧
        logPath ≠ some output ∧ cubePath ≠ some output) ∧
      (config'.enabled = false → config' = initCoverageConfig) := by
  unfold finalizeCoverageConfig at final
  split at final
  · rename_i disabled
    split at final
    · cases final
    · rename_i unset
      cases final
      simp only [Bool.not_eq_true', Bool.or_eq_true, not_or, Bool.not_eq_true] at disabled unset
      refine ⟨kept, fun enabled => (by rw [disabled] at enabled; cases enabled), fun _ => ?_⟩
      have counts : config.patternCounts = [] := by
        by_contra some
        rw [kept.enabled.mpr some] at disabled
        cases disabled
      obtain ⟨enabled, patternCounts, withoutReplacement, output⟩ := config
      obtain ⟨withoutReplacement, output⟩ := unset
      simp only at disabled counts withoutReplacement output
      rw [Option.isSome_eq_false_iff, Option.isNone_iff_eq_none] at output
      rw [disabled, counts, withoutReplacement, output]
      rfl
  · rename_i enabled
    dsimp only at final
    split at final
    · cases final
    · rename_i differ
      cases final
      simp only [Bool.or_eq_true, decide_eq_true_eq, not_or] at differ
      refine ⟨⟨kept.sorted, kept.range, kept.length, kept.enabled⟩, fun _ => ⟨_, rfl, differ.1.1, differ.1.2,
        differ.2⟩, fun disabled => ?_⟩
      rw [Bool.not_eq_true', Bool.not_eq_false] at enabled
      exact absurd (enabled.symm.trans disabled) (by decide)

/-- Whatever the arguments and the setting files are: options that `OPT` accepts are ones the program can
work with. -/
theorem opt_ready (gmp : Gmp) (files : CStr → Option CStr) (arguments : List CStr) (o : OPTION)
    (accepted : opt gmp files arguments = .ok o) : OptionsReady o := by
  obtain ⟨o₁, set, accepted⟩ := Loop.bind_eq_ok.mp accepted
  have kept := optSet_kept optInit_kept set
  split at accepted
  · cases accepted
  · rename_i cube
    split at accepted
    · cases accepted
    · rename_i equiv
      obtain ⟨o₂, checked, accepted⟩ := Loop.bind_eq_ok.mp accepted
      obtain ⟨coverage, final, rfl⟩ := Loop.map_eq_ok.mp accepted
      obtain ⟨rfl, net, log, fdp⟩ := optCheckFile_ok checked
      obtain ⟨counts, output, disabled⟩ := finalizeCoverageConfig_ok kept.counts final
      simp only [Bool.and_eq_true, Bool.or_eq_true, decide_eq_true_eq, not_and, not_or] at cube
      simp only [Bool.and_eq_true, bne_iff_ne, ne_eq, not_and, not_not] at equiv
      refine ⟨{ kept with counts := counts }, net, log, fdp, cube, equiv, fun enabled => ?_, disabled⟩
      obtain ⟨path, isOutput, ne, rest⟩ := output enabled
      obtain ⟨fdpPath, isFdp⟩ := Option.isSome_iff_exists.mp fdp
      refine ⟨path, isOutput, fun same => ?_, rest⟩
      rw [isFdp, Option.some.injEq] at same
      rw [isFdp, Option.getD_some] at ne
      exact ne same.symm

/-- A setting file. -/
def runSet : CStr :=
  "-net\tc17.v\n# results\n-log  c17.log\n-fdp c17.csv # densities\n-calc_f 100,10\n".toList

/-- The number `0.5`. -/
def oneHalf : Gmp where
  snprintf _ := "5.0000000000e-01".toList
  setStr _ text := if text = "0.5".toList then some (1 / 2) else none

theorem opt_ready_set : ∃ o, opt oneHalf
      (fun filename => if filename = "run.set".toList then some runSet else none)
      ["-set".toList, "run.set".toList, "-jobs".toList, "4".toList, "-cube_fdp_max".toList,
        "+0.5".toList] = .ok o ∧
    OptionsReady o := by
  have accepted : opt oneHalf
      (fun filename => if filename = "run.set".toList then some runSet else none)
      ["-set".toList, "run.set".toList, "-jobs".toList, "4".toList, "-cube_fdp_max".toList, "+0.5".toList] =
      .ok ⟨some "c17.v".toList, none, none, 0, some "c17.log".toList, some "c17.csv".toList, none, 4,
        true, .SAF,
        some ("+0.5".toList, 1 / 2), false, ⟨true, [10, 100], false, some "c17_F.csv".toList⟩⟩ := by
    decide +kernel
  exact ⟨_, accepted, opt_ready _ _ _ _ accepted⟩

end SafRprGen.Cli
