/-
Module: SafRprGen.Output.CubeDirectory
Layer: Output
Purpose: The directory of the cube files (`cube_text.c`). A marker file says that the directory belongs to
  the program; a run takes an empty directory or one with the marker, removes the cube files of earlier
  runs, and writes one file for each fault with cubes. Whatever calls the system refuses, files of others
  stay as they are. A run that fails leaves whole files, and a part of one more only where the system
  refuses its removal too.
Main exports: Directory, prepareDirectory, writeCubeFiles, Holds, prepareDirectory_spec, cubeOutput_spec,
  cubeOutput_rerun
-/
import Mathlib.Data.List.AList
import SafRprGen.Netlist.Ready
import SafRprGen.Output.CubeText
import SafRprGen.Output.Reported
import SafRprGen.Output.Workers

namespace SafRprGen

/-- What a name in a directory stands for. -/
inductive Inode where
  | regular (content : List UInt8)
  | directory
  | other
deriving DecidableEq

/-- The names in a directory without `.` and `..`, in the order of `readdir`. -/
abbrev Directory := AList fun _ : CStr => Inode

/-- How far a file gets that is opened for writing. -/
inductive Writing where
  | refused
  | cut (size : Nat)
  | whole
deriving DecidableEq

/-- The same for a cube file; one that is cut short is unlinked, which may be refused as well. -/
inductive CubeWriting where
  | refused
  | cut (size : Nat) (unlinked : Bool)
  | whole
deriving DecidableEq

/-- The calls of `PrepareDirectory` that the system refuses; `readdir` may fail after some names. -/
structure Refusals where
  lstat : Bool
  fopen : Bool
  readdir : Option Nat
  unlink : CStr → Bool
  closedir : Bool
  marker : Writing

/-- `marker_magic`. -/
def markerMagic : List UInt8 := toBytes "FDP per-fault cube output v2\n".toList

/-- `legacy_marker_magic`. -/
def legacyMarkerMagic : List UInt8 := toBytes "FDP per-fault cube output v1\n".toList

/-- The marker is a regular file that begins as a marker does. -/
def owned (d : Directory) : Bool :=
  match d.lookup markerName with
  | some (.regular content) =>
      content.take markerMagic.length = markerMagic || content.take markerMagic.length = legacyMarkerMagic
  | _ => false

/-- The names that `readdir` returns. -/
def readNames (stopped : Option Nat) (d : Directory) : List CStr :=
  match stopped with
  | none => d.keys
  | some size => d.keys.take size

/-- The loop of `PrepareDirectory` over the names that `readdir` returns. -/
def removeCubes (r : Refusals) (owned : Bool) : List CStr → Directory → Bool × Directory
  | [], d => (true, d)
  | name :: rest, d =>
      if !owned then (false, d)
      else if isCubeFilename name then
        if r.unlink name || d.lookup name = some .directory then (false, d)
        else removeCubes r owned rest (d.erase name)
      else removeCubes r owned rest d

/-- The end of `PrepareDirectory`. -/
def writeMarker (w : Writing) (header : List UInt8) (d : Directory) : Bool × Directory :=
  match w with
  | .refused => (false, d)
  | .cut size => (false, d.insert markerName (.regular ((markerMagic ++ header).take size)))
  | .whole => (true, d.insert markerName (.regular (markerMagic ++ header)))

/-- `PrepareDirectory` for a directory that can be opened. -/
def prepareDirectory (r : Refusals) (header : List UInt8) (d : Directory) : Bool × Directory :=
  let marked := d.lookup markerName
  let isOwned := !r.lstat && !r.fopen && owned d
  if r.lstat || marked.isSome && !isOwned then (false, d)
  else
    let (success, cleared) := removeCubes r isOwned (readNames r.readdir d) d
    if !success || r.readdir.isSome || r.closedir then (false, cleared)
    else writeMarker r.marker header cleared

/-- `WriteCubeFile`. It removes a file that it could not write to the end and ignores whether that went
well. -/
def writeCubeFile (m : FaultModel) (w : CubeWriting) (fault : FNODE) (text : List UInt8) (d : Directory) :
    Bool × Directory :=
  if text = [] then (true, d)
  else
    let name := cubeFilename m fault
    if d.lookup name = some .directory then (false, d)
    else
      match w with
      | .refused => (false, d)
      | .cut size unlinked => (false, if unlinked then d.erase name
          else d.insert name (.regular (text.take size)))
      | .whole => (true, d.insert name (.regular text))

/-- The calls of `WriteCubeFile`; the run ends with the first that fails. -/
def writeCubeFiles (m : FaultModel) (w : FNODE → CubeWriting) : List (FNODE × List UInt8) → Directory →
    Bool × Directory
  | [], d => (true, d)
  | (fault, text) :: rest, d =>
      match writeCubeFile m (w fault) fault text d with
      | (true, written) => writeCubeFiles m w rest written
      | (false, written) => (false, written)

/-- `InitCubeOutput` and the cube files of the run. -/
def cubeOutput (m : FaultModel) (r : Refusals) (header : List UInt8) (w : FNODE → CubeWriting)
    (files : List (FNODE × List UInt8)) (d : Directory) : Bool × Directory :=
  let (success, prepared) := prepareDirectory r header d
  if success then writeCubeFiles m w files prepared else (false, prepared)

/-- `WriteCubeMetadata`. -/
def writeCubeMetadata (c : Netlist) (m : FaultModel) (limit : Int) (includeIncomplete : Bool)
    (fdpMaxText : Option CStr) : CStr :=
  "# FDP test cube metadata v1\n# model ".toList ++ (match m with | .TDF => "TDF" | .SAF => "SAF").toList ++
    "\n# limit ".toList ++ (toString limit).toList ++ "\n# inputs ".toList ++ printCount c.nPi ++
    "\n# pi".toList ++
    (c.pi.flatMap fun n => ' ' :: c.name n) ++ "\n# values 0 1 X (don't care)\n\n".toList ++
    "# cube_include_incomplete ".toList ++ (if includeIncomplete then "on" else "off").toList ++ ['\n'] ++
    match fdpMaxText with
    | none => []
    | some text => "# cube_fdp_max ".toList ++ text ++ "\n\n".toList

/-- The system refuses nothing. -/
def Refusals.none : Refusals := ⟨false, false, .none, fun _ => false, false, .whole⟩

/-- The directory holds the marker, the files of these faults and whatever else was there before. -/
structure Holds (m : FaultModel) (before : Directory) (header : List UInt8)
    (files : List (FNODE × List UInt8)) (d : Directory) : Prop where
  marker : d.lookup markerName = some (.regular (markerMagic ++ header))
  cubes : ∀ name, isCubeFilename name = true →
    d.lookup name = (files.find? fun e => cubeFilename m e.1 = name).map fun e => .regular e.2
  others : ∀ name, isCubeFilename name = false → name ≠ markerName → d.lookup name = before.lookup name

/-- What stays of the file after those that were written: a part of it where it was cut short and its removal
was refused, and nothing otherwise. -/
def PartOfNext (w : FNODE → CubeWriting) (files wrote part : List (FNODE × List UInt8)) : Prop :=
  part = [] ∨ ∃ fault text rest size, files = wrote ++ (fault, text) :: rest ∧ w fault = .cut size false ∧
    part = [(fault, text.take size)]

variable {m : FaultModel} {r : Refusals} {header : List UInt8} {d before : Directory}

theorem isCubeFilename_marker : isCubeFilename markerName = false := by decide

/-- A cube file's name tells the net and the fault type. -/
theorem cubeFilename_inj {a b : FNODE} (namedA : NetName a.name) (namedB : NetName b.name)
    (same : cubeFilename m a = cubeFilename m b) : (a.name, a.type) = (b.name, b.type) := by
  have name : a.name = b.name := by
    rw [← @faultName_cubeFilename m a namedA, same, faultName_cubeFilename namedB]
  rw [cubeFilename, cubeFilename, name] at same
  rw [name, cubeSuffix_inj (List.append_cancel_left same)]

/-! ### Preparing -/

theorem readNames_nodup (stopped : Option Nat) (d : Directory) : (readNames stopped d).Nodup := by
  cases stopped with
  | none => exact d.keys_nodup
  | some size => exact d.keys_nodup.sublist (List.take_sublist _ _)

/-- The loop removes cube files only, and all of them when it succeeds. -/
theorem removeCubes_spec {own : Bool} {names : List CStr} :
    ∀ {d : Directory}, names.Nodup →
      (∀ name, isCubeFilename name = false → (removeCubes r own names d).2.lookup name = d.lookup name) ∧
      ((removeCubes r own names d).1 = true → (own = true ∨ names = []) ∧
        ∀ name, isCubeFilename name = true →
          (removeCubes r own names d).2.lookup name = if name ∈ names then none else d.lookup name) := by
  induction names with
  | nil => exact fun _ => ⟨fun _ _ => rfl, fun _ => ⟨.inr rfl, fun _ _ => (if_neg List.not_mem_nil).symm⟩⟩
  | cons entry rest ih =>
      intro d nodup
      obtain ⟨fresh, nodup⟩ := List.nodup_cons.mp nodup
      unfold removeCubes
      cases own with
      | false => exact ⟨fun _ _ => rfl, fun done => by cases done⟩
      | true =>
          rw [if_neg (by decide)]
          cases cube : isCubeFilename entry with
          | false =>
              rw [if_neg (by decide)]
              obtain ⟨keeps, clears⟩ := ih (d := d) nodup
              refine ⟨keeps, fun done => ⟨.inl rfl, fun name isCube => ?_⟩⟩
              have ne : name ≠ entry := by
                rintro rfl
                rw [cube] at isCube
                cases isCube
              rw [(clears done).2 name isCube]
              simp only [List.mem_cons, ne, false_or]
          | true =>
              rw [if_pos rfl]
              split
              · exact ⟨fun _ _ => rfl, fun done => by cases done⟩
              · obtain ⟨keeps, clears⟩ := ih (d := d.erase entry) nodup
                refine ⟨fun name plain => ?_, fun done => ⟨.inl rfl, fun name isCube => ?_⟩⟩
                · have ne : name ≠ entry := by
                    rintro rfl
                    rw [plain] at cube
                    cases cube
                  rw [keeps name plain, AList.lookup_erase_ne ne]
                · rw [(clears done).2 name isCube]
                  by_cases same : name = entry
                  · subst same
                    rw [if_neg fresh, AList.lookup_erase, if_pos List.mem_cons_self]
                  · rw [AList.lookup_erase_ne same]
                    simp only [List.mem_cons, same, false_or]

/-- Where nothing is refused the loop succeeds in a directory that the program owns. -/
theorem removeCubes_succeeds {own : Bool} {names : List CStr} (free : ∀ name, r.unlink name = false) :
    ∀ {d : Directory}, names.Nodup → own = true ∨ names = [] →
      (∀ name ∈ names, isCubeFilename name = true → d.lookup name ≠ some .directory) →
        (removeCubes r own names d).1 = true := by
  induction names with
  | nil =>
      intro d _ _ _
      rfl
  | cons entry rest ih =>
      intro d nodup may files
      obtain ⟨fresh, nodup⟩ := List.nodup_cons.mp nodup
      have isOwned : own = true := may.resolve_right (List.cons_ne_nil _ _)
      obtain ⟨first, files⟩ := List.forall_mem_cons.mp files
      unfold removeCubes
      rw [isOwned, if_neg (by decide)]
      subst isOwned
      split
      · rename_i cube
        rw [if_neg (by rw [free]; simpa using first cube)]
        apply ih nodup (.inl rfl)
        intro name mem isCube
        have ne : name ≠ entry := fun same => fresh (same ▸ mem)
        rw [AList.lookup_erase_ne ne]
        exact files name mem isCube
      · exact ih nodup (.inl rfl) files

/-- In a directory that the program does not own the loop stops at the first name. -/
theorem removeCubes_foreign (names : List CStr) (d : Directory) :
    removeCubes r false names d = (decide (names = []), d) := by
  cases names <;> rfl

theorem writeMarker_spec (w : Writing) (header : List UInt8) (d : Directory) :
    (∀ name, name ≠ markerName → (writeMarker w header d).2.lookup name = d.lookup name) ∧
    ((writeMarker w header d).1 = true →
      (writeMarker w header d).2.lookup markerName = some (.regular (markerMagic ++ header))) := by
  cases w with
  | refused => exact ⟨fun _ _ => rfl, fun done => by cases done⟩
  | cut size => exact ⟨fun name ne => AList.lookup_insert_ne ne, fun done => by cases done⟩
  | whole => exact ⟨fun name ne => AList.lookup_insert_ne ne, fun _ => AList.lookup_insert d⟩

/-- The program may use the directory: it is empty or has the marker. -/
def Usable (d : Directory) : Prop := owned d = true ∨ d.keys = []

/-- What `PrepareDirectory` does, whatever the system refuses: it touches cube files and the marker only,
in a directory of its own or an empty one; and when it succeeds no cube file is left. -/
theorem prepareDirectory_spec (m : FaultModel) (r : Refusals) (header : List UInt8) (d : Directory) :
    (∀ name, isCubeFilename name = false → name ≠ markerName →
      (prepareDirectory r header d).2.lookup name = d.lookup name) ∧
    (¬ Usable d → prepareDirectory r header d = (false, d)) ∧
    ((prepareDirectory r header d).1 = true → Holds m d header [] (prepareDirectory r header d).2) := by
  unfold prepareDirectory
  dsimp only
  generalize isOwned : (!r.lstat && !r.fopen && owned d) = own
  split
  · exact ⟨fun _ _ _ => rfl, fun _ => rfl, fun done => by cases done⟩
  · generalize listed : readNames r.readdir d = names
    have nodup : names.Nodup := listed ▸ readNames_nodup r.readdir d
    obtain ⟨keeps, clears⟩ := @removeCubes_spec r own names d nodup
    obtain ⟨others, marker⟩ := writeMarker_spec r.marker header (removeCubes r own names d).2
    refine ⟨fun name plain ne => ?_, fun unusable => ?_, fun done => ?_⟩
    · split
      · exact keeps name plain
      · exact (others name ne).trans (keeps name plain)
    · obtain ⟨foreign, more⟩ := not_or.mp unusable
      obtain rfl : own = false := by
        rw [← isOwned, eq_false_of_ne_true foreign, Bool.and_false]
      rw [removeCubes_foreign]
      apply if_pos
      cases stopped : r.readdir with
      | some size => simp only [Option.isSome_some, Bool.or_true, Bool.true_or]
      | none =>
          obtain rfl : d.keys = names := by rw [← listed, stopped]; rfl
          simp only [more, decide_false, Bool.not_false, Bool.true_or]
    · by_cases fails : (!(removeCubes r own names d).1 || r.readdir.isSome || r.closedir) = true
      · rw [if_pos fails] at done
        cases done
      · rw [if_neg fails] at done ⊢
        simp only [Bool.or_eq_true, Bool.not_eq_true', not_or, Bool.not_eq_false, Bool.not_eq_true,
          Option.isSome_eq_false_iff, Option.isNone_iff_eq_none] at fails
        obtain ⟨⟨success, whole⟩, -⟩ := fails
        obtain rfl : d.keys = names := by rw [← listed, whole]; rfl
        refine ⟨marker done, fun name isCube => ?_, fun name plain ne => (others name ne).trans
          (keeps name plain)⟩
        have ne : name ≠ markerName := by
          rintro rfl
          rw [isCubeFilename_marker] at isCube
          cases isCube
        rw [others name ne, (clears success).2 name isCube]
        split
        · rfl
        · rename_i absent
          exact AList.lookup_eq_none.mpr absent

/-- Where nothing is refused `PrepareDirectory` succeeds, unless a directory has a cube file's name. -/
theorem prepareDirectory_succeeds (header : List UInt8) (usable : Usable d)
    (files : ∀ name, isCubeFilename name = true → d.lookup name ≠ some .directory) :
    (prepareDirectory .none header d).1 = true := by
  have passes : ((d.lookup markerName).isSome && !owned d) = false := by
    rcases usable with isOwned | empty
    · rw [isOwned, Bool.not_true, Bool.and_false]
    · have absent : d.lookup markerName = none := by
        rw [AList.lookup_eq_none, AList.mem_keys, empty]
        exact List.not_mem_nil
      rw [absent]
      rfl
  have cleared := @removeCubes_succeeds .none (owned d) d.keys (fun _ => rfl) d d.keys_nodup usable
    fun name _ => files name
  unfold prepareDirectory
  rw [show (!Refusals.none.lstat && !Refusals.none.fopen && owned d) = owned d from rfl]
  rw [if_neg (by rw [show Refusals.none.lstat = false from rfl, Bool.false_or, passes]; decide)]
  change (if (!(removeCubes .none (owned d) d.keys d).1 || false || false) = true then _
    else _ : Bool × Directory).1 =
    true
  rw [cleared]
  rfl

/-! ### Writing -/

/-- The faults of these files can be told apart by their names. -/
structure Apart (files : List (FNODE × List UInt8)) : Prop where
  named : ∀ e ∈ files, NetName e.1.name
  distinct : (files.map fun e => (e.1.name, e.1.type)).Nodup
  texts : ∀ e ∈ files, e.2 ≠ []

theorem Apart.start {files : List (FNODE × List UInt8)} (apart : Apart files) : Apart ([] ++ files) := apart

section Writing

variable {files done : List (FNODE × List UInt8)} {fault : FNODE} {text : List UInt8}

/-- A fault that has no file yet has none under its name. -/
theorem Holds.fresh (holds : Holds m before header done d) (apart : Apart (done ++ (fault, text) :: files)) :
    d.lookup (cubeFilename m fault) = none := by
  have mine := List.mem_append_right done (List.mem_cons_self (a := (fault, text)) (l := files))
  have named := apart.named _ mine
  rw [holds.cubes _ (isCubeFilename_cubeFilename named), Option.map_eq_none_iff, List.find?_eq_none]
  intro e mem same
  have distinct := apart.distinct
  rw [List.map_append, List.map_cons, List.nodup_append] at distinct
  apply distinct.2.2 _ (List.mem_map_of_mem mem) _ List.mem_cons_self
  exact cubeFilename_inj (apart.named e (List.mem_append_left _ mem)) named (of_decide_eq_true same)

/-- A file that is written to the end is there. -/
theorem Holds.write (holds : Holds m before header done d) (named : NetName fault.name)
    (fresh : d.lookup (cubeFilename m fault) = none) :
    Holds m before header (done ++ [(fault, text)]) (d.insert (cubeFilename m fault) (.regular text)) := by
  have recognised := @isCubeFilename_cubeFilename m fault named
  refine ⟨?_, fun name isCube => ?_, fun name plain ne => ?_⟩
  · have ne : markerName ≠ cubeFilename m fault := by
      intro same
      rw [← same, isCubeFilename_marker] at recognised
      cases recognised
    rw [AList.lookup_insert_ne ne]
    exact holds.marker
  · by_cases same : name = cubeFilename m fault
    · subst same
      have absent := holds.cubes _ isCube
      rw [fresh, eq_comm, Option.map_eq_none_iff] at absent
      rw [AList.lookup_insert, List.find?_append, absent]
      simp
    · rw [AList.lookup_insert_ne same, holds.cubes name isCube, List.find?_append]
      have other : [(fault, text)].find? (fun e => decide (cubeFilename m e.1 = name)) = none := by
        rw [List.find?_cons_of_neg (by simpa using Ne.symm same)]
        rfl
      rw [other, Option.or_none]
  · have ne' : name ≠ cubeFilename m fault := by
      rintro rfl
      rw [recognised] at plain
      cases plain
    rw [AList.lookup_insert_ne ne']
    exact holds.others name plain ne

/-- A file that could not be written to the end and was removed is gone again. -/
theorem Holds.cut (holds : Holds m before header done d) (fresh : d.lookup (cubeFilename m fault) = none) :
    Holds m before header done (d.erase (cubeFilename m fault)) := by
  have same : ∀ name, (d.erase (cubeFilename m fault)).lookup name = d.lookup name := by
    intro name
    by_cases same : name = cubeFilename m fault
    · subst same
      rw [AList.lookup_erase, fresh]
    · rw [AList.lookup_erase_ne same]
  exact ⟨(same _).trans holds.marker, fun name isCube => (same name).trans (holds.cubes name isCube),
    fun name plain ne => (same name).trans (holds.others name plain ne)⟩

theorem PartOfNext.cons {w : FNODE → CubeWriting} {wrote part : List (FNODE × List UInt8)}
    (next : PartOfNext w files wrote part) (e : FNODE × List UInt8) : PartOfNext w (e :: files)
    (e :: wrote) part := by
  rcases next with none | ⟨fault, text, rest, size, split, cut, eq⟩
  · exact .inl none
  · exact .inr ⟨fault, text, rest, size, congrArg (e :: ·) split, cut, eq⟩

/-- The calls of `WriteCubeFile` leave the whole files of the faults before the first failure, and what stays
of the file at which they fail. -/
theorem writeCubeFiles_spec (w : FNODE → CubeWriting) :
    ∀ {done : List (FNODE × List UInt8)} {d : Directory}, Holds m before header done d →
    Apart (done ++ files) →
      ∃ wrote part, wrote <+: files ∧ PartOfNext w files wrote part ∧
        Holds m before header (done ++ (wrote ++ part)) (writeCubeFiles m w files d).2 ∧
        ((writeCubeFiles m w files d).1 = true → wrote = files ∧ part = []) ∧
        ((∀ e ∈ files, w e.1 = .whole) → (writeCubeFiles m w files d).1 = true) := by
  induction files with
  | nil =>
      intro done d holds _
      exact ⟨[], [], List.prefix_refl _, .inl rfl, by rwa [List.append_nil, List.append_nil],
        fun _ => ⟨rfl, rfl⟩, fun _ => rfl⟩
  | cons e files ih =>
      intro done d holds apart
      obtain ⟨fault, text⟩ := e
      have mine := List.mem_append_right done (List.mem_cons_self (a := (fault, text)) (l := files))
      have fresh := holds.fresh apart
      unfold writeCubeFiles writeCubeFile
      rw [if_neg (apart.texts _ mine)]
      dsimp only
      rw [if_neg (by rw [fresh]; exact Option.some_ne_none _ |>.symm)]
      cases writing : w fault with
      | refused =>
          refine ⟨[], [], List.nil_prefix, .inl rfl, by rwa [List.append_nil, List.append_nil],
            fun done => (by cases done), fun all => ?_⟩
          rw [all _ List.mem_cons_self] at writing
          cases writing
      | cut size unlinked =>
          have fails : ¬ ∀ e ∈ (fault, text) :: files, w e.1 = .whole := by
            intro all
            rw [all _ List.mem_cons_self] at writing
            cases writing
          cases unlinked with
          | true =>
              refine ⟨[], [], List.nil_prefix, .inl rfl, ?_, fun done => (by cases done),
                fun all => absurd all fails⟩
              rw [List.append_nil, List.append_nil]
              exact holds.cut fresh
          | false =>
              refine ⟨[], [(fault, text.take size)], List.nil_prefix,
                .inr ⟨fault, text, files, size, rfl, writing, rfl⟩, ?_, fun done => (by cases done),
                fun all => absurd all fails⟩
              exact holds.write (apart.named _ mine) fresh
      | whole =>
          have rest : Apart ((done ++ [(fault, text)]) ++ files) := by
            rw [List.append_assoc]
            exact apart
          obtain ⟨wrote, part, before_, next, holds', all, may⟩ :=
            ih (holds.write (apart.named _ mine) fresh) rest
          refine ⟨(fault, text) :: wrote, part, (List.prefix_cons_inj _).mpr before_, next.cons _, ?_,
            fun success => ⟨congrArg _ (all success).1, (all success).2⟩,
            fun each => may (List.forall_mem_cons.mp each).2⟩
          rw [List.append_assoc] at holds'
          exact holds'

end Writing

/-- A run that succeeds leaves one file for each fault with a text. -/
theorem cubeOutput_holds {w : FNODE → CubeWriting} {files : List (FNODE × List UInt8)} (apart : Apart files)
    (success : (cubeOutput m r header w files d).1 = true) :
    Holds m d header files (cubeOutput m r header w files d).2 := by
  obtain ⟨-, -, clears⟩ := prepareDirectory_spec m r header d
  unfold cubeOutput at success ⊢
  generalize prepareDirectory r header d = prepared at clears success ⊢
  obtain ⟨ready, d'⟩ := prepared
  cases ready with
  | false => cases success
  | true =>
      obtain ⟨wrote, part, -, -, holds, all, -⟩ := writeCubeFiles_spec w (clears rfl) apart.start
      obtain ⟨rfl, rfl⟩ := all success
      rw [List.append_nil] at holds
      exact holds

/-- The cube files of a run, whatever the system refuses: names that are not cube files' keep what they
had; a directory of somebody else stays as it is; a run that succeeds leaves one file for each fault with
a text; and one that fails while writing leaves whole files of the faults before, and a part of the next
one only where its removal is refused too. -/
theorem cubeOutput_spec (m : FaultModel) (r : Refusals) (header : List UInt8) (w : FNODE → CubeWriting)
    (files : List (FNODE × List UInt8)) (apart : Apart files) (d : Directory) :
    (∀ name, isCubeFilename name = false → name ≠ markerName →
      (cubeOutput m r header w files d).2.lookup name = d.lookup name) ∧
    (¬ Usable d → cubeOutput m r header w files d = (false, d)) ∧
    ((cubeOutput m r header w files d).1 = true →
      Holds m d header files (cubeOutput m r header w files d).2) ∧
    ((prepareDirectory r header d).1 = true →
      ∃ wrote part, wrote <+: files ∧ PartOfNext w files wrote part ∧
        Holds m d header (wrote ++ part) (cubeOutput m r header w files d).2) := by
  have whole := @cubeOutput_holds m r header d w files apart
  obtain ⟨keeps, foreign, clears⟩ := prepareDirectory_spec m r header d
  unfold cubeOutput at whole ⊢
  generalize prepareDirectory r header d = prepared at keeps foreign clears whole ⊢
  obtain ⟨success, d'⟩ := prepared
  cases success with
  | false => exact ⟨keeps, foreign, whole, fun done => (by cases done)⟩
  | true =>
      obtain ⟨wrote, part, before_, next, holds, -, -⟩ := writeCubeFiles_spec w (clears rfl) apart.start
      refine ⟨fun name plain ne => holds.others name plain ne, fun unusable => ?_, whole,
        fun _ => ⟨wrote, part, before_, next, holds⟩⟩
      have same := foreign unusable
      cases same

/-- A directory with the files of a run can be used again: a second run, under either fault model, that is
refused nothing leaves what it would have left without the first. -/
theorem cubeOutput_rerun (m m' : FaultModel) (header header' : List UInt8)
    (files files' : List (FNODE × List UInt8)) (apart' : Apart files') (before d : Directory)
    (holds : Holds m before header files d) :
    ∃ d', cubeOutput m' .none header' (fun _ => .whole) files' d = (true, d') ∧
      Holds m' before header' files' d' := by
  have usable : Usable d := by
    refine .inl ?_
    unfold owned
    rw [holds.marker]
    dsimp only
    rw [List.take_left, decide_eq_true rfl, Bool.true_or]
  have regular : ∀ name, isCubeFilename name = true → d.lookup name ≠ some .directory := by
    intro name isCube
    rw [holds.cubes name isCube]
    cases files.find? fun e => decide (cubeFilename m e.1 = name) with
    | none => exact Option.some_ne_none _ |>.symm
    | some e => simp
  have prepared := prepareDirectory_succeeds header' usable regular
  have clears := (prepareDirectory_spec m' .none header' d).2.2 prepared
  unfold cubeOutput
  generalize prepareDirectory .none header' d = out at prepared clears ⊢
  obtain ⟨success, d'⟩ := out
  obtain rfl : success = true := prepared
  obtain ⟨wrote, part, -, -, holds', all, may⟩ := writeCubeFiles_spec (fun _ => .whole) clears apart'.start
  have success := may fun _ _ => rfl
  obtain ⟨rfl, rfl⟩ := all success
  rw [List.append_nil] at holds'
  refine ⟨_, Prod.ext success rfl, holds'.marker, holds'.cubes, fun name plain ne => ?_⟩
  exact (holds'.others name plain ne).trans (holds.others name plain ne)

/-- One file of one byte. -/
def escapedFiles : List (FNODE × List UInt8) := [(escapedFault, [65])]

theorem escapedFiles_apart : Apart escapedFiles where
  named := List.forall_mem_singleton.mpr
    ⟨by decide, @of_decide_eq_true _ (List.decidableBAll _ _) (by decide)⟩
  distinct := List.nodup_singleton _
  texts := List.forall_mem_singleton.mpr (List.cons_ne_nil _ _)

theorem cubeOutput_spec_escaped :
    (cubeOutput .SAF .none [] (fun _ => .whole) escapedFiles ∅).1 = true ∧
      Holds .SAF ∅ [] escapedFiles (cubeOutput .SAF .none [] (fun _ => .whole) escapedFiles ∅).2 :=
  have success : (cubeOutput .SAF .none [] (fun _ => .whole) escapedFiles ∅).1 = true := by decide +kernel
  ⟨success, (cubeOutput_spec .SAF .none [] (fun _ => .whole) escapedFiles escapedFiles_apart ∅).2.2.1
    success⟩

/-- The files of transition faults take the place of those of a stuck-at fault. -/
theorem cubeOutput_rerun_escaped : ∃ d', cubeOutput .TDF .none [] (fun _ => .whole) escapedFiles
      (cubeOutput .SAF .none [] (fun _ => .whole) escapedFiles ∅).2 = (true, d') ∧
    Holds .TDF ∅ [] escapedFiles d' :=
  cubeOutput_rerun .SAF .TDF [] [] escapedFiles escapedFiles escapedFiles_apart ∅ _
    (cubeOutput_holds escapedFiles_apart (by decide +kernel))

/-! ### The targets -/

namespace Netlist

variable {c : Netlist} {opt : Opt} {s t : FaultState} {root : Nat → Nat}

/-- No name has a NUL. -/
def CNames (c : Netlist) : Prop := ∀ n < c.nNet, ∀ ch ∈ c.name n, 0 < ch.toNat

theorem Stored.netName (stored : Stored c m s) (names : TellingNames c) (bytes : CNames c) {target : FNODE}
    (mem : target ∈ scanFaults s) : NetName target.name := by
  obtain ⟨low, named, -⟩ := createFaultNode_spec (stored.parsed_scan mem)
  rw [← named]
  refine ⟨(names.plain _ low).some, fun ch isIn => ⟨bytes _ low ch isIn, ?_⟩⟩
  exact lt_trans (names.ascii _ low ch isIn) (by decide)

/-- Two targets differ in their nets' names or in their types. -/
theorem Finalized.target_ext (done : Finalized c opt s root t) (stored : Stored c opt.faultModel s)
    (names : TellingNames c) {a b : FNODE} (memA : a ∈ c.initTargetOrder t) (memB : b ∈ c.initTargetOrder t)
    (same : (a.name, a.type) = (b.name, b.type)) : a = b := by
  obtain ⟨lowA, namedA, -⟩ := createFaultNode_spec (stored.parsed_scan (done.target memA))
  obtain ⟨lowB, namedB, -⟩ := createFaultNode_spec (stored.parsed_scan (done.target memB))
  rw [Prod.mk.injEq] at same
  have net : a.netptr = b.netptr := by
    have sameName : c.name a.netptr = c.name b.netptr := by rw [namedA, namedB, same.1]
    have distinct := names.distinct
    rw [names_eq] at distinct
    exact List.inj_on_of_nodup_map distinct (List.mem_range.mpr lowA) (List.mem_range.mpr lowB) sameName
  apply done.target_unique memA memB
  rw [nodeId, nodeId, net, same.2]

/-- The cube files of the targets can be told apart. -/
theorem Finalized.apart (done : Finalized c opt s root t) (stored : Stored c opt.faultModel s)
    (names : TellingNames c) (bytes : CNames c) {results : List WrittenResult}
    (targets : results.map (·.target) = c.initTargetOrder t) (gmp : Gmp) (o : CubeOptions) :
    Apart (writeResults gmp c opt.faultModel o true results).cubes := by
  have isTarget : ∀ r ∈ results, r.target ∈ c.initTargetOrder t := fun r mem => by
    rw [← targets]
    exact List.mem_map_of_mem mem
  have files : ∀ e ∈ (writeResults gmp c opt.faultModel o true results).cubes,
      e.1 ∈ c.initTargetOrder t ∧ e.2 ≠ [] := by
    rw [writeResults_eq]
    intro e mem
    obtain ⟨r, isResult, isFile⟩ := List.mem_flatMap.mp mem
    split at isFile
    · cases isFile
    · rename_i some
      rw [List.mem_singleton] at isFile
      subst isFile
      exact ⟨isTarget r isResult, fun none => some (.inr none)⟩
  have part : ((writeResults gmp c opt.faultModel o true results).cubes.map (·.1)).Sublist
      (results.map (·.target)) := by
    rw [writeResults_eq]
    dsimp only
    clear targets isTarget files
    induction results with
    | nil => exact .slnil
    | cons r results ih =>
        rw [List.flatMap_cons, List.map_append, List.map_cons]
        split
        · exact ih.cons _
        · exact ih.cons_cons _
  refine ⟨fun e mem => stored.netName names bytes (done.target (files e mem).1), ?_,
    fun e mem => (files e mem).2⟩
  have nodup : ((writeResults gmp c opt.faultModel o true results).cubes.map (·.1)).Nodup :=
    (targets ▸ done.targets_nodup stored).sublist part
  have split : (writeResults gmp c opt.faultModel o true results).cubes.map (fun e => (e.1.name, e.1.type)) =
      ((writeResults gmp c opt.faultModel o true results).cubes.map (·.1)).map
      fun f => (f.name, f.type) := by
    rw [List.map_map]
    rfl
  rw [split]
  apply nodup.map_on
  intro a memA b memB same
  obtain ⟨e, isFile, rfl⟩ := List.mem_map.mp memA
  obtain ⟨e', isFile', rfl⟩ := List.mem_map.mp memB
  exact done.target_ext stored names (files e isFile).1 (files e' isFile').1 same

/-- After a run that succeeds each target with cubes to save has one file, which holds them, and there are no
other cube files, whatever was in the directory before. -/
theorem Finalized.holds_targets (done : Finalized c opt s root t) (stored : Stored c opt.faultModel s)
    (names : TellingNames c) (bytes : CNames c) {results : List WrittenResult}
    (targets : results.map (·.target) = c.initTargetOrder t) {gmp : Gmp} {o : CubeOptions}
    (holds : Holds opt.faultModel before header (writeResults gmp c opt.faultModel o true results).cubes d) :
    (∀ r ∈ results, d.lookup (cubeFilename opt.faultModel r.target) =
      if r.cubeBytes opt.faultModel o = [] then none else some (.regular (r.cubeBytes opt.faultModel o))) ∧
    ∀ name, isCubeFilename name = true → d.lookup name ≠ none →
      ∃ r ∈ results, name = cubeFilename opt.faultModel r.target := by
  have isTarget : ∀ r ∈ results, r.target ∈ c.initTargetOrder t := fun r mem => by
    rw [← targets]
    exact List.mem_map_of_mem mem
  have nodup : (results.map (·.target)).Nodup := targets ▸ done.targets_nodup stored
  have named : ∀ r ∈ results, NetName r.target.name := fun r mem =>
    stored.netName names bytes (done.target (isTarget r mem))
  -- the files come from the results that have a text
  have isFile : ∀ e, e ∈ (writeResults gmp c opt.faultModel o true results).cubes ↔
      ∃ r ∈ results, r.cubeBytes opt.faultModel o ≠ [] ∧ e = (r.target, r.cubeBytes opt.faultModel o) := by
    intro e
    rw [writeResults_eq]
    simp only [Bool.true_eq_false, false_or, List.mem_flatMap]
    refine exists_congr fun r => and_congr_right fun _ => ?_
    split
    · rename_i none
      simp only [List.not_mem_nil, none, ne_eq, not_true_eq_false, false_and]
    · rename_i some
      simp only [List.mem_singleton, ne_eq, some, not_false_eq_true, true_and]
  have same : ∀ r ∈ results, ∀ r' ∈ results,
      cubeFilename opt.faultModel r'.target = cubeFilename opt.faultModel r.target → r' = r := by
    intro r mem r' mem' alike
    apply List.inj_on_of_nodup_map nodup mem' mem
    exact done.target_ext stored names (isTarget r' mem') (isTarget r mem)
      (cubeFilename_inj (named r' mem') (named r mem) alike)
  refine ⟨fun r mem => ?_, fun name isCube some => ?_⟩
  · rw [holds.cubes _ (isCubeFilename_cubeFilename (named r mem))]
    cases found : (writeResults gmp c opt.faultModel o true results).cubes.find? fun e =>
        decide (cubeFilename opt.faultModel e.1 = cubeFilename opt.faultModel r.target) with
    | none =>
        rw [List.find?_eq_none] at found
        split
        · rfl
        · rename_i text
          exact absurd (decide_eq_true rfl) (found _ ((isFile _).mpr ⟨r, mem, text, rfl⟩))
    | some e =>
        obtain ⟨r', mem', text, rfl⟩ := (isFile e).mp (List.mem_of_find?_eq_some found)
        have alike := List.find?_some found
        obtain rfl := same r mem r' mem' (of_decide_eq_true alike)
        rw [if_neg text]
        rfl
  · rw [holds.cubes name isCube, Ne, Option.map_eq_none_iff] at some
    obtain ⟨e, found⟩ := Option.ne_none_iff_exists'.mp some
    obtain ⟨r, mem, -, rfl⟩ := (isFile e).mp (List.mem_of_find?_eq_some found)
    have alike := List.find?_some found
    exact ⟨r, mem, (of_decide_eq_true alike).symm⟩

end Netlist

open Netlist

/-- From the text of a netlist to the cube files, for an accepted text whose gates can be ordered and whose
nets have names without a NUL that a fault file can tell apart. Whatever was in a directory that the program
may use, after a run that succeeds in it the cube files are those of the targets: each target that has cubes
to save has one file, which holds them. -/
theorem cubeFiles_report (m : FaultModel) (text : List Char) (a : Accepted) (net : ReadNet) (c : Netlist)
    (accepted : readFile text = .ok a) (read : readNl text = .ok net)
    (prepared : prepareCircuit m net = some c) (acyclic : RecordsAcyclic a.records)
    (names : TellingNames c) (bytes : CNames c) (nets : 0 < c.nNet) (small : c.nNet ≤ intMax / 2)
    (opt : Opt) (model : opt.faultModel = m) (valid : ReadableFaults c opt) (pairs : List (Nat × Nat))
    (external : ExternalPairs c opt pairs) (s : FaultState) (empty : s.list = fun _ => []) :
    ∃ t, c.readFault opt s = some (true, t) ∧
      ∀ (gmp : Gmp) (o : CubeOptions) (results : List WrittenResult),
        results.map (·.target) = c.initTargetOrder t →
        ∀ (r : Refusals) (header : List UInt8) (w : FNODE → CubeWriting) (before d : Directory),
          cubeOutput m r header w (writeResults gmp c m o true results).cubes before = (true, d) →
            (∀ result ∈ results, d.lookup (cubeFilename m result.target) =
              if result.cubeBytes m o = [] then none else some (.regular (result.cubeBytes m o))) ∧
            ∀ name, isCubeFilename name = true → d.lookup name ≠ none →
              ∃ result ∈ results, name = cubeFilename m result.target := by
  subst model
  obtain ⟨graph, ordered⟩ := prepareCircuit_graph accepted read prepared
  obtain ⟨loaded, root, t, run, covered, done, -⟩ :=
    graph.toPairGraph.readFault_spec (ordered acyclic) names nets small valid external empty
  refine ⟨t, run, fun gmp o results targets r header w before d success => ?_⟩
  have apart := done.apart covered.stored names bytes targets gmp o
  have holds := @cubeOutput_holds opt.faultModel r header before w _ apart
  rw [success] at holds
  exact done.holds_targets covered.stored names bytes targets (holds rfl)

theorem cubeFiles_report_and : ∃ net c, readNl declaredText = .ok net ∧ prepareCircuit .SAF net = some c ∧
    ∃ t, c.readFault ⟨.SAF, none, none⟩ emptyFaultState = some (true, t) ∧
      ∀ (gmp : Gmp) (o : CubeOptions) (results : List WrittenResult),
        results.map (·.target) = c.initTargetOrder t →
        ∀ (r : Refusals) (header : List UInt8) (w : FNODE → CubeWriting) (before d : Directory),
          cubeOutput .SAF r header w (writeResults gmp c .SAF o true results).cubes before = (true, d) →
            (∀ result ∈ results, d.lookup (cubeFilename .SAF result.target) =
              if result.cubeBytes .SAF o = [] then none else some (.regular (result.cubeBytes .SAF o))) ∧
            ∀ name, isCubeFilename name = true → d.lookup name ≠ none →
              ∃ result ∈ results, name = cubeFilename .SAF result.target := by
  obtain ⟨a, net, c, accepted, -, read, prepared, records, names, size⟩ := declaredText_read
  refine ⟨net, c, read, prepared, cubeFiles_report .SAF declaredText a net c accepted read prepared
    (records ▸ readyText_and.acyclic) (tellingNames_and names) ?_ ?_ ?_ ⟨.SAF, none, none⟩ rfl ?_ [] rfl
    emptyFaultState rfl⟩
  · have positive : ∀ name ∈ ["a".toList, "b".toList, "z".toList], ∀ ch ∈ name, 0 < ch.toNat := by
      intro name mem
      simp only [List.mem_cons, List.not_mem_nil, or_false] at mem
      rcases mem with rfl | rfl | rfl <;> exact List.forall_mem_singleton.mpr (by decide)
    intro n low
    apply positive _
    rw [← names]
    exact List.mem_map_of_mem (List.mem_range.mpr low)
  · rw [size]
    decide
  · rw [size]
    decide
  · intro file isFile
    cases isFile

end SafRprGen
