/-
Module: SafRprGen.Output.CubeText
Layer: Output
Purpose: The names of the cube files (`cube_text.c`). The name of a fault's file is its net's name in
  percent encoding followed by the fault type and a fixed ending, so the ending has one length and the
  net's name is what decoding the rest gives back.
Main exports: cubeFilename, isCubeFilename, faultName, cubeFilename_spec
-/
import SafRprGen.Lib.Percent
import SafRprGen.Fault.FaultList

namespace SafRprGen

open Percent

/-- `IsFilenameChar`. -/
def isFilenameChar (c : Char) : Bool :=
  decide ('a' ≤ c ∧ c ≤ 'z') || decide ('A' ≤ c ∧ c ≤ 'Z') || decide ('0' ≤ c ∧ c ≤ '9') ||
    c = '_' || c = '-' || c = '.'

/-- `_%s_cube.txt`. -/
def cubeSuffix (m : FaultModel) (type : FaultType) : CStr :=
  '_' :: faultTypeName m type ++ "_cube.txt".toList

/-- `CubeFilename`. -/
def cubeFilename (m : FaultModel) (fault : FNODE) : CStr :=
  encode isFilenameChar fault.name ++ cubeSuffix m fault.type

/-- The suffixes of the names that a later run removes; the last four are those of an older version. -/
def suffixes : List CStr :=
  ["_sa0_cube.txt".toList, "_sa1_cube.txt".toList, "_STR_cube.txt".toList, "_STF_cube.txt".toList,
    "__sa0.txt".toList, "__sa1.txt".toList, "__STR.txt".toList, "__STF.txt".toList]

/-- `IsCubeFilename`. -/
def isCubeFilename (name : CStr) : Bool :=
  suffixes.any fun suffix =>
    decide (suffix.length < name.length) && name.drop (name.length - suffix.length) = suffix

/-- `marker_name`. -/
def markerName : CStr := ".fdp-cube-output".toList

/-- The name of a net as C has it: bytes other than NUL, at least one. -/
structure NetName (name : CStr) : Prop where
  nonempty : name ≠ []
  bytes : ∀ ch ∈ name, 0 < ch.toNat ∧ ch.toNat < 256

/-- The net's name in a cube file's name. -/
def faultName (file : CStr) : CStr := decode (file.take (file.length - 13))

variable {m : FaultModel}

/-! ### The suffix -/

theorem length_cubeSuffix (m : FaultModel) (type : FaultType) : (cubeSuffix m type).length = 13 := by
  cases m <;> cases type <;> rfl

theorem cubeSuffix_mem (m : FaultModel) (type : FaultType) : cubeSuffix m type ∈ suffixes := by
  cases m <;> cases type <;> decide

theorem cubeSuffix_inj {type type' : FaultType} (same : cubeSuffix m type = cubeSuffix m type') :
    type = type' := by
  cases m <;> cases type <;> cases type' <;> first | rfl | exact absurd same (by decide)

theorem slash_cubeSuffix (m : FaultModel) (type : FaultType) : '/' ∉ cubeSuffix m type := by
  cases m <;> cases type <;> decide

/-! ### File names -/

theorem length_cubeFilename (fault : FNODE) :
    (cubeFilename m fault).length = (encode isFilenameChar fault.name).length + 13 := by
  rw [cubeFilename, List.length_append, length_cubeSuffix]

/-- The name with its NUL fits the buffer that `CubeFilename` allocates. -/
theorem cubeFilename_fits (fault : FNODE) :
    (cubeFilename m fault).length + 1 ≤ 3 * fault.name.length + 32 := by
  have := (@length_encode isFilenameChar fault.name).2
  rw [length_cubeFilename]
  omega

/-- The name of the net can be read back. -/
theorem faultName_cubeFilename {fault : FNODE} (named : NetName fault.name) :
    faultName (cubeFilename m fault) = fault.name := by
  rw [faultName, length_cubeFilename, Nat.add_sub_cancel, cubeFilename, List.take_left]
  exact decode_encode (by decide) fun ch mem => (named.bytes ch mem).2

theorem slash_cubeFilename {fault : FNODE} (named : NetName fault.name) :
    '/' ∉ cubeFilename m fault := by
  intro mem
  rcases List.mem_append.mp mem with mem | mem
  · rcases mem_encode (fun ch of => (named.bytes ch of).2) mem with plain | percent | ⟨n, low, digit⟩
    · exact absurd plain (by decide)
    · exact absurd percent (by decide)
    · have noDigit : ∀ n < 16, '/' ≠ hexDigit n := by decide
      exact noDigit n low digit
  · exact slash_cubeSuffix m fault.type mem

theorem isCubeFilename_cubeFilename {fault : FNODE} (named : NetName fault.name) :
    isCubeFilename (cubeFilename m fault) = true := by
  have long := (@length_encode isFilenameChar fault.name).1
  have some := List.length_pos_iff.mpr named.nonempty
  refine List.any_eq_true.mpr ⟨_, cubeSuffix_mem m fault.type, ?_⟩
  rw [length_cubeFilename, length_cubeSuffix, Nat.add_sub_cancel, cubeFilename, List.drop_left]
  simp only [decide_true, Bool.and_true, decide_eq_true_eq]
  omega

/-- Cube files have names of their own: without a slash, recognised by a later run, other than the
marker's, and different for different faults, since they name the net and its fault type. -/
theorem cubeFilename_spec (fault : FNODE) (named : NetName fault.name) :
    '/' ∉ cubeFilename m fault ∧ isCubeFilename (cubeFilename m fault) = true ∧
      cubeFilename m fault ≠ markerName ∧ faultName (cubeFilename m fault) = fault.name ∧
      ∀ other : FNODE, NetName other.name → (other.name, other.type) ≠ (fault.name, fault.type) →
        cubeFilename m other ≠ cubeFilename m fault := by
  refine ⟨slash_cubeFilename named, isCubeFilename_cubeFilename named, ?_,
    faultName_cubeFilename named, ?_⟩
  · intro same
    have recognised := @isCubeFilename_cubeFilename m fault named
    rw [same] at recognised
    exact absurd recognised (by decide)
  · intro other named' differ same
    have name : other.name = fault.name := by
      rw [← @faultName_cubeFilename m other named', same, faultName_cubeFilename named]
    rw [cubeFilename, cubeFilename, name] at same
    have type := cubeSuffix_inj (List.append_cancel_left same)
    exact differ (by rw [name, type])

/-- A fault of the net `a/b%\c`. -/
def escapedFault : FNODE := ⟨"a/b%\\c\tsa0\n".toList, "a/b%\\c".toList, .SF0, 0, none⟩

theorem cubeFilename_spec_escaped :
    cubeFilename .SAF escapedFault = "a%2Fb%25%5Cc_sa0_cube.txt".toList ∧
      isCubeFilename (cubeFilename .SAF escapedFault) = true ∧
      faultName (cubeFilename .SAF escapedFault) = "a/b%\\c".toList :=
  have spec := @cubeFilename_spec .SAF escapedFault
    ⟨by decide, @of_decide_eq_true _ (List.decidableBAll _ _) (by decide)⟩
  ⟨by decide, spec.2.1, spec.2.2.2.1⟩

end SafRprGen
