import Mathlib.Data.List.Dedup
import Ordexus.Vm.ProgramImage

/-!
# Loading an encoded program

An image is loaded as the program it was encoded from if it is not too long for the loader and its
first bytes do not read as the length field of a legacy program. The encoders bound the code and
the data, but the loader bounds the whole image; and in an image with a manifest the format codes
stand where the length of a legacy program stands.
-/

namespace Ordexus.Vm

open Checked Borsh List

/-! ### Normalized manifests -/

section

variable {manifest normalized : ProgramManifest} {collected syscallIDs result : List SyscallID}

theorem collectSyscalls_eq_ok (h : collectSyscalls collected syscallIDs = .ok result)
    (hnodup : collected.Nodup) (hpos : 0 ∉ collected) :
    result.Nodup ∧ 0 ∉ result ∧ ∀ syscallID, syscallID ∈ result ↔
      syscallID ∈ collected ∨ syscallID ∈ syscallIDs := by
  induction syscallIDs generalizing collected with
  | nil =>
    cases h
    exact ⟨hnodup, hpos, by simp⟩
  | cons first syscallIDs ih =>
    simp only [collectSyscalls, eq_ok] at h
    obtain ⟨hfirst, h⟩ := h
    split at h
    · next hmem =>
      obtain ⟨hresult, hzero, hmembers⟩ := ih h hnodup hpos
      refine ⟨hresult, hzero, fun syscallID => ?_⟩
      have hfound : syscallID = first → syscallID ∈ collected := fun hsame => hsame ▸ hmem
      rw [hmembers, mem_cons]
      tauto
    · next hnew =>
      have hextended : (collected ++ [first]).Nodup := by
        simpa using hnodup.concat hnew
      have hnonzero : 0 ∉ collected ++ [first] := by
        simp [hpos, Ne.symm hfirst]
      obtain ⟨hresult, hzero, hmembers⟩ := ih h hextended hnonzero
      refine ⟨hresult, hzero, fun syscallID => ?_⟩
      rw [hmembers, mem_append, mem_singleton, mem_cons, or_assoc]

/-- Distinct nonzero system calls are collected as they are. -/
theorem collectSyscalls_of_nodup (hnodup : (collected ++ syscallIDs).Nodup)
    (hpos : 0 ∉ syscallIDs) :
    collectSyscalls collected syscallIDs = .ok (collected ++ syscallIDs) := by
  induction syscallIDs generalizing collected with
  | nil => simp [collectSyscalls]
  | cons first syscallIDs ih =>
    have hfirst : first ≠ 0 := fun hzero => hpos (hzero ▸ mem_cons_self)
    have hnew : first ∉ collected := fun hmem =>
      (nodup_append.mp hnodup).2.2 first hmem first mem_cons_self rfl
    have hrest := @ih (collected ++ [first]) (by simpa using hnodup)
      fun hmem => hpos (mem_cons_of_mem _ hmem)
    simp only [collectSyscalls, eq_ok]
    refine ⟨hfirst, ?_⟩
    rw [if_neg hnew, hrest]
    simp

/-- The limits hold, and the system calls are those of the manifest, sorted and without
repetition. -/
structure Normalizes (manifest normalized : ProgramManifest) : Prop where
  computeUnitLimit : normalized.computeUnitLimit = manifest.computeUnitLimit
  limit : manifest.computeUnitLimit ≤ maxComputeUnitLimit
  upgradeAuthority : normalized.upgradeAuthority = manifest.upgradeAuthority
  sorted : normalized.requiredSyscalls.Pairwise (· ≤ ·)
  nodup : normalized.requiredSyscalls.Nodup
  nonzero : 0 ∉ normalized.requiredSyscalls
  count : normalized.requiredSyscalls.length = manifest.requiredSyscalls.dedup.length
  few : normalized.requiredSyscalls.length ≤ maxProgramSyscallCount

theorem normalizeProgramManifest_eq_ok (h : normalizeProgramManifest manifest = .ok normalized) :
    Normalizes manifest normalized := by
  simp only [normalizeProgramManifest, eq_ok] at h
  obtain ⟨hlimit, hfew, collected, hcollected, rfl⟩ := h
  obtain ⟨hnodup, hzero, hmembers⟩ := collectSyscalls_eq_ok hcollected .nil (by simp)
  have hperm : collected.Perm manifest.requiredSyscalls.dedup := by
    rw [perm_ext_iff_of_nodup hnodup (nodup_dedup _)]
    intro syscallID
    rw [hmembers]
    simp
  have hsorted := perm_insertionSort (· ≤ ·) collected
  have hcount := hsorted.length_eq.trans hperm.length_eq
  exact
    { computeUnitLimit := rfl
      limit := not_lt.mp hlimit
      upgradeAuthority := rfl
      sorted := pairwise_insertionSort _ _
      nodup := hsorted.nodup_iff.mpr hnodup
      nonzero := fun hmem => hzero (hsorted.mem_iff.mp hmem)
      count := hcount
      few := hcount.le.trans ((dedup_sublist _).length_le.trans (not_lt.mp hfew)) }

theorem Normalizes.idempotent (h : Normalizes manifest normalized) :
    normalizeProgramManifest normalized = .ok normalized := by
  have hcollected := @collectSyscalls_of_nodup [] normalized.requiredSyscalls h.nodup h.nonzero
  simp only [normalizeProgramManifest, eq_ok]
  refine ⟨not_lt.mpr (h.computeUnitLimit ▸ h.limit), not_lt.mpr h.few, _, hcollected, ?_⟩
  rw [nil_append, h.sorted.insertionSort_eq]

end

/-! ### Reading an image -/

section

variable {sha256 : Bytes → Hash} {rest checksum : Bytes} {address loaderID : PublicKey}

/-- A program account of the loader. -/
def imageAccount (address loaderID : PublicKey) (image : Bytes) : ProgramAccount :=
  { address, owner := loaderID, executable := true, data := image }

/-- The formats, in the order in which they are tried. -/
def loadFormats (sha256 : Bytes → Hash) (data : Bytes) : Except String Program :=
  match loadLegacyProgram bytecodeVersion data with
  | some program => pure program
  | none =>
    match loadManifestProgram sha256 bytecodeVersion data with
    | some program => program
    | none => loadRegisterProgram sha256 bytecodeVersion data

/-- The start that all images have in common. -/
def envelope (rest : Bytes) : Bytes :=
  bytecodeHeader ++ (littleEndian 2 bytecodeVersion ++ rest)

@[simp] theorem envelope_length (rest : Bytes) : (envelope rest).length = rest.length + 6 := by
  simp [envelope, bytecodeHeader]
  omega

theorem readInto_append {first : Bytes} (h : first ≠ []) :
    readInto first.length (first ++ rest) = .ok (first, rest) := by
  simp only [readInto, eq_ok]
  exact ⟨by simp [h], by simp⟩

/-- The magic and the version of an image are accepted. -/
theorem load_envelope (hlength : (envelope rest).length ≤ maxProgramDataSize) :
    load sha256 (imageAccount address loaderID (envelope rest)) loaderID =
      loadFormats sha256 (envelope rest) := by
  have hheader : readInto 4 (envelope rest) =
      .ok (bytecodeHeader, littleEndian 2 bytecodeVersion ++ rest) :=
    @readInto_append _ bytecodeHeader (by decide)
  have hversion : readInto 2 (littleEndian 2 bytecodeVersion ++ rest) =
      .ok (littleEndian 2 bytecodeVersion, rest) :=
    @readInto_append _ (littleEndian 2 bytecodeVersion) (by decide)
  have hnumber : ofLittleEndian (littleEndian 2 bytecodeVersion) = bytecodeVersion := by decide
  have hsupported : isSupportedBytecodeHeader bytecodeHeader = true := by decide
  simp only [load, imageAccount, bind, Except.bind, withContext, hheader, hversion, hnumber,
    hsupported, failIf, not_lt.mpr hlength, ne_eq, not_true_eq_false, Bool.true_eq_false, if_false]
  rfl

/-- An image that is longer than the loader allows is refused. -/
theorem length_le_of_load {image : Bytes} {program : Program}
    (h : load sha256 (imageAccount address loaderID image) loaderID = .ok program) :
    image.length ≤ maxProgramDataSize := by
  simp only [load, eq_ok] at h
  obtain ⟨-, -, hfits, -⟩ := h
  exact not_lt.mp hfits

theorem checksumMatches_withChecksum (image : Bytes) :
    checksumMatches sha256 (withChecksum sha256 image) = true := by
  have hlength : (withChecksum sha256 image).length - registerChecksumSize = image.length := by
    simp [withChecksum]
  rw [checksumMatches, hlength, withChecksum, take_left, drop_left]
  exact decide_eq_true rfl

theorem exists_checksum {body image : Bytes} (h : withChecksum sha256 body = image) :
    ∃ checksum : Bytes, checksum.length = 32 ∧ checksumMatches sha256 image = true ∧
      image = body ++ checksum :=
  ⟨_, bigEndian_length _ _, h ▸ checksumMatches_withChecksum body, h.symm⟩

/-- Two format codes in front of other bytes, read as the length of a legacy program. -/
theorem legacyLength_eq (hfront : 4 ≤ rest.length) :
    uintAt (envelope rest) 6 10 =
      uintAt (envelope rest) 6 8 + 65536 * uintAt (envelope rest) 8 10 :=
  uintAt_adjacent (by omega) (by omega) (by rw [envelope_length]; omega)

/-- An image is a legacy program if and only if its length field says so. -/
theorem loadLegacyProgram_envelope (version : ℕ) (hfront : 4 ≤ rest.length) :
    loadLegacyProgram version (envelope rest) =
      if uintAt (envelope rest) 6 10 = 0 ∨ uintAt (envelope rest) 6 10 ≠ rest.length - 4 then none
      else some
        { version, format := .legacy, code := (envelope rest).drop 10, readOnlyData := []
          manifest := none } := by
  have hlength : ¬(envelope rest).length < 10 := by
    rw [envelope_length]
    omega
  have hbehind : (envelope rest).length - 10 = rest.length - 4 := by
    rw [envelope_length]
    omega
  simp only [loadLegacyProgram, if_neg hlength, hbehind]

theorem loadLegacyProgram_eq_some {version : ℕ} {data : Bytes} {program : Program}
    (h : loadLegacyProgram version data = some program) :
    program.format = .legacy ∧ program.manifest = none := by
  unfold loadLegacyProgram at h
  split at h
  · cases h
  · dsimp only at h
    split at h
    · cases h
    · cases h
      exact ⟨rfl, rfl⟩

end

/-! ### The images of the encoders -/

section

variable {sha256 : Bytes → Hash} {code readOnlyData checksum body image : Bytes}

/-- What follows the envelope in the register format. -/
def registerBody (code readOnlyData checksum : Bytes) : Bytes :=
  littleEndian 2 ProgramFormat.register.code ++ (littleEndian 4 code.length ++
    (littleEndian 4 readOnlyData.length ++ (code ++ (readOnlyData ++ checksum))))

/-- What follows the envelope in the format with a manifest. -/
def manifestBody (format : ProgramFormat) (manifest : ProgramManifest)
    (code readOnlyData checksum : Bytes) : Bytes :=
  littleEndian 2 ProgramFormat.manifest.code ++ (littleEndian 2 format.code ++
    (littleEndian 2 0 ++ (littleEndian 8 manifest.computeUnitLimit ++
      (bigEndian 32 manifest.upgradeAuthority ++
        (littleEndian 2 manifest.requiredSyscalls.length ++ (littleEndian 4 code.length ++
          (littleEndian 4 readOnlyData.length ++ (encodeSyscalls manifest.requiredSyscalls ++
            (code ++ (readOnlyData ++ checksum))))))))))

@[simp] theorem encodeSyscalls_length (syscallIDs : List SyscallID) :
    (encodeSyscalls syscallIDs).length = 4 * syscallIDs.length := by
  simp [encodeSyscalls, length_flatMap, Nat.mul_comm]

theorem registerBody_length : (registerBody code readOnlyData checksum).length =
    code.length + readOnlyData.length + checksum.length + 10 := by
  simp [registerBody]
  omega

theorem manifestBody_length (format : ProgramFormat) (manifest : ProgramManifest) :
    (manifestBody format manifest code readOnlyData checksum).length =
      4 * manifest.requiredSyscalls.length + code.length + readOnlyData.length +
        checksum.length + 56 := by
  simp [manifestBody]
  omega

theorem loadFormats_legacy (hcode : code ≠ []) (hlength : code.length < 256 ^ 4) :
    loadFormats sha256 (envelope (littleEndian 4 code.length ++ code)) =
      .ok
        { version := bytecodeVersion, format := .legacy, code := code, readOnlyData := []
          manifest := none } := by
  have hfield : uintAt (envelope (littleEndian 4 code.length ++ code)) 6 10 = code.length :=
    uintAt_front hlength
  have hdrop : (envelope (littleEndian 4 code.length ++ code)).drop 10 = code := by
    have hfront : (bytecodeHeader ++ littleEndian 2 bytecodeVersion ++
        littleEndian 4 code.length).length = 10 := by
      simp [bytecodeHeader]
    rw [envelope, ← append_assoc, ← append_assoc, drop_left' hfront]
  have hlegacy := @loadLegacyProgram_envelope (littleEndian 4 code.length ++ code)
    bytecodeVersion (by simp)
  rw [hfield, if_neg (by simp [hcode])] at hlegacy
  rw [loadFormats, hlegacy]
  rfl

/-! The register format -/

theorem registerBody_fields (hbody : registerBody code readOnlyData checksum = body)
    (hfits : (envelope body).length ≤ maxProgramDataSize) :
    uintAt (envelope body) 6 8 = 1 ∧ uintAt (envelope body) 8 12 = code.length ∧
      uintAt (envelope body) 12 16 = readOnlyData.length := by
  subst hbody
  rw [envelope_length, registerBody_length] at hfits
  have hlimit : maxProgramDataSize < 256 ^ 4 := by decide
  have hcode : code.length < 256 ^ 4 := by omega
  have hreadOnly : readOnlyData.length < 256 ^ 4 := by omega
  exact ⟨uintAt_front (by decide), uintAt_front hcode, uintAt_front hreadOnly⟩

/-- Two sections one after the other. -/
theorem slice_sections {front : Bytes} {start : ℕ} (hfront : front.length = start) :
    slice (front ++ (code ++ (readOnlyData ++ checksum))) start (start + code.length) = code ∧
      slice (front ++ (code ++ (readOnlyData ++ checksum))) (start + code.length)
        (start + code.length + readOnlyData.length) = readOnlyData := by
  subst hfront
  constructor
  · rw [slice_append_right le_rfl, Nat.sub_self, Nat.add_sub_cancel_left, slice_front rfl]
  · rw [slice_append_right (by omega), slice_append_right (by omega)]
    have hstart : front.length + code.length - front.length - code.length = 0 := by omega
    have hstop : front.length + code.length + readOnlyData.length - front.length - code.length =
        readOnlyData.length := by omega
    rw [hstart, hstop, slice_front rfl]

theorem registerImage_sections
    (himage : envelope (registerBody code readOnlyData checksum) = image) :
    slice image registerHeaderSize (registerHeaderSize + code.length) = code ∧
      slice image (registerHeaderSize + code.length)
        (registerHeaderSize + code.length + readOnlyData.length) = readOnlyData := by
  have hfront : (bytecodeHeader ++ (littleEndian 2 bytecodeVersion ++
      (littleEndian 2 ProgramFormat.register.code ++ (littleEndian 4 code.length ++
        littleEndian 4 readOnlyData.length)))).length = registerHeaderSize := by
    simp [bytecodeHeader, registerHeaderSize]
  have hsections := @slice_sections code readOnlyData checksum _ _ hfront
  subst himage
  unfold envelope registerBody
  simpa only [append_assoc] using hsections

section

variable (hbody : registerBody code readOnlyData checksum = body) (hcode : 0 < code.length)
  (haligned : code.length % registerInstructionSize = 0) (hchecksum : checksum.length = 32)
  (hfits : (envelope body).length ≤ maxProgramDataSize)
include hbody hcode haligned hchecksum hfits

/-- No program in the register format that the loader accepts reads as a legacy program: the low
half of its code length would have to be sixteen, and the image longer than the loader allows. -/
theorem loadLegacyProgram_register :
    loadLegacyProgram bytecodeVersion (envelope body) = none := by
  have hlength := hbody ▸ @registerBody_length code readOnlyData checksum
  obtain ⟨hformat, hcodeField, -⟩ := registerBody_fields hbody hfits
  unfold maxProgramDataSize at hfits
  unfold registerInstructionSize at haligned
  have himage := envelope_length body
  have hsplit := @uintAt_adjacent (envelope body) 8 12 10 (by omega) (by omega) (by omega)
  have hlow := uintAt_lt (envelope body) 8 10
  rw [loadLegacyProgram_envelope _ (by omega), legacyLength_eq (by omega)]
  refine if_pos (.inr ?_)
  omega

theorem loadFormats_register (hreadOnly : readOnlyData.length ≤ maxReadOnlyDataSize)
    (hmatches : checksumMatches sha256 (envelope body) = true) :
    loadFormats sha256 (envelope body) =
      .ok
        { version := bytecodeVersion, format := .register, code := code
          readOnlyData := readOnlyData, manifest := none } := by
  have hlength := hbody ▸ @registerBody_length code readOnlyData checksum
  obtain ⟨hformat, hcodeField, hreadOnlyField⟩ := registerBody_fields hbody hfits
  have hmanifest : loadManifestProgram sha256 bytecodeVersion (envelope body) = none := by
    unfold loadManifestProgram
    split
    · rfl
    · rw [hformat]
      exact if_pos (by decide)
  rw [loadFormats, loadLegacyProgram_register hbody hcode haligned hchecksum hfits, hmanifest]
  obtain ⟨hcodeSection, hreadOnlySection⟩ := registerImage_sections (congrArg envelope hbody)
  simp only [loadRegisterProgram, eq_ok, hcodeField, hreadOnlyField, hformat, hcodeSection,
    hreadOnlySection]
  refine ⟨?_, by simp [hmatches], by decide, ?_, not_lt.mpr hreadOnly, ?_, trivial⟩
  · rw [envelope_length, registerHeaderSize, registerChecksumSize]
    omega
  · rw [not_or, not_not]
    exact ⟨by omega, haligned⟩
  · rw [envelope_length, registerHeaderSize, registerChecksumSize]
    omega

end

/-! The format with a manifest -/

theorem uintAt_encodeSyscalls {syscallIDs : List SyscallID} {rest : Bytes} {index : ℕ}
    (h : index < syscallIDs.length) :
    uintAt (encodeSyscalls syscallIDs ++ rest) (index * 4) (index * 4 + 4) =
      syscallIDs[index].toNat := by
  induction syscallIDs generalizing index with
  | nil => simp at h
  | cons first syscallIDs ih =>
    rw [encodeSyscalls, flatMap_cons, append_assoc]
    cases index with
    | zero => exact uintAt_front first.toNat_lt
    | succ index =>
      rw [uintAt_append_right (by simp), littleEndian_length, getElem_cons_succ,
        ← ih (by simpa using h)]
      congr 1 <;> omega

theorem readSyscalls_append {front rest : Bytes} {syscallIDs : List SyscallID}
    (hfront : front.length = manifestHeaderSize) :
    readSyscalls (front ++ (encodeSyscalls syscallIDs ++ rest)) syscallIDs.length =
      syscallIDs := by
  refine ext_getElem (by simp [readSyscalls]) fun index hleft hright => ?_
  have hfield := @uintAt_encodeSyscalls syscallIDs rest index hright
  simp only [readSyscalls, getElem_map, getElem_range]
  rw [uintAt_append_right (by omega), hfront]
  have hstart : manifestHeaderSize + index * 4 - manifestHeaderSize = index * 4 := by omega
  have hstop : manifestHeaderSize + index * 4 + 4 - manifestHeaderSize = index * 4 + 4 := by omega
  rw [hstart, hstop, hfield, UInt32.ofNat_toNat]

section

variable {format : ProgramFormat} {manifest : ProgramManifest}
  (hbody : manifestBody format manifest code readOnlyData checksum = body)

include hbody

theorem manifestBody_fields (hcode : code.length < 256 ^ 4)
    (hreadOnly : readOnlyData.length < 256 ^ 4) (hformat : format.code < 256 ^ 2)
    (hlimit : manifest.computeUnitLimit < 256 ^ 8)
    (hcount : manifest.requiredSyscalls.length < 256 ^ 2) :
    uintAt (envelope body) 8 10 = format.code ∧ uintAt (envelope body) 10 12 = 0 ∧
      uintAt (envelope body) 12 20 = manifest.computeUnitLimit ∧
      slice (envelope body) 20 52 = bigEndian 32 manifest.upgradeAuthority ∧
      uintAt (envelope body) 52 54 = manifest.requiredSyscalls.length ∧
      uintAt (envelope body) 54 58 = code.length ∧
      uintAt (envelope body) 58 62 = readOnlyData.length := by
  rw [← hbody]
  exact ⟨uintAt_front hformat, uintAt_front (by decide), uintAt_front hlimit,
    slice_front (bigEndian_length _ _), uintAt_front hcount, uintAt_front hcode,
    uintAt_front hreadOnly⟩

/-- The two format codes of an image with a manifest, read as a length. -/
theorem loadLegacyProgram_manifest (hchecksum : checksum.length = 32)
    (hformat : format.code < 256 ^ 2) :
    loadLegacyProgram bytecodeVersion (envelope body) = none ↔
      2 + 65536 * format.code ≠ 4 * manifest.requiredSyscalls.length + code.length +
        readOnlyData.length + 84 := by
  have hlength := hbody ▸ @manifestBody_length code readOnlyData checksum format manifest
  have hfirst : uintAt (envelope body) 6 8 = 2 := hbody ▸ uintAt_front (by decide)
  have hsecond : uintAt (envelope body) 8 10 = format.code := hbody ▸ uintAt_front hformat
  rw [loadLegacyProgram_envelope _ (by omega), legacyLength_eq (by omega)]
  split
  · simp only [true_iff]
    omega
  · simp only [reduceCtorEq, false_iff]
    omega

/-- The header of fixed size in front of the system calls. -/
def manifestHeader (format : ProgramFormat) (manifest : ProgramManifest)
    (codeLength readOnlyLength : ℕ) : Bytes :=
  envelope (littleEndian 2 ProgramFormat.manifest.code ++ (littleEndian 2 format.code ++
    (littleEndian 2 0 ++ (littleEndian 8 manifest.computeUnitLimit ++
      (bigEndian 32 manifest.upgradeAuthority ++
        (littleEndian 2 manifest.requiredSyscalls.length ++
          (littleEndian 4 codeLength ++ littleEndian 4 readOnlyLength)))))))

omit hbody in
theorem manifestHeader_length (codeLength readOnlyLength : ℕ) :
    (manifestHeader format manifest codeLength readOnlyLength).length = manifestHeaderSize := by
  simp [manifestHeader, manifestHeaderSize]

theorem envelope_manifestBody :
    envelope body = manifestHeader format manifest code.length readOnlyData.length ++
      (encodeSyscalls manifest.requiredSyscalls ++ (code ++ (readOnlyData ++ checksum))) := by
  simp only [← hbody, envelope, manifestBody, manifestHeader, append_assoc]

theorem manifestImage_sections {start : ℕ}
    (hstart : manifestHeaderSize + manifest.requiredSyscalls.length * 4 = start) :
    slice (envelope body) start (start + code.length) = code ∧
      slice (envelope body) (start + code.length) (start + code.length + readOnlyData.length) =
        readOnlyData := by
  have hfront : (manifestHeader format manifest code.length readOnlyData.length ++
      encodeSyscalls manifest.requiredSyscalls).length = start := by
    rw [length_append, manifestHeader_length, encodeSyscalls_length]
    omega
  rw [envelope_manifestBody hbody]
  exact slice_sections hfront

theorem readSyscalls_manifestImage :
    readSyscalls (envelope body) manifest.requiredSyscalls.length = manifest.requiredSyscalls := by
  rw [envelope_manifestBody hbody]
  exact readSyscalls_append (manifestHeader_length _ _)

/-- What is read from an image with a normalized manifest. -/
theorem readManifestProgram_image {source : ProgramManifest}
    (hmanifest : Normalizes source manifest) (hauthority : manifest.upgradeAuthority < 256 ^ 32)
    (hcode : 0 < code.length)
    (hformat : format = .legacy ∨ format = .register ∧ code.length % registerInstructionSize = 0)
    (hreadOnly : readOnlyData.length ≤ maxReadOnlyDataSize) (hchecksum : checksum.length = 32)
    (hmatches : checksumMatches sha256 (envelope body) = true)
    (hfits : (envelope body).length ≤ maxProgramDataSize) :
    readManifestProgram sha256 bytecodeVersion (envelope body) =
      .ok
        { version := bytecodeVersion, format := format, code := code
          readOnlyData := readOnlyData, manifest := some manifest } := by
  have hlength := hbody ▸ @manifestBody_length code readOnlyData checksum format manifest
  have hsize := hfits
  rw [envelope_length] at hsize
  unfold maxProgramDataSize at hsize
  have hlimit : manifest.computeUnitLimit ≤ maxComputeUnitLimit :=
    hmanifest.computeUnitLimit ▸ hmanifest.limit
  unfold maxComputeUnitLimit at hlimit
  have hknown : format.code < 256 ^ 2 ∧ ProgramFormat.ofCode format.code = format ∧
      (format = .legacy ∨ format = .register) := by
    rcases hformat with rfl | ⟨rfl, -⟩ <;> decide
  obtain ⟨hcodeBound, hdecoded, hkinds⟩ := hknown
  have hfew : manifest.requiredSyscalls.length ≤ 64 := hmanifest.few
  obtain ⟨hformatField, hflags, hlimitField, hauthorityField, hcountField, hcodeField,
    hreadOnlyField⟩ := manifestBody_fields hbody (by norm_num; omega) (by omega)
      hcodeBound (by omega) (by omega)
  obtain ⟨hcodeSection, hreadOnlySection⟩ := manifestImage_sections hbody rfl
  simp (disch := omega) only [readManifestProgram, eq_ok, hformatField, hflags, hlimitField,
    hauthorityField, hcountField, hcodeField, hreadOnlyField, hdecoded,
    readSyscalls_manifestImage hbody, hcodeSection, hreadOnlySection,
    ofBigEndian_bigEndian hauthority]
  refine ⟨by simp [hmatches], ?_, by simp, not_lt.mpr hmanifest.few, by omega, ?_,
    not_lt.mpr hreadOnly, ?_, manifest, hmanifest.idempotent, by simp, rfl⟩
  · rintro ⟨hlegacy, hregister⟩
    exact hkinds.elim hlegacy hregister
  · rintro ⟨hregister, haligned⟩
    rcases hformat with hlegacy | ⟨-, hdivides⟩
    · exact absurd (hlegacy.symm.trans hregister) (by decide)
    · exact haligned hdivides
  · rw [envelope_length, manifestHeaderSize, registerChecksumSize]
    omega

theorem loadManifestProgram_image (hchecksum : checksum.length = 32) :
    loadManifestProgram sha256 bytecodeVersion (envelope body) =
      some (readManifestProgram sha256 bytecodeVersion (envelope body)) := by
  have hcode : uintAt (envelope body) 6 8 = ProgramFormat.manifest.code :=
    hbody ▸ uintAt_front (by decide)
  rw [loadManifestProgram, if_neg, if_neg (not_not.mpr hcode)]
  rw [envelope_length, ← hbody, manifestBody_length, manifestHeaderSize, registerChecksumSize]
  omega

end

/-! What the encoders return -/

theorem encodeRegisterBytecode_eq_ok {image : Bytes}
    (h : encodeRegisterBytecode sha256 code readOnlyData = .ok image) :
    0 < code.length ∧ code.length % registerInstructionSize = 0 ∧
      readOnlyData.length ≤ maxReadOnlyDataSize ∧
      ∃ checksum : Bytes, checksum.length = 32 ∧ checksumMatches sha256 image = true ∧
        image = envelope (registerBody code readOnlyData checksum) := by
  simp only [encodeRegisterBytecode, checkRegisterLengths, eq_ok] at h
  obtain ⟨⟨hcode, haligned, -, hreadOnly⟩, himage⟩ := h
  obtain ⟨checksum, hchecksum, hmatches, himage⟩ := exists_checksum himage
  refine ⟨length_pos_iff.mpr hcode, not_not.mp haligned, not_lt.mp hreadOnly, checksum,
    hchecksum, hmatches, ?_⟩
  simp only [himage, envelope, registerBody, append_assoc]

theorem encodeManifestBytecode_eq_ok {format : ProgramFormat} {manifest : ProgramManifest}
    {image : Bytes}
    (h : encodeManifestBytecode sha256 format code readOnlyData manifest = .ok image) :
    readOnlyData.length ≤ maxReadOnlyDataSize ∧ ∃ normalized,
      normalizeProgramManifest manifest = .ok normalized ∧
      ∃ checksum : Bytes, checksum.length = 32 ∧ checksumMatches sha256 image = true ∧
        image = envelope (manifestBody format normalized code readOnlyData checksum) := by
  simp only [encodeManifestBytecode, eq_ok] at h
  obtain ⟨normalized, hnormalized, -, -, hreadOnly, himage⟩ := h
  obtain ⟨checksum, hchecksum, hmatches, himage⟩ := exists_checksum himage
  refine ⟨not_lt.mp hreadOnly, normalized, hnormalized, checksum, hchecksum, hmatches, ?_⟩
  simp only [himage, envelope, manifestBody, append_assoc]

/-- What the encoder for register programs with a manifest accepts. -/
theorem exists_encodeRegister {manifest normalized : ProgramManifest} (hcode : code ≠ [])
    (haligned : code.length % registerInstructionSize = 0)
    (hlength : code.length + readOnlyData.length ≤ maxProgramDataSize)
    (hreadOnly : readOnlyData.length ≤ maxReadOnlyDataSize)
    (hnormalized : normalizeProgramManifest manifest = .ok normalized) :
    ∃ image, encodeGovernedRegisterBytecode sha256 code readOnlyData manifest = .ok image := by
  have hchecked : checkRegisterLengths code readOnlyData = .ok () := by
    simp only [checkRegisterLengths, eq_ok]
    exact ⟨hcode, not_not.mpr haligned, not_lt.mpr hlength, not_lt.mpr hreadOnly⟩
  exact ⟨_, bind_eq_ok.mpr ⟨(), hchecked, bind_eq_ok.mpr ⟨normalized, hnormalized,
    bind_eq_ok.mpr ⟨(), failIf_of_not (by simp), bind_eq_ok.mpr ⟨(),
      failIf_of_not (not_lt.mpr hlength), bind_eq_ok.mpr ⟨(),
        failIf_of_not (not_lt.mpr hreadOnly), rfl⟩⟩⟩⟩⟩⟩

end

/-! ### Round trips -/

/-- What is given to one of the encoders. -/
inductive ProgramSource where
  | bytecode (code : Bytes)
  | registerBytecode (code readOnlyData : Bytes)
  | governedBytecode (code : Bytes) (manifest : ProgramManifest)
  | governedRegisterBytecode (code readOnlyData : Bytes) (manifest : ProgramManifest)

namespace ProgramSource

def encode (sha256 : Bytes → Hash) : ProgramSource → Except String Bytes
  | bytecode code => encodeBytecode code
  | registerBytecode code readOnlyData => encodeRegisterBytecode sha256 code readOnlyData
  | governedBytecode code manifest => encodeGovernedBytecode sha256 code manifest
  | governedRegisterBytecode code readOnlyData manifest =>
    encodeGovernedRegisterBytecode sha256 code readOnlyData manifest

/-- The program that should be loaded: the same format, code and data, and the normalized
manifest. -/
def program : ProgramSource → Except String Program
  | bytecode code =>
    pure { version := bytecodeVersion, format := .legacy, code, readOnlyData := []
           manifest := none }
  | registerBytecode code readOnlyData =>
    pure { version := bytecodeVersion, format := .register, code, readOnlyData, manifest := none }
  | governedBytecode code manifest => do
    let normalized ← normalizeProgramManifest manifest
    pure { version := bytecodeVersion, format := .legacy, code, readOnlyData := []
           manifest := some normalized }
  | governedRegisterBytecode code readOnlyData manifest => do
    let normalized ← normalizeProgramManifest manifest
    pure { version := bytecodeVersion, format := .register, code, readOnlyData
           manifest := some normalized }

/-- An authority is an address of 32 bytes. -/
def InRange : ProgramSource → Prop
  | bytecode _ => True
  | registerBytecode _ _ => True
  | governedBytecode _ manifest => manifest.upgradeAuthority < 256 ^ 32
  | governedRegisterBytecode _ _ manifest => manifest.upgradeAuthority < 256 ^ 32

/-- The length of the image, headers and checksum included. -/
def imageLength : ProgramSource → ℕ
  | bytecode code => 10 + code.length
  | registerBytecode code readOnlyData => 48 + code.length + readOnlyData.length
  | governedBytecode code manifest => 94 + 4 * manifest.requiredSyscalls.dedup.length + code.length
  | governedRegisterBytecode code readOnlyData manifest =>
    94 + 4 * manifest.requiredSyscalls.dedup.length + code.length + readOnlyData.length

/-- The image fits, and the format codes in front of a register program with a manifest are not
the length of what follows them. -/
def Loadable (source : ProgramSource) : Prop :=
  source.imageLength ≤ maxProgramDataSize ∧
    match source with
    | governedRegisterBytecode _ _ _ => source.imageLength ≠ 65548
    | _ => True

variable {sha256 : Bytes → Hash} {address loaderID : PublicKey} {image code readOnlyData : Bytes}
  {manifest : ProgramManifest}

/-- The image of a program is loaded again as that program. -/
def LoadsBack (sha256 : Bytes → Hash) (address loaderID : PublicKey) (source : ProgramSource)
    (image : Bytes) : Prop :=
  ∃ program, source.program = .ok program ∧
    load sha256 (imageAccount address loaderID image) loaderID = .ok program

theorem bytecode_loadsBack_iff (h : encodeBytecode code = .ok image) :
    (bytecode code).LoadsBack sha256 address loaderID image ↔ (bytecode code).Loadable := by
  simp only [encodeBytecode, checkCodeLength, eq_ok] at h
  obtain ⟨⟨hcode, hbound⟩, rfl⟩ := h
  have hlength : (envelope (littleEndian 4 code.length ++ code)).length =
      (bytecode code).imageLength := by
    simp [imageLength]
    omega
  constructor
  · rintro ⟨program, -, hload⟩
    exact ⟨hlength.ge.trans (length_le_of_load hload), trivial⟩
  · rintro ⟨hfits, -⟩
    refine ⟨_, rfl, ?_⟩
    have hsmall : code.length < 256 ^ 4 := by
      unfold maxProgramDataSize at hbound
      omega
    exact (load_envelope (hlength.le.trans hfits)).trans (loadFormats_legacy hcode hsmall)

theorem registerBytecode_loadsBack_iff
    (h : encodeRegisterBytecode sha256 code readOnlyData = .ok image) :
    (registerBytecode code readOnlyData).LoadsBack sha256 address loaderID image ↔
      (registerBytecode code readOnlyData).Loadable := by
  obtain ⟨hcode, haligned, hreadOnly, checksum, hchecksum, hmatches, rfl⟩ :=
    encodeRegisterBytecode_eq_ok h
  have hlength : (envelope (registerBody code readOnlyData checksum)).length =
      (registerBytecode code readOnlyData).imageLength := by
    rw [envelope_length, registerBody_length, imageLength]
    omega
  constructor
  · rintro ⟨program, -, hload⟩
    exact ⟨hlength.ge.trans (length_le_of_load hload), trivial⟩
  · rintro ⟨hfits, -⟩
    have hshort := hlength.le.trans hfits
    exact ⟨_, rfl, (load_envelope hshort).trans
      (loadFormats_register rfl hcode haligned hchecksum hshort hreadOnly hmatches)⟩

/-- An image whose format codes are the length of what follows is loaded as a legacy program. -/
theorem load_of_legacy {rest : Bytes} {legacy : Program}
    (hfits : (envelope rest).length ≤ maxProgramDataSize)
    (hread : loadLegacyProgram bytecodeVersion (envelope rest) = some legacy) :
    load sha256 (imageAccount address loaderID (envelope rest)) loaderID = .ok legacy ∧
      legacy.format = .legacy ∧ legacy.manifest = none := by
  refine ⟨?_, loadLegacyProgram_eq_some hread⟩
  rw [load_envelope hfits, loadFormats, hread]
  rfl

/-- An image with a manifest is loaded as what it is unless it reads as a legacy program. -/
theorem manifestImage_loadsBack_iff {source : ProgramSource} {format : ProgramFormat}
    (hprogram : source.program = (do
      let normalized ← normalizeProgramManifest manifest
      pure { version := bytecodeVersion, format, code, readOnlyData, manifest := some normalized }))
    (hcode : 0 < code.length)
    (hformat : format = .legacy ∨ format = .register ∧ code.length % registerInstructionSize = 0)
    (hauthority : manifest.upgradeAuthority < 256 ^ 32)
    (h : encodeManifestBytecode sha256 format code readOnlyData manifest = .ok image) {length : ℕ}
    (hlength : 94 + 4 * manifest.requiredSyscalls.dedup.length + code.length +
      readOnlyData.length = length) :
    source.LoadsBack sha256 address loaderID image ↔
      length ≤ maxProgramDataSize ∧ length ≠ 12 + 65536 * format.code := by
  obtain ⟨hreadOnly, normalized, hnormalized, checksum, hchecksum, hmatches, rfl⟩ :=
    encodeManifestBytecode_eq_ok h
  have hmanifest := normalizeProgramManifest_eq_ok hnormalized
  have hbody := @manifestBody_length code readOnlyData checksum format normalized
  rw [hmanifest.count] at hbody
  generalize hrest : manifestBody format normalized code readOnlyData checksum = body at *
  have himage : (envelope body).length = length := by
    rw [envelope_length]
    omega
  have hcodeBound : format.code < 256 ^ 2 := by
    rcases hformat with rfl | ⟨rfl, -⟩ <;> decide
  have hlegacy := loadLegacyProgram_manifest hrest hchecksum hcodeBound
  rw [hmanifest.count] at hlegacy
  rw [hnormalized] at hprogram
  constructor
  · rintro ⟨program, hsource, hload⟩
    have hfits := length_le_of_load hload
    refine ⟨himage.ge.trans hfits, fun hconfused => ?_⟩
    -- read as a legacy program, the image has no manifest
    cases hread : loadLegacyProgram bytecodeVersion (envelope body) with
    | none => exact hlegacy.mp hread (by omega)
    | some legacy =>
      obtain ⟨hother, -, hnone⟩ := load_of_legacy hfits hread
      cases hload.symm.trans hother
      cases hprogram.symm.trans hsource
      cases hnone
  · rintro ⟨hfits, hdistinct⟩
    have hshort := himage.le.trans hfits
    refine ⟨_, hprogram, ?_⟩
    rw [load_envelope hshort, loadFormats, hlegacy.mpr (by omega),
      loadManifestProgram_image hrest hchecksum]
    exact readManifestProgram_image hrest hmanifest (hmanifest.upgradeAuthority ▸ hauthority) hcode
      hformat hreadOnly hchecksum hmatches hshort

theorem governedBytecode_loadsBack_iff (hauthority : manifest.upgradeAuthority < 256 ^ 32)
    (h : encodeGovernedBytecode sha256 code manifest = .ok image) :
    (governedBytecode code manifest).LoadsBack sha256 address loaderID image ↔
      (governedBytecode code manifest).Loadable := by
  simp only [encodeGovernedBytecode, checkCodeLength, eq_ok] at h
  obtain ⟨⟨hcode, -⟩, h⟩ := h
  rw [manifestImage_loadsBack_iff rfl (length_pos_iff.mpr hcode) (.inl rfl) hauthority h rfl]
  simp only [Loadable, imageLength, ProgramFormat.code, length_nil, and_true]
  omega

theorem governedRegisterBytecode_loadsBack_iff (hauthority : manifest.upgradeAuthority < 256 ^ 32)
    (h : encodeGovernedRegisterBytecode sha256 code readOnlyData manifest = .ok image) :
    (governedRegisterBytecode code readOnlyData manifest).LoadsBack sha256 address loaderID image ↔
      (governedRegisterBytecode code readOnlyData manifest).Loadable := by
  simp only [encodeGovernedRegisterBytecode, checkRegisterLengths, eq_ok] at h
  obtain ⟨⟨hcode, haligned, -⟩, h⟩ := h
  exact manifestImage_loadsBack_iff rfl (length_pos_iff.mpr hcode)
    (.inr ⟨rfl, not_not.mp haligned⟩) hauthority h rfl

/-- Whatever an encoder accepts is loaded back if and only if its image fits and its format codes
are not taken for a length. -/
theorem loads_back_iff (sha256 : Bytes → Hash) (address loaderID : PublicKey)
    (source : ProgramSource) (hrange : source.InRange) {image : Bytes}
    (h : source.encode sha256 = .ok image) :
    source.LoadsBack sha256 address loaderID image ↔ source.Loadable := by
  cases source with
  | bytecode code => exact bytecode_loadsBack_iff h
  | registerBytecode code readOnlyData => exact registerBytecode_loadsBack_iff h
  | governedBytecode code manifest => exact governedBytecode_loadsBack_iff hrange h
  | governedRegisterBytecode code readOnlyData manifest =>
    exact governedRegisterBytecode_loadsBack_iff hrange h

end ProgramSource

/-- One instruction with two bytes of data and three system calls, one of them named twice. -/
def smallSource : ProgramSource :=
  .governedRegisterBytecode (List.replicate 16 0) [1, 2]
    { computeUnitLimit := 1000, upgradeAuthority := 7, requiredSyscalls := [3, 1, 3, 2] }

theorem small_source_loads_back :
    smallSource.InRange ∧ ∃ image, smallSource.encode List.length = .ok image ∧
      smallSource.LoadsBack List.length 1 2 image := by
  have hrange : smallSource.InRange := by
    change 7 < 256 ^ 32
    decide
  have hsucceeds : succeeds (smallSource.encode List.length) = true := by decide +kernel
  obtain ⟨image, himage⟩ := succeeds_iff.mp hsucceeds
  have hloadable : smallSource.Loadable := by
    refine ⟨by decide, ?_⟩
    change smallSource.imageLength ≠ 65548
    decide
  exact ⟨hrange, image, himage,
    (ProgramSource.loads_back_iff List.length 1 2 smallSource hrange himage).mpr hloadable⟩

def emptyManifest : ProgramManifest where
  computeUnitLimit := 0
  upgradeAuthority := 0
  requiredSyscalls := []

/-- One instruction with so much data that the image has 65548 bytes. -/
def confusedSource : ProgramSource :=
  .governedRegisterBytecode (List.replicate 16 0) (List.replicate 65438 0) emptyManifest

/-- The register program is loaded as a legacy program without a manifest. -/
theorem confused_source_loads_as_legacy :
    ∃ image legacy, confusedSource.encode List.length = .ok image ∧
      load List.length (imageAccount 1 2 image) 2 = .ok legacy ∧ legacy.format = .legacy ∧
      ¬confusedSource.LoadsBack List.length 1 2 image := by
  obtain ⟨image, himage⟩ := @exists_encodeRegister List.length (List.replicate 16 0)
    (List.replicate 65438 0) emptyManifest emptyManifest (by decide) (by decide)
    (by rw [length_replicate, length_replicate]; decide)
    (by rw [length_replicate]; decide) rfl
  obtain ⟨_, -, hmanifest⟩ := bind_eq_ok.mp himage
  obtain ⟨-, normalized, hnormalized, checksum, hchecksum, -, rfl⟩ :=
    encodeManifestBytecode_eq_ok hmanifest
  obtain rfl : emptyManifest = normalized := Except.ok.inj hnormalized
  have hfits : (envelope (manifestBody .register emptyManifest (List.replicate 16 0)
      (List.replicate 65438 0) checksum)).length ≤ maxProgramDataSize := by
    rw [envelope_length, manifestBody_length, hchecksum, length_replicate, length_replicate]
    decide
  have hconfused := (@loadLegacyProgram_manifest (List.replicate 16 0) (List.replicate 65438 0)
    checksum _ .register emptyManifest rfl hchecksum (by decide)).not
  rw [length_replicate, length_replicate] at hconfused
  obtain ⟨legacy, hread⟩ := Option.ne_none_iff_exists'.mp (hconfused.mpr (by decide))
  obtain ⟨hload, hformat, hnone⟩ := ProgramSource.load_of_legacy hfits hread
  refine ⟨_, legacy, himage, hload, hformat, ?_⟩
  rintro ⟨program, hprogram, hback⟩
  cases hload.symm.trans hback
  cases hprogram
  cases hnone

end Ordexus.Vm
