import Mathlib.Data.List.Sort
import Ordexus.Library.Offsets
import Ordexus.Structure.Primitive

/-!
# Program images

The byte formats in which the virtual machine stores programs (`vm/program.go`): the legacy format,
the register format with read-only data, and the format with a manifest, which holds a program of
either kind. All of them start with the same magic and version; the loader tells them apart by
lengths and by the format code.
-/

namespace Ordexus.Vm

open Checked Borsh

def maxComputeUnitLimit : ℕ := 1400000
def maxProgramDataSize : ℕ := 1024 * 1024
def maxReadOnlyDataSize : ℕ := 64 * 1024
def maxProgramSyscallCount : ℕ := 64
def registerInstructionSize : ℕ := 16

def bytecodeVersion : ℕ := 1

/-- `OVM1`. -/
def bytecodeHeader : Bytes := [79, 86, 77, 49]

/-- `SVM1`. -/
def legacyBytecodeHeader : Bytes := [83, 86, 77, 49]

def registerHeaderSize : ℕ := 16
def registerChecksumSize : ℕ := 32
def manifestHeaderSize : ℕ := 62

/-- The format codes of an image. The manifest format wraps a program of one of the others. -/
inductive ProgramFormat where
  | legacy
  | register
  | manifest
  | unknown (code : ℕ)
deriving DecidableEq

def ProgramFormat.code : ProgramFormat → ℕ
  | .legacy => 0
  | .register => 1
  | .manifest => 2
  | .unknown code => code

def ProgramFormat.ofCode : ℕ → ProgramFormat
  | 0 => .legacy
  | 1 => .register
  | 2 => .manifest
  | code => .unknown code

abbrev SyscallID := UInt32

structure ProgramManifest where
  computeUnitLimit : ℕ
  upgradeAuthority : PublicKey
  requiredSyscalls : List SyscallID
deriving DecidableEq

structure Program where
  version : ℕ
  format : ProgramFormat
  code : Bytes
  readOnlyData : Bytes
  manifest : Option ProgramManifest
deriving DecidableEq

structure ProgramAccount where
  address : PublicKey
  owner : PublicKey
  executable : Bool
  data : Bytes
deriving DecidableEq

def isSupportedBytecodeHeader (header : Bytes) : Bool :=
  header = bytecodeHeader || header = legacyBytecodeHeader

/-! ### Manifests -/

/-- The loop of `normalizeProgramManifest`: the system calls collected so far. -/
def collectSyscalls : List SyscallID → List SyscallID → Except String (List SyscallID)
  | collected, [] => pure collected
  | collected, syscallID :: syscallIDs => do
    failIf (syscallID = 0) "vm: invalid program: syscall id cannot be zero"
    if syscallID ∈ collected then collectSyscalls collected syscallIDs
    else collectSyscalls (collected ++ [syscallID]) syscallIDs

def normalizeProgramManifest (manifest : ProgramManifest) : Except String ProgramManifest := do
  let limit := manifest.computeUnitLimit
  let count := manifest.requiredSyscalls.length
  failIf (maxComputeUnitLimit < limit)
    s!"vm: invalid program: compute limit {limit} exceeds {maxComputeUnitLimit}"
  failIf (maxProgramSyscallCount < count)
    s!"vm: invalid program: syscall count {count} exceeds {maxProgramSyscallCount}"
  let requiredSyscalls ← collectSyscalls [] manifest.requiredSyscalls
  pure { manifest with requiredSyscalls := requiredSyscalls.insertionSort (· ≤ ·) }

/-! ### Encoding -/

section

-- the digest at the end of an image, of which only the bytes are compared
variable (sha256 : Bytes → Hash)

def withChecksum (image : Bytes) : Bytes :=
  image ++ bigEndian registerChecksumSize (sha256 image)

def checkCodeLength (code : Bytes) : Except String Unit := do
  let length := code.length
  failIf (code = []) "vm: invalid program: code cannot be empty"
  failIf (maxProgramDataSize < length)
    s!"vm: invalid program: code length {length} exceeds {maxProgramDataSize}"

def checkRegisterLengths (code readOnlyData : Bytes) : Except String Unit := do
  let length := code.length
  let readOnlyLength := readOnlyData.length
  failIf (code = []) "vm: invalid program: code cannot be empty"
  failIf (length % registerInstructionSize ≠ 0)
    s!"vm: invalid program: register code length {length} is not aligned"
  failIf (maxProgramDataSize < length + readOnlyLength)
    s!"vm: invalid program: register program length exceeds {maxProgramDataSize}"
  failIf (maxReadOnlyDataSize < readOnlyLength)
    s!"vm: invalid program: readonly data length {readOnlyLength} exceeds {maxReadOnlyDataSize}"

def encodeBytecode (code : Bytes) : Except String Bytes := do
  checkCodeLength code
  pure (bytecodeHeader ++ (littleEndian 2 bytecodeVersion ++
    (littleEndian 4 code.length ++ code)))

def encodeRegisterBytecode (code readOnlyData : Bytes) : Except String Bytes := do
  checkRegisterLengths code readOnlyData
  pure (withChecksum sha256 (bytecodeHeader ++ (littleEndian 2 bytecodeVersion ++
    (littleEndian 2 ProgramFormat.register.code ++ (littleEndian 4 code.length ++
      (littleEndian 4 readOnlyData.length ++ (code ++ readOnlyData)))))))

def encodeSyscalls (syscallIDs : List SyscallID) : Bytes :=
  syscallIDs.flatMap fun syscallID => littleEndian 4 syscallID.toNat

def encodeManifestBytecode (executableFormat : ProgramFormat) (code readOnlyData : Bytes)
    (manifest : ProgramManifest) : Except String Bytes := do
  let format := executableFormat.code
  let readOnlyLength := readOnlyData.length
  let normalized ← normalizeProgramManifest manifest
  failIf (executableFormat ≠ .legacy ∧ executableFormat ≠ .register)
    s!"vm: invalid program: unsupported manifest executable format {format}"
  failIf (maxProgramDataSize < code.length + readOnlyLength)
    s!"vm: invalid program: manifest program length exceeds {maxProgramDataSize}"
  failIf (maxReadOnlyDataSize < readOnlyLength)
    s!"vm: invalid program: readonly data length {readOnlyLength} exceeds {maxReadOnlyDataSize}"
  pure (withChecksum sha256 (bytecodeHeader ++ (littleEndian 2 bytecodeVersion ++
    (littleEndian 2 ProgramFormat.manifest.code ++ (littleEndian 2 format ++
      (littleEndian 2 0 ++ (littleEndian 8 normalized.computeUnitLimit ++
        (bigEndian 32 normalized.upgradeAuthority ++
          (littleEndian 2 normalized.requiredSyscalls.length ++ (littleEndian 4 code.length ++
            (littleEndian 4 readOnlyLength ++ (encodeSyscalls normalized.requiredSyscalls ++
              (code ++ readOnlyData)))))))))))))

def encodeGovernedBytecode (code : Bytes) (manifest : ProgramManifest) : Except String Bytes := do
  checkCodeLength code
  encodeManifestBytecode sha256 .legacy code [] manifest

def encodeGovernedRegisterBytecode (code readOnlyData : Bytes) (manifest : ProgramManifest) :
    Except String Bytes := do
  checkRegisterLengths code readOnlyData
  encodeManifestBytecode sha256 .register code readOnlyData manifest

/-! ### Loading -/

/-- `Read` of a byte reader into a buffer of the given width: a short read leaves zeros at the end
of the buffer, and only a read at the end of the input fails. -/
def readInto (width : ℕ) (data : Bytes) : Except String (Bytes × Bytes) := do
  failIf (data = []) "EOF"
  pure (data.take width ++ List.replicate (width - data.length) 0, data.drop width)

section

variable (version : ℕ) (data : Bytes)

/-- No program unless the length field accounts for all bytes behind it. -/
def loadLegacyProgram : Option Program :=
  if data.length < 10 then none
  else
    let codeLength := uintAt data 6 10
    if codeLength = 0 ∨ codeLength ≠ data.length - 10 then none
    else some
      { version, format := .legacy, code := data.drop 10, readOnlyData := [], manifest := none }

def checksumMatches (data : Bytes) : Bool :=
  let checksumOffset := data.length - registerChecksumSize
  bigEndian registerChecksumSize (sha256 (data.take checksumOffset)) = data.drop checksumOffset

/-- The system calls of the manifest, which stand behind its header. -/
def readSyscalls (data : Bytes) (count : ℕ) : List SyscallID :=
  (List.range count).map fun index =>
    let offset := manifestHeaderSize + index * 4
    UInt32.ofNat (uintAt data offset (offset + 4))

/-- What is read from an image once its format code says that it has a manifest. -/
def readManifestProgram : Except String Program := do
  let checksumOffset := data.length - registerChecksumSize
  failIf (checksumMatches sha256 data = false) "vm: invalid program: manifest checksum mismatch"
  let formatCode := uintAt data 8 10
  let executableFormat := ProgramFormat.ofCode formatCode
  failIf (executableFormat ≠ .legacy ∧ executableFormat ≠ .register)
    s!"vm: invalid program: unsupported manifest executable format {formatCode}"
  let flags := uintAt data 10 12
  failIf (flags ≠ 0) s!"vm: invalid program: unsupported manifest flags {flags}"
  let syscallCount := uintAt data 52 54
  let codeLength := uintAt data 54 58
  let readOnlyLength := uintAt data 58 62
  failIf (maxProgramSyscallCount < syscallCount)
    s!"vm: invalid program: syscall count {syscallCount} exceeds {maxProgramSyscallCount}"
  failIf (codeLength = 0) "vm: invalid program: manifest code cannot be empty"
  failIf (executableFormat = .register ∧ codeLength % registerInstructionSize ≠ 0)
    s!"vm: invalid program: register code length {codeLength} is not aligned"
  failIf (maxReadOnlyDataSize < readOnlyLength)
    s!"vm: invalid program: readonly data length {readOnlyLength} exceeds {maxReadOnlyDataSize}"
  let sectionStart := manifestHeaderSize + syscallCount * 4
  failIf ((codeLength + readOnlyLength : ℤ) ≠ (checksumOffset : ℤ) - sectionStart)
    "vm: invalid program: manifest section length mismatch"
  let manifest : ProgramManifest :=
    { computeUnitLimit := uintAt data 12 20
      upgradeAuthority := ofBigEndian (slice data 20 52)
      requiredSyscalls := readSyscalls data syscallCount }
  let normalized ← normalizeProgramManifest manifest
  failIf (manifest.requiredSyscalls ≠ normalized.requiredSyscalls)
    "vm: invalid program: manifest syscalls must be sorted and unique"
  let codeEnd := sectionStart + codeLength
  pure
    { version
      format := executableFormat
      code := slice data sectionStart codeEnd
      readOnlyData := slice data codeEnd (codeEnd + readOnlyLength)
      manifest := some normalized }

/-- No result unless the image is long enough and has the format code of a manifest. -/
def loadManifestProgram : Option (Except String Program) :=
  if data.length < manifestHeaderSize + registerChecksumSize then none
  else if uintAt data 6 8 ≠ ProgramFormat.manifest.code then none
  else some (readManifestProgram sha256 version data)

def loadRegisterProgram : Except String Program := do
  failIf (data.length < registerHeaderSize + registerChecksumSize)
    "vm: invalid program: register bytecode too short"
  let checksumOffset := data.length - registerChecksumSize
  failIf (checksumMatches sha256 data = false) "vm: invalid program: register checksum mismatch"
  let formatCode := uintAt data 6 8
  failIf (formatCode ≠ ProgramFormat.register.code)
    s!"vm: invalid program: unsupported program format {formatCode}"
  let codeLength := uintAt data 8 12
  let readOnlyLength := uintAt data 12 16
  failIf (codeLength = 0 ∨ codeLength % registerInstructionSize ≠ 0)
    s!"vm: invalid program: invalid register code length {codeLength}"
  failIf (maxReadOnlyDataSize < readOnlyLength)
    s!"vm: invalid program: readonly data length {readOnlyLength} exceeds {maxReadOnlyDataSize}"
  failIf (codeLength + readOnlyLength ≠ checksumOffset - registerHeaderSize)
    "vm: invalid program: register section length mismatch"
  let codeEnd := registerHeaderSize + codeLength
  pure
    { version
      format := .register
      code := slice data registerHeaderSize codeEnd
      readOnlyData := slice data codeEnd (codeEnd + readOnlyLength)
      manifest := none }

end

/-- The formats are tried in this order. -/
def load (programAccount : ProgramAccount) (loaderID : PublicKey) : Except String Program := do
  let data := programAccount.data
  let length := data.length
  failIf (programAccount.executable = false)
    "vm: invalid program: program account is not executable"
  failIf (programAccount.owner ≠ loaderID) "vm: invalid program: program owner is not loader"
  failIf (maxProgramDataSize < length)
    s!"vm: invalid program: program data length {length} exceeds {maxProgramDataSize}"
  let (header, rest) ← withContext "vm: invalid program: read header" (readInto 4 data)
  failIf (isSupportedBytecodeHeader header = false)
    "vm: invalid program: invalid bytecode header"
  let (versionBytes, _) ← withContext "vm: invalid program: read u16" (readInto 2 rest)
  let version := ofLittleEndian versionBytes
  failIf (version ≠ bytecodeVersion)
    s!"vm: invalid program: unsupported bytecode version {version}"
  match loadLegacyProgram version data with
  | some program => pure program
  | none =>
    match loadManifestProgram sha256 version data with
    | some program => program
    | none => loadRegisterProgram sha256 version data

/-- The manifest of an image, read without executing it. -/
def decodeProgramManifest (data : Bytes) : Except String (Option ProgramManifest) := do
  let length := data.length
  failIf (maxProgramDataSize < length)
    s!"vm: invalid program: program data length {length} exceeds {maxProgramDataSize}"
  failIf (length < 6) "vm: invalid program: bytecode too short"
  failIf (isSupportedBytecodeHeader (data.take 4) = false)
    "vm: invalid program: invalid bytecode header"
  let version := uintAt data 4 6
  failIf (version ≠ bytecodeVersion)
    s!"vm: invalid program: unsupported bytecode version {version}"
  match loadLegacyProgram bytecodeVersion data with
  | some _ => pure none
  | none =>
    match loadManifestProgram sha256 bytecodeVersion data with
    | some program => do
      let program ← program
      pure program.manifest
    | none => pure none

end

end Ordexus.Vm
