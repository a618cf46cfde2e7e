import Ordexus.Structure.Primitive

/-!
# Accounts

Account states, the rent rule and the checked operations on balances and data
(`structure/account.go`), and the fixed addresses of the built-in programs
(`structure/builtin_program.go`).
-/

namespace Ordexus

open Checked

def maxAccountDataSize : ℕ := 10 * 1024 * 1024
def maxAccountDataIncreasePerInstruction : ℕ := 60 * 1024

def safeAddUint64 (left right : ℕ) : Except String ℕ := do
  failIf (maxUint64 - right < left) "structure: invalid account: uint64 addition overflow"
  pure (left + right)

def safeMulUint64 (left right : ℕ) : Except String ℕ :=
  if left = 0 ∨ right = 0 then pure 0
  else do
    failIf (maxUint64 / right < left)
      "structure: invalid account: uint64 multiplication overflow"
    pure (left * right)

theorem safeAddUint64_eq_ok {left right sum : ℕ} (h : safeAddUint64 left right = .ok sum) :
    sum = left + right := by
  simp only [safeAddUint64, eq_ok] at h
  exact h.2.symm

/-- A sum that refuses to leave 64 bits. -/
def checkedAdd (message : String) (left right : ℕ) : Except String ℕ := do
  failIf (maxUint64 - left < right) message
  pure (left + right)

/-- A running sum that refuses to leave 64 bits. -/
def checkedSum (message : String) : ℕ → List ℕ → Except String ℕ
  | total, [] => pure total
  | total, value :: values => do
    failIf (maxUint64 - total < value) message
    checkedSum message (total + value) values

theorem checkedAdd_eq_ok {message : String} {left right sum : ℕ} :
    checkedAdd message left right = .ok sum ↔ right ≤ maxUint64 - left ∧ left + right = sum := by
  simp only [checkedAdd, eq_ok, Nat.not_lt]

theorem checkedSum_eq {message : String} {start total : ℕ} {values : List ℕ}
    (h : checkedSum message start values = .ok total) : total = start + values.sum := by
  induction values generalizing start with
  | nil =>
    have hstart : start = total := by simpa only [checkedSum, pure_eq_ok] using h
    simp [hstart]
  | cons value values ih =>
    simp only [checkedSum, eq_ok] at h
    rw [ih h.2, List.sum_cons]
    omega

structure RentConfig where
  lamportsPerByteYear : ℕ
  exemptionThresholdYears : ℕ
  accountStorageOverheadSize : ℕ
deriving DecidableEq

def defaultRentConfig : RentConfig where
  lamportsPerByteYear := 3480
  exemptionThresholdYears := 2
  accountStorageOverheadSize := 128

def RentConfig.validate (rent : RentConfig) : Except String Unit := do
  failIf (rent.lamportsPerByteYear = 0)
    "structure: invalid rent config: lamports per byte year cannot be zero"
  failIf (rent.exemptionThresholdYears = 0)
    "structure: invalid rent config: exemption threshold years cannot be zero"

def RentConfig.minimumBalance (rent : RentConfig) (dataLength : ℕ) : Except String ℕ := do
  rent.validate
  failIf (maxAccountDataSize < dataLength)
    s!"structure: account data too large: data length {dataLength} exceeds {maxAccountDataSize}"
  let totalBytes ← safeAddUint64 dataLength rent.accountStorageOverheadSize
  let lamportsPerYear ← safeMulUint64 totalBytes rent.lamportsPerByteYear
  safeMulUint64 lamportsPerYear rent.exemptionThresholdYears

structure Account where
  lamports : ℕ
  data : Bytes
  owner : PublicKey
  executable : Bool
  rentEpoch : ℕ
deriving DecidableEq

structure AddressedAccount where
  address : PublicKey
  account : Account
deriving DecidableEq

namespace Account

section

variable (account : Account)

/-- An account is either empty or holds the balance its data requires. -/
def validateWithRent (rent : RentConfig) : Except String Unit := do
  let dataLength := account.data.length
  failIf (maxAccountDataSize < dataLength)
    s!"structure: account data too large: data length {dataLength} exceeds {maxAccountDataSize}"
  if account.lamports = 0 then
    failIf (account.data ≠ [] ∨ account.executable = true)
      ("structure: account is not rent exempt: " ++
        "zero lamport account must be empty and non-executable")
  else
    let lamports := account.lamports
    let minimumBalance ← rent.minimumBalance dataLength
    failIf (lamports < minimumBalance)
      s!"structure: account is not rent exempt: lamports {lamports} below minimum {minimumBalance}"

def validate : Except String Unit :=
  account.validateWithRent defaultRentConfig

def creditLamports (lamports : ℕ) : Except String Account := do
  let nextLamports ← safeAddUint64 account.lamports lamports
  pure { account with lamports := nextLamports }

def debitLamports (lamports : ℕ) (rent : RentConfig) : Except String Account := do
  let available := account.lamports
  failIf (available < lamports)
    s!"structure: insufficient lamports: debit {lamports} from {available}"
  let next := { account with lamports := available - lamports }
  next.validateWithRent rent
  pure next

def setData (data : Bytes) (rent : RentConfig) : Except String Account := do
  let dataLength := data.length
  let increase := dataLength - account.data.length
  failIf (maxAccountDataSize < dataLength)
    s!"structure: account data too large: data length {dataLength} exceeds {maxAccountDataSize}"
  failIf (account.data.length + maxAccountDataIncreasePerInstruction < dataLength)
    (s!"structure: account data too large: data increase {increase} exceeds " ++
      s!"{maxAccountDataIncreasePerInstruction}")
  let next := { account with data := data }
  next.validateWithRent rent
  pure next

/-- New bytes are zero. -/
def resizeData (dataLength : ℕ) (rent : RentConfig) : Except String Account := do
  let increase := dataLength - account.data.length
  failIf (maxAccountDataSize < dataLength)
    s!"structure: account data too large: data length {dataLength} exceeds {maxAccountDataSize}"
  failIf (account.data.length + maxAccountDataIncreasePerInstruction < dataLength)
    (s!"structure: account data too large: data increase {increase} exceeds " ++
      s!"{maxAccountDataIncreasePerInstruction}")
  account.setData (account.data.take dataLength ++
    List.replicate (dataLength - account.data.length) 0) rent

end

section

variable {account next : Account} {lamports dataLength : ℕ} {data : Bytes} {rent : RentConfig}

theorem creditLamports_eq_ok (h : account.creditLamports lamports = .ok next) :
    next = { account with lamports := account.lamports + lamports } := by
  simp only [creditLamports, eq_ok] at h
  obtain ⟨sum, hsum, rfl⟩ := h
  rw [safeAddUint64_eq_ok hsum]

theorem debitLamports_eq_ok (h : account.debitLamports lamports rent = .ok next) :
    lamports ≤ account.lamports ∧
      next = { account with lamports := account.lamports - lamports } := by
  simp only [debitLamports, eq_ok] at h
  obtain ⟨henough, _, rfl⟩ := h
  exact ⟨Nat.le_of_not_lt henough, rfl⟩

theorem setData_eq_ok (h : account.setData data rent = .ok next) :
    next = { account with data := data } := by
  simp only [setData, eq_ok] at h
  obtain ⟨_, _, _, rfl⟩ := h
  rfl

theorem resizeData_eq_ok (h : account.resizeData dataLength rent = .ok next) :
    ∃ data, next = { account with data := data } := by
  simp only [resizeData, eq_ok] at h
  obtain ⟨_, _, hset⟩ := h
  exact ⟨_, setData_eq_ok hset⟩

end

end Account

structure BuiltinProgramIDs where
  system : PublicKey
  computeBudget : PublicKey
  addressLookupTable : PublicKey
  nativeLoader : PublicKey
  bpfLoader : PublicKey
  vote : PublicKey
  token : PublicKey
  stake : PublicKey
  config : PublicKey
  shielded : PublicKey
deriving DecidableEq

/-- `DefaultBuiltinProgramIDs`; the base58 texts of the source are decoded. -/
def defaultBuiltinProgramIDs : BuiltinProgramIDs where
  system := 0
  computeBudget := 0x306466fe5211732ffecadba72c39be7bc8ce5bbc5f7126b2c439b3a40000000
  addressLookupTable := 0x277a6af97339b7ac88d1892c90446f50002309266f62e53c118244982000000
  nativeLoader := 0x58784bf148ba4282fb012574888a9f153a07dadf765c0455c9a970380000000
  bpfLoader := 0x2a8f6914e88a16e395ae128948ffa695693376818dd47435221f3c600000000
  vote := 0x761481d357474bb7c4d7624ebd3bdb3d8355e73d11043fc0da3538000000000
  token := 0x6ddf6e1d765a193d9cbe146ceeb79ac1cb485ed5f5b37913a8cf5857eff00a9
  stake := 0x6a1d8179137542a983437bdfe2a7ab2557f535c8a78722b68a49dc000000000
  config := 0x3064aa3002f74dcc86e43310f0c052af8c5da27f6104019a323efa000000000
  shielded := 0x536869656c646564506f6f6c50726f6772616d56320000000000000000000002

def BuiltinProgramIDs.isBuiltinProgram (ids : BuiltinProgramIDs) (programID : PublicKey) : Bool :=
  programID ∈ [ids.system, ids.computeBudget, ids.addressLookupTable, ids.nativeLoader,
    ids.bpfLoader, ids.vote, ids.token, ids.stake, ids.config, ids.shielded]

end Ordexus
