import Ordexus.Consensus.ParallelExecution
import Ordexus.Programs.BpfLoader
import Ordexus.Programs.Shielded
import Ordexus.Programs.Stake
import Ordexus.Programs.System
import Ordexus.Programs.Token

/-!
# Executing a transaction

The registry of built-in programs (`runtime/program.go`), the sandbox around one instruction
(`runtime/permission.go`) and the execution of a whole transaction (`runtime/simulator.go`).
A transaction works on copies of the accounts its message names; all of them are written back
if every instruction succeeds, and none otherwise. Contract programs are left out: the
registry has no fallback.
-/

namespace Ordexus

open Checked

/-- What the runtime takes from outside: signatures, identifiers, and the parameters of the
programs. -/
structure RuntimeParameters where
  hasValidSignatures : Transaction → Except String Bool
  txIDString : Transaction → Except String TransactionID
  shielded : Shielded.Program
  loader : BpfLoader.Program

/-! ### One instruction -/

/-- `ProgramRegistry.Execute` with the built-in programs; only the shielded program reports
compute units. -/
def registryExecute (parameters : RuntimeParameters) : ProgramHandler := fun context accounts =>
  match context.message.accountKeys[context.instruction.programIDIndex]? with
  | none => (0, .error "structure: invalid instruction: program id index out of range")
  | some programID =>
    if programID = System.programID then (0, System.execute context accounts)
    else if programID = Token.programID then (0, Token.execute context accounts)
    else if programID = Stake.programID then (0, Stake.execute context accounts)
    else if programID = Shielded.programID then
      Shielded.execute parameters.shielded context accounts
    else if programID = BpfLoader.programID then
      (0, BpfLoader.execute parameters.loader context accounts)
    else (0, .error ("runtime: unsupported program " ++ Hash.string programID))

/-- The token program changes only the data of accounts it owns. -/
def validateProgramOwnerWrite (programID address : PublicKey) (before after : Account) :
    Except String Unit :=
  if programID ≠ Token.programID then pure ()
  else do
    failIf (before.owner ≠ programID ∨ after.owner ≠ programID)
      ("structure: invalid instruction: token program cannot modify non-token account " ++
        Hash.string address)
    failIf (before.executable ≠ after.executable)
      "structure: invalid instruction: token program cannot change executable flag"

def validateInstructionWrite (context : InstructionContext) (programID : PublicKey)
    (before : AccountMap) (entry : Sigma fun _ : PublicKey => Account) : Except String Unit :=
  match before.lookup entry.1 with
  | none =>
    failIf (entry.1 ∉ writableAccountSet context.message)
      ("structure: invalid instruction: created account " ++ Hash.string entry.1 ++
        " is not writable")
  | some beforeAccount =>
    if beforeAccount = entry.2 then pure ()
    else do
      failIf (entry.1 ∉ writableAccountSet context.message)
        ("structure: invalid instruction: account " ++ Hash.string entry.1 ++
          " changed without writable permission")
      failIf (entry.1 ∉ instructionAccountSet context.instruction context.message)
        ("structure: invalid instruction: account " ++ Hash.string entry.1 ++
          " changed outside instruction accounts")
      validateProgramOwnerWrite programID entry.1 beforeAccount entry.2

def validateInstructionWrites (context : InstructionContext) (before after : AccountMap) :
    Except String Unit := do
  let programID ← orFail context.message.accountKeys[context.instruction.programIDIndex]?
    "structure: invalid instruction: program id index out of range"
  after.entries.forM (validateInstructionWrite context programID before)

def normalizeInstructionComputeUnits (units : ℕ) : ℕ :=
  if units ≠ 0 then units else defaultBuiltinInstructionCU

/-- The accounts change only if the instruction succeeds within its budget and keeps to its
permissions; `execute` stands for the registry. -/
def executeInstructionSandbox (execute : ProgramHandler) : ProgramHandler := fun context accounts =>
  let (reported, outcome) := execute context accounts
  let units := normalizeInstructionComputeUnits reported
  let remaining := context.computeBudget.maxComputeUnits
  (units, do
    failIf (remaining < units)
      s!"runtime: instruction compute units {units} exceed remaining budget {remaining}"
    let next ← outcome
    validateInstructionWrites context accounts next
    pure next)

/-! ### Loading a transaction -/

structure SimulationInput where
  transaction : Transaction
  accounts : List AddressedAccount
  blockhashQueue : BlockhashQueue
  currentSlot : ℕ
  currentEpoch : ℕ
  feeCalculator : FeeCalculator
  computeBudget : ComputeBudgetLimits
  rentConfig : RentConfig
  processedTxIDs : List TransactionID
deriving DecidableEq

def FeeCalculator.zero : FeeCalculator where
  lamportsPerSignature := 0
  baseComputeUnitPriceMicroLamports := 0
  storageWriteLamportsPerByte := 0
  baseFeeBurnPercent := 0

def RentConfig.zero : RentConfig where
  lamportsPerByteYear := 0
  exemptionThresholdYears := 0
  accountStorageOverheadSize := 0

def ComputeBudgetLimits.zero : ComputeBudgetLimits where
  maxComputeUnits := 0
  computeUnitPriceMicroLamports := 0
  loadedAccountsDataSizeLimit := 0
  storageWriteBytesLimit := 0
  heapFrameBytes := 0

/-- A given budget must cover the estimate; without one the estimate is the budget. -/
def normalizeComputeBudget (input : SimulationInput) : Except String ComputeBudgetLimits := do
  let estimated ← withContext "runtime: estimate transaction compute budget"
    (estimateTransactionComputeBudget input.transaction)
  if input.computeBudget = .zero then pure estimated
  else do
    let declared := input.computeBudget.maxComputeUnits
    let demand := estimated.maxComputeUnits
    withContext "runtime: validate transaction compute budget" input.computeBudget.validate
    failIf (declared < demand)
      s!"runtime: declared compute budget {declared} is below estimated demand {demand}"
    pure input.computeBudget

/-- Empty settings are replaced by the defaults. -/
def normalizeSimulationInput (input : SimulationInput) : Except String SimulationInput := do
  let computeBudget ← normalizeComputeBudget input
  pure { input with
    feeCalculator := if input.feeCalculator = .zero then defaultFeeCalculator
      else input.feeCalculator
    rentConfig := if input.rentConfig = .zero then defaultRentConfig else input.rentConfig
    computeBudget }

/-- A signed transaction has a writable fee payer; an unsigned one consists of one shielded
instruction on the pool. -/
def validateTransactionAuthorization (transaction : Transaction) (message : OrdexusMessage) :
    Except String Unit :=
  if 0 < message.header.numRequiredSignatures then
    failIf (message.header.numReadonlySignedAccounts = message.header.numRequiredSignatures)
      "structure: missing writable signer account: transparent fee payer must be writable"
  else do
    failIf (transaction.signatures ≠ [])
      "structure: invalid transaction encoding: unsigned message cannot carry signatures"
    match message.instructions with
    | [instruction] =>
      failIf (message.accountKeys[instruction.programIDIndex]? ≠
          some defaultBuiltinProgramIDs.shielded)
        ("structure: missing required signature: " ++
          "unsigned transaction must target the shielded program")
      failIf (instruction.accountIndexes.head? ≠ some 0)
        ("structure: invalid instruction: " ++
          "shielded pool must be the first instruction account")
      failIf ((staticAccountMetas message.header message.accountKeys).head?.all
          (fun account => !account.isWritable) = true)
        "structure: invalid instruction: shielded pool must be writable"
    | _ => .error ("structure: missing required signature: " ++
        "shielded authorization requires exactly one instruction")

def accountMapFromAddressedAccounts : List AddressedAccount → ℕ → AccountMap →
    Except String AccountMap
  | [], _, accountMap => pure accountMap
  | entry :: entries, accountIndex, accountMap => do
    failIf ((accountMap.lookup entry.address).isSome = true)
      s!"structure: invalid loaded transaction: duplicate account {accountIndex}"
    withContext s!"runtime: simulation account {accountIndex}"
      (withContext "structure: validate addressed account" entry.account.validate)
    accountMapFromAddressedAccounts entries (accountIndex + 1)
      (accountMap.insert entry.address entry.account)

/-- Accounts that a message names and nobody has created. -/
def addMissing (owner : PublicKey) (accounts : AccountMap) (address : PublicKey) : AccountMap :=
  if (accounts.lookup address).isSome then accounts
  else accounts.insert address { Account.emptySystem with owner := owner }

section

variable (message : ResolvedMessage) (instruction : CompiledInstruction)

def systemPlaceholders : List PublicKey :=
  match System.unmarshalSystemInstructionBinary instruction.data,
    instruction.accountIndexes with
  | .ok (.createAccount _ _ _), _ :: second :: _ => message.accountKeys[second]?.toList
  | .ok (.transfer _), _ :: second :: _ => message.accountKeys[second]?.toList
  | _, _ => []

def isStakeRegisterValidatorInstruction (data : Bytes) : Bool :=
  4 ≤ data.length && Borsh.ofLittleEndian (data.take 4) = 0

def stakePlaceholders : List PublicKey :=
  match instruction.accountIndexes with
  | _ :: second :: _ =>
    if isStakeRegisterValidatorInstruction instruction.data then
      message.accountKeys[second]?.toList
    else []
  | _ => []

/-- The destination and the markers stand behind the pool and the source. -/
def shieldedPlaceholders : List PublicKey :=
  match unmarshalShieldedTransferInstructionBinary instruction.data with
  | .error _ => []
  | .ok shielded =>
    let skipped := if 0 < shielded.transparentInputAmount then 2 else 1
    let created := (if 0 < shielded.transparentOutputAmount then 1 else 0) +
      (spentNullifiers shielded.bundle.actions).length
    ((instruction.accountIndexes.drop skipped).take created).filterMap fun accountIndex =>
      message.accountKeys[accountIndex]?

def instructionPlaceholders : List PublicKey :=
  match message.accountKeys[instruction.programIDIndex]? with
  | none => []
  | some programID =>
    if programID = defaultBuiltinProgramIDs.system then systemPlaceholders message instruction
    else if programID = defaultBuiltinProgramIDs.stake then stakePlaceholders message instruction
    else if programID = defaultBuiltinProgramIDs.shielded then
      shieldedPlaceholders message instruction
    else []

end

def addMissingAccountPlaceholders (message : ResolvedMessage) (accounts : AccountMap) :
    AccountMap :=
  let withPrograms := (message.accountKeys.filter
    defaultBuiltinProgramIDs.isBuiltinProgram).foldl
      (addMissing defaultBuiltinProgramIDs.nativeLoader) accounts
  (message.instructions.flatMap (instructionPlaceholders message)).foldl
    (addMissing defaultBuiltinProgramIDs.system) withPrograms

/-- The accounts of the message in its order. -/
def loadSimulationAccounts (message : ResolvedMessage) (accountStates : AccountMap) :
    Except String (List AddressedAccount) :=
  message.accountKeys.zipIdx.mapM fun (address, accountIndex) => do
    let account ← orFail (accountStates.lookup address)
      s!"structure: invalid loaded transaction: account {accountIndex} is missing"
    pure { address, account }

def cloneLoadedAccountsToMap (accounts : List AddressedAccount) : AccountMap :=
  accounts.foldl (fun accountMap entry => accountMap.insert entry.address entry.account) ∅

structure LoadedTransaction where
  message : ResolvedMessage
  /-- All accounts of the state, with the placeholders. -/
  accountStates : AccountMap
  accounts : List AddressedAccount
  feePayer : PublicKey
  feeSource : FeePaymentSource
  feeDetails : FeeDetails
deriving DecidableEq

/-- `NewLoadedTransaction`: transaction and message have been checked before. -/
def newLoadedTransaction (message : ResolvedMessage) (accountStates : AccountMap)
    (accounts : List AddressedAccount) (feeDetails : FeeDetails) :
    Except String LoadedTransaction := do
  accounts.zipIdx.forM fun (entry, accountIndex) =>
    withContext s!"structure: loaded account {accountIndex}"
      (withContext "structure: validate loaded account" entry.account.validate)
  pure { message, accountStates, accounts
         feePayer := message.accountKeys.headD 0
         feeSource := if message.header.numRequiredSignatures = 0 then .shieldedPool
           else .transparentAccount
         feeDetails }

/-- `prepareSimulation` up to the fee. -/
def prepareSimulation (parameters : RuntimeParameters) (input : SimulationInput) :
    Except String LoadedTransaction := do
  let transaction := input.transaction
  let message := transaction.message
  transaction.validate parameters.shielded.toShieldedAddresses
  let valid ← parameters.hasValidSignatures transaction
  failIf (valid = false) "signature verification failed"
  let transactionID ← parameters.txIDString transaction
  failIf (transactionID ∈ input.processedTxIDs) "transaction already processed"
  failIf (message.usesAddressTable = true ∨ message.addressTableLookups ≠ [])
    "address table transactions are not supported by runtime"
  validateTransactionAuthorization transaction message
  failIf (input.blockhashQueue.isRecent message.recentBlockhash input.currentSlot = false)
    "recent blockhash is not valid"
  let resolvedMessage ← newResolvedMessage message
  let feeDetails ← input.feeCalculator.calculate transaction.signatures.length input.computeBudget
  let stateAccounts ← accountMapFromAddressedAccounts input.accounts 0 ∅
  let accountStates := addMissingAccountPlaceholders resolvedMessage stateAccounts
  let loadedAccounts ← loadSimulationAccounts resolvedMessage accountStates
  newLoadedTransaction resolvedMessage accountStates loadedAccounts feeDetails

def debitSimulationFee (feePayer : PublicKey) (totalFee : ℕ) (accounts : AccountMap)
    (rentConfig : RentConfig) : Except String AccountMap := do
  let account ← orFail (accounts.lookup feePayer)
    "structure: invalid loaded transaction: fee payer not found"
  let debited ← account.debitLamports totalFee rentConfig
  pure (accounts.insert feePayer debited)

/-- A transparent fee is charged before the first instruction. -/
def chargeTransparentFee (loaded : LoadedTransaction) (rentConfig : RentConfig) :
    Except String LoadedTransaction := do
  let accountStates ← if loaded.feeSource = .transparentAccount then
      debitSimulationFee loaded.feePayer loaded.feeDetails.totalFee loaded.accountStates rentConfig
    else pure loaded.accountStates
  let accounts ← loadSimulationAccounts loaded.message accountStates
  pure { loaded with accountStates, accounts }

/-! ### The instructions of a transaction -/

def remainingComputeUnits (limit consumed : ℕ) : ℕ :=
  limit - consumed

/-- The sum stays within 64 bits, and whether the limit is passed. -/
def accumulateComputeUnits (consumed instructionUnits limit : ℕ) : ℕ × Bool :=
  if maxUint64 - consumed < instructionUnits then (maxUint64, true)
  else (consumed + instructionUnits, decide (limit < consumed + instructionUnits))

def simulationContext (input : SimulationInput) (loaded : LoadedTransaction)
    (instruction : CompiledInstruction) (instructionIndex consumed : ℕ) : InstructionContext where
  instructionIndex := instructionIndex
  instruction := instruction
  message := loaded.message
  currentSlot := input.currentSlot
  currentEpoch := input.currentEpoch
  rentConfig := input.rentConfig
  computeBudget := { input.computeBudget with
    maxComputeUnits := remainingComputeUnits input.computeBudget.maxComputeUnits consumed }
  transactionFee := loaded.feeDetails.totalFee
  feeSource := loaded.feeSource
  signerOverrides := []

/-- One instruction of a transaction and the accounts around it. -/
structure InstructionStep where
  context : InstructionContext
  before : AccountMap
  after : AccountMap

/-- What the loop over the instructions has done: the units it used, the steps that
succeeded, and the accounts at its end. -/
structure InstructionRun where
  consumed : ℕ
  steps : List InstructionStep
  outcome : Except String AccountMap

def executeInstructions (execute : ProgramHandler) (input : SimulationInput)
    (loaded : LoadedTransaction) :
    List (CompiledInstruction × ℕ) → ℕ → AccountMap → InstructionRun
  | [], consumed, accounts => { consumed, steps := [], outcome := .ok accounts }
  | (instruction, instructionIndex) :: instructions, consumed, accounts =>
    let context := simulationContext input loaded instruction instructionIndex consumed
    let (units, outcome) := executeInstructionSandbox execute context accounts
    let limit := input.computeBudget.maxComputeUnits
    let (total, exceeded) := accumulateComputeUnits consumed units limit
    if exceeded then
      { consumed := total
        steps := []
        outcome := .error s!"computational budget exceeded: consumed {total}, limit {limit}" }
    else
      match outcome with
      | .error message => { consumed := total, steps := [], outcome := .error message }
      | .ok next =>
        let rest := executeInstructions execute input loaded instructions total next
        { rest with steps := { context, before := accounts, after := next } :: rest.steps }

/-- A shielded fee is charged after the last instruction. -/
def chargeShieldedFee (loaded : LoadedTransaction) (accounts : AccountMap)
    (rentConfig : RentConfig) : Except String AccountMap :=
  if loaded.feeSource = .shieldedPool then
    debitSimulationFee loaded.feePayer loaded.feeDetails.totalFee accounts rentConfig
  else pure accounts

/-! ### Results -/

def FeeDetails.zero : FeeDetails where
  signatureCount := 0
  signatureFee := 0
  computeFee := 0
  storageWriteFee := 0
  baseFee := 0
  prioritizationFee := 0
  totalFee := 0
  burnedFee := 0
  validatorFee := 0

/-- A transaction that failed before its accounts were loaded. -/
def TransactionExecutionResult.rejected (message : String) : TransactionExecutionResult where
  status := .failed
  error := some message
  feeDetails := .zero
  postBalances := []
  computeUnitsConsumed := 0
  costUnits := 0
  writtenAccounts := []

def writtenAccountsFromMessage (accountKeys : List PublicKey) (accounts : AccountMap) :
    List AddressedAccount :=
  accountKeys.map fun address => { address, account := accountOrZero accounts address }

/-- A transaction whose accounts were loaded; `error` is empty if it is confirmed. -/
def LoadedTransaction.result (loaded : LoadedTransaction) (error : Option String)
    (accounts : AccountMap) (computeUnitsConsumed : ℕ) : TransactionExecutionResult where
  status := if error.isSome then .failed else .confirmed
  error := error
  feeDetails := loaded.feeDetails
  postBalances := loaded.message.accountKeys.map fun address =>
    (accountOrZero accounts address).lamports
  computeUnitsConsumed := computeUnitsConsumed
  costUnits := computeUnitsConsumed
  writtenAccounts := writtenAccountsFromMessage loaded.message.accountKeys accounts

/-- `Validate` as far as it can fail here: every written account satisfies the default rent
rule. -/
def TransactionExecutionResult.validated (result : TransactionExecutionResult) :
    Except String TransactionExecutionResult := do
  result.writtenAccounts.zipIdx.forM fun (entry, accountIndex) =>
    withContext s!"structure: written account {accountIndex}"
      (withContext "structure: validate addressed account" entry.account.validate)
  pure result

/-- The transaction after its transparent fee, and the loop over its instructions. -/
def runInstructions (execute : ProgramHandler) (input : SimulationInput)
    (loaded : LoadedTransaction) : InstructionRun :=
  executeInstructions execute input loaded loaded.message.instructions.zipIdx 0
    (cloneLoadedAccountsToMap loaded.accounts)

/-- `Simulate` after the transparent fee. The registry is built first, which can fail. A failed
instruction or an unpaid shielded fee takes everything back. -/
def finishSimulation (registry : Except String ProgramHandler) (input : SimulationInput)
    (loaded : LoadedTransaction) : TransactionExecutionResult :=
  let start := cloneLoadedAccountsToMap loaded.accounts
  match registry with
  | .error message =>
    { loaded.result (some message) start 0 with
      postBalances := loaded.accounts.map fun entry => entry.account.lamports
      writtenAccounts := loaded.accounts }
  | .ok execute =>
    let run := runInstructions execute input loaded
    let settled := do
      let accounts ← run.outcome
      chargeShieldedFee loaded accounts input.rentConfig
    match settled with
    | .error message => loaded.result (some message) start run.consumed
    | .ok accounts => loaded.result none accounts run.consumed

/-- The result that `Simulate` returns, together with an error if `Validate` objects to it. -/
def simulationResult (registry : Except String ProgramHandler) (parameters : RuntimeParameters)
    (input : SimulationInput) : TransactionExecutionResult :=
  match normalizeSimulationInput input with
  | .error message => .rejected message
  | .ok input =>
    match prepareSimulation parameters input with
    | .error message => .rejected message
    | .ok loaded =>
      match chargeTransparentFee loaded input.rentConfig with
      | .error message => loaded.result (some message) loaded.accountStates 0
      | .ok charged => finishSimulation registry input charged

/-- `Simulate` with the programs of the node. -/
def simulate (parameters : RuntimeParameters) (input : SimulationInput) :
    Except String TransactionExecutionResult :=
  (simulationResult (.ok (registryExecute parameters)) parameters input).validated

end Ordexus
