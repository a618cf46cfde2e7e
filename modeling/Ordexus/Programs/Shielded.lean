import Ordexus.Runtime.Context
import Ordexus.Structure.Transaction

/-!
# The shielded program

The commitment tree (`programs/shielded/tree.go`) and the execution of a bundle
(`programs/shielded/program.go`). A spend is recorded by handing the account derived from
its nullifier to the program; the pool account holds the state and the lamports of all
notes. The proof system and the hash of the tree are parameters.
-/

namespace Ordexus.Shielded

open Checked List

def programID : PublicKey := defaultBuiltinProgramIDs.shielded

def circuitID : ℕ := 0x53483201
def merkleDepth : ℕ := 32
def actionCount : ℕ := 2

/-- The order of the scalar field of BN254. -/
def scalarField : ℕ :=
  21888242871839275222246405745257275088548364400416034343698204186575808495617

/-- The public inputs of one action of the circuit. -/
structure CircuitSlot where
  spendEnabled : Bool
  outputEnabled : Bool
  nullifier : ℕ
  outputCommitment : ℕ
deriving DecidableEq

structure CircuitAssignment where
  anchor : ℕ
  contextDigest : ℕ
  valueBalanceNegative : Bool
  valueBalanceMagnitude : ℕ
  slots : List CircuitSlot
deriving DecidableEq

/-- What a proof is bound to: the message without the proofs of its shielded instructions
and the circumstances of the instruction. -/
structure ProofContext where
  authorization : ShieldedTransferInstruction
  header : MessageHeader
  accountKeys : List PublicKey
  recentBlockhash : Hash
  instructions : List (CompiledInstruction ⊕ ShieldedTransferInstruction)
  instructionIndex : ℕ
  feeSource : FeePaymentSource
  transactionFee : ℕ
  instructionAccounts : List PublicKey
deriving DecidableEq

/-- The parameters of the program. -/
structure Program extends ShieldedAddresses where
  verifyingKeyHash : Hash
  merkleNode : ℕ → ℕ → Except String ℕ
  /-- The ephemeral key inside an encrypted note. -/
  parseEncryptedNote : Bytes → Except String Bytes
  /-- The digest of the encoded context. -/
  contextDigest : ProofContext → Except String ℕ
  verifyShieldedCircuit : CircuitAssignment → Bytes → Except String Unit

/-! ### The commitment tree -/

/-- `ShieldedFieldFromBytes` and `ShieldedFieldBytes`: digests below the field order. -/
def shieldedField (value : ℕ) : Except String ℕ := do
  failIf (scalarField ≤ value) "zk: invalid shielded witness: field element is not canonical"
  pure value

/-- Carry a leaf up the frontier: it is combined with every node that waits for a right
sibling and stays at the first free level. A value is returned when no level was free. -/
def insertLeaf (program : Program) (position : ℕ) :
    ℕ → List Hash → ℕ → Except String (List Hash × Option ℕ)
  | _, [], current => pure ([], some current)
  | level, node :: nodes, current =>
    if position.testBit level = false then do
      let encoded ← shieldedField current
      pure (encoded :: nodes, none)
    else do
      let left ← orFail (shieldedField node).toOption
        s!"structure: invalid shielded pool state: invalid frontier node {level}"
      let combined ← program.merkleNode left current
      let (above, completed) ← insertLeaf program position (level + 1) nodes combined
      pure (0 :: above, completed)

/-- The roots of empty trees, by height. -/
def emptyRoots (program : Program) : ℕ → ℕ → Except String (List ℕ)
  | 0, root => pure [root]
  | depth + 1, root => do
    let next ← program.merkleNode root root
    let roots ← emptyRoots program depth next
    pure (root :: roots)

/-- The loop of `frontierRoot` over the nodes and the empty trees of their heights. -/
def foldFrontier (program : Program) (leafCount : ℕ) :
    ℕ → List (Hash × ℕ) → ℕ → Except String ℕ
  | _, [], current => pure current
  | level, (node, emptyRoot) :: nodes, current =>
    if leafCount.testBit level then do
      let frontierNode ← orFail (shieldedField node).toOption
        s!"structure: invalid shielded pool state: invalid frontier node {level}"
      let combined ← program.merkleNode frontierNode current
      foldFrontier program leafCount (level + 1) nodes combined
    else do
      let combined ← program.merkleNode current emptyRoot
      foldFrontier program leafCount (level + 1) nodes combined

section

variable (program : Program) (state : ShieldedPoolState)

def frontierRoot : Except String ℕ := do
  let roots ← emptyRoots program state.treeDepth 0
  foldFrontier program state.leafCount 0 (state.frontier.zip roots) 0

def appendRecentAnchor (anchors : List Hash) (root : Hash) : List Hash :=
  if anchors.getLast? = some root then anchors
  else (anchors ++ [root]).drop ((anchors ++ [root]).length - maxShieldedRecentAnchors)

/-- The state with one more leaf, before its root is known. -/
def withLeaf (state : ShieldedPoolState) (frontier : List Hash) : ShieldedPoolState :=
  { state with frontier := frontier, leafCount := state.leafCount + 1 }

def withRoot (state : ShieldedPoolState) (root : Hash) : ShieldedPoolState :=
  { state with currentRoot := root, recentAnchors := appendRecentAnchor state.recentAnchors root }

/-- The root of a full tree is the value that found no free level. -/
def nextRoot (completed : Option ℕ) : Except String ℕ :=
  if state.leafCount = state.capacity then
    orFail completed "structure: invalid shielded pool state: missing completed tree root"
  else frontierRoot program state

def appendCommitment (commitment : ℕ) : Except String ShieldedPoolState := do
  failIf (state.capacity ≤ state.leafCount)
    "structure: invalid shielded pool state: commitment tree is full"
  failIf (state.frontier.length ≠ state.treeDepth)
    "structure: invalid shielded pool state: invalid frontier length"
  let (frontier, completed) ← insertLeaf program state.leafCount 0 state.frontier commitment
  let root ← nextRoot program (withLeaf state frontier) completed
  let encodedRoot ← shieldedField root
  pure (withRoot (withLeaf state frontier) encodedRoot)

def appendOutputCommitments (actions : List ShieldedAction) : Except String ShieldedPoolState :=
  (outputCommitments actions).foldlM (fun state commitment => do
    let leaf ← withContext "structure: invalid shielded pool state: invalid output commitment"
      (shieldedField commitment)
    appendCommitment program state leaf) state

end

def validateAnchor (state : ShieldedPoolState) (anchor : Hash) : Except String Unit :=
  failIf (anchor ≠ state.currentRoot ∧ anchor ∉ state.recentAnchors)
    "structure: invalid shielded bundle: anchor is not recent"

/-! ### The accounts of an instruction -/

structure InstructionAccounts where
  transparentSource : Option PublicKey
  transparentTarget : Option PublicKey
  nullifierMarkers : List PublicKey
  ordered : List PublicKey
deriving DecidableEq

/-- Take the next account of the instruction. -/
def readWritable (context : InstructionContext) (field : String) (indexes : List ℕ) :
    Except String (PublicKey × List ℕ) :=
  match indexes with
  | [] => .error ("structure: invalid instruction: missing " ++ field ++ " account")
  | accountIndex :: rest => do
    failIf (isWritableMessageAccount accountIndex context.message = false)
      ("structure: invalid instruction: " ++ field ++ " account must be writable")
    let address ← context.accountKey accountIndex
    pure (address, rest)

def resolveSource (context : InstructionContext) (amount : ℕ) (indexes : List ℕ) :
    Except String (Option PublicKey × List ℕ) :=
  if 0 < amount then do
    let (sourceAddress, rest) ← readWritable context "transparent source" indexes
    failIf (isSignerAddress sourceAddress context.message = false)
      "structure: missing required signature: transparent input source must sign"
    pure (some sourceAddress, rest)
  else pure (none, indexes)

def resolveTarget (program : Program) (context : InstructionContext) (amount : ℕ)
    (indexes : List ℕ) : Except String (Option PublicKey × List ℕ) :=
  if 0 < amount then do
    let (targetAddress, rest) ← readWritable context "transparent destination" indexes
    failIf (targetAddress = program.pool)
      "structure: invalid instruction: transparent destination cannot be the shielded pool"
    pure (some targetAddress, rest)
  else pure (none, indexes)

def resolveMarkers (program : Program) (context : InstructionContext) :
    List Hash → List ℕ → Except String (List PublicKey × List ℕ)
  | [], indexes => pure ([], indexes)
  | nullifier :: nullifiers, indexes => do
    let (marker, rest) ← readWritable context "nullifier marker" indexes
    failIf (marker ≠ program.nullifierAccount nullifier)
      "structure: invalid instruction: nullifier marker address mismatch"
    let (markers, rest) ← resolveMarkers program context nullifiers rest
    pure (marker :: markers, rest)

def resolveInstructionAccounts (program : Program) (context : InstructionContext)
    (instruction : ShieldedTransferInstruction) : Except String InstructionAccounts := do
  let ordered ← context.instruction.accountIndexes.mapM fun accountIndex =>
    orFail context.message.accountKeys[accountIndex]?
      "structure: invalid instruction: shielded account index is out of range"
  let (poolAddress, rest) ← readWritable context "pool" context.instruction.accountIndexes
  failIf (poolAddress ≠ program.pool)
    "structure: invalid instruction: unexpected shielded pool address"
  let (transparentSource, rest) ← resolveSource context instruction.transparentInputAmount rest
  let (transparentTarget, rest) ←
    resolveTarget program context instruction.transparentOutputAmount rest
  let (nullifierMarkers, rest) ←
    resolveMarkers program context (spentNullifiers instruction.bundle.actions) rest
  failIf (rest ≠ []) "structure: invalid instruction: unexpected shielded instruction accounts"
  pure { transparentSource, transparentTarget, nullifierMarkers, ordered }

/-! ### Checks before the state changes -/

/-- The ephemeral key of every output is the one inside its encrypted note. -/
def validateEncryptedOutputs (program : Program) (actions : List ShieldedAction) :
    Except String Unit :=
  actions.zipIdx.forM fun (action, actionIndex) =>
    if action.enabledOutput then do
      let ephemeralPublicKey ← withContext
        s!"structure: invalid shielded action: action {actionIndex} encrypted note"
        (program.parseEncryptedNote action.encryptedNote)
      failIf (action.ephemeralKey ≠ ephemeralPublicKey)
        s!"structure: invalid shielded action: action {actionIndex} ephemeral key mismatch"
    else pure ()

/-- The state of the pool, and the lamports of its account beyond the recorded ones. -/
def loadPool (program : Program) (accounts : AccountMap) :
    Except String (ShieldedPoolState × ℕ) := do
  let poolAccount ← orFail (accounts.lookup program.pool)
    "structure: invalid loaded transaction: shielded pool is missing"
  failIf (poolAccount.owner ≠ programID ∨ poolAccount.executable = true)
    "structure: invalid shielded pool state: shielded pool owner mismatch"
  let state ← unmarshalShieldedPoolStateBinary poolAccount.data
  failIf (state.protocolVersion ≠ shieldedProtocolVersion ∨ state.circuitID ≠ circuitID ∨
      state.treeDepth ≠ merkleDepth)
    "structure: invalid shielded pool state: pool circuit configuration mismatch"
  failIf (state.verifyingKeyHash ≠ program.verifyingKeyHash)
    "structure: invalid shielded pool state: verifying key hash mismatch"
  failIf (poolAccount.lamports < state.poolLamports)
    "structure: invalid shielded pool state: pool liabilities exceed physical balance"
  pure (state, poolAccount.lamports - state.poolLamports)

def validateNullifierMarker (accounts : AccountMap) (marker : PublicKey) :
    Except String Unit := do
  let account ← orFail (accounts.lookup marker)
    "structure: invalid loaded transaction: nullifier marker placeholder is missing"
  failIf (account.owner = programID)
    "structure: invalid shielded bundle: nullifier already spent or marker occupied"
  failIf (account.owner ≠ defaultBuiltinProgramIDs.system ∨ account.data ≠ [] ∨
      account.executable = true)
    "structure: invalid shielded bundle: nullifier marker address is occupied"

def validateNullifierMarkers (accounts : AccountMap) (markers : List PublicKey) :
    Except String Unit :=
  markers.forM (validateNullifierMarker accounts)

/-- The part of the fee that the pool pays after the instruction. -/
def deferredFee (context : InstructionContext) : ℕ :=
  if context.feeSource = .shieldedPool then context.transactionFee else 0

def expectedValueBalance (instruction : ShieldedTransferInstruction)
    (context : InstructionContext) : Except String ℤ := do
  let required := context.message.header.numRequiredSignatures
  failIf (context.feeSource = .shieldedPool ∧
      (required ≠ 0 ∨ instruction.transparentInputAmount ≠ 0))
    ("structure: invalid shielded bundle: " ++
      "shielded fee source cannot have transparent signers or inputs")
  failIf (context.feeSource = .transparentAccount ∧ required = 0)
    "structure: missing required signature: transparent fee source requires a signer"
  let positiveSide := instruction.transparentOutputAmount + deferredFee context
  failIf (2 ^ 63 ≤ positiveSide)
    "structure: invalid shielded bundle: transparent output and fee overflow"
  pure (positiveSide - instruction.transparentInputAmount)

/-- A shielded instruction of the message is replaced by what its proof is bound to. -/
def authorizationInstruction (context : InstructionContext)
    (expected : ShieldedTransferInstruction) (compiled : CompiledInstruction) (index : ℕ) :
    Except String (CompiledInstruction ⊕ ShieldedTransferInstruction) := do
  let program ← orFail context.message.accountKeys[compiled.programIDIndex]?
    "structure: invalid shielded bundle: shielded program index is out of range"
  if program = programID then do
    let instruction ← withContext
      s!"structure: invalid shielded bundle: decode shielded instruction {index}"
      (unmarshalShieldedTransferInstructionBinary compiled.data)
    failIf (index = context.instructionIndex ∧
        instruction.authorization ≠ expected.authorization)
      ("structure: invalid shielded bundle: " ++
        "shielded instruction authorization does not match message")
    pure (.inr instruction.authorization)
  else pure (.inl compiled)

/-- `buildShieldedProofAuthorizationMessage`. -/
def authorizationInstructions (context : InstructionContext)
    (instruction : ShieldedTransferInstruction) :
    Except String (List (CompiledInstruction ⊕ ShieldedTransferInstruction)) := do
  let message := context.message
  let index := context.instructionIndex
  withContext "structure: invalid shielded bundle: invalid proof context message" message.validate
  failIf (message.loadedAddresses.writable ≠ [] ∨ message.loadedAddresses.readonly ≠ [] ∨
      message.accountKeys.length ≠ message.staticAccountKeys.length)
    ("structure: invalid shielded bundle: " ++
      "address table messages are not supported by shielded proof context")
  failIf (message.accountKeys ≠ message.staticAccountKeys)
    ("structure: invalid shielded bundle: " ++
      "resolved and static proof context accounts differ")
  let current ← orFail message.instructions[index]?
    s!"structure: invalid shielded bundle: shielded instruction index {index} is out of range"
  let instructions ← message.instructions.zipIdx.mapM fun (compiled, compiledIndex) =>
    authorizationInstruction context instruction compiled compiledIndex
  failIf (message.accountKeys[current.programIDIndex]? ≠ some programID)
    ("structure: invalid shielded bundle: " ++
      "proof context instruction does not target shielded program")
  pure instructions

/-- `BuildShieldedProofContextBytes` up to the encoding. -/
def buildShieldedProofContext (program : Program) (context : InstructionContext)
    (instruction : ShieldedTransferInstruction) (instructionAccounts : List PublicKey) :
    Except String ProofContext := do
  let message := context.message
  let accountCount := instructionAccounts.length
  instruction.validatePublicData
  failIf (program.pool = 0 ∨ message.recentBlockhash = 0)
    "structure: invalid shielded bundle: proof context contains an empty identifier"
  failIf (accountCount = 0 ∨ maxInstructionAccounts < accountCount)
    s!"structure: invalid shielded bundle: invalid proof context account count {accountCount}"
  let instructions ← authorizationInstructions context instruction
  pure { authorization := instruction.authorization
         header := message.header
         accountKeys := message.staticAccountKeys
         recentBlockhash := message.recentBlockhash
         instructions
         instructionIndex := context.instructionIndex
         feeSource := context.feeSource
         transactionFee := context.transactionFee
         instructionAccounts }

def emptySlot : CircuitSlot where
  spendEnabled := false
  outputEnabled := false
  nullifier := 0
  outputCommitment := 0

def circuitSlot (action : ShieldedAction) (actionIndex : ℕ) : Except String CircuitSlot := do
  let nullifier ← if action.enabledSpend then
      withContext s!"structure: invalid shielded bundle: action {actionIndex} nullifier"
        (shieldedField action.nullifier)
    else pure 0
  let outputCommitment ← if action.enabledOutput then
      withContext s!"structure: invalid shielded bundle: action {actionIndex} commitment"
        (shieldedField action.noteCommitment)
    else pure 0
  pure { spendEnabled := action.enabledSpend, outputEnabled := action.enabledOutput
         nullifier, outputCommitment }

/-- Slots without an action are zero. -/
def publicCircuitAssignment (bundle : ShieldedBundle) (contextDigest : ℕ) :
    Except String CircuitAssignment := do
  let slots ← bundle.actions.zipIdx.mapM fun (action, actionIndex) =>
    circuitSlot action actionIndex
  pure { anchor := bundle.anchor
         contextDigest
         valueBalanceNegative := decide (bundle.valueBalance < 0)
         valueBalanceMagnitude := bundle.valueBalance.natAbs
         slots := slots ++ List.replicate (actionCount - slots.length) emptySlot }

/-! ### The state transition -/

def checkedAddUint64 (left right : ℕ) : Except String ℕ :=
  checkedAdd "structure: invalid shielded pool state: lamport overflow" right left

def applyValueBalance (poolLamports : ℕ) (valueBalance : ℤ) : Except String ℕ :=
  if 0 ≤ valueBalance then do
    failIf (poolLamports < valueBalance.toNat)
      "structure: invalid shielded bundle: shielded pool balance is insufficient"
    pure (poolLamports - valueBalance.toNat)
  else checkedAddUint64 poolLamports valueBalance.natAbs

/-- A payment that an instruction may leave out. -/
def payIf (source destination : Option PublicKey) (amount : ℕ) (accounts : AccountMap)
    (rentConfig : RentConfig) : Except String AccountMap :=
  match source, destination with
  | some source, some destination =>
    transferLamports source destination amount accounts rentConfig
  | _, _ => pure accounts

def spentMarker (account : Account) : Account :=
  { account with owner := programID, data := [] }

def storeNullifierMarkers (accounts : AccountMap) (markers : List PublicKey) : AccountMap :=
  markers.foldl (fun accounts marker =>
    accounts.insert marker (spentMarker (accountOrZero accounts marker))) accounts

def withPoolState (account : Account) (data : Bytes) : Account :=
  { account with owner := programID, data := data }

section

variable (program : Program) (context : InstructionContext) (accounts : AccountMap)

def prepareStateTransition (instruction : ShieldedTransferInstruction)
    (resolved : InstructionAccounts) (poolState : ShieldedPoolState) (reserveLamports : ℕ) :
    Except String AccountMap := do
  let nextPoolLamports ← applyValueBalance poolState.poolLamports instruction.bundle.valueBalance
  let funded ← payIf resolved.transparentSource (some program.pool)
    instruction.transparentInputAmount accounts context.rentConfig
  let paid ← payIf (some program.pool) resolved.transparentTarget
    instruction.transparentOutputAmount funded context.rentConfig
  let nextState ← appendOutputCommitments program
    { poolState with poolLamports := nextPoolLamports } instruction.bundle.actions
  let marked := storeNullifierMarkers paid resolved.nullifierMarkers
  let encodedState ← nextState.marshalBinary
  let poolAccount := withPoolState (accountOrZero marked program.pool) encodedState
  let recorded ← checkedAddUint64 reserveLamports nextPoolLamports
  let expectedPhysicalLamports ← checkedAddUint64 recorded (deferredFee context)
  let physicalLamports := poolAccount.lamports
  failIf (physicalLamports ≠ expectedPhysicalLamports)
    (s!"structure: invalid shielded pool state: pool physical balance {physicalLamports}, " ++
      s!"want {expectedPhysicalLamports}")
  pure (marked.insert program.pool poolAccount)

/-- Eight hexadecimal digits. -/
def branchText (branchID : ℕ) : String :=
  let digits := Nat.toDigits 16 branchID
  String.ofList (List.replicate (8 - digits.length) '0' ++ digits)

/-- Everything but the verification of the proof. -/
def prepare : Except String (CircuitAssignment × Bytes × AccountMap) := do
  let remaining := context.computeBudget.maxComputeUnits
  failIf (remaining < shieldedGroth16VerificationComputeUnits)
    ("structure: invalid fee: shielded Groth16 verification requires " ++
      s!"{shieldedGroth16VerificationComputeUnits} compute units, remaining {remaining}")
  let instruction ← unmarshalShieldedTransferInstructionBinary context.instruction.data
  failIf (instruction.bundle.consensusBranchID ≠ shieldedConsensusBranchID)
    ("structure: invalid shielded bundle: unsupported consensus branch " ++
      branchText instruction.bundle.consensusBranchID)
  validateEncryptedOutputs program instruction.bundle.actions
  let resolved ← resolveInstructionAccounts program context instruction
  let (poolState, reserveLamports) ← loadPool program accounts
  validateAnchor poolState instruction.bundle.anchor
  validateNullifierMarkers accounts resolved.nullifierMarkers
  let expected ← expectedValueBalance instruction context
  let valueBalance := instruction.bundle.valueBalance
  failIf (valueBalance ≠ expected)
    s!"structure: invalid shielded bundle: value balance {valueBalance}, want {expected}"
  let proofContext ← buildShieldedProofContext program context instruction resolved.ordered
  let contextDigest ← program.contextDigest proofContext
  let assignment ← publicCircuitAssignment instruction.bundle contextDigest
  let prepared ← prepareStateTransition program context accounts instruction resolved poolState
    reserveLamports
  pure (assignment, instruction.bundle.proof, prepared)

end

/-- Compute units are reported only when a proof is verified. -/
def execute (program : Program) : ProgramHandler := fun context accounts =>
  match prepare program context accounts with
  | .error message => (0, .error message)
  | .ok (assignment, proof, prepared) =>
    (shieldedGroth16VerificationComputeUnits, do
      withContext "structure: invalid shielded bundle: verify Groth16 proof"
        (program.verifyShieldedCircuit assignment proof)
      pure prepared)

/-! ### What an instruction does -/

section

variable {program : Program} {context : InstructionContext} {accounts next : AccountMap}
  {instruction : ShieldedTransferInstruction} {resolved : InstructionAccounts}
  {address : PublicKey} {indexes rest : List ℕ} {state : ShieldedPoolState}

theorem readWritable_eq_ok {field : String}
    (h : readWritable context field indexes = .ok (address, rest)) :
    ∃ accountIndex, indexes = accountIndex :: rest ∧
      context.accountKey accountIndex = .ok address := by
  unfold readWritable at h
  split at h
  · cases h
  · simp only [eq_ok, Prod.mk.injEq] at h
    obtain ⟨-, _, hkey, rfl, rfl⟩ := h
    exact ⟨_, rfl, hkey⟩

theorem resolveSource_eq_ok {amount : ℕ} {source : Option PublicKey}
    (h : resolveSource context amount indexes = .ok (source, rest)) :
    (0 < amount ↔ source.isSome) ∧
      ∀ signer, source = some signer → isSignerAddress signer context.message = true ∧
        ∃ accountIndex, indexes = accountIndex :: rest ∧
          context.accountKey accountIndex = .ok signer := by
  unfold resolveSource at h
  split at h
  · next hpositive =>
    simp only [eq_ok, Prod.mk.injEq, Bool.not_eq_false] at h
    obtain ⟨⟨signer, _⟩, hread, hsigned, rfl, rfl⟩ := h
    exact ⟨by simp [hpositive], by rintro _ ⟨⟩; exact ⟨hsigned, readWritable_eq_ok hread⟩⟩
  · next hzero =>
    cases h
    exact ⟨by simp [hzero], by rintro _ ⟨⟩⟩

theorem resolveTarget_eq_ok {amount : ℕ} {target : Option PublicKey}
    (h : resolveTarget program context amount indexes = .ok (target, rest)) :
    (0 < amount ↔ target.isSome) ∧ target ≠ some program.pool := by
  unfold resolveTarget at h
  split at h
  · next hpositive =>
    simp only [eq_ok, Prod.mk.injEq] at h
    obtain ⟨⟨destination, _⟩, -, hpool, rfl, -⟩ := h
    exact ⟨by simp [hpositive], by simpa using hpool⟩
  · next hzero =>
    cases h
    exact ⟨by simp [hzero], by simp⟩

theorem resolveMarkers_eq_ok {nullifiers : List Hash} {markers : List PublicKey}
    (h : resolveMarkers program context nullifiers indexes = .ok (markers, rest)) :
    markers = nullifiers.map program.nullifierAccount := by
  induction nullifiers generalizing indexes markers rest with
  | nil =>
    cases h
    rfl
  | cons nullifier nullifiers ih =>
    simp only [resolveMarkers, eq_ok, Prod.mk.injEq, ne_eq, not_not] at h
    obtain ⟨⟨marker, _⟩, -, hmarker, ⟨markers, _⟩, hrest, rfl, -⟩ := h
    rw [hmarker, ih hrest, map_cons]

/-- Who pays, who is paid, and which accounts become markers. -/
structure Resolves (program : Program) (context : InstructionContext)
    (instruction : ShieldedTransferInstruction) (resolved : InstructionAccounts) : Prop where
  source : 0 < instruction.transparentInputAmount ↔ resolved.transparentSource.isSome
  sourceSigned : ∀ signer, resolved.transparentSource = some signer →
    isSignerAddress signer context.message = true
  sourceAt : ∀ signer, resolved.transparentSource = some signer →
    context.accountAddressAt 1 = .ok signer
  target : 0 < instruction.transparentOutputAmount ↔ resolved.transparentTarget.isSome
  targetNotPool : resolved.transparentTarget ≠ some program.pool
  markers : resolved.nullifierMarkers =
    (spentNullifiers instruction.bundle.actions).map program.nullifierAccount
  pool : context.accountAddressAt 0 = .ok program.pool

theorem resolveInstructionAccounts_eq_ok
    (h : resolveInstructionAccounts program context instruction = .ok resolved) :
    Resolves program context instruction resolved := by
  simp only [resolveInstructionAccounts, eq_ok, ne_eq, not_not] at h
  obtain ⟨_, -, ⟨pool, _⟩, hpool, hisPool, ⟨source, _⟩, hsource, ⟨target, _⟩, htarget, ⟨markers, _⟩,
    hmarkers, -, rfl⟩ := h
  obtain ⟨hpays, hsigner⟩ := resolveSource_eq_ok hsource
  obtain ⟨hpaid, hnotPool⟩ := resolveTarget_eq_ok htarget
  obtain ⟨poolIndex, hindexes, hkey⟩ := readWritable_eq_ok hpool
  dsimp only at hisPool hindexes hkey hsigner
  subst hisPool
  refine ⟨hpays, fun signer hsome => (hsigner signer hsome).1, fun signer hsome => ?_, hpaid,
    hnotPool, resolveMarkers_eq_ok hmarkers, ?_⟩
  · obtain ⟨-, sourceIndex, hrest, hsourceKey⟩ := hsigner signer hsome
    rw [InstructionContext.accountAddressAt, InstructionContext.accountIndexAt, hindexes, hrest]
    exact hsourceKey
  · rw [InstructionContext.accountAddressAt, InstructionContext.accountIndexAt, hindexes]
    exact hkey

structure PoolHolds (program : Program) (accounts : AccountMap) (account : Account)
    (state : ShieldedPoolState) : Prop where
  lookup : accounts.lookup program.pool = some account
  owner : account.owner = programID
  executable : account.executable = false
  data : unmarshalShieldedPoolStateBinary account.data = .ok state
  depth : state.treeDepth = merkleDepth
  covered : state.poolLamports ≤ account.lamports

theorem loadPool_eq_ok {reserve : ℕ} (h : loadPool program accounts = .ok (state, reserve)) :
    ∃ account, PoolHolds program accounts account state ∧
      reserve + state.poolLamports = account.lamports := by
  simp only [loadPool, eq_ok, Prod.mk.injEq, not_or, ne_eq, not_not, Bool.not_eq_true, not_lt] at h
  obtain ⟨account, hlookup, ⟨howner, hexecutable⟩, _, hdata, ⟨-, -, hdepth⟩, -, hcovered, rfl, rfl⟩
    := h
  exact ⟨account, ⟨hlookup, howner, hexecutable, hdata, hdepth, hcovered⟩, by omega⟩

/-- An account that can become a marker. -/
def Unspent (accounts : AccountMap) (marker : PublicKey) : Prop :=
  ∃ account, accounts.lookup marker = some account ∧
    account.owner = defaultBuiltinProgramIDs.system ∧ account.data = [] ∧
    account.executable = false

theorem validateNullifierMarkers_eq_ok {markers : List PublicKey}
    (h : validateNullifierMarkers accounts markers = .ok ()) :
    ∀ marker ∈ markers, Unspent accounts marker := by
  intro marker hmem
  have hmarker := forM_eq_ok.mp h marker hmem
  simp only [validateNullifierMarker, eq_ok, not_or, ne_eq, not_not, Bool.not_eq_true] at hmarker
  obtain ⟨account, hlookup, -, howner, hdata, hexecutable⟩ := hmarker
  exact ⟨account, hlookup, howner, hdata, hexecutable⟩

theorem expectedValueBalance_eq_ok {balance : ℤ}
    (h : expectedValueBalance instruction context = .ok balance) :
    balance = (instruction.transparentOutputAmount + deferredFee context : ℕ) -
        (instruction.transparentInputAmount : ℤ) ∧
      (context.feeSource = .shieldedPool → instruction.transparentInputAmount = 0) := by
  simp only [expectedValueBalance, eq_ok, not_and, not_or, ne_eq, not_not] at h
  obtain ⟨hshielded, -, -, rfl⟩ := h
  exact ⟨rfl, fun hfee => (hshielded hfee).2⟩

/-- The recorded balance moves by what enters and leaves the pool. -/
theorem applyValueBalance_eq_ok {before after incoming outgoing : ℕ}
    (hbefore : before < 256 ^ 8) (hincoming : incoming < 256 ^ 8)
    (h : applyValueBalance before ((outgoing : ℤ) - incoming) = .ok after) :
    after + outgoing = before + incoming ∧ after < 256 ^ 8 := by
  unfold applyValueBalance at h
  split at h
  · simp only [eq_ok] at h
    omega
  · rw [checkedAddUint64, checkedAdd_eq_ok, maxUint64] at h
    omega

end

/-! ### The commitment tree keeps its ranges -/

section

variable {program : Program} {state next : ShieldedPoolState}

theorem shieldedField_eq_ok {value encoded : ℕ} (h : shieldedField value = .ok encoded) :
    encoded = value ∧ encoded < 256 ^ 32 := by
  simp only [shieldedField, eq_ok, not_le] at h
  obtain ⟨hsmall, rfl⟩ := h
  exact ⟨rfl, hsmall.trans (by decide)⟩

theorem insertLeaf_lt {position level current : ℕ} {nodes frontier : List Hash}
    {completed : Option ℕ} (hnodes : ∀ node ∈ nodes, node < 256 ^ 32)
    (h : insertLeaf program position level nodes current = .ok (frontier, completed)) :
    ∀ node ∈ frontier, node < 256 ^ 32 := by
  induction nodes generalizing level current frontier completed with
  | nil =>
    cases h
    simp
  | cons node nodes ih =>
    obtain ⟨-, hnodes⟩ := forall_mem_cons.mp hnodes
    unfold insertLeaf at h
    split at h
    · simp only [eq_ok, Prod.mk.injEq] at h
      obtain ⟨encoded, hencoded, rfl, -⟩ := h
      exact forall_mem_cons.mpr ⟨(shieldedField_eq_ok hencoded).2, hnodes⟩
    · simp only [eq_ok, Prod.mk.injEq] at h
      obtain ⟨_, -, _, -, ⟨above, _⟩, habove, rfl, -⟩ := h
      exact forall_mem_cons.mpr ⟨by decide, ih hnodes habove⟩

/-- A new commitment keeps the depth, the recorded balance and the ranges of the state. -/
theorem appendCommitment_eq_ok {commitment : ℕ} (hrange : state.InRange)
    (hdepth : state.treeDepth = merkleDepth)
    (h : appendCommitment program state commitment = .ok next) :
    next.InRange ∧ next.treeDepth = merkleDepth ∧ next.poolLamports = state.poolLamports := by
  simp only [appendCommitment, eq_ok, not_le] at h
  obtain ⟨hroom, -, ⟨frontier, completed⟩, hleaf, root, -, encodedRoot, hroot, rfl⟩ := h
  have hencoded := (shieldedField_eq_ok hroot).2
  have hleaves : state.leafCount + 1 < 256 ^ 8 := by
    rw [ShieldedPoolState.capacity, hdepth] at hroom
    have hcapacity : (if merkleDepth < 64 then 2 ^ merkleDepth else 0) + 1 < 256 ^ 8 := by decide
    omega
  have hanchors : ∀ anchor ∈ appendRecentAnchor state.recentAnchors encodedRoot,
      anchor < 256 ^ 32 := by
    intro anchor hanchor
    unfold appendRecentAnchor at hanchor
    split at hanchor
    · exact hrange.recentAnchors anchor hanchor
    · rcases mem_append.mp (mem_of_mem_drop hanchor) with hold | hlast
      · exact hrange.recentAnchors anchor hold
      · rw [mem_singleton.mp hlast]
        exact hencoded
  exact ⟨{ hrange with
    leafCount := hleaves
    frontier := insertLeaf_lt hrange.frontier hleaf
    currentRoot := hencoded
    recentAnchors := hanchors }, hdepth, rfl⟩

theorem appendOutputCommitments_eq_ok {actions : List ShieldedAction} (hrange : state.InRange)
    (hdepth : state.treeDepth = merkleDepth)
    (h : appendOutputCommitments program state actions = .ok next) :
    next.InRange ∧ next.poolLamports = state.poolLamports := by
  have hinvariant : next.InRange ∧ next.treeDepth = merkleDepth ∧
      next.poolLamports = state.poolLamports := by
    refine @foldlM_invariant _ _ _ _ _ _ _ (fun current => current.InRange ∧
      current.treeDepth = merkleDepth ∧ current.poolLamports = state.poolLamports) h
      ⟨hrange, hdepth, rfl⟩ fun current commitment _ after hcurrent hstep => ?_
    obtain ⟨leaf, -, hstep⟩ := bind_eq_ok.mp hstep
    obtain ⟨hrange, hdepth, hlamports⟩ := hcurrent
    obtain ⟨hafter, hafterDepth, hsame⟩ := appendCommitment_eq_ok hrange hdepth hstep
    exact ⟨hafter, hafterDepth, hsame.trans hlamports⟩
  exact ⟨hinvariant.1, hinvariant.2.2⟩

end

/-! ### A bundle that is executed -/

/-- What a successful instruction has checked and written. -/
structure Executes (program : Program) (context : InstructionContext)
    (accounts next : AccountMap) : Type where
  instruction : ShieldedTransferInstruction
  resolved : InstructionAccounts
  poolAccount : Account
  poolState : ShieldedPoolState
  nextState : ShieldedPoolState
  funded : AccountMap
  paid : AccountMap
  data : Bytes
  decoded : unmarshalShieldedTransferInstructionBinary context.instruction.data = .ok instruction
  resolves : Resolves program context instruction resolved
  pool : PoolHolds program accounts poolAccount poolState
  unspent : ∀ marker ∈ resolved.nullifierMarkers, Unspent accounts marker
  shieldedFee : context.feeSource = .shieldedPool → instruction.transparentInputAmount = 0
  fund : payIf resolved.transparentSource (some program.pool) instruction.transparentInputAmount
    accounts context.rentConfig = .ok funded
  pay : payIf (some program.pool) resolved.transparentTarget instruction.transparentOutputAmount
    funded context.rentConfig = .ok paid
  range : nextState.InRange
  marshalled : nextState.marshalBinary = .ok data
  recorded : nextState.poolLamports + (instruction.transparentOutputAmount + deferredFee context) =
    poolState.poolLamports + instruction.transparentInputAmount
  written : next = (storeNullifierMarkers paid resolved.nullifierMarkers).insert program.pool
    (withPoolState
      (accountOrZero (storeNullifierMarkers paid resolved.nullifierMarkers) program.pool) data)
  physical :
    (accountOrZero (storeNullifierMarkers paid resolved.nullifierMarkers) program.pool).lamports +
        poolState.poolLamports =
      poolAccount.lamports + nextState.poolLamports + deferredFee context

theorem execute_eq_ok {program : Program} {context : InstructionContext}
    {accounts next : AccountMap} (h : (execute program context accounts).2 = .ok next) :
    Nonempty (Executes program context accounts next) := by
  unfold execute at h
  split at h
  · cases h
  · next assignment proof prepared hprepare =>
    simp only [eq_ok] at h
    obtain ⟨-, rfl⟩ := h
    simp only [prepare, eq_ok, Prod.mk.injEq, ne_eq, not_not] at hprepare
    obtain ⟨-, instruction, hdecoded, -, -, resolved, hresolved, ⟨poolState, reserve⟩, hpool, -,
      hmarkers, balance, hbalance, hvalue, _, -, _, -, _, -, prepared, htransition, -, -, rfl⟩ :=
      hprepare
    obtain ⟨poolAccount, hholds, hreserve⟩ := loadPool_eq_ok hpool
    obtain ⟨hexpected, hshieldedFee⟩ := expectedValueBalance_eq_ok hbalance
    simp only [prepareStateTransition, eq_ok, ne_eq, not_not] at htransition
    obtain ⟨nextLamports, hlamports, funded, hfunded, paid, hpaid, nextState, hnext, data, hdata,
      expected, hfirst, total, hsecond, hphysical, rfl⟩ := htransition
    rw [hvalue, hexpected] at hlamports
    have hrange := (unmarshalShieldedPoolStateBinary_eq_ok hholds.data).1
    have hinput := (unmarshalShieldedTransferInstructionBinary_eq_ok hdecoded).2.1
    obtain ⟨hrecorded, hnextLamports⟩ := applyValueBalance_eq_ok hrange.poolLamports
      (hinput.trans_lt (by decide)) hlamports
    have hprepared : ShieldedPoolState.InRange { poolState with poolLamports := nextLamports } :=
      { hrange with poolLamports := hnextLamports }
    obtain ⟨hnextRange, hnextRecorded⟩ := appendOutputCommitments_eq_ok hprepared hholds.depth hnext
    dsimp only at hnextRecorded
    have htotal := (checkedAdd_eq_ok.mp hfirst).2
    have hsum := (checkedAdd_eq_ok.mp hsecond).2
    refine ⟨⟨instruction, resolved, poolAccount, poolState, nextState, funded, paid, data, hdecoded,
      resolveInstructionAccounts_eq_ok hresolved, hholds, validateNullifierMarkers_eq_ok hmarkers,
      hshieldedFee, hfunded, hpaid, hnextRange, hdata, ?_, rfl, ?_⟩⟩
    · rw [hnextRecorded]
      exact hrecorded
    · have hheld : (accountOrZero (storeNullifierMarkers paid resolved.nullifierMarkers)
          program.pool).lamports = total := hphysical
      omega

end Ordexus.Shielded
