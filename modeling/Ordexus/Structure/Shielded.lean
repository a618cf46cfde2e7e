import Ordexus.Structure.Message

/-!
# The shielded pool: data formats

Actions, bundles and the state of the pool (`structure/shielded.go`) and the instruction
that carries a bundle (`structure/shielded_instruction.go`). An action spends a note by
publishing its nullifier, or creates one by publishing a commitment, or both.
-/

namespace Ordexus

open Checked Borsh List

def shieldedProtocolVersion : ℕ := 2
def shieldedPoolStateEncodingVersion : ℕ := 1
def shieldedEphemeralKeySize : ℕ := 32
def maxShieldedActionsPerBundle : ℕ := 2
def maxShieldedEncryptedNoteBytes : ℕ := 632
def shieldedGroth16ProofBytes : ℕ := 164
def maxShieldedBundleBytes : ℕ := 256 * 1024
def maxShieldedTreeDepth : ℕ := 64
def maxShieldedRecentAnchors : ℕ := 256
def maxShieldedPoolStateBytes : ℕ := 64 * 1024
def shieldedPoolStateWriteChargeBytes : ℕ := 10 * 1024
def shieldedNullifierStateWriteChargeBytes : ℕ := 64 * 1024
def shieldedInstructionEncodingVersion : ℕ := 1
def shieldedConsensusBranchID : ℕ := 0x53483200
def maxShieldedInstructionBytes : ℕ := maxInstructionDataSize
def maxShieldedTransparentAmount : ℕ := 2 ^ 63 - 1

structure ShieldedAction where
  enabledSpend : Bool
  enabledOutput : Bool
  nullifier : Hash
  noteCommitment : Hash
  ephemeralKey : Bytes
  encryptedNote : Bytes
deriving DecidableEq

structure ShieldedBundle where
  protocolVersion : ℕ
  consensusBranchID : ℕ
  anchor : Hash
  actions : List ShieldedAction
  valueBalance : ℤ
  proof : Bytes
deriving DecidableEq

structure ShieldedPoolState where
  stateEncodingVersion : ℕ
  protocolVersion : ℕ
  circuitID : ℕ
  verifyingKeyHash : Hash
  treeDepth : ℕ
  leafCount : ℕ
  frontier : List Hash
  currentRoot : Hash
  recentAnchors : List Hash
  poolLamports : ℕ
deriving DecidableEq

/-- Payments into and out of the pool with the bundle that accounts for them. -/
structure ShieldedTransferInstruction where
  encodingVersion : ℕ
  transparentInputAmount : ℕ
  transparentOutputAmount : ℕ
  bundle : ShieldedBundle
deriving DecidableEq

/-- Addresses that are digests of a fixed text and of what they stand for: the pool of the
chain and the account that marks a nullifier as spent. -/
structure ShieldedAddresses where
  pool : PublicKey
  nullifierAccount : Hash → PublicKey

/-! ### Validation -/

def validateShieldedFixedBytes (value : Bytes) (expected : ℕ) (field baseError : String) :
    Except String Unit := do
  let length := value.length
  failIf (length ≠ expected) (baseError ++ ": " ++ field ++ s!" length {length}, want {expected}")
  failIf (∀ byte ∈ value, byte = 0) (baseError ++ ": " ++ field ++ " is zero")

def validateShieldedVariableBytes (value : Bytes) (maximum : ℕ) (field baseError : String) :
    Except String Unit := do
  let length := value.length
  failIf (value = []) (baseError ++ ": " ++ field ++ " is empty")
  failIf (maximum < length) (baseError ++ ": " ++ field ++ s!" length {length} exceeds {maximum}")
  failIf (∀ byte ∈ value, byte = 0) (baseError ++ ": " ++ field ++ " is zero")

def ShieldedAction.validateOutput (action : ShieldedAction) : Except String Unit :=
  let baseError := "structure: invalid shielded action"
  if action.enabledOutput then do
    failIf (action.noteCommitment = 0) (baseError ++ ": note commitment is zero")
    validateShieldedFixedBytes action.ephemeralKey shieldedEphemeralKeySize "ephemeral key"
      baseError
    validateShieldedVariableBytes action.encryptedNote maxShieldedEncryptedNoteBytes
      "encrypted note" baseError
  else
    failIf (action.noteCommitment ≠ 0 ∨ action.ephemeralKey ≠ [] ∨ action.encryptedNote ≠ [])
      (baseError ++ ": disabled output contains output fields")

def ShieldedAction.validate (action : ShieldedAction) : Except String Unit := do
  failIf (action.enabledSpend = false ∧ action.enabledOutput = false)
    "structure: invalid shielded action: spend and output are both disabled"
  failIf (action.enabledSpend = true ∧ action.nullifier = 0)
    "structure: invalid shielded action: nullifier is zero"
  failIf (action.enabledSpend = false ∧ action.nullifier ≠ 0)
    "structure: invalid shielded action: disabled spend contains spend fields"
  action.validateOutput

def spentNullifiers (actions : List ShieldedAction) : List Hash :=
  (actions.filter ShieldedAction.enabledSpend).map ShieldedAction.nullifier

/-- The commitments of the actions that create a note. -/
def outputCommitments (actions : List ShieldedAction) : List Hash :=
  (actions.filter ShieldedAction.enabledOutput).map ShieldedAction.noteCommitment

/-- The loop over the actions of a bundle; `checked` are those before `actions`. -/
def validateShieldedActions (checked : List ShieldedAction) :
    List ShieldedAction → Except String Unit
  | [] => pure ()
  | action :: actions => do
    let index := checked.length
    withContext s!"structure: invalid shielded bundle: action {index}" action.validate
    failIf (action.enabledSpend = true ∧ action.nullifier ∈ spentNullifiers checked)
      s!"structure: invalid shielded bundle: duplicate nullifier at action {index}"
    failIf (action.enabledOutput = true ∧ action.noteCommitment ∈ outputCommitments checked)
      s!"structure: invalid shielded bundle: duplicate note commitment at action {index}"
    validateShieldedActions (checked ++ [action]) actions

def ShieldedBundle.validate (bundle : ShieldedBundle) : Except String Unit := do
  let version := bundle.protocolVersion
  let actionCount := bundle.actions.length
  failIf (version ≠ shieldedProtocolVersion)
    s!"structure: invalid shielded bundle: unsupported protocol version {version}"
  failIf (bundle.consensusBranchID = 0)
    "structure: invalid shielded bundle: consensus branch id is zero"
  failIf (bundle.anchor = 0) "structure: invalid shielded bundle: anchor is zero"
  failIf (actionCount = 0 ∨ maxShieldedActionsPerBundle < actionCount)
    (s!"structure: invalid shielded bundle: action count {actionCount} is outside " ++
      s!"[1,{maxShieldedActionsPerBundle}]")
  validateShieldedActions [] bundle.actions
  validateShieldedFixedBytes bundle.proof shieldedGroth16ProofBytes "proof"
    "structure: invalid shielded bundle"

/-- The number of leaves a tree has room for, as a 64-bit number. -/
def ShieldedPoolState.capacity (state : ShieldedPoolState) : ℕ :=
  if state.treeDepth < 64 then 2 ^ state.treeDepth else 0

def ShieldedPoolState.validate (state : ShieldedPoolState) : Except String Unit := do
  let encodingVersion := state.stateEncodingVersion
  let version := state.protocolVersion
  let depth := state.treeDepth
  let leafCount := state.leafCount
  let frontierLength := state.frontier.length
  let anchorCount := state.recentAnchors.length
  failIf (encodingVersion ≠ shieldedPoolStateEncodingVersion)
    (s!"structure: invalid shielded pool state: unsupported state encoding version " ++
      s!"{encodingVersion}")
  failIf (version ≠ shieldedProtocolVersion)
    s!"structure: invalid shielded pool state: unsupported protocol version {version}"
  failIf (state.circuitID = 0) "structure: invalid shielded pool state: circuit id is zero"
  failIf (state.verifyingKeyHash = 0)
    "structure: invalid shielded pool state: verifying key hash is zero"
  failIf (depth = 0 ∨ maxShieldedTreeDepth < depth)
    (s!"structure: invalid shielded pool state: tree depth {depth} is outside " ++
      s!"[1,{maxShieldedTreeDepth}]")
  failIf (depth < 64 ∧ 2 ^ depth < leafCount)
    s!"structure: invalid shielded pool state: leaf count {leafCount} exceeds tree capacity"
  failIf (frontierLength ≠ depth)
    (s!"structure: invalid shielded pool state: frontier length {frontierLength} does not " ++
      s!"match tree depth {depth}")
  -- a node of the frontier stands for a set bit of the leaf count
  state.frontier.zipIdx.forM fun (node, index) =>
    failIf (decide (leafCount ≠ state.capacity ∧ leafCount.testBit index = true) =
        decide (node = 0))
      (s!"structure: invalid shielded pool state: frontier node {index} presence does not " ++
        "match leaf count")
  failIf (state.currentRoot = 0) "structure: invalid shielded pool state: current root is zero"
  failIf (maxShieldedRecentAnchors < anchorCount)
    (s!"structure: invalid shielded pool state: recent anchor count {anchorCount} exceeds " ++
      s!"{maxShieldedRecentAnchors}")
  state.recentAnchors.zipIdx.forM fun (anchor, index) => do
    failIf (anchor = 0) s!"structure: invalid shielded pool state: recent anchor {index} is zero"
    failIf (anchor ∈ state.recentAnchors.take index)
      s!"structure: invalid shielded pool state: duplicate recent anchor at index {index}"

/-- The proof that stands in for a missing one while the public data is checked. -/
def ShieldedBundle.withProofPlaceholder (bundle : ShieldedBundle) : ShieldedBundle :=
  if bundle.proof = [] then
    { bundle with proof := 1 :: List.replicate (shieldedGroth16ProofBytes - 1) 0 }
  else bundle

namespace ShieldedTransferInstruction

section

variable (instruction : ShieldedTransferInstruction)

def validatePublicData : Except String Unit := do
  let version := instruction.encodingVersion
  failIf (version ≠ shieldedInstructionEncodingVersion)
    s!"structure: invalid shielded bundle: unsupported instruction encoding version {version}"
  failIf (maxShieldedTransparentAmount < instruction.transparentInputAmount)
    ("structure: invalid shielded bundle: transparent input exceeds " ++
      s!"{maxShieldedTransparentAmount}")
  failIf (maxShieldedTransparentAmount < instruction.transparentOutputAmount)
    ("structure: invalid shielded bundle: transparent output exceeds " ++
      s!"{maxShieldedTransparentAmount}")
  instruction.bundle.withProofPlaceholder.validate

def validate : Except String Unit := do
  instruction.validatePublicData
  instruction.bundle.validate

/-- What the proof is bound to: everything but the proof. -/
def authorization : ShieldedTransferInstruction :=
  { instruction with bundle := { instruction.bundle with proof := [] } }

end

end ShieldedTransferInstruction

/-- The bytes a bundle is charged for. -/
def shieldedStorageWriteChargeBytes (actions : List ShieldedAction) : Except String ℕ := do
  let actionCount := actions.length
  failIf (actionCount = 0 ∨ maxShieldedActionsPerBundle < actionCount)
    s!"structure: invalid shielded bundle: invalid action count {actionCount}"
  actions.zipIdx.foldlM (fun storageWriteBytes (action, actionIndex) => do
    withContext s!"structure: invalid shielded bundle: action {actionIndex}" action.validate
    if action.enabledSpend then do
      failIf (maxUint64 - shieldedNullifierStateWriteChargeBytes < storageWriteBytes)
        "structure: invalid shielded bundle: storage write charge overflow"
      pure (storageWriteBytes + shieldedNullifierStateWriteChargeBytes)
    else pure storageWriteBytes) shieldedPoolStateWriteChargeBytes

/-! ### Formats -/

def readShieldedHash (limit : ℕ) (field : String) : Reader Hash :=
  readKey limit ("structure: decode " ++ field)

def readShieldedBytes (limit maximum : ℕ) (field baseError : String) : Reader Bytes := do
  let length ← readField 4 ("structure: decode " ++ field ++ " length")
  require (maximum < length) (baseError ++ ": " ++ field ++ s!" length {length} exceeds {maximum}")
  (readFixedBytes limit length).withContext ("structure: decode " ++ field)

/-- `count` digests; the error names the one that failed. -/
def readShieldedHashList (limit : ℕ) (field : String) : ℕ → ℕ → Reader (List Hash)
  | _, 0 => pure []
  | index, count + 1 => do
    let hash ← readShieldedHash limit (field ++ s!" {index}")
    let hashes ← readShieldedHashList limit field (index + 1) count
    pure (hash :: hashes)

def readShieldedHashes (limit maximum : ℕ) (field baseError : String) : Reader (List Hash) := do
  let count ← readField 4 ("structure: decode " ++ field ++ " count")
  require (maximum < count) (baseError ++ ": " ++ field ++ s!" count {count} exceeds {maximum}")
  readShieldedHashList limit field 0 count

def readShieldedAction (limit : ℕ) : Reader ShieldedAction := do
  let enabledSpend ← readBool "structure: decode shielded enabled spend"
  let enabledOutput ← readBool "structure: decode shielded enabled output"
  let nullifier ← readShieldedHash limit "shielded nullifier"
  let noteCommitment ← readShieldedHash limit "shielded note commitment"
  let ephemeralKey ← readShieldedBytes limit shieldedEphemeralKeySize "shielded ephemeral key"
    "structure: invalid shielded action"
  let encryptedNote ← readShieldedBytes limit maxShieldedEncryptedNoteBytes
    "shielded encrypted note" "structure: invalid shielded action"
  pure { enabledSpend, enabledOutput, nullifier, noteCommitment, ephemeralKey, encryptedNote }

/-- Each action is checked before the next one is read. -/
def readShieldedActions (limit : ℕ) : ℕ → ℕ → Reader (List ShieldedAction)
  | _, 0 => pure []
  | index, count + 1 => do
    let action ← (readShieldedAction limit).withContext
      s!"structure: decode shielded bundle action {index}"
    check (withContext s!"structure: invalid shielded bundle: action {index}" action.validate)
    let actions ← readShieldedActions limit (index + 1) count
    pure (action :: actions)

def readShieldedBundle : Reader ShieldedBundle := do
  let protocolVersion ← readField 2 "structure: decode shielded bundle protocol version"
  let consensusBranchID ← readField 4 "structure: decode shielded bundle consensus branch id"
  let anchor ← readShieldedHash maxShieldedBundleBytes "shielded bundle anchor"
  let actionCount ← readField 4 "structure: decode shielded bundle action count"
  require (actionCount = 0 ∨ maxShieldedActionsPerBundle < actionCount)
    (s!"structure: invalid shielded bundle: action count {actionCount} is outside " ++
      s!"[1,{maxShieldedActionsPerBundle}]")
  let actions ← readShieldedActions maxShieldedBundleBytes 0 actionCount
  let valueBalance ← readField 8 "structure: decode shielded bundle value balance"
  let proof ← readShieldedBytes maxShieldedBundleBytes shieldedGroth16ProofBytes
    "shielded bundle proof" "structure: invalid shielded bundle"
  pure { protocolVersion, consensusBranchID, anchor, actions
         valueBalance := toInt64 valueBalance, proof }

def validateShieldedInputSize (data : Bytes) (maximum : ℕ) (field baseError : String) :
    Except String Unit := do
  let length := data.length
  failIf (data = []) (baseError ++ ": " ++ field ++ " bytes are empty")
  failIf (maximum < length)
    (baseError ++ ": " ++ field ++ s!" bytes length {length} exceeds {maximum}")

def unmarshalShieldedBundleBinary (data : Bytes) : Except String ShieldedBundle := do
  validateShieldedInputSize data maxShieldedBundleBytes "shielded bundle"
    "structure: invalid shielded bundle"
  let bundle ← readAll readShieldedBundle "structure: decode shielded bundle eof" data
  bundle.validate
  pure bundle

/-- The fields of the instruction and the bytes of its bundle. -/
def readShieldedTransferInstruction : Reader (ℕ × ℕ × ℕ × Bytes) := do
  let encodingVersion ← readField 2 "structure: decode shielded instruction version"
  let transparentInputAmount ← readField 8 "structure: decode transparent input"
  let transparentOutputAmount ← readField 8 "structure: decode transparent output"
  let bundleBytes ← (readBytes maxShieldedInstructionBytes).withContext
    "structure: decode shielded instruction bundle"
  pure (encodingVersion, transparentInputAmount, transparentOutputAmount, bundleBytes)

def unmarshalShieldedTransferInstructionBinary (data : Bytes) :
    Except String ShieldedTransferInstruction := do
  let length := data.length
  failIf (data = [] ∨ maxShieldedInstructionBytes < length)
    s!"structure: invalid shielded bundle: invalid instruction byte length {length}"
  let (encodingVersion, transparentInputAmount, transparentOutputAmount, bundleBytes) ←
    readAll readShieldedTransferInstruction "structure: decode shielded instruction eof" data
  let bundle ← unmarshalShieldedBundleBinary bundleBytes
  let instruction : ShieldedTransferInstruction :=
    { encodingVersion, transparentInputAmount, transparentOutputAmount, bundle }
  instruction.validate
  pure instruction

def ShieldedAction.encode (action : ShieldedAction) : Bytes :=
  boolByte action.enabledSpend ++ boolByte action.enabledOutput ++
    bigEndian 32 action.nullifier ++ bigEndian 32 action.noteCommitment ++
    littleEndian 4 action.ephemeralKey.length ++ action.ephemeralKey ++
    littleEndian 4 action.encryptedNote.length ++ action.encryptedNote

def ShieldedBundle.encode (bundle : ShieldedBundle) : Bytes :=
  littleEndian 2 bundle.protocolVersion ++ littleEndian 4 bundle.consensusBranchID ++
    bigEndian 32 bundle.anchor ++ littleEndian 4 bundle.actions.length ++
    bundle.actions.flatMap ShieldedAction.encode ++ littleEndian 8 (ofInt64 bundle.valueBalance) ++
    littleEndian 4 bundle.proof.length ++ bundle.proof

/-- The bytes `MarshalBinary` writes for an instruction that passes `Validate`. -/
def ShieldedTransferInstruction.encode (instruction : ShieldedTransferInstruction) : Bytes :=
  littleEndian 2 instruction.encodingVersion ++
    littleEndian 8 instruction.transparentInputAmount ++
    littleEndian 8 instruction.transparentOutputAmount ++
    littleEndian 4 instruction.bundle.encode.length ++ instruction.bundle.encode

def encodeShieldedHashes (hashes : List Hash) : Bytes :=
  littleEndian 4 hashes.length ++ hashes.flatMap (bigEndian 32)

def ShieldedPoolState.encode (state : ShieldedPoolState) : Bytes :=
  littleEndian 2 state.stateEncodingVersion ++ (littleEndian 2 state.protocolVersion ++
    (littleEndian 4 state.circuitID ++ (bigEndian 32 state.verifyingKeyHash ++
      (littleEndian 1 state.treeDepth ++ (littleEndian 8 state.leafCount ++
        (encodeShieldedHashes state.frontier ++ (bigEndian 32 state.currentRoot ++
          (encodeShieldedHashes state.recentAnchors ++
            littleEndian 8 state.poolLamports))))))))

def ShieldedPoolState.marshalBinary (state : ShieldedPoolState) : Except String Bytes := do
  state.validate
  let length := state.encode.length
  failIf (maxShieldedPoolStateBytes < length)
    (s!"structure: invalid shielded pool state: shielded pool state encoded length {length} " ++
      s!"exceeds {maxShieldedPoolStateBytes}")
  pure state.encode

def readShieldedPoolState : Reader ShieldedPoolState := do
  let stateEncodingVersion ← readField 2 "structure: decode shielded state encoding version"
  let protocolVersion ← readField 2 "structure: decode shielded state protocol version"
  let circuitID ← readField 4 "structure: decode shielded state circuit id"
  let verifyingKeyHash ← readShieldedHash maxShieldedPoolStateBytes
    "shielded state verifying key hash"
  let treeDepth ← readField 1 "structure: decode shielded state tree depth"
  let leafCount ← readField 8 "structure: decode shielded state leaf count"
  let frontier ← readShieldedHashes maxShieldedPoolStateBytes maxShieldedTreeDepth
    "shielded state frontier" "structure: invalid shielded pool state"
  let currentRoot ← readShieldedHash maxShieldedPoolStateBytes "shielded state current root"
  let recentAnchors ← readShieldedHashes maxShieldedPoolStateBytes maxShieldedRecentAnchors
    "shielded state recent anchors" "structure: invalid shielded pool state"
  let poolLamports ← readField 8 "structure: decode shielded state pool lamports"
  pure { stateEncodingVersion, protocolVersion, circuitID, verifyingKeyHash, treeDepth, leafCount
         frontier, currentRoot, recentAnchors, poolLamports }

def unmarshalShieldedPoolStateBinary (data : Bytes) : Except String ShieldedPoolState := do
  validateShieldedInputSize data maxShieldedPoolStateBytes "shielded pool state"
    "structure: invalid shielded pool state"
  let state ← readAll readShieldedPoolState "structure: decode shielded pool state eof" data
  state.validate
  pure state

/-! ### The pool state is read back -/

structure ShieldedPoolState.InRange (state : ShieldedPoolState) : Prop where
  stateEncodingVersion : state.stateEncodingVersion < 256 ^ 2
  protocolVersion : state.protocolVersion < 256 ^ 2
  circuitID : state.circuitID < 256 ^ 4
  verifyingKeyHash : state.verifyingKeyHash < 256 ^ 32
  treeDepth : state.treeDepth < 256 ^ 1
  leafCount : state.leafCount < 256 ^ 8
  frontier : ∀ node ∈ state.frontier, node < 256 ^ 32
  currentRoot : state.currentRoot < 256 ^ 32
  recentAnchors : ∀ anchor ∈ state.recentAnchors, anchor < 256 ^ 32
  poolLamports : state.poolLamports < 256 ^ 8

section

variable {limit maximum : ℕ} {field baseError : String} {state : ShieldedPoolState}

theorem readShieldedHashList_reads (hlimit : 32 ≤ limit) {hashes : List Hash}
    (hhashes : ∀ hash ∈ hashes, hash < 256 ^ 32) (index : ℕ) :
    Reads (readShieldedHashList limit field index hashes.length)
      (hashes.flatMap (bigEndian 32)) hashes := by
  induction hashes generalizing index with
  | nil => exact Reads.pure []
  | cons hash hashes ih =>
    obtain ⟨hhash, hhashes⟩ := forall_mem_cons.mp hhashes
    have hall : Reads (readShieldedHashList limit field index (hashes.length + 1))
        (bigEndian 32 hash ++ (hashes.flatMap (bigEndian 32) ++ [])) (hash :: hashes) :=
      (Reads.key _ hlimit hhash).bind ((ih hhashes (index + 1)).bind (Reads.pure _))
    rwa [append_nil] at hall

theorem readShieldedHashes_reads (hlimit : 32 ≤ limit) (hmaximum : maximum < 256 ^ 4)
    {hashes : List Hash} (hcount : hashes.length ≤ maximum)
    (hhashes : ∀ hash ∈ hashes, hash < 256 ^ 32) :
    Reads (readShieldedHashes limit maximum field baseError) (encodeShieldedHashes hashes)
      hashes := by
  have hcounted : Reads (readField 4 ("structure: decode " ++ field ++ " count"))
      (littleEndian 4 hashes.length) hashes.length := Reads.field _ (by omega)
  exact hcounted.bind <| (Reads.require (by omega)).bind <|
    readShieldedHashList_reads hlimit hhashes 0

theorem readShieldedPoolState_reads (h : state.InRange)
    (hfrontier : state.frontier.length ≤ maxShieldedTreeDepth)
    (hanchors : state.recentAnchors.length ≤ maxShieldedRecentAnchors) :
    Reads readShieldedPoolState state.encode state := by
  have hlimit : 32 ≤ maxShieldedPoolStateBytes := by decide
  have hread : Reads readShieldedPoolState
      (littleEndian 2 state.stateEncodingVersion ++ (littleEndian 2 state.protocolVersion ++
        (littleEndian 4 state.circuitID ++ (bigEndian 32 state.verifyingKeyHash ++
          (littleEndian 1 state.treeDepth ++ (littleEndian 8 state.leafCount ++
            (encodeShieldedHashes state.frontier ++ (bigEndian 32 state.currentRoot ++
              (encodeShieldedHashes state.recentAnchors ++
                (littleEndian 8 state.poolLamports ++ [])))))))))) state :=
    (Reads.field _ h.stateEncodingVersion).bind <| (Reads.field _ h.protocolVersion).bind <|
      (Reads.field _ h.circuitID).bind <| (Reads.key _ hlimit h.verifyingKeyHash).bind <|
      (Reads.field _ h.treeDepth).bind <| (Reads.field _ h.leafCount).bind <|
      (readShieldedHashes_reads hlimit (by decide) hfrontier h.frontier).bind <|
      (Reads.key _ hlimit h.currentRoot).bind <|
      (readShieldedHashes_reads hlimit (by decide) hanchors h.recentAnchors).bind <|
      (Reads.field _ h.poolLamports).bind (Reads.pure state)
  rwa [append_nil] at hread

theorem readShieldedHashList_yields (index count : ℕ) :
    Yields (readShieldedHashList limit field index count) (∀ hash ∈ ·, hash < 256 ^ 32) := by
  induction count generalizing index with
  | zero => exact Yields.pure (by simp)
  | succ count ih =>
    refine (Yields.key _ _).bind fun hash hhash => (ih (index + 1)).bind fun hashes hhashes => ?_
    exact Yields.pure (forall_mem_cons.mpr ⟨hhash, hhashes⟩)

theorem readShieldedHashes_yields :
    Yields (readShieldedHashes limit maximum field baseError) (∀ hash ∈ ·, hash < 256 ^ 32) :=
  (Yields.any _).bind fun _ _ => (Yields.any _).bind fun _ _ => readShieldedHashList_yields 0 _

theorem readShieldedPoolState_yields :
    Yields readShieldedPoolState ShieldedPoolState.InRange :=
  (Yields.field _ _).bind fun _ hencoding => (Yields.field _ _).bind fun _ hprotocol =>
    (Yields.field _ _).bind fun _ hcircuit => (Yields.key _ _).bind fun _ hkey =>
    (Yields.field _ _).bind fun _ hdepth => (Yields.field _ _).bind fun _ hleaves =>
    readShieldedHashes_yields.bind fun _ hfrontier => (Yields.key _ _).bind fun _ hroot =>
    readShieldedHashes_yields.bind fun _ hanchors => (Yields.field _ _).bind fun _ hlamports =>
    Yields.pure ⟨hencoding, hprotocol, hcircuit, hkey, hdepth, hleaves, hfrontier, hroot,
      hanchors, hlamports⟩

theorem unmarshalShieldedPoolStateBinary_eq_ok {data : Bytes}
    (h : unmarshalShieldedPoolStateBinary data = .ok state) :
    state.InRange ∧ state.validate = .ok () := by
  simp only [unmarshalShieldedPoolStateBinary, eq_ok] at h
  obtain ⟨-, _, hread, hvalid, rfl⟩ := h
  exact ⟨readShieldedPoolState_yields.all hread, hvalid⟩

theorem ShieldedPoolState.lengths_of_validate (h : state.validate = .ok ()) :
    state.frontier.length ≤ maxShieldedTreeDepth ∧
      state.recentAnchors.length ≤ maxShieldedRecentAnchors := by
  simp only [validate, eq_ok, not_or, not_lt, ne_eq, not_not] at h
  obtain ⟨-, -, -, -, hdepth, -, hfrontier, -, -, hanchors, -⟩ := h
  exact ⟨by omega, hanchors⟩

/-- What the program writes into the pool account it reads back. -/
theorem ShieldedPoolState.unmarshal_marshal (hrange : state.InRange) {data : Bytes}
    (h : state.marshalBinary = .ok data) : unmarshalShieldedPoolStateBinary data = .ok state := by
  simp only [marshalBinary, eq_ok, not_lt] at h
  obtain ⟨hvalid, hsize, rfl⟩ := h
  obtain ⟨hfrontier, hanchors⟩ := lengths_of_validate hvalid
  have hread := (readShieldedPoolState_reads hrange hfrontier hanchors).all
    "structure: decode shielded pool state eof"
  have hnonempty : state.encode ≠ [] := by
    exact append_ne_nil_of_left_ne_nil (littleEndian_succ_ne_nil 1 _) _
  have hinput : validateShieldedInputSize state.encode maxShieldedPoolStateBytes
      "shielded pool state" "structure: invalid shielded pool state" = .ok () := by
    simp only [validateShieldedInputSize, failIf_of_not hnonempty,
      failIf_of_not (Nat.not_lt.mpr hsize)]
    rfl
  simp only [unmarshalShieldedPoolStateBinary, hinput, hread, eq_ok]
  exact ⟨trivial, state, rfl, hvalid, rfl⟩

end

/-! ### Bundles that are accepted -/

theorem nodup_of_validateShieldedActions {checked actions : List ShieldedAction}
    (h : validateShieldedActions checked actions = .ok ())
    (hnodup : (spentNullifiers checked).Nodup) : (spentNullifiers (checked ++ actions)).Nodup := by
  induction actions generalizing checked with
  | nil => simpa using hnodup
  | cons action actions ih =>
    simp only [validateShieldedActions, eq_ok, not_and] at h
    obtain ⟨-, hfresh, -, hrest⟩ := h
    have hnext : (spentNullifiers (checked ++ [action])).Nodup := by
      cases hspend : action.enabledSpend with
      | false => simpa [spentNullifiers, hspend] using hnodup
      | true =>
        have happend : spentNullifiers (checked ++ [action]) =
            spentNullifiers checked ++ [action.nullifier] := by simp [spentNullifiers, hspend]
        rw [happend, nodup_append]
        refine ⟨hnodup, by simp, ?_⟩
        rintro spent hspent _ hlast rfl
        obtain rfl := mem_singleton.mp hlast
        exact hfresh hspend hspent
    have hall := ih hrest hnext
    rwa [append_assoc] at hall

theorem ShieldedBundle.nodup_of_validate {bundle : ShieldedBundle}
    (h : bundle.validate = .ok ()) : (spentNullifiers bundle.actions).Nodup := by
  simp only [validate, eq_ok] at h
  obtain ⟨-, -, -, -, hactions, -⟩ := h
  simpa using nodup_of_validateShieldedActions hactions (by simp [spentNullifiers])

theorem unmarshalShieldedTransferInstructionBinary_eq_ok {data : Bytes}
    {instruction : ShieldedTransferInstruction}
    (h : unmarshalShieldedTransferInstructionBinary data = .ok instruction) :
    (spentNullifiers instruction.bundle.actions).Nodup ∧
      instruction.transparentInputAmount ≤ maxShieldedTransparentAmount ∧
      instruction.transparentOutputAmount ≤ maxShieldedTransparentAmount := by
  simp only [unmarshalShieldedTransferInstructionBinary, eq_ok] at h
  obtain ⟨-, ⟨_, _, _, _⟩, -, bundle, -, hvalid, rfl⟩ := h
  simp only [ShieldedTransferInstruction.validate, ShieldedTransferInstruction.validatePublicData,
    eq_ok, not_lt] at hvalid
  obtain ⟨⟨-, hinput, houtput, -⟩, hbundle⟩ := hvalid
  exact ⟨ShieldedBundle.nodup_of_validate hbundle, hinput, houtput⟩

end Ordexus
