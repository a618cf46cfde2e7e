import Mathlib.Data.List.Sort
import Ordexus.Consensus.Vote
import Ordexus.Structure.Account

/-!
# Validator sets and epoch snapshots

The validators of an epoch with their stakes (`consensus/validator_set.go`,
`consensus/epoch.go`). A set has one entry for each validator id; a snapshot
fixes the active entries of a set for a range of slots and commits to them with
a digest.
-/

namespace Ordexus

open Checked

/-- The cryptographic functions the consensus code calls. -/
structure Crypto where
  sha256 : Bytes → Hash
  /-- The hexadecimal text of the first half of the SHA-256 digest of a key. -/
  newValidatorID : PublicKey → ValidatorID
  /-- Does a non-empty byte string decode as a point of the BLS key group? -/
  decodesAsBLSKey : Bytes → Bool
  /-- Does an Ed25519 signature of a message verify under a key? -/
  verifyMessageSignature : PublicKey → Bytes → Signature → Bool

def maxValidatorsPerSet : ℕ := 4096
def maxValidatorBLSPublicKeyLen : ℕ := 128

inductive ValidatorStatus where
  | inactive
  | active
  | jailed
  | exiting
deriving DecidableEq

def ValidatorStatus.code : ValidatorStatus → ℕ
  | .inactive => 0
  | .active => 1
  | .jailed => 2
  | .exiting => 3

structure ValidatorState where
  validatorID : ValidatorID
  accountAddress : PublicKey
  consensusPublicKey : PublicKey
  blsPublicKey : Bytes
  p2pPeerID : Bytes
  stakeLamports : ℕ
  status : ValidatorStatus
  commissionBps : ℕ
  lastVotedSlot : ℕ
  missedProposalCount : ℕ
  missedVoteCount : ℕ
  jailUntilEpoch : ℕ
deriving DecidableEq

/-- The validators of a set, one for each id. The Go type is a map; its entries
are only ever read in sorted order. -/
structure ValidatorSet where
  entries : List ValidatorState
deriving DecidableEq

section

variable (crypto : Crypto)

def validateBLSPublicKey (key : Bytes) : Except String Unit :=
  failIf (key ≠ [] ∧ crypto.decodesAsBLSKey key = false) "consensus: unmarshal bls public key"

def normalizeValidatorState (validator : ValidatorState) : Except String ValidatorState := do
  failIf (validator.consensusPublicKey = 0)
    "consensus: invalid vote: consensus public key is empty"
  failIf (maxValidatorBLSPublicKeyLen < validator.blsPublicKey.length)
    "consensus: invalid vote: bls public key too long"
  failIf (succeeds (validateBLSPublicKey crypto validator.blsPublicKey) = false)
    "consensus: invalid vote: invalid bls public key"
  let id := if validator.validatorID = [] then crypto.newValidatorID validator.consensusPublicKey
    else validator.validatorID
  failIf (id ≠ crypto.newValidatorID validator.consensusPublicKey)
    "consensus: invalid vote: validator id does not match consensus public key"
  failIf (isBlank id = true ∨ maxConsensusTextLength < id.length)
    "consensus: invalid vote: invalid validator id"
  failIf (validator.stakeLamports = 0) "consensus: invalid vote: zero stake"
  failIf (10000 < validator.commissionBps)
    "consensus: invalid vote: commission exceeds 10000 bps"
  pure { validator with
    validatorID := id
    status := if validator.status = .inactive then .active else validator.status }

/-- The loop of `NewValidatorSet`: entries read so far, validators still to add. -/
def addValidators (crypto : Crypto) :
    List ValidatorState → List ValidatorState → Except String (List ValidatorState)
  | entries, [] => pure entries
  | entries, validator :: validators => do
    let normalized ← normalizeValidatorState crypto validator
    failIf (normalized.validatorID ∈ entries.map ValidatorState.validatorID)
      "consensus: invalid vote: duplicate validator id"
    addValidators crypto (entries ++ [normalized]) validators

def newValidatorSet (validators : List ValidatorState) : Except String ValidatorSet := do
  failIf (validators = [] ∨ maxValidatorsPerSet < validators.length)
    "consensus: invalid vote: invalid validator count"
  let entries ← addValidators crypto [] validators
  pure { entries := entries }

/-- The entries in increasing order of their ids. -/
def ValidatorSet.validators (set : ValidatorSet) : List ValidatorState :=
  set.entries.insertionSort fun left right => left.validatorID ≤ right.validatorID

def ValidatorSet.activeValidators (set : ValidatorSet) (epochID : ℕ) : List ValidatorState :=
  set.validators.filter fun validator =>
    validator.status = .active && validator.jailUntilEpoch ≤ epochID

structure EpochSnapshot where
  epochID : ℕ
  startSlot : ℕ
  endSlot : ℕ
  randomSeed : Hash
  totalActiveStake : ℕ
  validators : List ValidatorState
  snapshotStateRoot : Hash
deriving DecidableEq

/-- The commitment of one validator inside the snapshot digest. -/
def ValidatorState.encodeForSnapshot (validator : ValidatorState) : Bytes :=
  validator.validatorID ++ bigEndian 32 validator.accountAddress ++
    bigEndian 32 validator.consensusPublicKey ++
    uint64ForHash validator.blsPublicKey.length ++ validator.blsPublicKey ++
    uint64ForHash validator.p2pPeerID.length ++ validator.p2pPeerID ++
    uint64ForHash validator.stakeLamports ++ [UInt8.ofNat validator.status.code] ++
    uint64ForHash validator.commissionBps ++ uint64ForHash validator.jailUntilEpoch

def hashEpochSnapshot (epochID startSlot epochSlots : ℕ) (seed : Hash)
    (validators : List ValidatorState) : Hash :=
  crypto.sha256 (uint64ForHash epochID ++ uint64ForHash startSlot ++ uint64ForHash epochSlots ++
    bigEndian 32 seed ++ validators.flatMap ValidatorState.encodeForSnapshot)

def newEpochSnapshot (epochID startSlot epochSlots : ℕ) (seed : Hash) (set : ValidatorSet) :
    Except String EpochSnapshot := do
  failIf (epochSlots = 0) "consensus: invalid quorum: epoch slots is zero"
  failIf (maxUint64 - (epochSlots - 1) < startSlot)
    "consensus: invalid quorum: epoch slot range overflows"
  let active := set.activeValidators epochID
  failIf (active = []) "consensus: invalid vote: no active validators"
  let totalStake ← checkedSum "consensus: invalid vote: active stake overflow" 0
    (active.map ValidatorState.stakeLamports)
  pure {
    epochID := epochID
    startSlot := startSlot
    endSlot := startSlot + epochSlots - 1
    randomSeed := seed
    totalActiveStake := totalStake
    validators := active
    snapshotStateRoot := hashEpochSnapshot crypto epochID startSlot epochSlots seed active }

/-- Recompute the commitment of a snapshot. -/
def EpochSnapshot.validate (snapshot : EpochSnapshot) : Except String Unit := do
  failIf (snapshot.endSlot < snapshot.startSlot ∨
      snapshot.endSlot - snapshot.startSlot = maxUint64)
    "consensus: invalid epoch snapshot slot range"
  let set ← newValidatorSet crypto snapshot.validators
  let recomputed ← newEpochSnapshot crypto snapshot.epochID snapshot.startSlot
    (snapshot.endSlot - snapshot.startSlot + 1) snapshot.randomSeed set
  failIf (recomputed.totalActiveStake ≠ snapshot.totalActiveStake ∨
      recomputed.snapshotStateRoot ≠ snapshot.snapshotStateRoot)
    "consensus: epoch snapshot commitment mismatch"

end

def EpochSnapshot.validatorOrder (snapshot : EpochSnapshot) : List ValidatorID :=
  snapshot.validators.map ValidatorState.validatorID

def EpochSnapshot.validatorByID (snapshot : EpochSnapshot) (id : ValidatorID) :
    Option ValidatorState :=
  snapshot.validators.find? fun validator => validator.validatorID = id

/-- The stake all validators of a snapshot hold together. -/
def EpochSnapshot.totalStake (snapshot : EpochSnapshot) : ℕ :=
  (snapshot.validators.map ValidatorState.stakeLamports).sum

end Ordexus
