import Ordexus.Consensus.BlockHeader
import Ordexus.Consensus.Certificate

/-!
# Evidence and proof commitments

Evidence of two conflicting signatures (`consensus/evidence.go`), the snapshot
against which a certificate or a piece of evidence is checked
(`consensus/rewards.go`), and the digests of both that go into a block header
(`consensus/proofs.go`). Of the proposals in a piece of evidence only the signed
headers matter.
-/

namespace Ordexus

open Checked Borsh

def maxConsensusContainerLength : ℕ := 64 * 1024
def consensusCodecVersion : ℕ := 1

/-- The 64 bits of a signed number. -/
def int64Bytes (value : ℤ) : Bytes :=
  littleEndian 8 (value % 2 ^ 64).toNat

def Vote.marshalBinary (vote : Vote) : Except String Bytes := do
  vote.validate
  let voterID ← withContext "consensus: marshal voter id"
    (writeString maxConsensusContainerLength vote.voterID)
  pure (littleEndian 2 consensusCodecVersion ++ littleEndian 1 vote.type.code ++
    littleEndian 8 vote.slot ++ littleEndian 8 vote.blockHeight ++ bigEndian 32 vote.blockHash ++
    voterID ++ littleEndian 8 vote.stake ++ int64Bytes vote.createdAtUnixMilli)

/-- The text of a scheme that passes `validate`: `bls12-381-basic-g2sigg1` or nothing. -/
def SignatureScheme.text : SignatureScheme → Bytes
  | .blsBasic => [98, 108, 115, 49, 50, 45, 51, 56, 49, 45, 98, 97, 115, 105, 99, 45, 103, 50, 115,
      105, 103, 103, 49]
  | .none | .other => []

def QuorumCertificate.marshalBinary (certificate : QuorumCertificate) : Except String Bytes := do
  certificate.validate
  let voters ← certificate.voters.mapM fun voterID =>
    withContext "consensus: marshal qc voter id" (writeString maxConsensusContainerLength voterID)
  let scheme ← withContext "consensus: marshal qc signature scheme"
    (writeString maxConsensusContainerLength certificate.signatureScheme.text)
  let aggregateSignature ← withContext "consensus: marshal qc aggregate signature"
    (writeBytes maxConsensusContainerLength certificate.aggregateSignature)
  let voterBitmap ← withContext "consensus: marshal qc voter bitmap"
    (writeBytes maxConsensusContainerLength certificate.voterBitmap)
  pure (littleEndian 2 consensusCodecVersion ++ littleEndian 1 certificate.type.code ++
    littleEndian 8 certificate.slot ++ littleEndian 8 certificate.blockHeight ++
    bigEndian 32 certificate.blockHash ++ littleEndian 8 certificate.thresholdStake ++
    littleEndian 8 certificate.confirmedStake ++ int64Bytes certificate.createdAtUnixMilli ++
    littleEndian 4 certificate.voters.length ++ voters.flatten ++ scheme ++ aggregateSignature ++
    voterBitmap)

/-- `HashQuorumCertificate`; no certificate has the zero digest. -/
def hashQuorumCertificate (crypto : Crypto) : Option QuorumCertificate → Except String Hash
  | none => pure 0
  | some certificate => do
    let data ← withContext "consensus: marshal quorum certificate" certificate.marshalBinary
    pure (crypto.sha256 data)

/-! ### Evidence -/

/-- What a proposal contributes to a piece of evidence. -/
structure SignedHeader where
  header : BlockHeader
  leaderSignature : Signature
deriving DecidableEq

structure DoubleProposalEvidence where
  firstProposal : SignedHeader
  secondProposal : SignedHeader
deriving DecidableEq

structure SignedVote where
  vote : Vote
  publicKey : PublicKey
  signature : Signature
deriving DecidableEq

structure SignedDoubleVoteEvidence where
  firstVote : SignedVote
  secondVote : SignedVote
deriving DecidableEq

/-- The evidence types; `unknown` is every other byte. -/
inductive SlashingEvidenceType where
  | doubleProposal
  | doubleVote
  | unknown (code : ℕ)
deriving DecidableEq

def SlashingEvidenceType.code : SlashingEvidenceType → ℕ
  | .doubleProposal => 1
  | .doubleVote => 2
  | .unknown code => code

structure SlashingEvidence where
  type : SlashingEvidenceType
  doubleProposal : Option DoubleProposalEvidence
  doubleVote : Option SignedDoubleVoteEvidence
deriving DecidableEq

section

variable (crypto : Crypto)

def SignedHeader.hash (proposal : SignedHeader) : Except String Hash := do
  let signBytes ← proposal.header.signBytes
  pure (crypto.sha256 signBytes)

def SignedHeader.verifyLeaderSignature (proposal : SignedHeader) (publicKey : PublicKey) :
    Except String Unit := do
  let signBytes ← proposal.header.signBytes
  failIf (crypto.verifyMessageSignature publicKey signBytes proposal.leaderSignature = false)
    "consensus: invalid leader signature"

def DoubleProposalEvidence.validate (evidence : DoubleProposalEvidence) (publicKey : PublicKey) :
    Except String Unit := do
  let first := evidence.firstProposal
  let second := evidence.secondProposal
  let firstHash ← first.hash crypto
  let secondHash ← second.hash crypto
  failIf (firstHash = secondHash) "consensus: proposals are identical"
  failIf (first.header.slot ≠ second.header.slot) "consensus: proposals are not in same slot"
  failIf (first.header.leaderID ≠ second.header.leaderID)
    "consensus: proposals are from different leaders"
  withContext "consensus: first proposal signature" (first.verifyLeaderSignature crypto publicKey)
  withContext "consensus: second proposal signature" (second.verifyLeaderSignature crypto publicKey)

def SignedVote.validate (vote : SignedVote) : Except String Unit := do
  vote.vote.validate
  failIf (vote.publicKey = 0) "consensus: signed vote public key is empty"
  failIf (crypto.newValidatorID vote.publicKey ≠ vote.vote.voterID)
    "consensus: signed vote voter id mismatch"
  let voteBytes ← vote.vote.marshalBinary
  failIf (crypto.verifyMessageSignature vote.publicKey voteBytes vote.signature = false)
    "consensus: invalid vote signature"

/-- `DoubleVoteEvidence.Validate`: one choice in each phase is allowed. -/
def validateDoubleVote (first second : Vote) : Except String Unit := do
  withContext "consensus: first vote" first.validate
  withContext "consensus: second vote" second.validate
  failIf (first.voterID ≠ second.voterID) "consensus: votes are from different validators"
  failIf (first.slot ≠ second.slot) "consensus: votes are not in same slot"
  failIf (votePhaseForChoice first.type ≠ votePhaseForChoice second.type)
    "consensus: votes are from different voting phases"
  failIf (first.type = second.type ∧ first.blockHeight = second.blockHeight ∧
      first.blockHash = second.blockHash)
    "consensus: votes are identical"

def SignedDoubleVoteEvidence.validate (evidence : SignedDoubleVoteEvidence) :
    Except String Unit := do
  withContext "consensus: first signed vote" (evidence.firstVote.validate crypto)
  withContext "consensus: second signed vote" (evidence.secondVote.validate crypto)
  validateDoubleVote evidence.firstVote.vote evidence.secondVote.vote

end

namespace SlashingEvidence

def slot (evidence : SlashingEvidence) : Except String ℕ :=
  match evidence.type with
  | .doubleProposal => do
    let proposals ← orFail evidence.doubleProposal "consensus: missing double proposal evidence"
    pure proposals.firstProposal.header.slot
  | .doubleVote => do
    let votes ← orFail evidence.doubleVote "consensus: missing double vote evidence"
    pure votes.firstVote.vote.slot
  | .unknown code => .error s!"consensus: unsupported slashing evidence type {code}"

section

variable (crypto : Crypto) (evidence : SlashingEvidence) (snapshot : EpochSnapshot)

def validateDoubleProposal : Except String (ValidatorState × ℕ) := do
  let proposals ← orFail evidence.doubleProposal "consensus: missing double proposal evidence"
  let validator ← orFail (snapshot.validatorByID proposals.firstProposal.header.leaderID)
    "consensus: double proposal validator missing from snapshot"
  proposals.validate crypto validator.consensusPublicKey
  pure (validator, proposals.firstProposal.header.slot)

def validateDoubleVote : Except String (ValidatorState × ℕ) := do
  let votes ← orFail evidence.doubleVote "consensus: missing double vote evidence"
  votes.validate crypto
  let validator ← orFail (snapshot.validatorByID votes.firstVote.vote.voterID)
    "consensus: double vote validator missing from snapshot"
  failIf (validator.consensusPublicKey ≠ votes.firstVote.publicKey)
    "consensus: double vote public key mismatch"
  pure (validator, votes.firstVote.vote.slot)

/-- The validator that is proved guilty, and the slot of its offence. -/
def validate : Except String (ValidatorState × ℕ) := do
  withContext "consensus: invalid slashing epoch snapshot" (snapshot.validate crypto)
  let slot ← evidence.slot
  failIf (slot < snapshot.startSlot ∨ snapshot.endSlot < slot)
    "consensus: slashing evidence slot is outside epoch snapshot"
  match evidence.type with
  | .doubleProposal => evidence.validateDoubleProposal crypto snapshot
  | .doubleVote => evidence.validateDoubleVote crypto snapshot
  | .unknown code => .error s!"consensus: unsupported slashing evidence type {code}"

end

end SlashingEvidence

/-! ### The snapshot of a slot -/

/-- The candidates that cover a slot must agree on one commitment; the last one is taken. -/
def uniqueSnapshot (ambiguous missing : String) : Option EpochSnapshot → List EpochSnapshot →
    Except String EpochSnapshot
  | none, [] => .error missing
  | some matched, [] => pure matched
  | matched, snapshot :: snapshots => do
    failIf (∃ earlier ∈ matched, earlier.snapshotStateRoot ≠ snapshot.snapshotStateRoot) ambiguous
    uniqueSnapshot ambiguous missing (some snapshot) snapshots

def proofSnapshotForSlot (slot : ℕ) (current : EpochSnapshot) (snapshots : List EpochSnapshot) :
    Except String EpochSnapshot :=
  if current.startSlot ≤ slot ∧ slot ≤ current.endSlot then pure current
  else uniqueSnapshot s!"ambiguous epoch snapshots for slot {slot}"
    s!"epoch snapshot not found for slot {slot}" none
    (snapshots.filter fun snapshot => snapshot.startSlot ≤ slot && slot ≤ snapshot.endSlot)

/-- The committee that a certificate proves: snapshots that do not verify it are passed over. -/
def proofSnapshotForCertificate (crypto : Crypto) (signed : List VoteMessage)
    (certificate : QuorumCertificate) (current : EpochSnapshot) (snapshots : List EpochSnapshot)
    (quorum : Quorum) : Except String EpochSnapshot :=
  let slot := certificate.slot
  uniqueSnapshot s!"ambiguous certified snapshots for slot {slot}"
    s!"no authenticated committee verifies qc for slot {slot}" none
    ((current :: snapshots).filter fun snapshot =>
      snapshot.startSlot ≤ slot && slot ≤ snapshot.endSlot &&
        succeeds (verifyQuorumCertificateForSnapshot crypto signed certificate snapshot quorum))

def verifyTimeoutQCProof (crypto : Crypto) (signed : List VoteMessage)
    (certificate : Option QuorumCertificate) (current : EpochSnapshot)
    (snapshots : List EpochSnapshot) : Except String Unit :=
  match certificate with
  | none => pure ()
  | some certificate => do
    let snapshot ← withContext "consensus: timeout qc snapshot"
      (proofSnapshotForSlot certificate.slot current snapshots)
    withContext "consensus: verify timeout qc"
      (verifyQuorumCertificateForSnapshot crypto signed certificate snapshot strictTwoThirds)

/-! ### Commitments -/

def lengthPrefixedConsensusProof (value : Bytes) : Bytes :=
  uint64ForHash value.length ++ value

/-- `solana_golang.consensus.proof.v1`. -/
def consensusProofDomainV1 : Bytes :=
  [115, 111, 108, 97, 110, 97, 95, 103, 111, 108, 97, 110, 103, 46, 99, 111, 110, 115, 101, 110,
    115, 117, 115, 46, 112, 114, 111, 111, 102, 46, 118, 49]

/-- A list of proofs under its own label; the empty list has the zero digest. -/
def hashProofList {α : Type} (crypto : Crypto) (label : Bytes)
    (marshal : ℕ → α → Except String Bytes) (proofs : List α) : Except String Hash :=
  if proofs.isEmpty then pure 0
  else do
    let encoded ← proofs.zipIdx.mapM fun (proof, index) => marshal index proof
    pure (crypto.sha256 (consensusProofDomainV1 ++ label ++ uint64ForHash proofs.length ++
      encoded.flatMap lengthPrefixedConsensusProof))

/-- The label is `/reward-qc`. -/
def hashRewardQuorumCertificates (crypto : Crypto) (certificates : List QuorumCertificate) :
    Except String Hash :=
  hashProofList crypto [47, 114, 101, 119, 97, 114, 100, 45, 113, 99]
    (fun index certificate => withContext s!"consensus: marshal reward qc {index}"
      certificate.marshalBinary) certificates

def marshalSignedProposalForEvidenceHash (proposal : SignedHeader) : Except String Bytes := do
  let headerBytes ← proposal.header.signBytes
  pure (lengthPrefixedConsensusProof headerBytes ++ bigEndian 64 proposal.leaderSignature)

def marshalSignedVoteForEvidenceHash (vote : SignedVote) : Except String Bytes := do
  let voteBytes ← vote.vote.marshalBinary
  pure (lengthPrefixedConsensusProof voteBytes ++ bigEndian 32 vote.publicKey ++
    bigEndian 64 vote.signature)

def marshalSlashingEvidenceForHash (evidence : SlashingEvidence) : Except String Bytes :=
  match evidence.type with
  | .doubleProposal => do
    let proposals ← orFail evidence.doubleProposal "missing double proposal evidence"
    let first ← marshalSignedProposalForEvidenceHash proposals.firstProposal
    let second ← marshalSignedProposalForEvidenceHash proposals.secondProposal
    pure (littleEndian 1 evidence.type.code ++ lengthPrefixedConsensusProof first ++
      lengthPrefixedConsensusProof second)
  | .doubleVote => do
    let votes ← orFail evidence.doubleVote "missing double vote evidence"
    let first ← marshalSignedVoteForEvidenceHash votes.firstVote
    let second ← marshalSignedVoteForEvidenceHash votes.secondVote
    pure (littleEndian 1 evidence.type.code ++ lengthPrefixedConsensusProof first ++
      lengthPrefixedConsensusProof second)
  | .unknown code => .error s!"unsupported slashing evidence type {code}"

/-- The label is `/slashing`. -/
def hashSlashingEvidenceList (crypto : Crypto) (evidences : List SlashingEvidence) :
    Except String Hash :=
  hashProofList crypto [47, 115, 108, 97, 115, 104, 105, 110, 103]
    (fun index evidence => withContext s!"consensus: hash slashing evidence {index}"
      (marshalSlashingEvidenceForHash evidence)) evidences

end Ordexus
