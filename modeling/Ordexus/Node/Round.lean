import Ordexus.Consensus.BlockHeader
import Ordexus.Consensus.Certificate
import Ordexus.Node.LocalVotes

/-!
# The voting logic of a node

The handlers of `internal/posnode/main.go` that move the head, accept
certificates and ask for local votes. A vote that a handler asks for waits in
`pendingVotes` until `sendLocalVote` takes it up, so signing interleaves with
every other step of the node. Whatever the handlers cannot know is a parameter of
the event that runs them: the time, the verdict of the fork choice, and the
checks of a proposal that are not about votes.
-/

namespace Ordexus

open Checked

/-- The part of a block proposal that the voting logic reads. -/
structure Proposal where
  header : BlockHeader
  timeoutQC : Option QuorumCertificate
deriving DecidableEq

structure Head where
  height : ℕ
  slot : ℕ
  blockHash : Hash
deriving DecidableEq

/-- What all nodes of a network share. -/
structure Protocol where
  crypto : Crypto
  /-- `proposal.Hash()`. -/
  blockHash : BlockHeader → Hash
  genesisHash : Hash
  /-- The headers of the blocks that occur in a run. -/
  occurs : BlockHeader → Bool
  /-- The snapshot of `epochContextForSlotLocked`. -/
  snapshotForSlot : ℕ → Option EpochSnapshot
  /-- The checks of a proposal beside the timeout rule: chain and leader,
  parent state and certificate, execution, rewards and roots. -/
  acceptsBody : Proposal → Bool
  /-- `roundLeaderTimeout(parentSlot, roundSlot)`. -/
  leaderTimeout : ℕ → ℕ → ℕ

structure Node where
  validatorID : ValidatorID
  head : Head
  /-- Block candidates of the ledger. -/
  blocks : List Proposal
  /-- Confirm certificates saved by the ledger. -/
  blockQCs : List QuorumCertificate
  prepareQCs : List QuorumCertificate
  latestTimeoutQC : Option QuorumCertificate
  persistedTimeoutQC : Option QuorumCertificate
  roundSlot : ℕ
  roundParentHash : Hash
  roundStartedAt : Option ℤ
  /-- Rounds seen timed out by `onRoundTick` and not yet acted on. -/
  dueTimeouts : List (ℕ × Head)
  lastProducedSlot : ℕ
  ownVotes : LocalVotes
  /-- Votes handed to `sendLocalVote` and not yet taken up. -/
  pendingVotes : List Vote
deriving DecidableEq

/-- `uint64` increment. -/
def incUint64 (value : ℕ) : ℕ :=
  (value + 1) % 2 ^ 64

section

variable (protocol : Protocol) (signed : List VoteMessage) (now : ℤ)

/-- `verifyQuorumCertificate`. Both thresholds of the node are the strict two
thirds. -/
def verifyQuorumCertificate (certificate : QuorumCertificate) : Except String Unit := do
  let snapshot ← orFail (protocol.snapshotForSlot certificate.slot)
    "posnode: epoch snapshot unavailable"
  verifyQuorumCertificateForSnapshot protocol.crypto signed certificate snapshot strictTwoThirds

section

variable (node : Node)

def Node.blockByHash (hash : Hash) : Option Proposal :=
  node.blocks.find? fun proposal => protocol.blockHash proposal.header = hash

/-- The head a block becomes. -/
def Proposal.asHead (proposal : Proposal) : Head where
  height := proposal.header.height
  slot := proposal.header.slot
  blockHash := protocol.blockHash proposal.header

/-- `localValidatorEffectiveStakeFromSnapshot` for a slot; `none` when inactive. -/
def Node.localStake (slot : ℕ) : Option ℕ := do
  let snapshot ← protocol.snapshotForSlot slot
  let validator ← snapshot.validatorByID node.validatorID
  if validator.stakeLamports = 0 then none else some validator.stakeLamports

/-- Ask for a local vote if the validator is active in the slot. -/
def Node.requestVote (type : VoteType) (slot height : ℕ) (hash : Hash) : Node :=
  match node.localStake protocol slot with
  | none => node
  | some stake =>
    { node with pendingVotes :=
        { type := type, slot := slot, blockHeight := height, blockHash := hash,
          voterID := node.validatorID, stake := stake, createdAtUnixMilli := now } ::
        node.pendingVotes }

/-- `currentConsensusSlotLocked`. -/
def Node.currentConsensusSlot : ℕ :=
  if node.head.slot = maxUint64 then node.head.slot
  else
    match node.latestTimeoutQC with
    | none => node.head.slot + 1
    | some qc =>
      if qc.blockHash = node.head.blockHash ∧ node.head.height ≠ maxUint64 ∧
          qc.blockHeight = node.head.height + 1 ∧ node.head.slot ≤ qc.slot then
        if qc.slot = maxUint64 then qc.slot else qc.slot + 1
      else node.head.slot + 1

def Node.voteForPreparedBlock (certificate : QuorumCertificate) : Node :=
  match node.blockByHash protocol certificate.blockHash with
  | none => node
  | some proposal =>
    if proposal.header.slot ≠ certificate.slot ∨
        proposal.header.height ≠ certificate.blockHeight then node
    else if proposal.header.parentHash ≠ node.head.blockHash ∨
        proposal.header.height ≠ incUint64 node.head.height ∨
        proposal.header.slot ≤ node.head.slot then node
    else if (node.ownVotes.cachedDecision proposal.header.slot).isSome then node
    else node.requestVote protocol now .confirm proposal.header.slot proposal.header.height
      certificate.blockHash

/-- Keep the certificate with the larger stake for each block. -/
def Node.rememberPrepareQC (certificate : QuorumCertificate) : Node :=
  match node.prepareQCs.find? fun qc => qc.blockHash = certificate.blockHash with
  | none =>
    { node with
      prepareQCs := certificate :: node.prepareQCs
      -- the first certificate of the current round restarts its clock
      roundStartedAt :=
        if node.roundSlot = certificate.slot ∧ node.roundParentHash = node.head.blockHash ∧
            certificate.blockHeight = incUint64 node.head.height then some now
        else node.roundStartedAt }
  | some existing =>
    if existing.confirmedStake < certificate.confirmedStake then
      { node with prepareQCs := certificate ::
          node.prepareQCs.filter fun qc => qc.blockHash ≠ certificate.blockHash }
    else node

def Node.acceptPrepareQC (certificate : QuorumCertificate) : Node :=
  if certificate.type ≠ .prepare then node
  else if succeeds (verifyQuorumCertificate protocol signed certificate) = false then node
  else (node.rememberPrepareQC now certificate).voteForPreparedBlock protocol now certificate

def Node.confirmBlockIfPrepared (blockHash : Hash) : Node :=
  match node.prepareQCs.find? fun qc => qc.blockHash = blockHash with
  | none => node
  | some certificate => node.voteForPreparedBlock protocol now certificate

/-- `prunePrepareQCsThroughSlotLocked`. -/
def Node.prunePrepareQCs (slot : ℕ) : Node :=
  { node with prepareQCs := node.prepareQCs.filter fun qc => slot < qc.slot }

/-- Does a timeout certificate concern the current head? -/
def Node.timeoutQCMatchesHead (certificate : QuorumCertificate) : Bool :=
  !(node.head.height = maxUint64 || node.head.slot = maxUint64 ||
    certificate.blockHash ≠ node.head.blockHash ||
    certificate.blockHeight ≠ node.head.height + 1 || certificate.slot ≤ node.head.slot)

def Node.acceptTimeoutQC (certificate : QuorumCertificate) : Node :=
  if certificate.type ≠ .skip then node
  else if succeeds (verifyQuorumCertificate protocol signed certificate) = false then node
  else if node.timeoutQCMatchesHead certificate = false then node
  else if ∃ latest ∈ node.latestTimeoutQC, latest.blockHash = certificate.blockHash ∧
      certificate.slot ≤ latest.slot then node
  else
    Node.prunePrepareQCs { node with
      persistedTimeoutQC := some certificate
      latestTimeoutQC := some certificate
      roundStartedAt := none } certificate.slot

/-- `promoteCertifiedBlock`. The verdict of `ReorganizeTo` is a parameter. -/
def Node.promoteCertifiedBlock (qc : QuorumCertificate) (accepted : Bool) : Node :=
  if qc.type ≠ .confirm ∨ qc.blockHash = 0 then node
  else if succeeds (verifyQuorumCertificate protocol signed qc) = false then node
  else
    match node.blockByHash protocol qc.blockHash with
    | none => node
    | some proposal =>
      if node.head.blockHash = qc.blockHash then node.prunePrepareQCs proposal.header.slot
      else if proposal.header.height ≠ qc.blockHeight ∨ accepted = false then node
      else Node.prunePrepareQCs { node with head := proposal.asHead protocol }
        proposal.header.slot

def Node.promoteBlockIfCertified (blockHash : Hash) (accepted : Bool) : Node :=
  match node.blockQCs.find? fun qc => qc.blockHash = blockHash with
  | none => node
  | some qc => node.promoteCertifiedBlock protocol signed qc accepted

/-- A certificate formed by the local collector (`handleVoteMessage`) or received
from a peer (`handleQCMessage`, which verifies it once more up front). -/
def Node.handleQC (qc : QuorumCertificate) (accepted : Bool) : Node :=
  match qc.type with
  | .prepare => node.acceptPrepareQC protocol signed now qc
  | .confirm =>
    Node.promoteCertifiedBlock protocol signed { node with blockQCs := qc :: node.blockQCs } qc
      accepted
  | .skip => node.acceptTimeoutQC protocol signed qc
  | .unknown => node

end

end

end Ordexus
