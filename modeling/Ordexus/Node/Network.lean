import Mathlib.Logic.Function.Basic
import Ordexus.Library.Transition
import Ordexus.Node.Round

/-!
# A network of nodes

The remaining handlers of a node (proposals, production, the round clock,
recovery of the head certificate, snapshot import, restart) and the transition
system of a network. Messages are never taken from a channel: an event may
deliver any certificate and any proposal to any node at any time and any number
of times, which covers reordering, duplication, delay and loss. A certificate
only has effects where its signatures verify against the messages signed so far.
-/

namespace Ordexus

open Checked

section

variable (protocol : Protocol) (signed : List VoteMessage) (now : ℤ)

section

variable (node : Node)

def Node.parentSlotForProposal (parentHash : Hash) : Option ℕ :=
  if parentHash = protocol.genesisHash then some 0
  else if parentHash = node.head.blockHash then some node.head.slot
  else (node.blockByHash protocol parentHash).map fun parent => parent.header.slot

/-- `verifyTimeoutQCProof` and the node's own check of the carried certificate. -/
def verifyCarriedTimeoutQC (certificate : Option QuorumCertificate) : Except String Unit :=
  match certificate with
  | none => pure ()
  | some certificate => verifyQuorumCertificate protocol signed certificate

/-- The checks of `VerifyProposal` on a proposal with a known parent slot. -/
def verifyProposal (proposal : Proposal) (parentSlot : ℕ) : Except String Unit := do
  failIf (parentSlot ≠ 0 ∧ proposal.header.slot ≤ parentSlot)
    "consensus: parent slot must be lower than proposal slot"
  validateTimeoutQC proposal.header.slot parentSlot proposal.header.height
    proposal.header.parentHash proposal.timeoutQC
  verifyCarriedTimeoutQC protocol signed proposal.timeoutQC
  failIf (protocol.acceptsBody proposal = false) "consensus: proposal rejected"

def Node.storeBlock (proposal : Proposal) : Node :=
  { node with blocks := proposal :: node.blocks }

/-- Has the validator already chosen in this slot
(`replayCachedLocalVoteForProposal`)? -/
def Node.choseInSlot (slot : ℕ) : Bool :=
  (findChoice node.ownVotes.voteEnvelopeChoices slot .prepare).isSome ||
    (node.ownVotes.cachedDecision slot).isSome

/-- Accept the timeout certificate a proposal carries, if any. -/
def Node.acceptCarriedQC (proposal : Proposal) : Node :=
  match proposal.timeoutQC with
  | none => node
  | some certificate => node.acceptTimeoutQC protocol signed certificate

/-- Ask for a prepare vote beyond every slot already voted in. -/
def Node.prepareBlock (proposal : Proposal) : Node :=
  if proposal.header.slot ≤ node.ownVotes.watermarks.proposal then node
  else node.requestVote protocol now .prepare proposal.header.slot proposal.header.height
    (protocol.blockHash proposal.header)

def Node.voteForProposal (proposal : Proposal) (accepted : Bool) : Node :=
  let hash := protocol.blockHash proposal.header
  if node.choseInSlot proposal.header.slot then node
  else if proposal.header.slot ≤ node.ownVotes.watermarks.proposal then node
  else if succeeds (verifyCarriedTimeoutQC protocol signed proposal.timeoutQC) = false then node
  else
    match node.parentSlotForProposal protocol proposal.header.parentHash with
    | none => node
    | some parentSlot =>
      if succeeds (verifyProposal protocol signed proposal parentSlot) = false then node
      else
        let stored := (node.storeBlock proposal).confirmBlockIfPrepared protocol now hash
        let advanced := (stored.acceptCarriedQC protocol signed proposal).promoteBlockIfCertified
          protocol signed hash accepted
        advanced.prepareBlock protocol now proposal

/-- The timeout certificate a leader attaches in a slot: `none` when production is
cancelled for want of a matching one. -/
def Node.productionTimeoutQC (slot : ℕ) : Option (Option QuorumCertificate) :=
  if node.head.slot ≠ maxUint64 ∧ node.head.slot + 1 < slot then
    match node.latestTimeoutQC with
    | none => none
    | some qc =>
      if slot = 0 ∨ qc.slot ≠ slot - 1 ∨ qc.blockHeight ≠ incUint64 node.head.height ∨
          qc.blockHash ≠ node.head.blockHash then none
      else some (some qc)
  else some none

/-- May the leader have built this proposal on its head in the current round
(`produceCurrentSlot`, `ProduceBlockRequest.validate`)? -/
def Node.canProduce (proposal : Proposal) : Bool :=
  proposal.header.slot = node.currentConsensusSlot &&
    node.lastProducedSlot < proposal.header.slot && node.head.slot < proposal.header.slot &&
    node.head.height ≠ maxUint64 &&
    node.productionTimeoutQC proposal.header.slot = some proposal.timeoutQC &&
    proposal.header.parentHash = node.head.blockHash &&
    proposal.header.height = node.head.height + 1 &&
    succeeds (validateTimeoutQC proposal.header.slot node.head.slot proposal.header.height
      proposal.header.parentHash proposal.timeoutQC) &&
    succeeds (verifyCarriedTimeoutQC protocol signed proposal.timeoutQC)

/-- `produceCurrentSlot` after a block has been built. -/
def Node.produce (proposal : Proposal) (accepted : Bool) : Node :=
  let hash := protocol.blockHash proposal.header
  let stored := Node.storeBlock { node with lastProducedSlot := proposal.header.slot } proposal
  ((stored.confirmBlockIfPrepared protocol now hash).promoteBlockIfCertified protocol signed hash
    accepted).prepareBlock protocol now proposal

/-- `onRoundTick` up to its timeout branch. The liveness gate is a parameter. -/
def Node.onRoundTick (gateOpen : Bool) : Node :=
  let slot := node.currentConsensusSlot
  if gateOpen = false ∨ (protocol.snapshotForSlot slot).isNone then
    { node with roundStartedAt := none }
  else
    let started :=
      match node.roundStartedAt with
      | none => now
      | some time =>
        if node.roundSlot ≠ slot ∨ node.roundParentHash ≠ node.head.blockHash then now else time
    { node with
      roundSlot := slot
      roundParentHash := node.head.blockHash
      roundStartedAt := some started
      dueTimeouts :=
        if started + protocol.leaderTimeout node.head.slot slot ≤ now then
          (slot, node.head) :: node.dueTimeouts
        else node.dueTimeouts }

/-- Is the round still the one that timed out? -/
def Node.roundUnchanged (slot : ℕ) (observedHead : Head) : Bool :=
  node.head.blockHash = observedHead.blockHash && node.head.height = observedHead.height &&
    slot = node.currentConsensusSlot

/-- `replayConfirmedProposalAfterTimeout`: a validator that confirmed a block in
this round repeats its vote and does not vote for the timeout. -/
def Node.replaysConfirmed (slot : ℕ) (observedHead : Head) : Bool :=
  node.roundUnchanged slot observedHead &&
    (node.ownVotes.cachedDecision slot).any fun vote => vote.type = .confirm

def Node.voteForTimeout (slot : ℕ) (observedHead : Head) : Node :=
  if observedHead.height = maxUint64 then node
  else if node.roundUnchanged slot observedHead = false ∨
      slot ≤ node.ownVotes.watermarks.signed then node
  else node.requestVote protocol now .skip slot (observedHead.height + 1) observedHead.blockHash

/-- The timeout branch of `onRoundTick`. -/
def Node.actOnTimeout (slot : ℕ) (observedHead : Head) : Node :=
  if node.replaysConfirmed slot observedHead then node
  else node.voteForTimeout protocol now slot observedHead

/-- `tryRecoverStaleHeadQC` and `voteForCommittedHead`: vote once more for the
block the head already is. -/
def Node.voteForCommittedHead : Node :=
  if node.head.height = 0 then node
  else
    match node.blockByHash protocol node.head.blockHash with
    | none => node
    | some proposal =>
      if proposal.header.slot ≠ node.head.slot ∨ proposal.header.height ≠ node.head.height then node
      else if (node.ownVotes.cachedDecision proposal.header.slot).isSome then node
      else node.requestVote protocol now .confirm proposal.header.slot proposal.header.height
        node.head.blockHash

/-- `importFinalizedSnapshotFromPeer`. -/
def Node.importFinalizedSnapshot (proposal : Proposal) (qc : QuorumCertificate) : Node :=
  if qc.type ≠ .confirm ∨ qc.blockHash ≠ protocol.blockHash proposal.header ∨
      qc.blockHeight ≠ proposal.header.height then node
  else if succeeds (verifyQuorumCertificate protocol signed qc) = false then node
  else { node.storeBlock proposal with head := proposal.asHead protocol }

/-- A restart keeps the ledger, the journal and the persisted certificate, which
is used again if it still concerns the head. -/
def Node.restart (loaded : List Vote) : Node :=
  { node with
    prepareQCs := []
    latestTimeoutQC := node.persistedTimeoutQC.filter fun qc =>
      qc.type = .skip && node.timeoutQCMatchesHead qc &&
        succeeds (verifyQuorumCertificate protocol signed qc)
    roundSlot := 0
    roundParentHash := 0
    roundStartedAt := none
    dueTimeouts := []
    ownVotes := node.ownVotes.reload loaded
    pendingVotes := [] }

end

/-- `verifyVoteEnvelope` on a vote the node has just signed itself. -/
def verifyVoteEnvelope (vote : Vote) : Bool :=
  succeeds vote.validate &&
    (protocol.snapshotForSlot vote.slot).any fun snapshot =>
      (snapshot.validatorByID vote.voterID).isSome

end

/-- All nodes together with every message a validator has signed so far. -/
structure Network where
  signed : List VoteMessage
  nodes : ValidatorID → Node

inductive Event where
  | qc (id : ValidatorID) (now : ℤ) (certificate : QuorumCertificate) (accepted : Bool)
  | proposal (id : ValidatorID) (now : ℤ) (proposal : Proposal) (accepted : Bool)
  | produce (id : ValidatorID) (now : ℤ) (proposal : Proposal) (accepted : Bool)
  /-- `SaveExternalBlockSnapshot`: a block stored during synchronisation. -/
  | externalBlock (id : ValidatorID) (proposal : Proposal)
  | tick (id : ValidatorID) (now : ℤ) (gateOpen : Bool)
  | timeout (id : ValidatorID) (now : ℤ) (slot : ℕ) (observedHead : Head)
  | committedHead (id : ValidatorID) (now : ℤ)
  | importSnapshot (id : ValidatorID) (proposal : Proposal) (qc : QuorumCertificate)
  | sign (id : ValidatorID) (vote : Vote)
  | prune (id : ValidatorID) (finalizedSlot : ℕ)
  | restart (id : ValidatorID) (loaded : List Vote)
  /-- A faulty validator signs whatever it likes. -/
  | byzantine (message : VoteMessage)

/-- The node that takes an event, if a node takes it. -/
def Event.node : Event → Option ValidatorID
  | .qc id .. | .proposal id .. | .produce id .. | .externalBlock id .. | .tick id ..
  | .timeout id .. | .committedHead id .. | .importSnapshot id .. | .sign id ..
  | .prune id .. | .restart id .. => some id
  | .byzantine _ => none

/-- The effect of an event on the node that takes it; `none` when it cannot occur. -/
def Node.react (protocol : Protocol) (signed : List VoteMessage) (node : Node) :
    Event → Option Node
  | .qc _ now certificate accepted => some (node.handleQC protocol signed now certificate accepted)
  | .proposal _ now proposal accepted =>
    if protocol.occurs proposal.header then
      some (node.voteForProposal protocol signed now proposal accepted)
    else none
  | .produce _ now proposal accepted =>
    if protocol.occurs proposal.header && node.canProduce protocol signed proposal then
      some (node.produce protocol signed now proposal accepted)
    else none
  | .externalBlock _ proposal =>
    if protocol.occurs proposal.header then some (node.storeBlock proposal) else none
  | .tick _ now gateOpen => some (node.onRoundTick protocol now gateOpen)
  | .timeout _ now slot observedHead =>
    if (slot, observedHead) ∈ node.dueTimeouts then
      some (Node.actOnTimeout protocol now
        { node with dueTimeouts := node.dueTimeouts.erase (slot, observedHead) } slot observedHead)
    else none
  | .committedHead _ now => some (node.voteForCommittedHead protocol now)
  | .importSnapshot _ proposal qc =>
    if protocol.occurs proposal.header then
      some (node.importFinalizedSnapshot protocol signed proposal qc)
    else none
  | .sign _ vote =>
    if vote ∈ node.pendingVotes then
      (node.ownVotes.sendLocalVote vote (verifyVoteEnvelope protocol vote)).map fun own =>
        { node with ownVotes := own, pendingVotes := node.pendingVotes.erase vote }
    else none
  | .prune _ finalizedSlot =>
    some { node with ownVotes := node.ownVotes.pruneFinalized finalizedSlot }
  | .restart _ loaded =>
    if ∀ vote ∈ loaded, vote ∈ node.ownVotes.journal then
      some (node.restart protocol signed loaded)
    else none
  | .byzantine _ => none

/-- The message an event adds to the signed ones. -/
def Event.signature : Event → Option VoteMessage
  | .sign _ vote => some vote.toVoteMessage
  | .byzantine message => some message
  | _ => none

/-- One step of a network in which `byzantine` validators are faulty: they sign at
will, and every other validator follows its handlers. -/
def Network.step (protocol : Protocol) (byzantine : ValidatorID → Bool) (network : Network)
    (event : Event) : Option Network :=
  match event.node with
  | some id =>
    if byzantine id then none
    else
      (Node.react protocol network.signed (network.nodes id) event).map fun node =>
        { signed := event.signature.toList ++ network.signed
          nodes := Function.update network.nodes id node }
  | none =>
    match event.signature with
    | some message =>
      if byzantine message.voterID then
        some { network with signed := message :: network.signed }
      else none
    | none => none

def Node.initial (protocol : Protocol) (id : ValidatorID) : Node where
  validatorID := id
  head := { height := 0, slot := 0, blockHash := protocol.genesisHash }
  blocks := []
  blockQCs := []
  prepareQCs := []
  latestTimeoutQC := none
  persistedTimeoutQC := none
  roundSlot := 0
  roundParentHash := 0
  roundStartedAt := none
  dueTimeouts := []
  lastProducedSlot := 0
  ownVotes :=
    { voteEnvelopeChoices := [], journal := [],
      watermarks := ⟨0, 0, 0⟩, durableWatermarks := ⟨0, 0, 0⟩ }
  pendingVotes := []

def Network.initial (protocol : Protocol) : Network where
  signed := []
  nodes := Node.initial protocol

end Ordexus
