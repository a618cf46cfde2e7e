import Ordexus.Library.FlushedStore
import Ordexus.Node.LocalVotes
import Ordexus.Consensus.Proposal

/-!
# The signing journal on disk

How a validator makes its votes and proposals durable before they are sent
(`internal/posnode/round_state.go`): an entry for the slot, a watermark, a flush. Each of these
can fail on its own, and a crash loses what was not flushed. The encodings of votes and
watermarks are read back as they were written; the checks of a vote against signatures and the
epoch's validators are one verdict for each call.
-/

namespace Ordexus.Signing

open Checked

structure VoteEnvelope where
  vote : Vote
  publicKey : PublicKey
  signature : Signature
  blsPublicKey : Bytes
  blsSignature : Bytes
  originPeerID : Bytes
  hopCount : ℕ
  maxHops : ℕ
deriving DecidableEq

/-- The keys of the journal in `TableCheckpoint`. Entries of the decision phase share a key. -/
inductive StateKey where
  | localProposal (slot : ℕ)
  | localProposalWatermark
  | localVoteEnvelope (phase : VotePhase) (slot : ℕ)
  | localPrepareVoteWatermark
  | localConfirmVoteWatermark
  | localTimeoutVoteWatermark
deriving DecidableEq

inductive StateValue (τ : Type) where
  | proposal (proposal : BlockProposal τ)
  | envelope (envelope : VoteEnvelope)
  | watermark (slot : ℕ)

namespace StateValue

variable {τ : Type}

def proposal? : StateValue τ → Option (BlockProposal τ)
  | .proposal content => some content
  | _ => none

def envelope? : StateValue τ → Option VoteEnvelope
  | .envelope content => some content
  | _ => none

def watermark? : StateValue τ → Option ℕ
  | .watermark slot => some slot
  | _ => none

end StateValue

abbrev Store (τ : Type) := FlushedStore StateKey (StateValue τ)

/-- What is read back once a proposal was encoded. Two proposals have the same bytes if the same
is read back. -/
structure ProposalCodec (τ : Type) where
  stored : BlockProposal τ → Except String (BlockProposal τ)
  stored_stored {proposal readBack : BlockProposal τ} (h : stored proposal = .ok readBack) :
    stored readBack = .ok readBack
  header_stored {proposal readBack : BlockProposal τ} (h : stored proposal = .ok readBack) :
    readBack.header = proposal.header

structure Config where
  chainID : Bytes
  consensusPublicKey : PublicKey

/-- The fields of `posNode` for its own choices; the proposals of other leaders are left out. -/
structure SigningNode (τ : Type) where
  db : Store τ
  proposalChoices : Table ℕ (BlockProposal τ)
  lastProducedSlot : ℕ
  voteEnvelopeChoices : Table (VotePhase × ℕ) VoteEnvelope
  watermarks : Watermarks

/-- Which operations of a call on the store succeed. -/
structure StoreOutcome where
  read : Bool
  encode : Bool
  putEntry : Bool
  putWatermark : Bool
  flush : Bool

variable {τ : Type}

/-- A new process on a store. -/
def SigningNode.fresh (db : Store τ) : SigningNode τ where
  db := db
  proposalChoices := ∅
  lastProducedSlot := 0
  voteEnvelopeChoices := ∅
  watermarks := ⟨0, 0, 0⟩

/-! ### Writing a choice -/

def localVoteWatermarkStateKey : VoteType → Except String StateKey
  | .prepare => .ok .localPrepareVoteWatermark
  | .confirm => .ok .localConfirmVoteWatermark
  | .skip => .ok .localTimeoutVoteWatermark
  | .unknown => .error "posnode: unsupported local vote type 0"

/-- The three writes of both functions: the entry, the watermark and the flush. -/
def persistChoice (kind : String) (db : Store τ) (key : StateKey) (value : StateValue τ)
    (watermarkKey : Except String StateKey) (slot : ℕ) (outcome : StoreOutcome) :
    Store τ × Except String Unit :=
  if outcome.putEntry = false then
    (db, .error ("posnode: persist local " ++ kind ++ " journal"))
  else
    let written := db.write (.put key value)
    match watermarkKey with
    | .error message => (written, .error message)
    | .ok watermarkKey =>
      if outcome.putWatermark = false then
        (written, .error ("posnode: persist local " ++ kind ++ " watermark"))
      else
        let marked := written.write (.put watermarkKey (.watermark slot))
        if outcome.flush = false then
          (marked, .error ("posnode: flush local " ++ kind ++ " journal"))
        else (marked.flush, .ok ())

section

variable (crypto : Crypto) (config : Config)

def sameVoteChoice (left right : Vote) : Bool :=
  left.toVoteMessage = right.toVoteMessage

/-- `envelope.Vote` must encode, and `verified` says whether the other checks pass. -/
def verifyVoteEnvelope (verified : Bool) (envelope : VoteEnvelope) : Except String Unit := do
  let _ ← envelope.vote.marshalBinary
  failIf (verified = false) "posnode: invalid vote signature"

/-- The vote is one of this validator. -/
def isLocalVote (envelope : VoteEnvelope) : Bool :=
  envelope.vote.voterID = crypto.newValidatorID config.consensusPublicKey &&
    envelope.publicKey = config.consensusPublicKey

/-- The key of the cache, `localVoteEnvelopeChoiceKey`, without the validator. -/
def VoteEnvelope.choiceKey (envelope : VoteEnvelope) : VotePhase × ℕ :=
  (votePhaseForChoice envelope.vote.type, envelope.vote.slot)

def localVoteEnvelopeStateKey (vote : Vote) : StateKey :=
  .localVoteEnvelope (votePhaseForChoice vote.type) vote.slot

section

variable (node : SigningNode τ) (envelope : VoteEnvelope)

def SigningNode.rememberVote : SigningNode τ :=
  { node with
    voteEnvelopeChoices := node.voteEnvelopeChoices.insert envelope.choiceKey envelope
    watermarks := node.watermarks.advance envelope.vote.toVoteMessage }

/-- The part of `prepareDurableLocalVoteEnvelope` for a choice that is neither cached nor
persisted. -/
def SigningNode.signVote (outcome : StoreOutcome) : SigningNode τ × Except String VoteEnvelope :=
  let vote := envelope.vote
  let slot := vote.slot
  if vote.type = .prepare ∧ slot ≤ node.watermarks.signed then
    (node, .error s!"posnode: local prepare vote slot {slot} follows a durable decision")
  else if slot ≤ node.watermarks.forType vote.type then
    (node, .error s!"posnode: local vote slot {slot} does not exceed durable watermark")
  else if outcome.encode = false then (node, .error "posnode: encode local vote journal")
  else
    let (db, written) := persistChoice "vote" node.db (localVoteEnvelopeStateKey vote)
      (.envelope envelope) (localVoteWatermarkStateKey vote.type) slot outcome
    match written with
    | .error message => ({ node with db := db }, .error message)
    | .ok () => (SigningNode.rememberVote { node with db := db } envelope, .ok envelope)

/-- `prepareDurableLocalVoteEnvelope`: the node afterwards and the envelope to send. -/
def SigningNode.prepareDurableLocalVoteEnvelope (verified : Bool) (outcome : StoreOutcome) :
    SigningNode τ × Except String VoteEnvelope :=
  let slot := envelope.vote.slot
  match verifyVoteEnvelope verified envelope with
  | .error message =>
    (node, .error ("posnode: verify local vote before persistence: " ++ message))
  | .ok () =>
    if isLocalVote crypto config envelope = false then
      (node, .error "posnode: local vote validator mismatch")
    else
      match node.voteEnvelopeChoices.lookup envelope.choiceKey with
      | some existing =>
        if sameVoteChoice existing.vote envelope.vote then (node, .ok existing)
        else (node, .error s!"posnode: local vote choice conflict for slot {slot}")
      | none =>
        if outcome.read = false then (node, .error "posnode: read local vote journal")
        else
          match (node.db.visible.lookup (localVoteEnvelopeStateKey envelope.vote)).bind
              StateValue.envelope? with
          | some persisted =>
            if sameVoteChoice persisted.vote envelope.vote && isLocalVote crypto config persisted
            then (node.rememberVote persisted, .ok persisted)
            else (node, .error s!"posnode: persisted local vote choice conflict for slot {slot}")
          | none => node.signVote envelope outcome

end

end

section

variable (crypto : Crypto) (config : Config) (codec : ProposalCodec τ) [DecidableEq τ]

def sameProposalChoice (first second : BlockProposal τ) : Except String Bool := do
  let firstEncoded ← withContext "posnode: encode first proposal choice" (codec.stored first)
  let secondEncoded ← withContext "posnode: encode second proposal choice" (codec.stored second)
  pure (firstEncoded = secondEncoded)

/-- The checks of a proposal of this validator; `kind` and `stage` are those of the messages. -/
def checkLocalProposal (kind stage : String) (proposal : BlockProposal τ) :
    Except String Unit := do
  failIf (proposal.header.chainID ≠ config.chainID ∨
      proposal.header.leaderID ≠ crypto.newValidatorID config.consensusPublicKey)
    ("posnode: " ++ kind ++ " leader or chain mismatch")
  withContext ("posnode: verify " ++ stage)
    (proposal.signedHeader.verifyLeaderSignature crypto config.consensusPublicKey)

section

variable (node : SigningNode τ) (proposal : BlockProposal τ)

def SigningNode.rememberProposal : SigningNode τ :=
  { node with
    proposalChoices := node.proposalChoices.insert proposal.header.slot proposal
    lastProducedSlot := max node.lastProducedSlot proposal.header.slot }

/-- The part of `prepareDurableLocalProposal` for a choice that is neither cached nor
persisted. -/
def SigningNode.signProposal (outcome : StoreOutcome) :
    SigningNode τ × Except String (BlockProposal τ) :=
  let slot := proposal.header.slot
  if slot ≤ node.lastProducedSlot then
    (node, .error s!"posnode: local proposal slot {slot} does not exceed durable watermark")
  else
    match codec.stored proposal with
    | .error message => (node, .error ("posnode: encode local proposal journal: " ++ message))
    | .ok encoded =>
      let (db, written) := persistChoice "proposal" node.db (.localProposal slot)
        (.proposal encoded) (.ok .localProposalWatermark) slot outcome
      match written with
      | .error message => ({ node with db := db }, .error message)
      | .ok () =>
        ({ node with
            db := db
            proposalChoices := node.proposalChoices.insert slot proposal
            lastProducedSlot := slot }, .ok proposal)

/-- `prepareDurableLocalProposal`: the node afterwards and the proposal to send. -/
def SigningNode.prepareDurableLocalProposal (outcome : StoreOutcome) :
    SigningNode τ × Except String (BlockProposal τ) :=
  let slot := proposal.header.slot
  match checkLocalProposal crypto config "local proposal" "local proposal before persistence"
      proposal with
  | .error message => (node, .error message)
  | .ok () =>
    match node.proposalChoices.lookup slot with
    | some existing =>
      match sameProposalChoice codec existing proposal with
      | .error message => (node, .error message)
      | .ok true => (node, .ok existing)
      | .ok false => (node, .error s!"posnode: local proposal choice conflict for slot {slot}")
    | none =>
      if outcome.read = false then (node, .error "posnode: read local proposal journal")
      else
        match (node.db.visible.lookup (.localProposal slot)).bind StateValue.proposal? with
        | some persisted =>
          match sameProposalChoice codec persisted proposal with
          | .ok true =>
            if persisted.header.leaderID = crypto.newValidatorID config.consensusPublicKey then
              ({ node with
                  proposalChoices := node.proposalChoices.insert slot persisted
                  lastProducedSlot := max node.lastProducedSlot persisted.header.slot },
                .ok persisted)
            else (node,
              .error s!"posnode: persisted local proposal choice conflict for slot {slot}")
          | _ => (node,
              .error s!"posnode: persisted local proposal choice conflict for slot {slot}")
        | none => node.signProposal codec proposal outcome

end

end

/-! ### Pruning -/

/-- `BatchDelete`; where it fails, the entries stay. -/
def batchDelete (db : Store τ) (keys : List StateKey) (deleted : Bool) : Store τ :=
  if deleted then keys.foldl (fun db key => db.write (.delete key)) db else db

/-- `pruneFinalizedLocalVoteJournal` with the slot of the finalized block. -/
def SigningNode.pruneFinalizedLocalVoteJournal (node : SigningNode τ) (finalizedSlot : ℕ)
    (deleted : Bool) : SigningNode τ :=
  let finalized := node.voteEnvelopeChoices.keys.filter fun key =>
    (node.voteEnvelopeChoices.lookup key).any fun envelope => envelope.vote.slot ≤ finalizedSlot
  { node with
    db := batchDelete node.db (finalized.map fun key => .localVoteEnvelope key.1 key.2) deleted
    voteEnvelopeChoices :=
      TableWrite.applyAll node.voteEnvelopeChoices (finalized.map .delete) }

/-- `pruneFinalizedLocalProposalJournal` with the slot of the finalized block. -/
def SigningNode.pruneFinalizedLocalProposalJournal (node : SigningNode τ) (finalizedSlot : ℕ)
    (deleted : Bool) : SigningNode τ :=
  let finalized := node.proposalChoices.keys.filter fun key =>
    (node.proposalChoices.lookup key).any fun proposal => proposal.header.slot ≤ finalizedSlot
  { node with
    db := batchDelete node.db (finalized.map .localProposal) deleted
    proposalChoices := TableWrite.applyAll node.proposalChoices (finalized.map .delete) }

/-! ### Loading after a restart -/

/-- `loadLocalVoteWatermark`: a missing watermark is zero. -/
def loadLocalVoteWatermark (table : Table StateKey (StateValue τ)) (key : StateKey) : ℕ :=
  ((table.lookup key).bind StateValue.watermark?).getD 0

def loadWatermarks (table : Table StateKey (StateValue τ)) : Watermarks where
  lastPreparedSlot := loadLocalVoteWatermark table .localPrepareVoteWatermark
  lastVotedSlot := loadLocalVoteWatermark table .localConfirmVoteWatermark
  lastTimeoutVotedSlot := loadLocalVoteWatermark table .localTimeoutVoteWatermark

def maxLoadedLocalProposals : ℕ := 8192
def maxLoadedLocalVoteEnvelopes : ℕ := 8192

/-- What follows the common part of a key, which decides the order of a query. -/
def StateKey.suffix : StateKey → Bytes
  | .localProposal slot => Borsh.bigEndian 8 slot
  | .localVoteEnvelope .decision slot => Borsh.bigEndian 8 slot
  | .localVoteEnvelope .prepare slot => 3 :: Borsh.bigEndian 8 slot
  | _ => []

/-- `PrefixQueryReverseWithLimit`: the values of some keys, from the last key on. -/
def prefixQueryReverseWithLimit {β : Type} (table : Table StateKey (StateValue τ))
    (select : StateKey → StateValue τ → Option β) (limit : ℕ) : List β :=
  ((table.entries.insertionSort fun left right => ¬left.1.suffix < right.1.suffix).filterMap
    fun row => select row.1 row.2).take limit

def selectProposal : StateKey → StateValue τ → Option (BlockProposal τ)
  | .localProposal _, value => value.proposal?
  | _, _ => none

def selectEnvelope : StateKey → StateValue τ → Option VoteEnvelope
  | .localVoteEnvelope _ _, value => value.envelope?
  | _, _ => none

section

variable (crypto : Crypto) (config : Config) (codec : ProposalCodec τ) [DecidableEq τ]

/-- The body of the loop of `loadPersistedLocalProposals`. -/
def SigningNode.loadProposal (node : SigningNode τ) (proposal : BlockProposal τ) :
    Except String (SigningNode τ) := do
  let slot := proposal.header.slot
  checkLocalProposal crypto config "local proposal journal" "local proposal journal" proposal
  match node.proposalChoices.lookup slot with
  | some existing =>
    failIf (sameProposalChoice codec existing proposal ≠ .ok true)
      s!"posnode: conflicting local proposals persisted for slot {slot}"
    pure { node with lastProducedSlot := max node.lastProducedSlot slot }
  | none => pure (node.rememberProposal proposal)

def SigningNode.loadPersistedLocalProposals (node : SigningNode τ) :
    Except String (SigningNode τ) :=
  let table := node.db.visible
  (prefixQueryReverseWithLimit table selectProposal maxLoadedLocalProposals).foldlM
    (SigningNode.loadProposal crypto config codec)
    { node with lastProducedSlot := loadLocalVoteWatermark table .localProposalWatermark }

/-- The body of the loop of `loadPersistedLocalVoteEnvelopes`. -/
def SigningNode.loadVote (accepts : VoteEnvelope → Bool) (node : SigningNode τ)
    (envelope : VoteEnvelope) : Except String (SigningNode τ) := do
  let slot := envelope.vote.slot
  failIf (isLocalVote crypto config envelope = false)
    "posnode: local vote journal validator mismatch"
  withContext "posnode: verify local vote journal" (verifyVoteEnvelope (accepts envelope) envelope)
  match node.voteEnvelopeChoices.lookup envelope.choiceKey with
  | some existing =>
    failIf (sameVoteChoice existing.vote envelope.vote = false)
      s!"posnode: conflicting local votes persisted for slot {slot}"
    pure { node with watermarks := node.watermarks.advance envelope.vote.toVoteMessage }
  | none => pure (node.rememberVote envelope)

def SigningNode.loadPersistedLocalVoteEnvelopes (accepts : VoteEnvelope → Bool)
    (node : SigningNode τ) : Except String (SigningNode τ) :=
  let table := node.db.visible
  (prefixQueryReverseWithLimit table selectEnvelope maxLoadedLocalVoteEnvelopes).foldlM
    (SigningNode.loadVote crypto config accepts)
    { node with watermarks := loadWatermarks table }

/-- A crash that keeps the marked writes, and a new process that loads the journal. -/
def SigningNode.restart (kept : List Bool) (accepts : VoteEnvelope → Bool)
    (node : SigningNode τ) : Except String (SigningNode τ) := do
  let loaded ← (SigningNode.fresh (node.db.crash kept)).loadPersistedLocalProposals crypto config
    codec
  loaded.loadPersistedLocalVoteEnvelopes crypto config accepts

end

/-! ### Runs -/

/-- What happens to a signing node. A crash in the middle of a call is a call whose next
operation fails, and then the crash. -/
inductive SigningEvent (τ : Type) where
  | prepareVote (envelope : VoteEnvelope) (verified : Bool) (outcome : StoreOutcome)
  | prepareProposal (proposal : BlockProposal τ) (outcome : StoreOutcome)
  | pruneVotes (finalizedSlot : ℕ) (deleted : Bool)
  | pruneProposals (finalizedSlot : ℕ) (deleted : Bool)
  | restart (kept : List Bool) (accepts : VoteEnvelope → Bool)

/-- A node together with all that was returned for broadcast so far. -/
structure SigningRun (τ : Type) where
  node : SigningNode τ
  votes : List VoteEnvelope
  proposals : List (BlockProposal τ)

def SigningRun.start : SigningRun τ :=
  ⟨.fresh .empty, [], []⟩

def SigningRun.step (crypto : Crypto) (config : Config) (codec : ProposalCodec τ) [DecidableEq τ]
    (run : SigningRun τ) : SigningEvent τ → Option (SigningRun τ)
  | .prepareVote envelope verified outcome =>
    let (node, result) := run.node.prepareDurableLocalVoteEnvelope crypto config envelope verified
      outcome
    some { run with node := node, votes := result.toOption.toList ++ run.votes }
  | .prepareProposal proposal outcome =>
    let (node, result) := run.node.prepareDurableLocalProposal crypto config codec proposal outcome
    some { run with node := node, proposals := result.toOption.toList ++ run.proposals }
  | .pruneVotes finalizedSlot deleted =>
    some { run with node := run.node.pruneFinalizedLocalVoteJournal finalizedSlot deleted }
  | .pruneProposals finalizedSlot deleted =>
    some { run with node := run.node.pruneFinalizedLocalProposalJournal finalizedSlot deleted }
  | .restart kept accepts =>
    (run.node.restart crypto config codec kept accepts).toOption.map fun node =>
      { run with node := node }

end Ordexus.Signing
