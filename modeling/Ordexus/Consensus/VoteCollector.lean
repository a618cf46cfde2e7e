import Ordexus.Consensus.Certificate
import Ordexus.Library.Table

/-!
# The vote collector

`VoteCollector` of `consensus/slot.go`: votes are checked against a trusted stake table,
added up in buckets, one for each slot, type and block, and turned into certificates when
the stake of a bucket meets a threshold. A call returns the collector as it is afterwards
together with its result, since a call may fail after the vote was recorded.
-/

namespace Ordexus

open Checked

/-- The votes that are added up in one bucket. -/
structure VoteKey where
  slot : ℕ
  type : VoteType
  blockHash : Hash
deriving DecidableEq

/-- A validator has one choice in each phase of a slot. -/
structure VoterChoiceKey where
  slot : ℕ
  phase : VotePhase
  voterID : ValidatorID
deriving DecidableEq

structure VoteChoice where
  type : VoteType
  blockHeight : ℕ
  blockHash : Hash
deriving DecidableEq

/-- The voters are a set; their order does not matter. -/
structure VoteBucket where
  blockHeight : ℕ
  stake : ℕ
  voters : List ValidatorID
  blsSignatures : Table ValidatorID Bytes
  createdAtUnixMilli : ℤ
deriving DecidableEq

structure VoteCollector where
  validatorStake : Table ValidatorID ℕ
  confirmThresholdStake : ℕ
  timeoutThresholdStake : ℕ
  totalStake : ℕ
  buckets : Table VoteKey VoteBucket
  voterChoices : Table VoterChoiceKey VoteChoice

def Vote.key (vote : Vote) : VoteKey where
  slot := vote.slot
  type := vote.type
  blockHash := vote.blockHash

def Vote.choiceKey (vote : Vote) : VoterChoiceKey where
  slot := vote.slot
  phase := votePhaseForChoice vote.type
  voterID := vote.voterID

def Vote.choice (vote : Vote) : VoteChoice where
  type := vote.type
  blockHeight := vote.blockHeight
  blockHash := vote.blockHash

/-! ### Construction -/

/-- The body of the loop of `normalizeValidatorStake`. -/
def addValidatorStake (totalStake : ℕ) (entry : Sigma fun _ : ValidatorID => ℕ) :
    Except String ℕ := do
  failIf (isBlank entry.1 = true ∨ maxConsensusTextLength < entry.1.length)
    "consensus: invalid vote: invalid validator id"
  failIf (entry.2 = 0) "consensus: invalid vote: zero validator stake"
  failIf (maxUint64 - totalStake < entry.2) "consensus: invalid vote: total stake overflow"
  pure (totalStake + entry.2)

/-- The total stake of a table; the table itself is copied. -/
def normalizeValidatorStake (validatorStake : Table ValidatorID ℕ) : Except String ℕ := do
  failIf (validatorStake.entries = []) "consensus: invalid vote: empty validator set"
  validatorStake.entries.foldlM addValidatorStake 0

/-- The difference to the timeout threshold is a 64-bit number: it wraps where the
threshold is above the total. -/
def newVoteCollectorWithQuorums (validatorStake : Table ValidatorID ℕ)
    (confirmQuorum timeoutQuorum : Quorum) : Except String VoteCollector := do
  let totalStake ← normalizeValidatorStake validatorStake
  let confirmThresholdStake ← confirmQuorum.requiredStake totalStake
  let timeoutThresholdStake ← timeoutQuorum.requiredStake totalStake
  let intersectionStake :=
    confirmThresholdStake - wrapUint64 (totalStake + 2 ^ 64 - timeoutThresholdStake)
  let maximumByzantineStake := (totalStake - 1) / 3
  failIf (intersectionStake ≤ maximumByzantineStake)
    "consensus: invalid quorum: confirm and timeout thresholds lack an honest intersection"
  pure
    { validatorStake := validatorStake
      confirmThresholdStake := confirmThresholdStake
      timeoutThresholdStake := timeoutThresholdStake
      totalStake := totalStake
      buckets := ∅
      voterChoices := ∅ }

/-! ### Aggregate signatures -/

/-- Aggregation of BLS signatures; an aggregate is a compressed point of 48 bytes. -/
structure AggregateScheme where
  aggregate : List Bytes → Except String { signature : Bytes // signature.length = 48 }

/-- The loop that numbers the validators; `seen` are the ids read so far. -/
def validateBitmapOrder : List ValidatorID → List ValidatorID → Except String Unit
  | _, [] => pure ()
  | seen, validatorID :: validatorIDs => do
    failIf (validatorID = []) "consensus: invalid certificate: empty validator id in bitmap order"
    failIf (validatorID ∈ seen)
      "consensus: invalid certificate: duplicate validator id in bitmap order"
    validateBitmapOrder (validatorID :: seen) validatorIDs

def setBitmapBit (bitmap : Bytes) (index : ℕ) : Bytes :=
  bitmap.modify (index / 8) (· ||| (1 <<< UInt8.ofNat (index % 8)))

/-- One bit for each validator, in their order. -/
def voterBitmap (validatorOrder voters : List ValidatorID) : Bytes :=
  voters.foldl (fun bitmap voterID => setBitmapBit bitmap (validatorOrder.idxOf voterID))
    (List.replicate ((validatorOrder.length + 7) / 8) 0)

/-- The signature of a voter that has a place in the bitmap. -/
def voterSignature (validatorOrder : List ValidatorID)
    (signaturesByValidator : Table ValidatorID Bytes) (voterID : ValidatorID) :
    Except String Bytes := do
  failIf (voterID ∉ validatorOrder) "consensus: invalid certificate: voter not in validator order"
  let signature := (signaturesByValidator.lookup voterID).getD []
  failIf (signature = []) "consensus: invalid certificate: missing bls signature"
  pure signature

def attachBLSAggregate (scheme : AggregateScheme) (certificate : QuorumCertificate)
    (validatorOrder : List ValidatorID) (signaturesByValidator : Table ValidatorID Bytes) :
    Except String QuorumCertificate := do
  certificate.validate
  failIf (validatorOrder = []) "consensus: invalid certificate: empty validator order"
  let orderedVoters := certificate.voters.insertionSort (· ≤ ·)
  validateBitmapOrder [] validatorOrder
  let signatures ← orderedVoters.mapM (voterSignature validatorOrder signaturesByValidator)
  let aggregateSignature ← withContext "consensus: aggregate bls signatures"
    (scheme.aggregate signatures)
  let aggregated :=
    { certificate with
      signatureScheme := .blsBasic
      aggregateSignature := aggregateSignature.1
      voterBitmap := voterBitmap validatorOrder orderedVoters }
  aggregated.validate
  pure aggregated

/-! ### Votes -/

def VoteBucket.empty : VoteBucket where
  blockHeight := 0
  stake := 0
  voters := []
  blsSignatures := ∅
  createdAtUnixMilli := 0

/-- A bucket after a vote; `blsSignature` is empty for a vote without one. -/
def VoteBucket.add (bucket : VoteBucket) (vote : Vote) (registeredStake : ℕ)
    (blsSignature : Bytes) : VoteBucket where
  blockHeight := vote.blockHeight
  stake := wrapUint64 (bucket.stake + registeredStake)
  voters := bucket.voters.insert vote.voterID
  blsSignatures := if blsSignature = [] then bucket.blsSignatures
    else bucket.blsSignatures.insert vote.voterID blsSignature
  createdAtUnixMilli := max bucket.createdAtUnixMilli vote.createdAtUnixMilli

def VoteBucket.certificate (bucket : VoteBucket) (key : VoteKey) (thresholdStake : ℕ) :
    QuorumCertificate where
  type := key.type
  slot := key.slot
  blockHeight := bucket.blockHeight
  blockHash := key.blockHash
  thresholdStake := thresholdStake
  confirmedStake := bucket.stake
  voters := bucket.voters.insertionSort (· ≤ ·)
  createdAtUnixMilli := bucket.createdAtUnixMilli
  signatureScheme := .none
  aggregateSignature := []
  voterBitmap := []

namespace VoteCollector

section

variable (collector : VoteCollector)

def bucket (key : VoteKey) : VoteBucket :=
  (collector.buckets.lookup key).getD .empty

def thresholdStakeForVoteType : VoteType → ℕ
  | .skip => collector.timeoutThresholdStake
  | .unknown | .confirm | .prepare => collector.confirmThresholdStake

/-- The name of a validator in a message. -/
def voterText (voterID : ValidatorID) : String :=
  String.ofList (voterID.map fun byte => Char.ofNat byte.toNat)

/-- The checks of `addVote`, all of which come before the vote is recorded. They return the
stake that counts. A bucket that does not exist yet has height zero. -/
def checkVote (vote : Vote) : Except String ℕ := do
  vote.validate
  let registeredStake ← orFail (collector.validatorStake.lookup vote.voterID)
    ("consensus: unknown validator: " ++ voterText vote.voterID)
  failIf (registeredStake ≠ vote.stake) "consensus: invalid vote: stake mismatch"
  failIf (collector.voterChoices.lookup vote.choiceKey = some vote.choice)
    "consensus: duplicate vote"
  failIf ((collector.voterChoices.lookup vote.choiceKey).isSome) "consensus: conflicting vote"
  failIf ((collector.bucket vote.key).blockHeight ≠ 0 ∧
      (collector.bucket vote.key).blockHeight ≠ vote.blockHeight)
    "consensus: invalid vote: block height mismatch"
  pure registeredStake

def record (vote : Vote) (registeredStake : ℕ) (blsSignature : Bytes) : VoteCollector :=
  { collector with
    buckets := collector.buckets.insert vote.key
      ((collector.bucket vote.key).add vote registeredStake blsSignature)
    voterChoices := collector.voterChoices.insert vote.choiceKey vote.choice }

/-- A certificate is formed when the threshold is met for the first time and once more when
all stake has voted. -/
def completes (thresholdStake previousStake stake : ℕ) : Bool :=
  decide (thresholdStake ≤ stake) &&
    !(decide (thresholdStake ≤ previousStake) && decide (stake < collector.totalStake))

end

/-- The end of `addVote`: the certificate that a vote completes. -/
def certificateFor (scheme : AggregateScheme) (collector : VoteCollector) (vote : Vote)
    (registeredStake : ℕ) (blsSignature : Bytes) (validatorOrder : List ValidatorID) :
    Except String (Option QuorumCertificate) :=
  let bucket := (collector.bucket vote.key).add vote registeredStake blsSignature
  let thresholdStake := collector.thresholdStakeForVoteType vote.type
  if collector.completes thresholdStake (collector.bucket vote.key).stake bucket.stake = false then
    pure none
  else
    let certificate := bucket.certificate vote.key thresholdStake
    if validatorOrder = [] ∨ bucket.blsSignatures.entries.length ≠ bucket.voters.length then
      pure (some certificate)
    else do
      let aggregated ← attachBLSAggregate scheme certificate validatorOrder bucket.blsSignatures
      pure (some aggregated)

def addVote (scheme : AggregateScheme) (collector : VoteCollector) (vote : Vote)
    (blsSignature : Bytes) (validatorOrder : List ValidatorID) :
    VoteCollector × Except String (Option QuorumCertificate) :=
  match collector.checkVote vote with
  | .error message => (collector, .error message)
  | .ok registeredStake =>
    (collector.record vote registeredStake blsSignature,
      collector.certificateFor scheme vote registeredStake blsSignature validatorOrder)

end VoteCollector

/-- The two ways to submit a vote: `AddVote` and `AddVoteWithBLS`. -/
inductive CollectorCall where
  | plain (vote : Vote)
  | withBLS (vote : Vote) (blsSignature : Bytes) (validatorOrder : List ValidatorID)

def CollectorCall.vote : CollectorCall → Vote
  | .plain vote => vote
  | .withBLS vote _ _ => vote

namespace VoteCollector

variable (scheme : AggregateScheme)

def apply (collector : VoteCollector) :
    CollectorCall → VoteCollector × Except String (Option QuorumCertificate)
  | .plain vote => collector.addVote scheme vote [] []
  | .withBLS vote blsSignature validatorOrder =>
    if blsSignature = [] then
      (collector, .error "consensus: invalid vote: missing bls vote signature")
    else if validatorOrder = [] then
      (collector, .error "consensus: invalid vote: missing validator order")
    else collector.addVote scheme vote blsSignature validatorOrder

def after (collector : VoteCollector) (calls : List CollectorCall) : VoteCollector :=
  calls.foldl (fun current call => (current.apply scheme call).1) collector

def results : VoteCollector → List CollectorCall → List (Except String (Option QuorumCertificate))
  | _, [] => []
  | collector, call :: calls =>
    (collector.apply scheme call).2 :: results (collector.apply scheme call).1 calls

/-- The certificates that a sequence of calls emits, in their order. -/
def certificates (collector : VoteCollector) (calls : List CollectorCall) :
    List QuorumCertificate :=
  (collector.results scheme calls).filterMap fun result => result.toOption.join

end VoteCollector

end Ordexus
