import Ordexus.Consensus.ChainState
import Ordexus.Consensus.Evidence
import Ordexus.Consensus.LeaderSchedule
import Ordexus.Programs.StakeCodec
import Ordexus.Structure.MonetaryPolicy

/-!
# Block rewards and penalties

`ApplyBlockRewards` (`consensus/rewards.go`): after the transactions of a block
the leader receives its fees, missed slots and votes are counted, evidence is
punished, every stake account is brought into order, and in the first block of an
epoch the stakes are paid.
-/

namespace Ordexus

open Checked Stake

def maxRewardQCsPerBlock : ℕ := 128
def maxSlashingEvidencePerBlock : ℕ := 128
def maxBlockRewards : ℕ := 8192

inductive RewardType where
  | leaderFee
  | voteCredit
  | votePayout
  | commission
  | slash
  | jail
  | missedProposal
deriving DecidableEq

def RewardType.code : RewardType → ℕ
  | .leaderFee => 1
  | .voteCredit => 2
  | .votePayout => 3
  | .commission => 4
  | .slash => 5
  | .jail => 6
  | .missedProposal => 7

structure RewardConfig where
  finalityDepth : ℕ
  rewardQCQuorum : Quorum
  voteRewardLamportsPerCredit : ℕ
  exactStakePayoutActivationEpoch : ℕ
  monetaryPolicy : MonetaryPolicy
  maxVoteRewardDelaySlots : ℕ
  missedVoteJailThreshold : ℕ
  missedVoteJailEpochs : ℕ
  missedProposalJailThreshold : ℕ
  missedProposalJailEpochs : ℕ
  minActiveValidatorsAfterPerformanceJail : ℕ
  maliciousSlashBasisPoints : ℕ
  maliciousJailEpochs : ℕ
deriving DecidableEq

structure BlockReward where
  type : RewardType
  validatorID : ValidatorID
  accountAddress : PublicKey
  stakerAddress : PublicKey
  epochID : ℕ
  slot : ℕ
  lamports : ℕ
  credits : ℕ
deriving DecidableEq

structure BlockRewardInput where
  slot : ℕ
  parentSlot : ℕ
  height : ℕ
  epochID : ℕ
  epochSnapshot : EpochSnapshot
  schedule : LeaderSchedule
  leader : ValidatorState
  feeDetails : List FeeDetails
  rewardQCs : List QuorumCertificate
  evidence : List SlashingEvidence
  proofSnapshots : List EpochSnapshot
  config : RewardConfig
  rentConfig : RentConfig

/-- The state so far and the rewards recorded so far. -/
structure RewardProgress where
  state : ChainState
  rewards : List BlockReward
deriving DecidableEq

def hashBlockRewards (crypto : Crypto) (rewards : List BlockReward) : Hash :=
  if rewards = [] then 0
  else crypto.sha256 (rewards.flatMap fun reward =>
    littleEndian 1 reward.type.code ++ reward.validatorID ++ [0] ++
      bigEndian 32 reward.accountAddress ++ bigEndian 32 reward.stakerAddress ++
      uint64ForHash reward.epochID ++ uint64ForHash reward.slot ++
      uint64ForHash reward.lamports ++ uint64ForHash reward.credits)

/-! ### Input -/

/-- Zero parameters stand for their defaults. The zero configuration as a whole has
the same normal form as the default configuration. -/
def RewardConfig.normalize (config : RewardConfig) : RewardConfig where
  finalityDepth := orDefault config.finalityDepth 2
  rewardQCQuorum :=
    if config.rewardQCQuorum = { numerator := 0, denominator := 0, strict := false } then
      strictTwoThirds
    else config.rewardQCQuorum
  voteRewardLamportsPerCredit := config.voteRewardLamportsPerCredit
  exactStakePayoutActivationEpoch := config.exactStakePayoutActivationEpoch
  monetaryPolicy := config.monetaryPolicy.normalize
  maxVoteRewardDelaySlots := orDefault config.maxVoteRewardDelaySlots 64
  missedVoteJailThreshold := orDefault config.missedVoteJailThreshold 64
  missedVoteJailEpochs := orDefault config.missedVoteJailEpochs 1
  missedProposalJailThreshold := orDefault config.missedProposalJailThreshold 24
  missedProposalJailEpochs := orDefault config.missedProposalJailEpochs 1
  minActiveValidatorsAfterPerformanceJail :=
    orDefault config.minActiveValidatorsAfterPerformanceJail 2
  maliciousSlashBasisPoints := orDefault config.maliciousSlashBasisPoints 5000
  maliciousJailEpochs := orDefault config.maliciousJailEpochs 4

def BlockRewardInput.normalize (input : BlockRewardInput) : BlockRewardInput :=
  { input with
    config := input.config.normalize
    rentConfig :=
      if input.rentConfig = { lamportsPerByteYear := 0, exemptionThresholdYears := 0,
                              accountStorageOverheadSize := 0 } then defaultRentConfig
      else input.rentConfig }

def BlockRewardInput.validate (input : BlockRewardInput) : Except String Unit := do
  failIf (input.height = 0 ∨ input.slot = 0)
    "consensus: reward input height and slot must be positive"
  failIf (input.leader.validatorID = [] ∨ input.leader.accountAddress = 0)
    "consensus: reward leader is invalid"
  failIf (maxRewardQCsPerBlock < input.rewardQCs.length)
    "consensus: reward qc count exceeds limit"
  failIf (maxSlashingEvidencePerBlock < input.evidence.length)
    "consensus: slashing evidence count exceeds limit"
  failIf (10000 < input.config.maliciousSlashBasisPoints)
    "consensus: malicious slash bps exceeds 10000"
  let _ ← withContext "consensus: reward qc quorum"
    (input.config.rewardQCQuorum.requiredStake input.epochSnapshot.totalActiveStake)
  withContext "consensus: reward monetary policy" input.config.monetaryPolicy.validate
  input.rentConfig.validate

/-! ### Accounts of the state -/

/-- The last entry at an address, with its position. -/
def lastEntry (address : PublicKey) : List AddressedAccount → Option (ℕ × Account)
  | [] => none
  | entry :: entries =>
    match lastEntry address entries with
    | some (index, account) => some (index + 1, account)
    | none => if entry.address = address then some (0, entry.account) else none

namespace ChainState

section

variable (state : ChainState)

def setAccount (index : ℕ) (account : Account) : ChainState :=
  { accounts := state.accounts.modify index fun entry => { entry with account := account } }

def loadStakeStateByAddress (address : PublicKey) :
    Except String (Stake.ValidatorState × Account × ℕ) := do
  let (index, account) ← orFail (lastEntry address state.accounts)
    "consensus: stake account not found"
  let stakeState ← unmarshalValidatorStateBinary account.data
  pure (stakeState, account, index)

def writeStakeState (index : ℕ) (account : Account) (stakeState : Stake.ValidatorState)
    (rent : RentConfig) : Except String ChainState := do
  let data ← stakeState.marshalBinary
  let written ← account.setData data rent
  pure (state.setAccount index written)

/-- The address of the missing account is named in the source by its base58 text. -/
def creditAccountLamports (address : PublicKey) (lamports : ℕ) (rent : RentConfig) :
    Except String ChainState :=
  if lamports = 0 then pure state
  else do
    let (index, account) ← orFail (lastEntry address state.accounts)
      s!"consensus: account {address} not found"
    let credited ← account.creditLamports lamports
    credited.validateWithRent rent
    pure (state.setAccount index credited)

/-- The stake accounts with data, in the order of their addresses. -/
def sortedStakeAccountEntries : List (PublicKey × ℕ) :=
  ((state.accounts.zipIdx.filter fun (entry, _) =>
    entry.account.owner = defaultBuiltinProgramIDs.stake && entry.account.data ≠ []).map
      fun (entry, index) => (entry.address, index)).insertionSort
        fun left right => left.1 ≤ right.1

def totalStateLamports : Except String ℕ :=
  checkedSum "consensus: uint64 addition overflow" 0
    (state.accounts.map fun entry => entry.account.lamports)

end

end ChainState

/-! ### Fees, missed proposals and vote credits -/

def sumValidatorFees (fees : List FeeDetails) : Except String ℕ :=
  checkedSum "consensus: validator fee overflow" 0 (fees.map FeeDetails.validatorFee)

section

variable (crypto : Crypto) (signed : List VoteMessage) (input : BlockRewardInput)

section

variable (progress : RewardProgress)

def applyLeaderFeeReward : Except String RewardProgress := do
  let validatorFee ← sumValidatorFees input.feeDetails
  if validatorFee = 0 then pure progress
  else
    let state ← withContext "consensus: credit leader fee reward"
      (progress.state.creditAccountLamports input.leader.accountAddress validatorFee
        input.rentConfig)
    pure
      { state := state
        rewards := progress.rewards ++ [
          { type := .leaderFee
            validatorID := input.leader.validatorID
            accountAddress := input.leader.accountAddress
            stakerAddress := 0
            epochID := input.epochID
            slot := input.slot
            lamports := validatorFee
            credits := 0 }] }

def recordMissedLeaderProposal (leader : ValidatorState) (slot : ℕ) (progress : RewardProgress) :
    Except String RewardProgress := do
  let (stakeState, account, index) ← progress.state.loadStakeStateByAddress leader.accountAddress
  failIf (stakeState.missedProposalCount = maxUint64)
    "consensus: missed proposal count overflow"
  let state ← progress.state.writeStakeState index account
    { stakeState with missedProposalCount := stakeState.missedProposalCount + 1 } input.rentConfig
  pure
    { state := state
      rewards := progress.rewards ++ [
        { type := .missedProposal
          validatorID := leader.validatorID
          accountAddress := leader.accountAddress
          stakerAddress := stakeState.stakerAccount
          epochID := input.epochID
          slot := slot
          lamports := 0
          credits := 1 }] }

/-- The slots between a block and its parent. -/
def missedSlots : List ℕ :=
  let first := wrapUint64 (input.parentSlot + 1)
  if input.parentSlot = 0 ∨ input.slot ≤ first then []
  else List.range' first (input.slot - first)

def applyMissedLeaderProposals : Except String RewardProgress :=
  if missedSlots input = [] then pure progress
  else do
    let schedule ←
      if input.schedule.slotToLeader = [] then newLeaderSchedule crypto input.epochSnapshot
      else pure input.schedule
    (missedSlots input).foldlM (fun progress slot => do
      if slot < input.epochSnapshot.startSlot ∨ input.epochSnapshot.endSlot < slot then
        pure progress
      else
        let leaderID ← schedule.leaderForSlot slot
        let leader ← orFail (input.epochSnapshot.validatorByID leaderID)
          "consensus: missed proposal leader missing from snapshot"
        recordMissedLeaderProposal input leader slot progress) progress

/-- The loop of `normalizedRewardQCs`: the slots seen so far, certificates still to read. -/
def checkRewardQCs : List ℕ → List (QuorumCertificate × ℕ) →
    Except String (List QuorumCertificate)
  | _, [] => pure []
  | seen, (certificate, index) :: certificates => do
    let proofQuorum :=
      if certificate.type = .skip then strictTwoThirds else input.config.rewardQCQuorum
    let _ ← withContext s!"consensus: reward qc {index} proof"
      (proofSnapshotForCertificate crypto signed certificate input.epochSnapshot
        input.proofSnapshots proofQuorum)
    if certificate.type ≠ .confirm then checkRewardQCs seen certificates
    else
      failIf (certificate.slot ∈ seen)
        "consensus: invalid certificate: duplicate reward qc slot"
      let rest ← checkRewardQCs (certificate.slot :: seen) certificates
      pure (certificate :: rest)

/-- In the order of heights and slots; the slots are distinct. -/
def normalizedRewardQCs : Except String (List QuorumCertificate) := do
  let certificates ← checkRewardQCs crypto signed input [] input.rewardQCs.zipIdx
  pure (certificates.insertionSort fun left right =>
    left.blockHeight < right.blockHeight ∨
      (left.blockHeight = right.blockHeight ∧ left.slot ≤ right.slot))

def isRewardEligibleQC (certificate : QuorumCertificate) : Bool :=
  wrapUint64 (certificate.blockHeight + input.config.finalityDepth) ≤ input.height &&
    input.slot ≤ wrapUint64 (certificate.slot + input.config.maxVoteRewardDelaySlots)

/-- The body of the loop of `applySingleQCVoteCredit`. -/
def creditValidatorVote (certificate : QuorumCertificate) (progress : RewardProgress)
    (validator : ValidatorState) : Except String RewardProgress := do
  let (stakeState, account, index) ←
    progress.state.loadStakeStateByAddress validator.accountAddress
  if certificate.slot ≤ stakeState.lastRewardedSlot then pure progress
  else if validator.validatorID ∈ certificate.voters then
    failIf (stakeState.voteCredits = maxUint64) "consensus: vote credits overflow"
    let state ← progress.state.writeStakeState index account
      { stakeState with
        lastRewardedSlot := certificate.slot
        voteCredits := stakeState.voteCredits + 1
        lastVoteSlot := certificate.slot } input.rentConfig
    pure
      { state := state
        rewards := progress.rewards ++ [
          { type := .voteCredit
            validatorID := validator.validatorID
            accountAddress := validator.accountAddress
            stakerAddress := 0
            epochID := input.epochID
            slot := certificate.slot
            lamports := 0
            credits := 1 }] }
  else
    failIf (stakeState.missedVoteCount = maxUint64) "consensus: missed vote count overflow"
    let state ← progress.state.writeStakeState index account
      { stakeState with
        lastRewardedSlot := certificate.slot
        missedVoteCount := stakeState.missedVoteCount + 1 } input.rentConfig
    pure { progress with state := state }

def applySingleQCVoteCredit (certificate : QuorumCertificate) : Except String RewardProgress :=
  input.epochSnapshot.validators.foldlM (creditValidatorVote input certificate) progress

def applyFinalizedVoteCredits : Except String RewardProgress := do
  let certificates ← normalizedRewardQCs crypto signed input
  (certificates.filter (isRewardEligibleQC input)).foldlM (applySingleQCVoteCredit input) progress

end

/-! ### Evidence -/

/-- The share of a pool that belongs to a weight. -/
def prorateLamports (poolLamports weight totalWeight : ℕ) : ℕ :=
  if poolLamports = 0 ∨ weight = 0 ∨ totalWeight = 0 then 0
  else wrapUint64 (poolLamports * weight / totalWeight)

/-- The guilty validators with their slots, in this order. Two items for one
validator and slot differ only in their keys; the first one bars the others, so
that the keys are left out. -/
def normalizeSlashingEvidence : Except String (List (ValidatorState × ℕ)) := do
  let items ← input.evidence.zipIdx.mapM fun (evidence, index) => do
    let slot ← withContext s!"consensus: slashing evidence {index} slot" evidence.slot
    let snapshot ← withContext s!"consensus: slashing evidence {index} snapshot"
      (proofSnapshotForSlot slot input.epochSnapshot input.proofSnapshots)
    withContext s!"consensus: slashing evidence {index}" (evidence.validate crypto snapshot)
  pure (items.insertionSort fun left right =>
    left.2 < right.2 ∨ (left.2 = right.2 ∧ left.1.validatorID ≤ right.1.validatorID))

/-- What would stay below the minimum is slashed, too. -/
def calculateSlashLamports (state : Stake.ValidatorState) (basisPoints : ℕ) :
    Except String ℕ := do
  let totalStake ← validatorTotalStake "consensus: validator stake overflow" state
  if basisPoints = 0 ∨ totalStake = 0 then pure 0
  else
    let slashLamports := prorateLamports totalStake basisPoints 10000
    pure (if totalStake ≤ slashLamports ∨
        totalStake - slashLamports < minimumStakeLamports then totalStake else slashLamports)

/-- The lamports that are burned leave the account at its rent minimum; the stake is
reduced by the whole amount. -/
def burnSlashFromValidator (account : Account) (state : Stake.ValidatorState)
    (requestedSlash : ℕ) : Except String (ℕ × Account × Stake.ValidatorState) :=
  if requestedSlash = 0 then pure (0, account, state)
  else do
    let totalStake ← validatorTotalStake "consensus: validator stake overflow" state
    failIf (totalStake < requestedSlash) "consensus: slash exceeds validator stake"
    let minimumBalance ← input.rentConfig.minimumBalance account.data.length
    let burned ←
      if minimumBalance < account.lamports then
        account.debitLamports (min requestedSlash (account.lamports - minimumBalance))
          input.rentConfig
      else pure account
    let nextState ← applySlash state requestedSlash
    pure (requestedSlash, burned, nextState)

def applySingleSlashingEvidence (progress : RewardProgress) (item : ValidatorState × ℕ) :
    Except String RewardProgress := do
  let (validator, slot) := item
  let (stakeState, account, index) ←
    progress.state.loadStakeStateByAddress validator.accountAddress
  if slot ≤ stakeState.lastSlashedSlot then pure progress
  else
    let slashLamports ← calculateSlashLamports stakeState input.config.maliciousSlashBasisPoints
    let (slashedLamports, nextAccount, slashed) ←
      burnSlashFromValidator input account stakeState slashLamports
    let jailUntilEpoch := max slashed.jailUntilEpoch
      (wrapUint64 (input.epochID + input.config.maliciousJailEpochs))
    let jailed : Stake.ValidatorState :=
      { slashed with
        status := .jailed
        jailUntilEpoch := jailUntilEpoch
        unlockEpoch := jailUntilEpoch
        lastSlashedSlot := slot
        voteCredits := 0
        missedVoteCount := 0
        missedProposalCount := 0 }
    let nextStakeState ← withContext "consensus: refresh slashed effective stake"
      (jailed.withEffectiveStake input.epochID)
    let state ← progress.state.writeStakeState index nextAccount nextStakeState input.rentConfig
    let event (type : RewardType) (lamports : ℕ) : BlockReward :=
      { type := type
        validatorID := crypto.newValidatorID nextStakeState.consensusPublicKey
        accountAddress := validator.accountAddress
        stakerAddress := nextStakeState.stakerAccount
        epochID := input.epochID
        slot := slot
        lamports := lamports
        credits := 0 }
    pure
      { state := state
        rewards := progress.rewards ++
          (if 0 < slashedLamports then [event .slash slashedLamports] else []) ++
          [event .jail 0] }

def applySlashingEvidence (progress : RewardProgress) : Except String RewardProgress := do
  let items ← normalizeSlashingEvidence crypto input
  items.foldlM (applySingleSlashingEvidence crypto input) progress

/-! ### Stake accounts -/

/-- The body of the loop of `normalizeStakeDelegationBuckets`; every stake account has
to decode. -/
def normalizeStakeAccount (state : ChainState) (entry : PublicKey × ℕ) :
    Except String ChainState := do
  let account ← orFail (state.accounts[entry.2]?.map AddressedAccount.account)
    "consensus: stake account not found"
  let stakeState ← unmarshalValidatorStateBinary account.data
  let (normalized, changed) ← normalizeDelegationBuckets stakeState
  if changed then state.writeStakeState entry.2 account normalized input.rentConfig
  else pure state

def normalizeStakeDelegationBuckets (state : ChainState) : Except String ChainState :=
  state.sortedStakeAccountEntries.foldlM (normalizeStakeAccount input) state

/-! ### Settlement of an epoch -/

def effectiveRewardCredits (state : Stake.ValidatorState) : ℕ :=
  state.voteCredits - state.missedProposalCount

def shouldJailForMissedPerformance (state : Stake.ValidatorState) (config : RewardConfig) : Bool :=
  state.status = .active && (config.missedVoteJailThreshold ≤ state.missedVoteCount ||
    config.missedProposalJailThreshold ≤ state.missedProposalCount)

def missedPerformanceJailEpochs (state : Stake.ValidatorState) (config : RewardConfig) : ℕ :=
  let forVotes :=
    if config.missedVoteJailThreshold ≤ state.missedVoteCount then config.missedVoteJailEpochs
    else 0
  let jailEpochs :=
    if config.missedProposalJailThreshold ≤ state.missedProposalCount ∧
        forVotes < config.missedProposalJailEpochs then config.missedProposalJailEpochs
    else forVotes
  if jailEpochs = 0 then 1 else jailEpochs

def countActivePerformanceValidators (state : ChainState) : Except String ℕ :=
  state.sortedStakeAccountEntries.foldlM (fun count entry => do
    let (stakeState, _, _) ← state.loadStakeStateByAddress entry.1
    if stakeState.status ≠ .active then pure count
    else
      let effectiveStake ← withContext "consensus: count active performance validators"
        (effectiveStakeAtEpoch stakeState input.epochID)
      pure (if effectiveStake = 0 then count else count + 1)) 0

/-- The weights are unbounded integers in the source. -/
def totalEpochRewardWeight (state : ChainState) : Except String ℕ :=
  state.sortedStakeAccountEntries.foldlM (fun total entry => do
    let (stakeState, _, _) ← state.loadStakeStateByAddress entry.1
    let credits := effectiveRewardCredits stakeState
    if input.epochID ≤ stakeState.lastRewardEpoch ∨
        shouldJailForMissedPerformance stakeState input.config = true ∨ credits = 0 ∨
        stakeState.status ≠ .active then pure total
    else
      let effectiveStake ← withContext "consensus: reward weight effective stake"
        (effectiveStakeAtEpoch stakeState input.epochID)
      pure (total + effectiveStake * credits)) 0

structure EpochRewardContext where
  poolLamports : ℕ
  totalWeight : ℕ
deriving DecidableEq

def buildEpochRewardContext (state : ChainState) : Except String EpochRewardContext := do
  let totalWeight ← totalEpochRewardWeight input state
  if totalWeight = 0 ∨ input.config.voteRewardLamportsPerCredit ≠ 0 then
    pure { poolLamports := 0, totalWeight := totalWeight }
  else
    let currentSupply ← state.totalStateLamports
    failIf (input.epochSnapshot.endSlot < input.epochSnapshot.startSlot)
      "consensus: reward epoch snapshot has invalid slot range"
    let epochSlots ← checkedAdd "consensus: uint64 addition overflow"
      (input.epochSnapshot.endSlot - input.epochSnapshot.startSlot) 1
    let poolLamports ← withContext "consensus: calculate epoch inflation"
      (input.config.monetaryPolicy.inflationLamportsForEpoch currentSupply input.epochID
        epochSlots)
    pure { poolLamports := poolLamports, totalWeight := totalWeight }

def safeMulUint64Consensus (left right : ℕ) : Except String ℕ := do
  failIf (left ≠ 0 ∧ maxUint64 / left < right) "consensus: uint64 multiplication overflow"
  pure (left * right)

def calculateVoteReward (stakeState : Stake.ValidatorState) (credits : ℕ)
    (context : EpochRewardContext) : Except String ℕ :=
  if credits = 0 then pure 0
  else if input.config.voteRewardLamportsPerCredit ≠ 0 then
    withContext "consensus: vote reward overflow"
      (safeMulUint64Consensus credits input.config.voteRewardLamportsPerCredit)
  else if context.poolLamports = 0 ∨ context.totalWeight = 0 then pure 0
  else do
    let effectiveStake ← withContext "consensus: reward effective stake"
      (effectiveStakeAtEpoch stakeState input.epochID)
    let weight := effectiveStake * credits
    failIf (context.totalWeight < weight) "consensus: reward weight exceeds total"
    let reward := context.poolLamports * weight / context.totalWeight
    failIf (maxUint64 < reward) "consensus: vote reward overflow"
    pure reward

/-- Before the activation epoch the product wraps. -/
def stakePayoutShare (poolLamports weight totalWeight : ℕ) : ℕ :=
  if input.epochID < input.config.exactStakePayoutActivationEpoch then
    wrapUint64 (poolLamports * weight) / totalWeight
  else prorateLamports poolLamports weight totalWeight

/-- The running values of `distributeStakePayout`: the validator account is written
back by the caller. -/
structure PayoutProgress extends RewardProgress where
  validatorAccount : Account
  distributed : ℕ

/-- Who is paid: the validator whose stakes they are, and how the payment is recorded. -/
structure PayoutOrder where
  validatorAddress : PublicKey
  validatorID : ValidatorID
  stakerAccount : PublicKey
  rewardCredits : ℕ

/-- `creditStakeReward` followed by `appendVotePayoutReward`. -/
def payStakeReward (order : PayoutOrder) (destination : PublicKey) (lamports : ℕ)
    (progress : PayoutProgress) : Except String PayoutProgress := do
  let reward : BlockReward :=
    { type := .votePayout
      validatorID := order.validatorID
      accountAddress := destination
      stakerAddress := order.stakerAccount
      epochID := input.epochID
      slot := input.slot
      lamports := lamports
      credits := order.rewardCredits }
  let paid := { progress with
    rewards := progress.rewards ++ [reward]
    distributed := wrapUint64 (progress.distributed + lamports) }
  if destination = order.validatorAddress then
    let account ← progress.validatorAccount.creditLamports lamports
    pure { paid with validatorAccount := account }
  else
    let state ← progress.state.creditAccountLamports destination lamports input.rentConfig
    pure { paid with state := state }

/-- A payment to a delegator, on its record, too. -/
def payDelegation (order : PayoutOrder) (lamports : ℕ) (delegation : Stake.DelegationState)
    (progress : PayoutProgress) : Except String (Stake.DelegationState × PayoutProgress) := do
  let paid ← payStakeReward input order delegation.delegatorAccount lamports progress
  let rewardLamports ← checkedAdd "consensus: delegation reward overflow"
    delegation.rewardLamports lamports
  pure ({ delegation with rewardLamports := rewardLamports }, paid)

/-- The loop over the delegations. The last active one is returned by its position,
counted from `index`. -/
def payDelegations (order : PayoutOrder) (payoutLamports activeStake : ℕ) :
    ℕ → Option ℕ → List Stake.DelegationState → PayoutProgress →
      Except String (List Stake.DelegationState × Option ℕ × PayoutProgress)
  | _, last, [], progress => pure ([], last, progress)
  | index, last, delegation :: delegations, progress =>
    if delegation.activeStake = 0 then do
      let (rest, final, paid) ←
        payDelegations order payoutLamports activeStake (index + 1) last delegations progress
      pure (delegation :: rest, final, paid)
    else do
      let share := stakePayoutShare input payoutLamports delegation.activeStake activeStake
      let (next, progress) ←
        if share = 0 then pure (delegation, progress)
        else payDelegation input order share delegation progress
      let (rest, final, paid) ←
        payDelegations order payoutLamports activeStake (index + 1) (some index) delegations
          progress
      pure (next :: rest, final, paid)

/-- A payment to the staker, on the record of the validator, too. -/
def paySelf (order : PayoutOrder) (lamports : ℕ) (stakeState : Stake.ValidatorState)
    (progress : PayoutProgress) : Except String (Stake.ValidatorState × PayoutProgress) := do
  let paid ← payStakeReward input order stakeState.stakerAccount lamports progress
  let selfRewardLamports ← checkedAdd "consensus: self reward overflow"
    stakeState.selfRewardLamports lamports
  pure ({ stakeState with selfRewardLamports := selfRewardLamports }, paid)

/-- The end of `distributeStakePayout`: what rounding has left over. -/
def payRemainder (order : PayoutOrder) (payoutLamports selfActiveStake : ℕ)
    (paidState : Stake.ValidatorState) (lastDelegator : Option ℕ) (progress : PayoutProgress) :
    Except String (Stake.ValidatorState × PayoutProgress) :=
  if payoutLamports ≤ progress.distributed then pure (paidState, progress)
  else
    let remainder := payoutLamports - progress.distributed
    if 0 < selfActiveStake then paySelf input order remainder paidState progress
    else
      match lastDelegator.bind fun index => paidState.delegations[index]?.map (Prod.mk index) with
      | none => pure (paidState, progress)
      | some (index, delegation) => do
        let (next, progress) ← payDelegation input order remainder delegation progress
        pure ({ paidState with delegations := paidState.delegations.set index next }, progress)

def distributeStakePayout (order : PayoutOrder) (payoutLamports : ℕ)
    (stakeState : Stake.ValidatorState) (progress : PayoutProgress) :
    Except String (Stake.ValidatorState × PayoutProgress) :=
  if payoutLamports = 0 ∨ stakeState.activeStake = 0 then pure (stakeState, progress)
  else do
    let selfActiveStake ← selfActiveStake stakeState
    let selfPayout :=
      stakePayoutShare input payoutLamports selfActiveStake stakeState.activeStake
    let (selfPaid, progress) ←
      if selfPayout = 0 then pure (stakeState, progress)
      else paySelf input order selfPayout stakeState progress
    let (delegations, lastDelegator, progress) ← payDelegations input order payoutLamports
      stakeState.activeStake 0 none selfPaid.delegations progress
    payRemainder input order payoutLamports selfActiveStake
      { selfPaid with delegations := delegations } lastDelegator progress

def settleRewardedValidator (context : EpochRewardContext) (entry : PublicKey × ℕ)
    (account : Account) (stakeState : Stake.ValidatorState) (progress : RewardProgress) :
    Except String RewardProgress := do
  let matured ← withContext "consensus: mature rewarded stake"
    (matureStakeForEpoch stakeState input.epochID)
  let rewardCredits := effectiveRewardCredits matured
  let rewardLamports ← calculateVoteReward input matured rewardCredits context
  let commissionLamports := prorateLamports rewardLamports matured.commissionBps 10000
  let stakerLamports := rewardLamports - commissionLamports
  let validatorID := crypto.newValidatorID matured.consensusPublicKey
  let start : PayoutProgress :=
    { progress with validatorAccount := account, distributed := 0 }
  let (commissioned, progress) ←
    if commissionLamports = 0 then pure (matured, start)
    else do
      let credited ← account.creditLamports commissionLamports
      let commissionRewardLamports ← checkedAdd "consensus: commission reward overflow"
        matured.commissionRewardLamports commissionLamports
      let reward : BlockReward :=
        { type := .commission
          validatorID := validatorID
          accountAddress := entry.1
          stakerAddress := matured.stakerAccount
          epochID := input.epochID
          slot := input.slot
          lamports := commissionLamports
          credits := 0 }
      pure ({ matured with commissionRewardLamports := commissionRewardLamports },
        { start with validatorAccount := credited, rewards := start.rewards ++ [reward] })
  let order : PayoutOrder :=
    { validatorAddress := entry.1
      validatorID := validatorID
      stakerAccount := matured.stakerAccount
      rewardCredits := rewardCredits }
  let (paidState, progress) ←
    distributeStakePayout input order stakerLamports commissioned progress
  let totalReward ← checkedAdd "consensus: validator reward overflow" paidState.rewardLamports
    rewardLamports
  let state ← progress.state.writeStakeState entry.2 progress.validatorAccount
    { paidState with
      rewardLamports := totalReward
      voteCredits := 0
      missedVoteCount := 0
      missedProposalCount := 0
      lastRewardEpoch := input.epochID } input.rentConfig
  pure { state := state, rewards := progress.rewards }

def settleJailedValidator (entry : PublicKey × ℕ) (account : Account)
    (stakeState : Stake.ValidatorState) (progress : RewardProgress) :
    Except String RewardProgress := do
  let matured ← withContext "consensus: mature jailed stake"
    (matureStakeForEpoch stakeState input.epochID)
  let jailUntilEpoch :=
    wrapUint64 (input.epochID + missedPerformanceJailEpochs matured input.config)
  let jailed : Stake.ValidatorState :=
    { matured with
      status := .jailed
      jailUntilEpoch := jailUntilEpoch
      unlockEpoch := jailUntilEpoch
      voteCredits := 0
      missedVoteCount := 0
      missedProposalCount := 0
      lastRewardEpoch := input.epochID }
  let nextStakeState ← withContext "consensus: refresh jailed effective stake"
    (jailed.withEffectiveStake input.epochID)
  let state ← progress.state.writeStakeState entry.2 account nextStakeState input.rentConfig
  pure
    { state := state
      rewards := progress.rewards ++ [
        { type := .jail
          validatorID := crypto.newValidatorID matured.consensusPublicKey
          accountAddress := entry.1
          stakerAddress := nextStakeState.stakerAccount
          epochID := input.epochID
          slot := input.slot
          lamports := 0
          credits := 0 }] }

/-- The body of the loop of `applyEpochRewardSettlement`; it carries the number of
active validators. -/
def settleValidator (context : EpochRewardContext) (current : ℕ × RewardProgress)
    (entry : PublicKey × ℕ) : Except String (ℕ × RewardProgress) := do
  let (activeValidatorCount, progress) := current
  let (stakeState, account, _) ← progress.state.loadStakeStateByAddress entry.1
  if input.epochID ≤ stakeState.lastRewardEpoch then pure current
  else if shouldJailForMissedPerformance stakeState input.config = true ∧
      input.config.minActiveValidatorsAfterPerformanceJail < activeValidatorCount then
    let settled ← settleJailedValidator crypto input entry account stakeState progress
    pure (activeValidatorCount - 1, settled)
  else
    let settled ← settleRewardedValidator crypto input context entry account stakeState progress
    pure (activeValidatorCount, settled)

def applyEpochRewardSettlement (progress : RewardProgress) : Except String RewardProgress :=
  if input.epochID = 0 then pure progress
  else do
    let activeValidatorCount ← countActivePerformanceValidators input progress.state
    let context ← buildEpochRewardContext input progress.state
    let (_, settled) ← progress.state.sortedStakeAccountEntries.foldlM
      (settleValidator crypto input context) (activeValidatorCount, progress)
    pure settled

def applyBlockRewards (state : ChainState) : Except String RewardProgress := do
  let input := input.normalize
  input.validate
  let withFees ← applyLeaderFeeReward input { state := state, rewards := [] }
  let withMissed ← applyMissedLeaderProposals crypto input withFees
  let withCredits ← applyFinalizedVoteCredits crypto signed input withMissed
  let punished ← applySlashingEvidence crypto input withCredits
  let normalized ← normalizeStakeDelegationBuckets input punished.state
  let settled ← applyEpochRewardSettlement crypto input { punished with state := normalized }
  failIf (maxBlockRewards < settled.rewards.length) "consensus: block rewards exceed limit"
  pure settled

end

end Ordexus
