import Ordexus.Structure.Account

/-!
# Validator stakes

The state a stake account holds (`programs/stake/program.go`): the stake of a
validator in three buckets, with a record of the same buckets for each delegator.
The totals of the validator include the delegations. The module has the field
checks, the stake that counts in an epoch, and what a slash takes away.
-/

namespace Ordexus.Stake

open Checked

def maxPeerIDLength : ℕ := 128
def maxBLSPublicKeyBytes : ℕ := 128
def maxStakeStateBytes : ℕ := 32768
def maxDelegations : ℕ := 256
def minimumStakeLamports : ℕ := 10000000

/-- The status byte; `unknown` is every byte outside the other three. -/
inductive ValidatorStatus where
  | active
  | exiting
  | jailed
  | unknown (code : ℕ)
deriving DecidableEq

def ValidatorStatus.code : ValidatorStatus → ℕ
  | .active => 1
  | .exiting => 2
  | .jailed => 3
  | .unknown code => code

def ValidatorStatus.ofCode : ℕ → ValidatorStatus
  | 1 => .active
  | 2 => .exiting
  | 3 => .jailed
  | code => .unknown code

structure DelegationState where
  delegatorAccount : PublicKey
  activeStake : ℕ
  pendingStake : ℕ
  unlockingStake : ℕ
  unlockEpoch : ℕ
  activationEpoch : ℕ
  deactivationEpoch : ℕ
  rewardLamports : ℕ
deriving DecidableEq

structure ValidatorState where
  consensusPublicKey : PublicKey
  blsPublicKey : Bytes
  stakerAccount : PublicKey
  p2pPeerID : Bytes
  commissionBps : ℕ
  activeStake : ℕ
  pendingStake : ℕ
  unlockingStake : ℕ
  unlockEpoch : ℕ
  status : ValidatorStatus
  voteCredits : ℕ
  lastVoteSlot : ℕ
  lastRewardedSlot : ℕ
  lastRewardEpoch : ℕ
  rewardLamports : ℕ
  selfRewardLamports : ℕ
  commissionRewardLamports : ℕ
  missedVoteCount : ℕ
  missedProposalCount : ℕ
  jailUntilEpoch : ℕ
  activationEpoch : ℕ
  deactivationEpoch : ℕ
  lastEffectiveStake : ℕ
  lastSlashedSlot : ℕ
  delegations : List DelegationState
deriving DecidableEq

/-! ### Totals and field checks -/

def DelegationState.totalStake (delegation : DelegationState) : Except String ℕ := do
  let bonded ← checkedAdd "stake: delegation stake overflow" delegation.activeStake
    delegation.pendingStake
  checkedAdd "stake: delegation stake overflow" bonded delegation.unlockingStake

/-- The loop of `validateDelegations`; `seen` are the delegators read so far. -/
def validateDelegationsFrom : List PublicKey → List DelegationState → Except String Unit
  | _, [] => pure ()
  | seen, delegation :: delegations => do
    failIf (delegation.delegatorAccount = 0) "stake: delegation account is empty"
    failIf (delegation.delegatorAccount ∈ seen) "stake: duplicate delegation"
    let _ ← delegation.totalStake
    validateDelegationsFrom (delegation.delegatorAccount :: seen) delegations

def validateDelegations (delegations : List DelegationState) : Except String Unit := do
  failIf (maxDelegations < delegations.length) "stake: too many delegations"
  validateDelegationsFrom [] delegations

section

variable (state : ValidatorState)

def totalDelegatedStake : Except String ℕ :=
  state.delegations.foldlM (fun total delegation => do
    let delegationTotal ← delegation.totalStake
    checkedAdd "stake: delegated stake overflow" total delegationTotal) 0

def totalDelegationRewards (delegations : List DelegationState) : Except String ℕ :=
  checkedSum "stake: delegation reward overflow" 0
    (delegations.map DelegationState.rewardLamports)

def rewardBreakdownLamports : Except String ℕ := do
  let own ← checkedAdd "stake: reward breakdown overflow" state.selfRewardLamports
    state.commissionRewardLamports
  let delegationRewards ← totalDelegationRewards state.delegations
  checkedAdd "stake: reward breakdown overflow" own delegationRewards

/-- `validate`; the derived stake of the last epoch is not checked while it is
being recomputed. -/
def ValidatorState.validateFields (checkLastEffectiveStake : Bool) : Except String Unit := do
  failIf (state.consensusPublicKey = 0) "stake: consensus public key is empty"
  failIf (maxBLSPublicKeyBytes < state.blsPublicKey.length) "stake: bls public key too long"
  failIf (state.stakerAccount = 0) "stake: staker account is empty"
  failIf (state.p2pPeerID = [] ∨ maxPeerIDLength < state.p2pPeerID.length)
    "stake: invalid p2p peer id"
  failIf (10000 < state.commissionBps) "stake: commission exceeds 10000 bps"
  failIf (maxUint64 - state.activeStake < state.pendingStake) "stake: stake overflow"
  failIf (maxUint64 - state.activeStake - state.pendingStake < state.unlockingStake)
    "stake: stake overflow"
  failIf (state.activeStake + state.pendingStake < minimumStakeLamports ∧ state.status = .active)
    "stake: active validator stake below minimum"
  let totalBondedStake ← checkedAdd "stake: stake overflow"
    (state.activeStake + state.pendingStake) state.unlockingStake
  failIf (checkLastEffectiveStake = true ∧ totalBondedStake < state.lastEffectiveStake)
    "stake: effective stake exceeds bonded stake"
  validateDelegations state.delegations
  let delegatedStake ← totalDelegatedStake state
  failIf (totalBondedStake < delegatedStake) "stake: delegated stake exceeds total stake"
  let rewardBreakdown ← rewardBreakdownLamports state
  failIf (state.rewardLamports < rewardBreakdown)
    "stake: reward breakdown exceeds total reward"
  let code := state.status.code
  failIf (state.status = .unknown code) s!"stake: invalid validator status {code}"

def ValidatorState.validate : Except String Unit :=
  state.validateFields true

def validatorTotalStake (overflow : String) (state : ValidatorState) : Except String ℕ := do
  let bonded ← checkedAdd overflow state.activeStake state.pendingStake
  checkedAdd overflow bonded state.unlockingStake

/-- The part of a bucket that belongs to the validator itself. -/
def selfStakeBucket (total : ℕ) (delegations : List DelegationState) (value : DelegationState → ℕ)
    (name : String) : Except String ℕ := do
  let delegatedValue ← checkedSum s!"stake: delegated {name} overflow" 0 (delegations.map value)
  failIf (total < delegatedValue) s!"stake: delegated {name} exceeds validator {name} stake"
  pure (total - delegatedValue)

def selfActiveStake : Except String ℕ :=
  selfStakeBucket state.activeStake state.delegations DelegationState.activeStake "active"

end

/-! ### The stake of an epoch -/

section

variable (state : ValidatorState) (epochID : ℕ)

def effectiveStakeAtEpoch : Except String ℕ := do
  state.validateFields false
  if state.status = .jailed ∧ epochID < state.jailUntilEpoch then pure 0
  else if state.status = .exiting ∧ state.deactivationEpoch ≤ epochID then pure 0
  else
    let withUnlocking ←
      if 0 < state.unlockingStake ∧ epochID < state.deactivationEpoch then
        checkedAdd "stake: effective stake overflow" state.activeStake state.unlockingStake
      else pure state.activeStake
    let effectiveStake ←
      if 0 < state.pendingStake ∧ state.activationEpoch ≤ epochID then
        checkedAdd "stake: effective stake overflow" withUnlocking state.pendingStake
      else pure withUnlocking
    pure (if effectiveStake < minimumStakeLamports then 0 else effectiveStake)

def DelegationState.mature (delegation : DelegationState) (epochID : ℕ) :
    Except String DelegationState :=
  if delegation.pendingStake = 0 ∨ epochID < delegation.activationEpoch then pure delegation
  else do
    let activeStake ← checkedAdd "stake: delegation active stake overflow" delegation.activeStake
      delegation.pendingStake
    pure { delegation with activeStake := activeStake, pendingStake := 0, activationEpoch := 0 }

/-- The first half of `MatureStakeForEpoch`: pending stake that is due becomes active. -/
def ValidatorState.activateDue : Except String ValidatorState := do
  let activated ←
    if 0 < state.pendingStake ∧ state.activationEpoch ≤ epochID then do
      let activeStake ← checkedAdd "stake: active stake overflow" state.activeStake
        state.pendingStake
      pure { state with activeStake := activeStake, pendingStake := 0, activationEpoch := 0 }
    else pure state
  let delegations ← activated.delegations.mapM fun delegation => delegation.mature epochID
  pure { activated with delegations := delegations }

def ValidatorState.withEffectiveStake : Except String ValidatorState := do
  let effectiveStake ← effectiveStakeAtEpoch state epochID
  pure { state with lastEffectiveStake := effectiveStake }

def matureStakeForEpoch : Except String ValidatorState := do
  let activated ← state.activateDue epochID
  let refreshed ← activated.withEffectiveStake epochID
  pure <|
    if refreshed.status = .jailed ∧ refreshed.jailUntilEpoch ≤ epochID ∧
        minimumStakeLamports ≤ refreshed.lastEffectiveStake then
      { refreshed with status := .active }
    else refreshed

end

/-! ### Slashing -/

/-- The three buckets of a stake, in the order in which they are slashed. -/
inductive StakeSlashBucket where
  | pending
  | active
  | unlocking
deriving DecidableEq

namespace StakeSlashBucket

section

variable (bucket : StakeSlashBucket)

def validatorBucketValue (state : ValidatorState) : ℕ :=
  match bucket with
  | .pending => state.pendingStake
  | .active => state.activeStake
  | .unlocking => state.unlockingStake

def delegationBucketValue (delegation : DelegationState) : ℕ :=
  match bucket with
  | .pending => delegation.pendingStake
  | .active => delegation.activeStake
  | .unlocking => delegation.unlockingStake

def setValidatorBucketValue (state : ValidatorState) (lamports : ℕ) : ValidatorState :=
  match bucket with
  | .pending => { state with pendingStake := lamports }
  | .active => { state with activeStake := lamports }
  | .unlocking => { state with unlockingStake := lamports }

def setDelegationBucketValue (delegation : DelegationState) (lamports : ℕ) : DelegationState :=
  match bucket with
  | .pending => { delegation with pendingStake := lamports }
  | .active => { delegation with activeStake := lamports }
  | .unlocking => { delegation with unlockingStake := lamports }

end

end StakeSlashBucket

/-- The loop of `slashStakeBucket`: what the validator has left in the bucket and
what is still to be slashed. Delegations are slashed before the validator's own
part; where nothing is left the minimum is zero. -/
def slashDelegations (bucket : StakeSlashBucket) :
    List DelegationState → ℕ → ℕ → List DelegationState × ℕ × ℕ
  | [], available, remaining => ([], available, remaining)
  | delegation :: delegations, available, remaining =>
    let value := bucket.delegationBucketValue delegation
    let slashed := min remaining (min value available)
    let (rest, left, unpaid) :=
      slashDelegations bucket delegations (available - slashed) (remaining - slashed)
    (bucket.setDelegationBucketValue delegation (value - slashed) :: rest, left, unpaid)

def slashStakeBucket (bucket : StakeSlashBucket) (state : ValidatorState) (remainingSlash : ℕ) :
    ValidatorState × ℕ :=
  let (delegations, available, remaining) :=
    slashDelegations bucket state.delegations (bucket.validatorBucketValue state) remainingSlash
  let slashed := min remaining available
  (bucket.setValidatorBucketValue { state with delegations := delegations } (available - slashed),
    remaining - slashed)

/-- A delegation without stake is dropped. -/
def compactDelegations (delegations : List DelegationState) : List DelegationState :=
  delegations.filter fun delegation =>
    match delegation.totalStake with
    | .ok total => total ≠ 0
    | .error _ => false

/-- The sum of a bucket over all delegations; it stops at the largest 64-bit value. -/
def delegatedBucketValue (bucket : StakeSlashBucket) (delegations : List DelegationState) : ℕ :=
  match checkedSum "" 0 (delegations.map bucket.delegationBucketValue) with
  | .ok total => total
  | .error _ => maxUint64

def trimDelegations (bucket : StakeSlashBucket) : List DelegationState → ℕ → List DelegationState
  | [], _ => []
  | delegation :: delegations, excess =>
    let value := bucket.delegationBucketValue delegation
    let trimmed := min value excess
    bucket.setDelegationBucketValue delegation (value - trimmed) ::
      trimDelegations bucket delegations (excess - trimmed)

/-- The state and whether anything had to be trimmed. -/
def trimExcessDelegationBucket (bucket : StakeSlashBucket) (state : ValidatorState) :
    ValidatorState × Bool :=
  let delegatedValue := delegatedBucketValue bucket state.delegations
  let validatorValue := bucket.validatorBucketValue state
  if delegatedValue ≤ validatorValue then (state, false)
  else ({ state with
    delegations := trimDelegations bucket state.delegations (delegatedValue - validatorValue) },
    true)

/-- The state and whether it has changed. -/
def normalizeDelegationBuckets (state : ValidatorState) :
    Except String (ValidatorState × Bool) := do
  validateDelegations state.delegations
  let (pending, pendingChanged) := trimExcessDelegationBucket .pending state
  let (active, activeChanged) := trimExcessDelegationBucket .active pending
  let (unlocking, unlockingChanged) := trimExcessDelegationBucket .unlocking active
  let changed := pendingChanged || activeChanged || unlockingChanged
  let compacted :=
    if changed then { unlocking with delegations := compactDelegations unlocking.delegations }
    else unlocking
  let totalStake ← validatorTotalStake "stake: total stake overflow" compacted
  if totalStake < compacted.lastEffectiveStake then
    pure ({ compacted with lastEffectiveStake := totalStake }, true)
  else pure (compacted, changed)

def applySlash (state : ValidatorState) (amount : ℕ) : Except String ValidatorState := do
  let totalStake ← validatorTotalStake "stake: total stake overflow" state
  failIf (totalStake < amount) "stake: slash exceeds total stake"
  let (pending, afterPending) := slashStakeBucket .pending state amount
  let (active, afterActive) := slashStakeBucket .active pending afterPending
  let (unlocking, remainingSlash) := slashStakeBucket .unlocking active afterActive
  failIf (remainingSlash ≠ 0) "stake: slash remainder is non-zero"
  let (normalized, _) ← normalizeDelegationBuckets
    { unlocking with delegations := compactDelegations unlocking.delegations }
  let nextTotalStake ← validatorTotalStake "stake: total stake overflow" normalized
  pure { normalized with lastEffectiveStake := min normalized.lastEffectiveStake nextTotalStake }

end Ordexus.Stake
