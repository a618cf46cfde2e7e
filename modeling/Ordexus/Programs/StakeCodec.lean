import Ordexus.Programs.StakeState

/-!
# The stake account format

How a validator state is written to account data and read back
(`programs/stake/program.go`). Accounts written before a field was added end
early; the reader then leaves the missing fields zero. A state whose numbers fit
their fields is read back as it was written.
-/

namespace Ordexus.Stake

open Checked Borsh List

def ValidatorState.zero : ValidatorState where
  consensusPublicKey := 0
  blsPublicKey := []
  stakerAccount := 0
  p2pPeerID := []
  commissionBps := 0
  activeStake := 0
  pendingStake := 0
  unlockingStake := 0
  unlockEpoch := 0
  status := .unknown 0
  voteCredits := 0
  lastVoteSlot := 0
  lastRewardedSlot := 0
  lastRewardEpoch := 0
  rewardLamports := 0
  selfRewardLamports := 0
  commissionRewardLamports := 0
  missedVoteCount := 0
  missedProposalCount := 0
  jailUntilEpoch := 0
  activationEpoch := 0
  deactivationEpoch := 0
  lastEffectiveStake := 0
  lastSlashedSlot := 0
  delegations := []

/-! ### Writing -/

def DelegationState.encode (delegation : DelegationState) : Bytes :=
  bigEndian 32 delegation.delegatorAccount ++ littleEndian 8 delegation.activeStake ++
    littleEndian 8 delegation.pendingStake ++ littleEndian 8 delegation.unlockingStake ++
    littleEndian 8 delegation.unlockEpoch ++ littleEndian 8 delegation.activationEpoch ++
    littleEndian 8 delegation.deactivationEpoch ++ littleEndian 8 delegation.rewardLamports

def ValidatorState.marshalBinary (state : ValidatorState) : Except String Bytes := do
  state.validate
  let p2pPeerID ← withContext "stake: encode validator p2p peer id"
    (writeString maxStakeStateBytes state.p2pPeerID)
  let blsPublicKey ← withContext "stake: encode validator bls public key"
    (writeBytes maxStakeStateBytes state.blsPublicKey)
  pure (bigEndian 32 state.consensusPublicKey ++ bigEndian 32 state.stakerAccount ++
    p2pPeerID ++ littleEndian 2 state.commissionBps ++ littleEndian 8 state.activeStake ++
    littleEndian 8 state.pendingStake ++ littleEndian 8 state.unlockingStake ++
    littleEndian 8 state.unlockEpoch ++ littleEndian 1 state.status.code ++
    littleEndian 8 state.voteCredits ++ littleEndian 8 state.lastVoteSlot ++
    littleEndian 8 state.lastRewardedSlot ++ littleEndian 8 state.lastRewardEpoch ++
    littleEndian 8 state.rewardLamports ++ littleEndian 8 state.missedVoteCount ++
    littleEndian 8 state.missedProposalCount ++ littleEndian 8 state.jailUntilEpoch ++
    littleEndian 8 state.activationEpoch ++ littleEndian 8 state.deactivationEpoch ++
    littleEndian 8 state.lastEffectiveStake ++ blsPublicKey ++
    littleEndian 8 state.lastSlashedSlot ++ littleEndian 4 state.delegations.length ++
    state.delegations.flatMap DelegationState.encode ++
    littleEndian 8 state.selfRewardLamports ++ littleEndian 8 state.commissionRewardLamports)

/-! ### Reading -/

def readNumber (width : ℕ) (field : String) : Reader ℕ :=
  (readUint width).withContext s!"stake: decode {field}"

def readPublicKey (field : String) : Reader PublicKey := do
  let value ← (readFixedBytes maxStakeStateBytes 32).withContext s!"stake: decode {field}"
  pure (ofBigEndian value)

def readDelegationState : Reader DelegationState := do
  let delegatorAccount ← readPublicKey "delegator account"
  let activeStake ← readNumber 8 "delegation active stake"
  let pendingStake ← readNumber 8 "delegation pending stake"
  let unlockingStake ← readNumber 8 "delegation unlocking stake"
  let unlockEpoch ← readNumber 8 "delegation unlock epoch"
  let activationEpoch ← readNumber 8 "delegation activation epoch"
  let deactivationEpoch ← readNumber 8 "delegation deactivation epoch"
  let rewardLamports ← readNumber 8 "delegation reward lamports"
  pure { delegatorAccount, activeStake, pendingStake, unlockingStake, unlockEpoch,
         activationEpoch, deactivationEpoch, rewardLamports }

def readDelegationList (delegationCount : ℕ) : Reader (List DelegationState) :=
  if maxDelegations < delegationCount then
    fun _ => .error "stake: delegation count exceeds limit"
  else
    readMany (fun index => s!"stake: decode delegation {index}") readDelegationState 0
      delegationCount

/-! The reader of a whole state, from its last field to its first one. Each part
may be missing. -/

section

variable (state : ValidatorState)

def readCommissionReward : Reader ValidatorState := unlessEnd state do
  let commissionRewardLamports ← readNumber 8 "commission reward lamports"
  pure { state with commissionRewardLamports }

def readSelfReward : Reader ValidatorState := unlessEnd state do
  let selfRewardLamports ← readNumber 8 "self reward lamports"
  readCommissionReward { state with selfRewardLamports }

def readDelegations : Reader ValidatorState := unlessEnd state do
  let delegationCount ← readNumber 4 "delegation count"
  let delegations ← readDelegationList delegationCount
  readSelfReward { state with delegations }

def readLastSlashedSlot : Reader ValidatorState := unlessEnd state do
  let lastSlashedSlot ← readNumber 8 "last slashed slot"
  readDelegations { state with lastSlashedSlot }

def readBLSPublicKey : Reader ValidatorState := unlessEnd state do
  let blsPublicKey ← (readBytes maxStakeStateBytes).withContext
    "stake: decode validator bls public key"
  readLastSlashedSlot { state with blsPublicKey }

def readEpochs : Reader ValidatorState := unlessEnd state do
  let activationEpoch ← readNumber 8 "activation epoch"
  let deactivationEpoch ← readNumber 8 "deactivation epoch"
  let lastEffectiveStake ← readNumber 8 "effective stake"
  readBLSPublicKey { state with activationEpoch, deactivationEpoch, lastEffectiveStake }

def readCounters : Reader ValidatorState := unlessEnd state do
  let voteCredits ← readNumber 8 "vote credits"
  let lastVoteSlot ← readNumber 8 "last vote slot"
  let lastRewardedSlot ← readNumber 8 "last rewarded slot"
  let lastRewardEpoch ← readNumber 8 "last reward epoch"
  let rewardLamports ← readNumber 8 "reward lamports"
  let missedVoteCount ← readNumber 8 "missed vote count"
  let missedProposalCount ← readNumber 8 "missed proposal count"
  let jailUntilEpoch ← readNumber 8 "jail until epoch"
  readEpochs { state with voteCredits, lastVoteSlot, lastRewardedSlot, lastRewardEpoch,
                          rewardLamports, missedVoteCount, missedProposalCount, jailUntilEpoch }

end

def readValidatorState : Reader ValidatorState := do
  let consensusPublicKey ← readPublicKey "validator consensus public key"
  let stakerAccount ← readPublicKey "validator staker account"
  let p2pPeerID ← (readString maxStakeStateBytes).withContext
    "stake: decode validator p2p peer id"
  let commissionBps ← readNumber 2 "commission"
  let activeStake ← readNumber 8 "active stake"
  let pendingStake ← readNumber 8 "pending stake"
  let unlockingStake ← readNumber 8 "unlocking stake"
  let unlockEpoch ← readNumber 8 "unlock epoch"
  let status ← readNumber 1 "status"
  readCounters { ValidatorState.zero with
    consensusPublicKey, stakerAccount, p2pPeerID, commissionBps, activeStake, pendingStake,
    unlockingStake, unlockEpoch, status := .ofCode status }

def unmarshalValidatorStateBinary (data : Bytes) : Except String ValidatorState := do
  let (state, rest) ← readValidatorState data
  let _ ← ensureEOF.withContext "stake: decode validator eof" rest
  state.validate
  pure state

/-! ### What is read back -/

structure DelegationState.InRange (delegation : DelegationState) : Prop where
  delegatorAccount : delegation.delegatorAccount < 256 ^ 32
  activeStake : delegation.activeStake < 256 ^ 8
  pendingStake : delegation.pendingStake < 256 ^ 8
  unlockingStake : delegation.unlockingStake < 256 ^ 8
  unlockEpoch : delegation.unlockEpoch < 256 ^ 8
  activationEpoch : delegation.activationEpoch < 256 ^ 8
  deactivationEpoch : delegation.deactivationEpoch < 256 ^ 8
  rewardLamports : delegation.rewardLamports < 256 ^ 8

/-- Every number fits its field, and the peer id is a text. -/
structure ValidatorState.InRange (state : ValidatorState) : Prop where
  consensusPublicKey : state.consensusPublicKey < 256 ^ 32
  stakerAccount : state.stakerAccount < 256 ^ 32
  p2pPeerID : validUTF8 state.p2pPeerID = true
  commissionBps : state.commissionBps < 256 ^ 2
  activeStake : state.activeStake < 256 ^ 8
  pendingStake : state.pendingStake < 256 ^ 8
  unlockingStake : state.unlockingStake < 256 ^ 8
  unlockEpoch : state.unlockEpoch < 256 ^ 8
  voteCredits : state.voteCredits < 256 ^ 8
  lastVoteSlot : state.lastVoteSlot < 256 ^ 8
  lastRewardedSlot : state.lastRewardedSlot < 256 ^ 8
  lastRewardEpoch : state.lastRewardEpoch < 256 ^ 8
  rewardLamports : state.rewardLamports < 256 ^ 8
  selfRewardLamports : state.selfRewardLamports < 256 ^ 8
  commissionRewardLamports : state.commissionRewardLamports < 256 ^ 8
  missedVoteCount : state.missedVoteCount < 256 ^ 8
  missedProposalCount : state.missedProposalCount < 256 ^ 8
  jailUntilEpoch : state.jailUntilEpoch < 256 ^ 8
  activationEpoch : state.activationEpoch < 256 ^ 8
  deactivationEpoch : state.deactivationEpoch < 256 ^ 8
  lastEffectiveStake : state.lastEffectiveStake < 256 ^ 8
  lastSlashedSlot : state.lastSlashedSlot < 256 ^ 8
  delegations : ∀ delegation ∈ state.delegations, delegation.InRange

theorem ValidatorStatus.ofCode_code {status : ValidatorStatus}
    (h : status ≠ .unknown status.code) : ValidatorStatus.ofCode status.code = status := by
  cases status with
  | active => rfl
  | exiting => rfl
  | jailed => rfl
  | unknown code => exact absurd rfl h

section

variable {state : ValidatorState}

theorem readNumber_reads {width number : ℕ} (field : String)
    (h : number < 256 ^ width) :
    Reads (readNumber width field) (littleEndian width number) number :=
  (Reads.uint h).withContext _

theorem readPublicKey_reads {key : PublicKey} (field : String) (h : key < 256 ^ 32) :
    Reads (readPublicKey field) (bigEndian 32 key) key := by
  have hbytes : Reads (readFixedBytes maxStakeStateBytes 32) (bigEndian 32 key)
      (bigEndian 32 key) := by
    have hfixed := @Reads.fixedBytes (bigEndian 32 key) maxStakeStateBytes
      (by rw [bigEndian_length]; decide)
    rwa [bigEndian_length] at hfixed
  have hkey : Reads (readPublicKey field) (bigEndian 32 key ++ [])
      (ofBigEndian (bigEndian 32 key)) := (hbytes.withContext _).bind (Reads.pure _)
  rwa [ofBigEndian_bigEndian h] at hkey

theorem readDelegationState_reads {delegation : DelegationState} (h : delegation.InRange) :
    Reads readDelegationState delegation.encode delegation := by
  simp only [DelegationState.encode, append_assoc]
  exact (readPublicKey_reads _ h.delegatorAccount).bind <|
    (readNumber_reads _ h.activeStake).bind <| (readNumber_reads _ h.pendingStake).bind <|
    (readNumber_reads _ h.unlockingStake).bind <| (readNumber_reads _ h.unlockEpoch).bind <|
    (readNumber_reads _ h.activationEpoch).bind <|
    (readNumber_reads _ h.deactivationEpoch).bind <|
    (readNumber_reads _ h.rewardLamports).bind <| Reads.pure delegation

/-! The parts of a state, from its last field to its first one; `early` is what has
been read before. -/

section

variable (state : ValidatorState)

private def rewardBytes : Bytes :=
  littleEndian 8 state.selfRewardLamports ++ littleEndian 8 state.commissionRewardLamports

private def delegationBytes : Bytes :=
  littleEndian 4 state.delegations.length ++
    (state.delegations.flatMap DelegationState.encode ++ rewardBytes state)

private def keyBytes (blsPublicKey : Bytes) : Bytes :=
  blsPublicKey ++ (littleEndian 8 state.lastSlashedSlot ++ delegationBytes state)

private def epochBytes (blsPublicKey : Bytes) : Bytes :=
  littleEndian 8 state.activationEpoch ++ (littleEndian 8 state.deactivationEpoch ++
    (littleEndian 8 state.lastEffectiveStake ++ keyBytes state blsPublicKey))

private def counterBytes (blsPublicKey : Bytes) : Bytes :=
  littleEndian 8 state.voteCredits ++ (littleEndian 8 state.lastVoteSlot ++
    (littleEndian 8 state.lastRewardedSlot ++ (littleEndian 8 state.lastRewardEpoch ++
      (littleEndian 8 state.rewardLamports ++ (littleEndian 8 state.missedVoteCount ++
        (littleEndian 8 state.missedProposalCount ++ (littleEndian 8 state.jailUntilEpoch ++
          epochBytes state blsPublicKey)))))))

end

/-! The late fields of a state in the place of those of another one, in the same order. -/

section

variable (early state : ValidatorState)

private def withRewards : ValidatorState :=
  { early with
    selfRewardLamports := state.selfRewardLamports
    commissionRewardLamports := state.commissionRewardLamports }

private def withDelegations : ValidatorState :=
  withRewards { early with delegations := state.delegations } state

private def withSlashedSlot : ValidatorState :=
  withDelegations { early with lastSlashedSlot := state.lastSlashedSlot } state

private def withKey : ValidatorState :=
  withSlashedSlot { early with blsPublicKey := state.blsPublicKey } state

private def withEpochs : ValidatorState :=
  withKey
    { early with
      activationEpoch := state.activationEpoch
      deactivationEpoch := state.deactivationEpoch
      lastEffectiveStake := state.lastEffectiveStake } state

end

variable {early : ValidatorState} {blsPublicKey : Bytes} (h : state.InRange)
  (hcount : state.delegations.length ≤ maxDelegations)
  (hkey : writeBytes maxStakeStateBytes state.blsPublicKey = .ok blsPublicKey)
include h

theorem readSelfReward_reads :
    Reads (readSelfReward early) (rewardBytes state) (withRewards early state) := by
  have hlast : ∀ early : ValidatorState,
      Reads (readCommissionReward early) (littleEndian 8 state.commissionRewardLamports)
        { early with commissionRewardLamports := state.commissionRewardLamports } := by
    intro early
    exact Reads.unlessEnd ((readNumber_reads _ h.commissionRewardLamports).bind (Reads.pure _))
      (by simp)
  exact Reads.unlessEnd ((readNumber_reads _ h.selfRewardLamports).bind (hlast _))
    (by simp [rewardBytes])

include hcount

theorem readDelegations_reads :
    Reads (readDelegations early) (delegationBytes state) (withDelegations early state) := by
  have hlist : Reads (readDelegationList state.delegations.length)
      (state.delegations.flatMap DelegationState.encode) state.delegations := by
    rw [readDelegationList, if_neg (Nat.not_lt.mpr hcount)]
    exact Reads.many 0 fun delegation hmem => readDelegationState_reads (h.delegations _ hmem)
  refine Reads.unlessEnd ((readNumber_reads _ ?_).bind (hlist.bind (readSelfReward_reads h)))
    (by simp [delegationBytes])
  exact lt_of_le_of_lt hcount (by decide)

include hkey

theorem readBLSPublicKey_reads :
    Reads (readBLSPublicKey early) (keyBytes state blsPublicKey) (withKey early state) := by
  have hslot : ∀ early : ValidatorState, Reads (readLastSlashedSlot early)
      (littleEndian 8 state.lastSlashedSlot ++ delegationBytes state)
      (withSlashedSlot early state) := fun early =>
    Reads.unlessEnd ((readNumber_reads _ h.lastSlashedSlot).bind (readDelegations_reads h hcount))
      (by simp)
  exact Reads.unlessEnd (((Reads.bytes (by decide) hkey).withContext _).bind (hslot _))
    (by simp [keyBytes])

theorem readEpochs_reads :
    Reads (readEpochs early) (epochBytes state blsPublicKey) (withEpochs early state) :=
  Reads.unlessEnd ((readNumber_reads _ h.activationEpoch).bind <|
    (readNumber_reads _ h.deactivationEpoch).bind <|
    (readNumber_reads _ h.lastEffectiveStake).bind (readBLSPublicKey_reads h hcount hkey))
    (by simp [epochBytes])

theorem readCounters_reads :
    Reads (readCounters early) (counterBytes state blsPublicKey)
      { state with
        consensusPublicKey := early.consensusPublicKey
        stakerAccount := early.stakerAccount
        p2pPeerID := early.p2pPeerID
        commissionBps := early.commissionBps
        activeStake := early.activeStake
        pendingStake := early.pendingStake
        unlockingStake := early.unlockingStake
        unlockEpoch := early.unlockEpoch
        status := early.status } :=
  Reads.unlessEnd ((readNumber_reads _ h.voteCredits).bind <|
    (readNumber_reads _ h.lastVoteSlot).bind <| (readNumber_reads _ h.lastRewardedSlot).bind <|
    (readNumber_reads _ h.lastRewardEpoch).bind <| (readNumber_reads _ h.rewardLamports).bind <|
    (readNumber_reads _ h.missedVoteCount).bind <|
    (readNumber_reads _ h.missedProposalCount).bind <|
    (readNumber_reads _ h.jailUntilEpoch).bind (readEpochs_reads h hcount hkey))
    (by simp [counterBytes])

end

theorem ValidatorState.validateFields_delegations {state : ValidatorState} {check : Bool} {u : Unit}
    (h : state.validateFields check = .ok u) :
    validateDelegations state.delegations = .ok () ∧
      state.status ≠ .unknown state.status.code := by
  simp only [validateFields, eq_ok] at h
  obtain ⟨-, -, -, -, -, -, -, -, _, -, -, hdelegations, _, -, -, _, -, -, hstatus⟩ := h
  exact ⟨hdelegations, hstatus⟩

/-- A state whose numbers fit their fields is read back as it was written. -/
theorem unmarshal_marshalBinary {state : ValidatorState} {data : Bytes} (h : state.InRange)
    (hdata : state.marshalBinary = .ok data) : unmarshalValidatorStateBinary data = .ok state := by
  simp only [ValidatorState.marshalBinary, eq_ok] at hdata
  obtain ⟨hvalid, peerID, hpeer, key, hkey, rfl⟩ := hdata
  obtain ⟨hdelegations, hstatus⟩ := ValidatorState.validateFields_delegations hvalid
  have hcount : state.delegations.length ≤ maxDelegations := by
    simp only [validateDelegations, eq_ok] at hdelegations
    obtain ⟨hcount, -⟩ := hdelegations
    exact Nat.le_of_not_lt hcount
  have hcode : state.status.code < 256 ^ 1 := by
    cases hcase : state.status with
    | unknown code => exact absurd (by rw [hcase]; rfl) hstatus
    | active => decide
    | exiting => decide
    | jailed => decide
  have hreads : Reads readValidatorState _ state :=
    (readPublicKey_reads _ h.consensusPublicKey).bind <|
    (readPublicKey_reads _ h.stakerAccount).bind <|
    ((Reads.string (by decide) hpeer).withContext _).bind <|
    (readNumber_reads _ h.commissionBps).bind <| (readNumber_reads _ h.activeStake).bind <|
    (readNumber_reads _ h.pendingStake).bind <| (readNumber_reads _ h.unlockingStake).bind <|
    (readNumber_reads _ h.unlockEpoch).bind <| (readNumber_reads _ hcode).bind <| by
      rw [ValidatorStatus.ofCode_code hstatus]
      exact readCounters_reads h hcount hkey
  have hall := hreads []
  simp only [counterBytes, epochBytes, keyBytes, delegationBytes, rewardBytes, append_nil] at hall
  simp only [unmarshalValidatorStateBinary, append_assoc, hall]
  simp only [ensureEOF, Reader.withContext, failIf, Bind.bind, Except.bind, pure, Except.pure,
    withContext, hvalid]
  rfl

section

variable {state : ValidatorState}

theorem readNumber_yields (width : ℕ) (field : String) :
    Yields (readNumber width field) (· < 256 ^ width) :=
  (Yields.uint width).withContext _

theorem readPublicKey_yields (field : String) :
    Yields (readPublicKey field) (· < 256 ^ 32) := by
  refine ((Yields.fixedBytes _ 32).withContext _).bind fun value hlength => Yields.pure ?_
  have hbound := ofLittleEndian_lt value.reverse
  rwa [length_reverse, hlength] at hbound

theorem readDelegationState_yields :
    Yields readDelegationState DelegationState.InRange :=
  (readPublicKey_yields _).bind fun _ h₁ => (readNumber_yields 8 _).bind fun _ h₂ =>
    (readNumber_yields 8 _).bind fun _ h₃ => (readNumber_yields 8 _).bind fun _ h₄ =>
    (readNumber_yields 8 _).bind fun _ h₅ => (readNumber_yields 8 _).bind fun _ h₆ =>
    (readNumber_yields 8 _).bind fun _ h₇ => (readNumber_yields 8 _).bind fun _ h₈ =>
    Yields.pure ⟨h₁, h₂, h₃, h₄, h₅, h₆, h₇, h₈⟩

theorem readDelegationList_yields (count : ℕ) :
    Yields (readDelegationList count) (∀ delegation ∈ ·, delegation.InRange) := by
  unfold readDelegationList
  split
  · exact nofun
  · exact readDelegationState_yields.many 0 count

section

variable (h : state.InRange)
include h

theorem readCommissionReward_yields :
    Yields (readCommissionReward state) ValidatorState.InRange :=
  .unlessEnd h <| (readNumber_yields 8 _).bind fun _ hnumber =>
    Yields.pure { h with commissionRewardLamports := hnumber }

theorem readSelfReward_yields : Yields (readSelfReward state) ValidatorState.InRange :=
  .unlessEnd h <| (readNumber_yields 8 _).bind fun _ hnumber =>
    readCommissionReward_yields { h with selfRewardLamports := hnumber }

theorem readDelegations_yields : Yields (readDelegations state) ValidatorState.InRange :=
  .unlessEnd h <| (readNumber_yields 4 _).bind fun count _ =>
    (readDelegationList_yields count).bind fun _ hdelegations =>
    readSelfReward_yields { h with delegations := hdelegations }

theorem readLastSlashedSlot_yields :
    Yields (readLastSlashedSlot state) ValidatorState.InRange :=
  .unlessEnd h <| (readNumber_yields 8 _).bind fun _ hnumber =>
    readDelegations_yields { h with lastSlashedSlot := hnumber }

theorem readBLSPublicKey_yields :
    Yields (readBLSPublicKey state) ValidatorState.InRange := by
  refine .unlessEnd h (Yields.bind (fun _ _ _ _ => trivial) fun _ (_ : True) => ?_)
  exact readLastSlashedSlot_yields { h with }

theorem readEpochs_yields : Yields (readEpochs state) ValidatorState.InRange :=
  .unlessEnd h <| (readNumber_yields 8 _).bind fun _ h₁ => (readNumber_yields 8 _).bind fun _ h₂ =>
    (readNumber_yields 8 _).bind fun _ h₃ => readBLSPublicKey_yields
      { h with activationEpoch := h₁, deactivationEpoch := h₂, lastEffectiveStake := h₃ }

theorem readCounters_yields : Yields (readCounters state) ValidatorState.InRange :=
  .unlessEnd h <| (readNumber_yields 8 _).bind fun _ h₁ => (readNumber_yields 8 _).bind fun _ h₂ =>
    (readNumber_yields 8 _).bind fun _ h₃ => (readNumber_yields 8 _).bind fun _ h₄ =>
    (readNumber_yields 8 _).bind fun _ h₅ => (readNumber_yields 8 _).bind fun _ h₆ =>
    (readNumber_yields 8 _).bind fun _ h₇ => (readNumber_yields 8 _).bind fun _ h₈ =>
    readEpochs_yields
      { h with
        voteCredits := h₁, lastVoteSlot := h₂, lastRewardedSlot := h₃, lastRewardEpoch := h₄
        rewardLamports := h₅, missedVoteCount := h₆, missedProposalCount := h₇
        jailUntilEpoch := h₈ }

end

theorem ValidatorState.zero_inRange : zero.InRange := by
  constructor
  case delegations => simp [zero]
  all_goals decide

theorem readValidatorState_yields : Yields readValidatorState ValidatorState.InRange :=
  (readPublicKey_yields _).bind fun _ h₁ => (readPublicKey_yields _).bind fun _ h₂ =>
    ((Yields.string _).withContext _).bind fun _ h₃ => (readNumber_yields 2 _).bind fun _ h₄ =>
    (readNumber_yields 8 _).bind fun _ h₅ => (readNumber_yields 8 _).bind fun _ h₆ =>
    (readNumber_yields 8 _).bind fun _ h₇ => (readNumber_yields 8 _).bind fun _ h₈ =>
    (readNumber_yields 1 _).bind fun _ _ => readCounters_yields
      { ValidatorState.zero_inRange with
        consensusPublicKey := h₁, stakerAccount := h₂, p2pPeerID := h₃, commissionBps := h₄
        activeStake := h₅, pendingStake := h₆, unlockingStake := h₇, unlockEpoch := h₈ }

end

theorem unmarshalValidatorStateBinary_eq_ok {state : ValidatorState} {data : Bytes}
    (h : unmarshalValidatorStateBinary data = .ok state) :
    state.InRange ∧ state.validate = .ok () := by
  simp only [unmarshalValidatorStateBinary, eq_ok] at h
  obtain ⟨⟨_, rest⟩, hread, _, -, hvalid, rfl⟩ := h
  exact ⟨readValidatorState_yields hread, hvalid⟩

end Ordexus.Stake
