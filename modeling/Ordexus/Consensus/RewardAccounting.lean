import Ordexus.Consensus.Rewards

/-!
# What block rewards do to the supply

The lamports of the state against the rewards that are reported. Every phase of
`ApplyBlockRewards` reports what it credits; a slash reports what was requested, which can
be more than what the account had above its rent minimum. The difference is carried along
as the amount `missing` from the books.
-/

namespace Ordexus

open Checked List ChainState

/-- The sum over the rewards of one of the given types. -/
def rewardTotal (types : List RewardType) (rewards : List BlockReward) : ℕ :=
  ((rewards.filter fun reward => reward.type ∈ types).map BlockReward.lamports).sum

/-- Leader fees, commissions and vote payouts. -/
def credited (rewards : List BlockReward) : ℕ :=
  rewardTotal [.leaderFee, .commission, .votePayout] rewards

def slashed (rewards : List BlockReward) : ℕ :=
  rewardTotal [.slash] rewards

/-! ### Entries of a state -/

section

variable {state next : ChainState} {address : PublicKey} {index : ℕ} {account old : Account}
  {rent : RentConfig}

theorem getElem?_of_lastEntry {entries : List AddressedAccount}
    (h : lastEntry address entries = some (index, account)) :
    entries[index]? = some ⟨address, account⟩ := by
  induction entries generalizing index with
  | nil => simp [lastEntry] at h
  | cons entry entries ih =>
    unfold lastEntry at h
    split at h
    · next later _ hlater =>
      obtain ⟨rfl, rfl⟩ : later + 1 = index ∧ _ = account := by simpa using h
      exact ih hlater
    · split at h
      · next haddress =>
        obtain ⟨rfl, rfl⟩ : 0 = index ∧ entry.account = account := by simpa using h
        cases haddress
        rfl
      · simp at h

@[simp] theorem ChainState.addresses_setAccount (state : ChainState) (index : ℕ)
    (account : Account) : (state.setAccount index account).addresses = state.addresses := by
  unfold addresses setAccount
  induction state.accounts generalizing index with
  | nil => simp
  | cons entry entries ih =>
    cases index with
    | zero => rfl
    | succ index => simpa using ih index

/-- Writing an account adds its balance and takes away the one it replaces. -/
theorem ChainState.lamports_setAccount (h : state.accounts[index]? = some ⟨address, old⟩)
    (account : Account) :
    (state.setAccount index account).lamports + old.lamports =
      state.lamports + account.lamports := by
  unfold lamports setAccount
  obtain ⟨entries⟩ := state
  induction entries generalizing index with
  | nil => simp at h
  | cons entry entries ih =>
    cases index with
    | zero =>
      obtain rfl : entry = ⟨address, old⟩ := by simpa using h
      simp only [modify_zero_cons, map_cons, sum_cons]
      omega
    | succ index =>
      have hrest := ih h
      simp only [modify_succ_cons, map_cons, sum_cons] at hrest ⊢
      omega

theorem ChainState.loadStakeStateByAddress_eq_ok {stakeState : Stake.ValidatorState}
    (h : state.loadStakeStateByAddress address = .ok (stakeState, account, index)) :
    state.accounts[index]? = some ⟨address, account⟩ ∧
      Stake.unmarshalValidatorStateBinary account.data = .ok stakeState := by
  simp only [loadStakeStateByAddress, eq_ok, Prod.mk.injEq] at h
  obtain ⟨⟨_, _⟩, hentry, _, hstate, rfl, rfl, rfl⟩ := h
  exact ⟨getElem?_of_lastEntry hentry, hstate⟩

theorem ChainState.writeStakeState_eq_ok {stakeState : Stake.ValidatorState}
    (h : state.writeStakeState index account stakeState rent = .ok next) :
    ∃ data, stakeState.marshalBinary = .ok data ∧
      next = state.setAccount index { account with data := data } := by
  simp only [writeStakeState, eq_ok] at h
  obtain ⟨data, hdata, written, hwritten, rfl⟩ := h
  exact ⟨data, hdata, by rw [Account.setData_eq_ok hwritten]⟩

theorem ChainState.creditAccountLamports_eq_ok {lamports : ℕ}
    (h : state.creditAccountLamports address lamports rent = .ok next) :
    next.addresses = state.addresses ∧ next.lamports = state.lamports + lamports := by
  unfold creditAccountLamports at h
  split at h
  · next hzero =>
    cases h
    exact ⟨rfl, by omega⟩
  · simp only [eq_ok] at h
    obtain ⟨⟨index, account⟩, hentry, credit, hcredit, -, rfl⟩ := h
    obtain rfl := Account.creditLamports_eq_ok hcredit
    have hset := lamports_setAccount (getElem?_of_lastEntry hentry)
      { account with lamports := account.lamports + lamports }
    exact ⟨addresses_setAccount _ _ _, by dsimp only at hset ⊢; omega⟩

end

/-! ### The books -/

/-- The addresses stay, and the balances follow the reported rewards except for what is
`missing`. -/
structure Settles (missing : ℕ) (before after : RewardProgress) : Prop where
  addresses : after.state.addresses = before.state.addresses
  lamports : after.state.lamports + slashed after.rewards + credited before.rewards =
    before.state.lamports + slashed before.rewards + credited after.rewards + missing

namespace Settles

variable {missing more : ℕ} {before middle after progress : RewardProgress}

theorem refl (progress : RewardProgress) : Settles 0 progress progress :=
  ⟨rfl, rfl⟩

theorem trans (first : Settles missing before middle) (second : Settles more middle after) :
    Settles (missing + more) before after := by
  have hfirst := first.lamports
  have hsecond := second.lamports
  exact ⟨second.addresses.trans first.addresses, by omega⟩

/-- An account is written with the balance it had. -/
theorem write {state : ChainState} {index : ℕ} {address : PublicKey} {account : Account}
    {stakeState : Stake.ValidatorState} {rent : RentConfig} {rewards : List BlockReward}
    (hentry : progress.state.accounts[index]? = some ⟨address, account⟩)
    (hwrite : progress.state.writeStakeState index account stakeState rent = .ok state)
    (hrewards : credited rewards = credited progress.rewards ∧
      slashed rewards = slashed progress.rewards) :
    Settles 0 progress ⟨state, rewards⟩ := by
  obtain ⟨data, -, rfl⟩ := writeStakeState_eq_ok hwrite
  have hset := lamports_setAccount hentry { account with data := data }
  exact ⟨by simp, by dsimp only at hset ⊢; omega⟩

end Settles

section

variable {crypto : Crypto} {signed : List VoteMessage} {input : BlockRewardInput}
  {progress next : RewardProgress}

theorem applyLeaderFeeReward_settles (h : applyLeaderFeeReward input progress = .ok next) :
    Settles 0 progress next := by
  simp only [applyLeaderFeeReward, eq_ok] at h
  obtain ⟨fee, -, h⟩ := h
  split at h
  · cases h
    exact .refl progress
  · simp only [eq_ok] at h
    obtain ⟨state, hcredit, rfl⟩ := h
    obtain ⟨haddresses, hlamports⟩ := creditAccountLamports_eq_ok hcredit
    refine ⟨haddresses, ?_⟩
    simp [credited, slashed, rewardTotal, hlamports]
    omega

theorem recordMissedLeaderProposal_settles {leader : ValidatorState} {slot : ℕ}
    (h : recordMissedLeaderProposal input leader slot progress = .ok next) :
    Settles 0 progress next := by
  simp only [recordMissedLeaderProposal, eq_ok] at h
  obtain ⟨⟨stakeState, account, index⟩, hload, -, state, hwrite, rfl⟩ := h
  refine .write (loadStakeStateByAddress_eq_ok hload).1 hwrite ?_
  simp [credited, slashed, rewardTotal]

theorem applyMissedLeaderProposals_settles
    (h : applyMissedLeaderProposals crypto input progress = .ok next) :
    Settles 0 progress next := by
  unfold applyMissedLeaderProposals at h
  split at h
  · cases h
    exact .refl progress
  · obtain ⟨schedule, h⟩ : ∃ schedule : LeaderSchedule,
        (missedSlots input).foldlM (fun progress slot => do
          if slot < input.epochSnapshot.startSlot ∨ input.epochSnapshot.endSlot < slot then
            pure progress
          else
            let leaderID ← schedule.leaderForSlot slot
            let leader ← orFail (input.epochSnapshot.validatorByID leaderID)
              "consensus: missed proposal leader missing from snapshot"
            recordMissedLeaderProposal input leader slot progress) progress = .ok next := by
      split at h
      all_goals exact (bind_eq_ok.mp h).imp fun _ hboth => hboth.2
    refine foldlM_invariant h (.refl progress) fun _ _ _ _ hsettled hafter => ?_
    split at hafter
    · cases hafter
      exact hsettled
    · simp only [eq_ok] at hafter
      obtain ⟨_, -, _, -, hrecord⟩ := hafter
      exact hsettled.trans (recordMissedLeaderProposal_settles hrecord)

theorem creditValidatorVote_settles {certificate : QuorumCertificate} {validator : ValidatorState}
    (h : creditValidatorVote input certificate progress validator = .ok next) :
    Settles 0 progress next := by
  simp only [creditValidatorVote, eq_ok] at h
  obtain ⟨⟨stakeState, account, index⟩, hload, h⟩ := h
  have hentry := (loadStakeStateByAddress_eq_ok hload).1
  split at h
  · cases h
    exact .refl progress
  · split at h
    · simp only [eq_ok] at h
      obtain ⟨-, state, hwrite, rfl⟩ := h
      refine .write hentry hwrite ?_
      simp [credited, slashed, rewardTotal]
    · simp only [eq_ok] at h
      obtain ⟨-, state, hwrite, rfl⟩ := h
      exact .write hentry hwrite ⟨rfl, rfl⟩

theorem applyFinalizedVoteCredits_settles
    (h : applyFinalizedVoteCredits crypto signed input progress = .ok next) :
    Settles 0 progress next := by
  simp only [applyFinalizedVoteCredits, eq_ok] at h
  obtain ⟨certificates, -, h⟩ := h
  refine foldlM_invariant h (.refl progress) fun _ _ _ _ hmiddle hcertificate => ?_
  exact foldlM_invariant hcertificate hmiddle fun _ _ _ _ hsettled hcredit =>
    hsettled.trans (creditValidatorVote_settles hcredit)

/-! ### Slashes -/

/-- What a slash reports beyond what it burns. -/
def slashShortfall (requested minimumBalance lamports : ℕ) : ℕ :=
  requested - (lamports - minimumBalance)

theorem burnSlashFromValidator_eq_ok {account burned : Account}
    {stakeState nextState : Stake.ValidatorState} {requested reported : ℕ}
    (h : burnSlashFromValidator input account stakeState requested =
      .ok (reported, burned, nextState)) :
    reported = requested ∧ (requested = 0 ∧ burned = account ∨
      ∃ minimumBalance, input.rentConfig.minimumBalance account.data.length = .ok minimumBalance ∧
        burned.lamports + requested =
          account.lamports + slashShortfall requested minimumBalance account.lamports) := by
  unfold burnSlashFromValidator at h
  split at h
  · next hzero =>
    obtain ⟨rfl, rfl, -⟩ : 0 = reported ∧ account = burned ∧ stakeState = nextState := by
      simpa using h
    exact ⟨hzero.symm, .inl ⟨hzero, rfl⟩⟩
  · simp only [eq_ok] at h
    obtain ⟨total, -, -, minimumBalance, hminimum, h⟩ := h
    unfold slashShortfall
    split at h
    · simp only [eq_ok, Prod.mk.injEq] at h
      obtain ⟨_, hdebit, _, -, rfl, rfl, -⟩ := h
      obtain ⟨hle, rfl⟩ := Account.debitLamports_eq_ok hdebit
      exact ⟨rfl, .inr ⟨minimumBalance, hminimum, by dsimp only; omega⟩⟩
    · simp only [eq_ok, Prod.mk.injEq] at h
      obtain ⟨_, rfl, _, -, rfl, rfl, -⟩ := h
      exact ⟨rfl, .inr ⟨minimumBalance, hminimum, by omega⟩⟩

/-- The account of a guilty validator holds the slash on top of its rent minimum, unless
the validator was slashed for this slot before. -/
def SlashCovered (input : BlockRewardInput) (progress : RewardProgress)
    (item : ValidatorState × ℕ) : Prop :=
  ∀ stakeState account index requested minimumBalance,
    progress.state.loadStakeStateByAddress item.1.accountAddress =
      .ok (stakeState, account, index) →
    stakeState.lastSlashedSlot < item.2 →
    calculateSlashLamports stakeState input.config.maliciousSlashBasisPoints = .ok requested →
    input.rentConfig.minimumBalance account.data.length = .ok minimumBalance →
    requested = 0 ∨ minimumBalance + requested ≤ account.lamports

/-- Each slash of a list is covered when its turn comes. -/
def SlashesCovered (crypto : Crypto) (input : BlockRewardInput) :
    RewardProgress → List (ValidatorState × ℕ) → Prop
  | _, [] => True
  | progress, item :: items => SlashCovered input progress item ∧
    ∀ next, applySingleSlashingEvidence crypto input progress item = .ok next →
      SlashesCovered crypto input next items

theorem applySingleSlashingEvidence_settles {item : ValidatorState × ℕ}
    (h : applySingleSlashingEvidence crypto input progress item = .ok next) :
    ∃ missing, Settles missing progress next ∧
      (missing = 0 ↔ SlashCovered input progress item) := by
  simp only [applySingleSlashingEvidence, eq_ok] at h
  obtain ⟨⟨stakeState, account, index⟩, hload, h⟩ := h
  split at h
  · next hslashed =>
    cases h
    refine ⟨0, .refl progress, fun _ => ?_, fun _ => rfl⟩
    intro _ _ _ _ _ hload' hlate
    cases hload.symm.trans hload'
    exact absurd hlate (not_lt.mpr hslashed)
  · next hfresh =>
    simp only [eq_ok] at h
    obtain ⟨requested, hrequested, ⟨reported, burned, slashedState⟩, hburn, jailed, -, state,
      hwrite, rfl⟩ := h
    obtain ⟨rfl, hburned⟩ := burnSlashFromValidator_eq_ok hburn
    obtain ⟨data, -, rfl⟩ := writeStakeState_eq_ok hwrite
    have hentry := (loadStakeStateByAddress_eq_ok hload).1
    have hset := lamports_setAccount hentry { burned with data := data }
    dsimp only at hset
    obtain ⟨rfl, rfl⟩ | ⟨minimumBalance, hminimum, hburned⟩ := hburned
    · refine ⟨0, ⟨by simp, ?_⟩, fun _ => ?_, fun _ => rfl⟩
      · simp [credited, slashed, rewardTotal]
        omega
      · intro _ _ _ _ _ hload' _ hrequested' _
        cases hload.symm.trans hload'
        cases hrequested.symm.trans hrequested'
        exact .inl rfl
    · refine ⟨slashShortfall reported minimumBalance account.lamports, ⟨by simp, ?_⟩, ?_⟩
      · -- the slash is reported with its amount, the jailing that follows with none
        split
        all_goals
          simp [slashed, credited, rewardTotal]
          omega
      · constructor
        · intro hnone _ _ _ _ _ hload' _ hrequested' hminimum'
          cases hload.symm.trans hload'
          cases hrequested.symm.trans hrequested'
          cases hminimum.symm.trans hminimum'
          unfold slashShortfall at hnone
          omega
        · intro hcovered
          have hcase := hcovered _ _ _ _ _ hload (not_le.mp hfresh) hrequested hminimum
          unfold slashShortfall
          omega

theorem slashes_settle {items : List (ValidatorState × ℕ)}
    (h : items.foldlM (applySingleSlashingEvidence crypto input) progress = .ok next) :
    ∃ missing, Settles missing progress next ∧
      (missing = 0 ↔ SlashesCovered crypto input progress items) := by
  induction items generalizing progress with
  | nil =>
    obtain rfl := pure_eq_ok.mp h
    exact ⟨0, .refl progress, fun _ => trivial, fun _ => rfl⟩
  | cons item items ih =>
    obtain ⟨middle, hfirst, hrest⟩ := bind_eq_ok.mp h
    obtain ⟨missing, hsettles, hcovered⟩ := applySingleSlashingEvidence_settles hfirst
    obtain ⟨more, hmore, hrestCovered⟩ := ih hrest
    refine ⟨missing + more, hsettles.trans hmore, ?_⟩
    rw [Nat.add_eq_zero_iff, hcovered, hrestCovered]
    refine and_congr_right fun _ => ⟨fun hall after hafter => ?_, fun hall => hall middle hfirst⟩
    cases hfirst.symm.trans hafter
    exact hall

theorem normalizeStakeDelegationBuckets_settles {state : ChainState} (rewards : List BlockReward)
    (h : normalizeStakeDelegationBuckets input progress.state = .ok state)
    (hrewards : progress.rewards = rewards) : Settles 0 progress ⟨state, rewards⟩ := by
  subst hrewards
  refine @foldlM_invariant _ _ _ _ _ _ _
    (fun current : ChainState => Settles 0 progress ⟨current, progress.rewards⟩) h
    (.refl progress) fun current entry _ after hsettles hstep => ?_
  simp only [normalizeStakeAccount, eq_ok] at hstep
  obtain ⟨account, haccount, stakeState, -, ⟨normalized, changed⟩, -, hstep⟩ := hstep
  split at hstep
  · obtain ⟨⟨address, old⟩, hentry, rfl⟩ := Option.map_eq_some_iff.mp haccount
    refine hsettles.trans (?_ : Settles 0 ⟨current, progress.rewards⟩ _)
    exact .write hentry hstep ⟨rfl, rfl⟩
  · cases hstep
    exact hsettles

end

/-! ### Payouts -/

/-- Payments that leave the validator's own entry in the state as it was: its balance is
carried on the side until the entry is written. -/
structure PayoutSteps (validatorAddress : PublicKey) (before after : PayoutProgress) : Prop where
  addresses : after.state.addresses = before.state.addresses
  entry : ∀ (index : ℕ) (account : Account),
    before.state.accounts[index]? = some ⟨validatorAddress, account⟩ →
    after.state.accounts[index]? = some ⟨validatorAddress, account⟩
  unslashed : slashed after.rewards = slashed before.rewards
  lamports :
    after.state.lamports + after.validatorAccount.lamports + credited before.rewards =
      before.state.lamports + before.validatorAccount.lamports + credited after.rewards

section

variable {crypto : Crypto} {input : BlockRewardInput} {order : PayoutOrder}
  {validatorAddress : PublicKey} {before middle after : PayoutProgress}

theorem PayoutSteps.refl (progress : PayoutProgress) :
    PayoutSteps validatorAddress progress progress :=
  ⟨rfl, fun _ _ => id, rfl, rfl⟩

theorem PayoutSteps.trans (first : PayoutSteps validatorAddress before middle)
    (second : PayoutSteps validatorAddress middle after) :
    PayoutSteps validatorAddress before after := by
  have hfirst := first.lamports
  have hsecond := second.lamports
  exact ⟨second.addresses.trans first.addresses,
    fun index account hentry => second.entry index account (first.entry index account hentry),
    second.unslashed.trans first.unslashed, by omega⟩

variable {state : ChainState} {lamports payout : ℕ} {account : Account}
  {stakeState next : Stake.ValidatorState} {entry : PublicKey × ℕ} {progress : RewardProgress}

theorem creditAccountLamports_entry {next : ChainState} {destination address : PublicKey}
    {index : ℕ} {rent : RentConfig}
    (h : state.creditAccountLamports destination lamports rent = .ok next)
    (hother : destination ≠ address) (hentry : state.accounts[index]? = some ⟨address, account⟩) :
    next.accounts[index]? = some ⟨address, account⟩ := by
  unfold creditAccountLamports at h
  split at h
  · cases h
    exact hentry
  · simp only [eq_ok] at h
    obtain ⟨⟨credited, _⟩, hlast, _, -, -, rfl⟩ := h
    have hne : credited ≠ index := by
      rintro rfl
      rw [getElem?_of_lastEntry hlast] at hentry
      simp [hother] at hentry
    simpa [setAccount, getElem?_modify, hne] using hentry

theorem payStakeReward_pays {destination : PublicKey}
    (h : payStakeReward input order destination lamports before = .ok after) :
    PayoutSteps order.validatorAddress before after := by
  unfold payStakeReward at h
  split at h
  · simp only [eq_ok] at h
    obtain ⟨account, hcredit, rfl⟩ := h
    obtain rfl := Account.creditLamports_eq_ok hcredit
    refine ⟨rfl, fun _ _ => id, by simp [slashed, rewardTotal], ?_⟩
    simp [credited, rewardTotal]
    omega
  · next hother =>
    simp only [eq_ok] at h
    obtain ⟨state, hcredit, rfl⟩ := h
    obtain ⟨haddresses, hlamports⟩ := creditAccountLamports_eq_ok hcredit
    refine ⟨haddresses, fun index account hentry =>
      creditAccountLamports_entry hcredit hother hentry, by simp [slashed, rewardTotal], ?_⟩
    simp [credited, rewardTotal, hlamports]
    omega

/-- Payments of one order, one after the other. -/
def Payments (input : BlockRewardInput) (order : PayoutOrder) :
    PayoutProgress → PayoutProgress → Prop :=
  Relation.ReflTransGen fun before after => ∃ destination lamports,
    payStakeReward input order destination lamports before = .ok after

theorem Payments.steps (h : Payments input order before after) :
    PayoutSteps order.validatorAddress before after := by
  induction h with
  | refl => exact .refl before
  | tail _ hlast ih =>
    obtain ⟨_, _, hpay⟩ := hlast
    exact ih.trans (payStakeReward_pays hpay)

theorem payDelegation_payments {delegation next : Stake.DelegationState}
    (h : payDelegation input order lamports delegation before = .ok (next, after)) :
    Payments input order before after := by
  simp only [payDelegation, eq_ok, Prod.mk.injEq] at h
  obtain ⟨paid, hpay, _, -, -, rfl⟩ := h
  exact .single ⟨_, _, hpay⟩

theorem paySelf_payments (h : paySelf input order lamports stakeState before = .ok (next, after)) :
    Payments input order before after := by
  simp only [paySelf, eq_ok, Prod.mk.injEq] at h
  obtain ⟨paid, hpay, _, -, -, rfl⟩ := h
  exact .single ⟨_, _, hpay⟩

theorem payDelegations_payments {activeStake index : ℕ} {last final : Option ℕ}
    {delegations paid : List Stake.DelegationState}
    (h : payDelegations input order payout activeStake index last delegations before =
      .ok (paid, final, after)) : Payments input order before after := by
  induction delegations generalizing index last paid before with
  | nil =>
    obtain ⟨-, -, rfl⟩ : [] = paid ∧ last = final ∧ before = after := by
      simpa [payDelegations] using h
    exact .refl
  | cons delegation delegations ih =>
    unfold payDelegations at h
    split at h
    · simp only [eq_ok, Prod.mk.injEq] at h
      obtain ⟨⟨rest, _, _⟩, hrest, -, rfl, rfl⟩ := h
      exact ih hrest
    · dsimp only at h
      split at h
      · simp only [eq_ok, Prod.mk.injEq] at h
        obtain ⟨⟨_, _⟩, ⟨-, rfl⟩, ⟨rest, _, _⟩, hrest, -, rfl, rfl⟩ := h
        exact ih hrest
      · simp only [eq_ok, Prod.mk.injEq] at h
        obtain ⟨⟨_, middle⟩, hpay, ⟨rest, _, _⟩, hrest, -, rfl, rfl⟩ := h
        exact (payDelegation_payments hpay).trans (ih hrest)

theorem payRemainder_payments {selfActive : ℕ} {last : Option ℕ}
    (h : payRemainder input order payout selfActive stakeState last before = .ok (next, after)) :
    Payments input order before after := by
  unfold payRemainder at h
  split at h
  · cases h
    exact .refl
  · split at h
    · exact paySelf_payments h
    · split at h
      · cases h
        exact .refl
      · obtain ⟨⟨_, _⟩, hpay, h⟩ := bind_eq_ok.mp h
        cases h
        exact payDelegation_payments hpay

theorem distributeStakePayout_payments
    (h : distributeStakePayout input order payout stakeState before = .ok (next, after)) :
    Payments input order before after := by
  unfold distributeStakePayout at h
  split at h
  · cases h
    exact .refl
  · obtain ⟨selfActive, -, h⟩ := bind_eq_ok.mp h
    dsimp only at h
    split at h
    · obtain ⟨⟨_, _⟩, hnone, h⟩ := bind_eq_ok.mp h
      obtain ⟨⟨delegations, last, paid⟩, hdelegations, h⟩ := bind_eq_ok.mp h
      cases hnone
      exact (payDelegations_payments hdelegations).trans (payRemainder_payments h)
    · obtain ⟨⟨selfPaid, middle⟩, hpay, h⟩ := bind_eq_ok.mp h
      obtain ⟨⟨delegations, last, paid⟩, hdelegations, h⟩ := bind_eq_ok.mp h
      exact ((paySelf_payments hpay).trans (payDelegations_payments hdelegations)).trans
        (payRemainder_payments h)

/-! ### Settlement -/

variable {next : RewardProgress}

/-- The end of a settlement: a validator whose commission is paid shares out the rest and is
written where it was read. -/
theorem settles_of_commissioned {commissioned paidState written : Stake.ValidatorState}
    {final : ChainState} (hentry : progress.state.accounts[entry.2]? = some ⟨entry.1, account⟩)
    (hcommission : PayoutSteps entry.1
      { progress with validatorAccount := account, distributed := 0 } before)
    (horder : order.validatorAddress = entry.1)
    (hpaid : distributeStakePayout input order payout commissioned before = .ok (paidState, after))
    (hwrite : after.state.writeStakeState entry.2 after.validatorAccount written
      input.rentConfig = .ok final) :
    Settles 0 progress { state := final, rewards := after.rewards } := by
  have hpays := hcommission.trans (horder ▸ (distributeStakePayout_payments hpaid).steps)
  obtain ⟨data, -, rfl⟩ := writeStakeState_eq_ok hwrite
  have hset := lamports_setAccount (hpays.entry _ _ hentry)
    { after.validatorAccount with data := data }
  have hlamports := hpays.lamports
  have hslashed := hpays.unslashed
  refine ⟨by simpa using hpays.addresses, ?_⟩
  dsimp only at *
  omega

theorem settleRewardedValidator_settles {context : EpochRewardContext}
    (hentry : progress.state.accounts[entry.2]? = some ⟨entry.1, account⟩)
    (h : settleRewardedValidator crypto input context entry account stakeState progress =
      .ok next) :
    Settles 0 progress next := by
  obtain ⟨matured, -, h⟩ := bind_eq_ok.mp h
  dsimp only at h
  obtain ⟨reward, -, h⟩ := bind_eq_ok.mp h
  split at h
  · simp only [eq_ok] at h
    obtain ⟨_, rfl, ⟨paidState, paid⟩, hpaid, _, -, state, hwrite, rfl⟩ := h
    exact settles_of_commissioned hentry (.refl _) rfl hpaid hwrite
  · simp only [eq_ok] at h
    obtain ⟨credited', hcredit, _, -, _, rfl, ⟨paidState, paid⟩, hpaid, _, -, state, hwrite,
      rfl⟩ := h
    obtain rfl := Account.creditLamports_eq_ok hcredit
    refine settles_of_commissioned hentry ?_ rfl hpaid hwrite
    refine ⟨rfl, fun _ _ => id, by simp [slashed, rewardTotal], ?_⟩
    simp [credited, rewardTotal]
    omega

theorem settleJailedValidator_settles
    (hentry : progress.state.accounts[entry.2]? = some ⟨entry.1, account⟩)
    (h : settleJailedValidator crypto input entry account stakeState progress = .ok next) :
    Settles 0 progress next := by
  simp only [settleJailedValidator, eq_ok] at h
  obtain ⟨_, -, _, -, state, hwrite, rfl⟩ := h
  refine .write hentry hwrite ?_
  simp [credited, slashed, rewardTotal]

/-- The entries to settle are positions of the state. -/
theorem address_of_mem_sortedStakeAccountEntries (h : entry ∈ state.sortedStakeAccountEntries) :
    state.addresses[entry.2]? = some entry.1 := by
  simp only [sortedStakeAccountEntries, mem_insertionSort, mem_map, mem_filter, Prod.exists] at h
  obtain ⟨found, index, ⟨hmem, -⟩, rfl⟩ := h
  simpa [addresses] using ⟨found, mk_mem_zipIdx_iff_getElem?.mp hmem, rfl⟩

/-- Where no address occurs twice, the last entry at an address is the only one. -/
theorem index_of_address (hdistinct : state.addresses.Nodup) {index : ℕ}
    (haddress : state.addresses[entry.2]? = some entry.1)
    (hentry : state.accounts[index]? = some ⟨entry.1, account⟩) :
    state.accounts[entry.2]? = some ⟨entry.1, account⟩ := by
  have hfound : state.addresses[index]? = some entry.1 := by simp [addresses, hentry]
  obtain ⟨hfirst, hfirstAt⟩ := List.getElem?_eq_some_iff.mp haddress
  obtain ⟨hsecond, hsecondAt⟩ := List.getElem?_eq_some_iff.mp hfound
  obtain rfl := (@Nodup.getElem_inj_iff _ _ hdistinct _ hfirst _ hsecond).mp
      (hfirstAt.trans hsecondAt.symm)
  exact hentry

theorem applyEpochRewardSettlement_settles (hdistinct : progress.state.addresses.Nodup)
    (h : applyEpochRewardSettlement crypto input progress = .ok next) :
    Settles 0 progress next := by
  unfold applyEpochRewardSettlement at h
  split at h
  · cases h
    exact .refl _
  · simp only [eq_ok] at h
    obtain ⟨count, -, context, -, ⟨_, settled⟩, hfold, rfl⟩ := h
    refine @foldlM_invariant _ _ _ _ _ _ _
      (fun current : ℕ × RewardProgress => Settles 0 progress current.2) hfold
      (.refl progress) fun current entry hmem after hsettles hstep => ?_
    simp only [settleValidator, eq_ok] at hstep
    obtain ⟨⟨stakeState, account, index⟩, hload, hstep⟩ := hstep
    have hentry := index_of_address (by rwa [hsettles.addresses])
      (by rw [hsettles.addresses]; exact address_of_mem_sortedStakeAccountEntries hmem)
      (loadStakeStateByAddress_eq_ok hload).1
    split at hstep
    · cases hstep
      exact hsettles
    · split at hstep
      · obtain ⟨settled, hsettled, hstep⟩ := bind_eq_ok.mp hstep
        cases hstep
        exact hsettles.trans (settleJailedValidator_settles hentry hsettled)
      · obtain ⟨settled, hsettled, hstep⟩ := bind_eq_ok.mp hstep
        cases hstep
        exact hsettles.trans (settleRewardedValidator_settles hentry hsettled)

end

/-! ### The whole block -/

section

variable {crypto : Crypto} {signed : List VoteMessage} {input : BlockRewardInput}
  {state : ChainState} {settled : RewardProgress}

/-- Every slash of the block can be burned in full when its turn comes. -/
def PenaltiesCovered (crypto : Crypto) (signed : List VoteMessage) (input : BlockRewardInput)
    (state : ChainState) : Prop :=
  ∀ withFees withMissed withCredits items,
    applyLeaderFeeReward input.normalize { state := state, rewards := [] } = .ok withFees →
    applyMissedLeaderProposals crypto input.normalize withFees = .ok withMissed →
    applyFinalizedVoteCredits crypto signed input.normalize withMissed = .ok withCredits →
    normalizeSlashingEvidence crypto input.normalize = .ok items →
    SlashesCovered crypto input.normalize withCredits items

/-- The balances change by what the rewards report exactly when every reported slash is
burned in full. -/
theorem block_rewards_exact_iff (hdistinct : state.addresses.Nodup)
    (h : applyBlockRewards crypto signed input state = .ok settled) :
    settled.state.lamports + slashed settled.rewards =
        state.lamports + credited settled.rewards ↔
      PenaltiesCovered crypto signed input state := by
  simp only [applyBlockRewards, eq_ok] at h
  obtain ⟨-, withFees, hfees, withMissed, hmissed, withCredits, hcredits, punished, hpunished,
    normalized, hnormalized, _, hsettled, -, rfl⟩ := h
  obtain ⟨items, hitems, hslashes⟩ := bind_eq_ok.mp hpunished
  obtain ⟨missing, hslashed, hcovered⟩ := slashes_settle hslashes
  have hbefore := ((applyLeaderFeeReward_settles hfees).trans
    (applyMissedLeaderProposals_settles hmissed)).trans (applyFinalizedVoteCredits_settles hcredits)
  have hpenalties := hbefore.trans hslashed
  have hordered := hpenalties.trans
    (normalizeStakeDelegationBuckets_settles punished.rewards hnormalized rfl)
  have hall := hordered.trans (applyEpochRewardSettlement_settles
    (by rw [hordered.addresses]; exact hdistinct) hsettled)
  have hlamports := hall.lamports
  simp only [slashed, credited, rewardTotal, filter_nil, map_nil, sum_nil,
    Nat.zero_add, Nat.add_zero] at hlamports ⊢
  have hexact : missing = 0 ↔ PenaltiesCovered crypto signed input state := by
    rw [hcovered]
    constructor
    · intro hall _ _ _ _ hfees' hmissed' hcredits' hitems'
      cases hfees.symm.trans hfees'
      cases hmissed.symm.trans hmissed'
      cases hcredits.symm.trans hcredits'
      cases hitems.symm.trans hitems'
      exact hall
    · exact fun hall => hall _ _ _ _ hfees hmissed hcredits hitems
  rw [← hexact]
  omega

end

/-! A validator with the least stake, whose account holds some lamports, voted for two blocks
in one slot. -/

/-- All signatures verify, and there is one digest and one validator id. -/
def sampleCrypto : Crypto where
  sha256 _ := 1
  newValidatorID _ := [86]
  decodesAsBLSKey _ := true
  verifyMessageSignature _ _ _ := true

def offender : ValidatorState where
  validatorID := [86]
  accountAddress := 3
  consensusPublicKey := 7
  blsPublicKey := []
  p2pPeerID := [112]
  stakeLamports := 10000000
  status := .active
  commissionBps := 0
  lastVotedSlot := 0
  missedProposalCount := 0
  missedVoteCount := 0
  jailUntilEpoch := 0

def offenderStake : Stake.ValidatorState :=
  { Stake.ValidatorState.zero with
    consensusPublicKey := 7
    stakerAccount := 1
    p2pPeerID := [112]
    activeStake := 10000000
    status := .active }

def offenderAccount (lamports : ℕ) : ChainState where
  accounts := [
    { address := 3
      account :=
        { lamports := lamports
          data := offenderStake.marshalBinary.toOption.getD []
          owner := defaultBuiltinProgramIDs.stake
          executable := false
          rentEpoch := 0 } }]

def offenderVote (blockHash : Hash) : SignedVote where
  vote :=
    { type := .confirm, slot := 5, blockHeight := 1, blockHash, voterID := [86]
      stake := 10000000, createdAtUnixMilli := 1 }
  publicKey := 7
  signature := 0

def offenceInput : BlockRewardInput where
  slot := 6
  parentSlot := 0
  height := 1
  epochID := 0
  epochSnapshot :=
    { epochID := 0, startSlot := 0, endSlot := 9, randomSeed := 0, totalActiveStake := 10000000
      validators := [offender], snapshotStateRoot := 1 }
  schedule := { slotToLeader := [] }
  leader := offender
  feeDetails := []
  rewardQCs := []
  evidence := [
    { type := .doubleVote, doubleProposal := none
      doubleVote := some { firstVote := offenderVote 1, secondVote := offenderVote 2 } }]
  proofSnapshots := []
  config :=
    { finalityDepth := 0
      rewardQCQuorum := { numerator := 0, denominator := 0, strict := false }
      voteRewardLamportsPerCredit := 0
      exactStakePayoutActivationEpoch := 0
      monetaryPolicy := defaultMonetaryPolicy
      maxVoteRewardDelaySlots := 0
      missedVoteJailThreshold := 0
      missedVoteJailEpochs := 0
      missedProposalJailThreshold := 0
      missedProposalJailEpochs := 0
      minActiveValidatorsAfterPerformanceJail := 0
      maliciousSlashBasisPoints := 0
      maliciousJailEpochs := 0 }
  rentConfig := defaultRentConfig

/-- With 20000000 lamports the stake of 10000000 is burned in full. -/
theorem block_rewards_exact_iff_offence :
    (offenderAccount 20000000).addresses.Nodup ∧
      ∃ settled, applyBlockRewards sampleCrypto [] offenceInput (offenderAccount 20000000) =
          .ok settled ∧
        (settled.state.lamports + slashed settled.rewards =
            (offenderAccount 20000000).lamports + credited settled.rewards ↔
          PenaltiesCovered sampleCrypto [] offenceInput (offenderAccount 20000000)) := by
  have hdistinct : (offenderAccount 20000000).addresses.Nodup := by decide
  have hsucceeds : succeeds (applyBlockRewards sampleCrypto [] offenceInput
      (offenderAccount 20000000)) = true := by decide +kernel
  obtain ⟨settled, hsettled⟩ := succeeds_iff.mp hsucceeds
  exact ⟨hdistinct, settled, hsettled, block_rewards_exact_iff hdistinct hsettled⟩

/-- An account that holds just its stake keeps its rent minimum, but the whole stake is
reported as slashed. -/
theorem reported_slash_exceeds_burn :
    (offenderAccount 10000000).addresses.Nodup ∧
      ∃ settled, applyBlockRewards sampleCrypto [] offenceInput (offenderAccount 10000000) =
          .ok settled ∧
        settled.state.lamports + slashed settled.rewards ≠
          (offenderAccount 10000000).lamports + credited settled.rewards := by
  have hcheck : (applyBlockRewards sampleCrypto [] offenceInput
      (offenderAccount 10000000)).toOption.any (fun settled =>
        decide (settled.state.lamports + slashed settled.rewards ≠
          (offenderAccount 10000000).lamports + credited settled.rewards)) = true := by
    decide +kernel
  obtain ⟨settled, hsettled, hdiffers⟩ := exists_of_any hcheck
  exact ⟨by decide, settled, hsettled, of_decide_eq_true hdiffers⟩

end Ordexus
