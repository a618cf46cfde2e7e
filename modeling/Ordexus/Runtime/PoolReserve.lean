import Ordexus.Runtime.Nullifiers

/-!
# The reserve of the shielded pool

The pool account holds the lamports of all shielded notes, which its state records, and a
reserve beyond them. Payments into and out of the pool and fees paid from inside it move the
balance and the record together. A plain transfer to the pool is not recorded: it makes the
reserve grow.
-/

namespace Ordexus

open Checked Transition Shielded

/-- The lamports of a pool account and those its state records. -/
def poolBalances (account : Account) : Option (ℕ × ℕ) :=
  if account.owner = programID then
    (unmarshalShieldedPoolStateBinary account.data).toOption.map fun poolState =>
      (account.lamports, poolState.poolLamports)
  else none

def ChainState.poolBalances (parameters : RuntimeParameters) (state : ChainState) :
    Option (ℕ × ℕ) :=
  (state.account? parameters.shielded.pool).bind Ordexus.poolBalances

/-- Nobody signs for the pool, and no stake instruction names it as its validator account. -/
def PoolGuarded (parameters : RuntimeParameters) (event : SimulationInput) : Prop :=
  isSignerAddress parameters.shielded.pool event.message = false ∧
    ∀ instruction ∈ event.message.instructions,
      event.message.accountKeys[instruction.programIDIndex]? = some Stake.programID →
        instruction.secondAccount event.message ≠ some parameters.shielded.pool

/-- Only instructions of the shielded program name the pool. -/
def PoolNamedByOwner (parameters : RuntimeParameters) (event : SimulationInput) : Prop :=
  ∀ instruction ∈ event.message.instructions,
    parameters.shielded.pool ∈ instructionAccountSet instruction event.message →
      event.message.accountKeys[instruction.programIDIndex]? = some programID

/-! ### One instruction -/

section

variable {parameters : RuntimeParameters} {context : InstructionContext}
  {accounts next : AccountMap} {address : PublicKey} {before after : Account}
  {lamports recorded : ℕ}

theorem poolBalances_eq_some :
    poolBalances before = some (lamports, recorded) ↔
      before.owner = programID ∧ before.lamports = lamports ∧
        ∃ poolState, unmarshalShieldedPoolStateBinary before.data = .ok poolState ∧
          poolState.poolLamports = recorded := by
  unfold poolBalances
  by_cases howner : before.owner = programID
  · rw [if_pos howner]
    simp only [Option.map_eq_some_iff, toOption_eq_some, Prod.mk.injEq, howner, true_and]
    constructor
    · rintro ⟨poolState, hdata, rfl, rfl⟩
      exact ⟨rfl, poolState, hdata, rfl⟩
    · rintro ⟨rfl, poolState, hdata, rfl⟩
      exact ⟨poolState, hdata, rfl, rfl⟩
  · simp [howner]

theorem poolBalances_of_sameState (h : before.SameState after)
    (hbefore : poolBalances before = some (lamports, recorded)) :
    poolBalances after = some (after.lamports, recorded) := by
  obtain ⟨howner, -, hstate⟩ := poolBalances_eq_some.mp hbefore
  exact poolBalances_eq_some.mpr ⟨h.owner.trans howner, rfl, by rwa [h.data]⟩

/-- An instruction of the shielded program moves balance and record together, and sets the
fee aside that is charged after it. -/
theorem Shielded.Executes.poolBalances
    (h : Shielded.Executes parameters.shielded context accounts next)
    (hbefore : accounts.lookup parameters.shielded.pool = some before)
    (hbalances : poolBalances before = some (lamports, recorded)) :
    ∃ after moved, next.lookup parameters.shielded.pool = some after ∧
      Ordexus.poolBalances after = some (after.lamports, moved) ∧
      after.lamports + recorded = lamports + moved + deferredFee context := by
  obtain ⟨-, rfl, poolState, hdata, rfl⟩ := poolBalances_eq_some.mp hbalances
  obtain rfl := Option.mem_unique h.pool.lookup hbefore
  obtain rfl := Except.ok.inj (h.pool.data.symm.trans hdata)
  have hlookup := congrArg (AList.lookup parameters.shielded.pool) h.written
  rw [AList.lookup_insert] at hlookup
  refine ⟨_, h.nextState.poolLamports, hlookup, poolBalances_eq_some.mpr ⟨rfl, rfl, h.nextState,
    ?_, rfl⟩, h.physical⟩
  exact ShieldedPoolState.unmarshal_marshal h.range h.marshalled

/-- Any other instruction leaves the state of the pool alone and takes nothing from it. -/
theorem AccountChange.poolBalances
    (h : AccountChange parameters context parameters.shielded.pool before after)
    (hprogram : context.program ≠ some programID)
    (hunsigned : context.isSignerContextAddress parameters.shielded.pool ≠ true)
    (hvalidator : context.program = some Stake.programID →
      context.accountAddressAt 1 ≠ .ok parameters.shielded.pool)
    (hbefore : poolBalances before = some (lamports, recorded)) :
    Ordexus.poolBalances after = some (after.lamports, recorded) ∧ lamports ≤ after.lamports := by
  obtain ⟨howner, hlamports, -⟩ := poolBalances_eq_some.mp hbefore
  cases h with
  | credited hsame hcredited =>
    exact ⟨poolBalances_of_sameState hsame hbefore, hlamports ▸ hcredited⟩
  | paid hsigned _ | assigned hsigned _ _ => exact absurd hsigned hunsigned
  | written _ _ _ hkind =>
    rw [howner] at hkind
    rcases hkind with hkind | hkind <;> cases hkind
  | pool hshielded _ _ => exact absurd hshielded hprogram
  | validator hstake haddress _ => exact absurd haddress (hvalidator hstake)
  | marker hshielded _ _ _ _ => exact absurd hshielded hprogram

/-- An account that an instruction does not name stays as it is. -/
theorem eq_of_not_named (h : validateInstructionWrites context accounts next = .ok ())
    (hbefore : accounts.lookup address = some before) (hafter : next.lookup address = some after)
    (hnamed : address ∉ instructionAccountSet context.instruction context.message) :
    after = before := by
  simp only [validateInstructionWrites, eq_ok] at h
  obtain ⟨programID, -, hwrites⟩ := h
  have hentry := forM_eq_ok.mp hwrites ⟨address, after⟩ (AList.mem_lookup_iff.mp hafter)
  rw [validateInstructionWrite, hbefore] at hentry
  by_contra hchanged
  simp only [if_neg (Ne.symm hchanged), eq_ok, not_not] at hentry
  obtain ⟨-, hmem, -⟩ := hentry
  exact hnamed hmem

end

/-! ### One transaction -/

namespace ConfirmedRun

variable {parameters : RuntimeParameters} {input : SimulationInput}
  {result : TransactionExecutionResult} {lamports recorded : ℕ}

/-- The pool in the middle of a transaction, against balances at its start: `fee` is set
aside, and the reserve has not fallen, or has stayed the same if `exact` holds. -/
def KeepsReserve (lamports recorded fee : ℕ) (exact : Prop) (account : Account) : Prop :=
  ∃ moved, poolBalances account = some (account.lamports, moved) ∧
    lamports + moved + fee ≤ account.lamports + recorded ∧
    (exact → account.lamports + recorded = lamports + moved + fee)

section

variable (run : ConfirmedRun parameters input result)
include run

/-- A step of a transaction whose fee is `fee` if the pool pays it. -/
theorem step_keepsReserve (hguarded : PoolGuarded parameters input) {step : InstructionStep}
    (hstep : step ∈ simulationSteps parameters input) {first second : Account} {fee : ℕ}
    (hfirst : step.before.lookup parameters.shielded.pool = some first)
    (hsecond : step.after.lookup parameters.shielded.pool = some second)
    (hkeeps : KeepsReserve lamports recorded fee (PoolNamedByOwner parameters input) first)
    (hfee : deferredFee step.context = 0 ∨
      step.context.program = some programID) :
    KeepsReserve lamports recorded (fee + deferredFee step.context)
      (PoolNamedByOwner parameters input) second := by
  have hof := run.stepOf step hstep
  have hmessage := run.step_message hstep
  have hinstruction := run.instruction_mem hstep
  obtain ⟨moved, hbalances, hfloor, hexact⟩ := hkeeps
  by_cases hprogram : step.context.program = some programID
  · obtain ⟨executes⟩ := hof.program.shielded_executes hprogram
    obtain ⟨after, next, hafter, hafterBalances, htotal⟩ := executes.poolBalances hfirst hbalances
    obtain rfl := Option.mem_unique hafter hsecond
    exact ⟨next, hafterBalances, by omega, fun h => by have := hexact h; omega⟩
  · have hfree := hfee.resolve_right hprogram
    obtain ⟨changed, hchanged, hchange⟩ := hof.program.changes _ first hfirst
    obtain rfl := Option.mem_unique hsecond hchanged
    obtain ⟨hafterBalances, hlamports⟩ := hchange.poolBalances hprogram
      (run.unsigned_step hstep (by simp [hguarded.1])) (fun hstake haddress => by
        rw [InstructionContext.program, hmessage] at hstake
        rw [InstructionContext.accountAddressAt_one, hmessage] at haddress
        exact hguarded.2 _ hinstruction hstake haddress) hbalances
    refine ⟨moved, hafterBalances, by omega, fun hnamed => ?_⟩
    have hsame : second = first := by
      refine eq_of_not_named hof.writes hfirst hsecond fun hmem => hprogram ?_
      rw [hmessage] at hmem
      rw [InstructionContext.program, hmessage]
      exact hnamed _ hinstruction hmem
    rw [hsame, hfree]
    exact hexact hnamed

theorem deferredFee_eq {step : InstructionStep} (hstep : step ∈ simulationSteps parameters input) :
    deferredFee step.context = run.shieldedFee run.charged.feePayer := by
  have hof := run.stepOf step hstep
  simp [deferredFee, shieldedFee, hof.feeSource, hof.fee, run.fee]

/-- At the end of the instructions the fee that the pool pays is set aside. -/
theorem final_keepsReserve (hguarded : PoolGuarded parameters input)
    (hkey : parameters.shielded.pool ∈ input.message.accountKeys) {before : Account}
    (hbefore : input.state.account? parameters.shielded.pool = some before)
    (hbalances : poolBalances before = some (lamports, recorded)) :
    HoldsAt parameters.shielded.pool (KeepsReserve lamports recorded
      (run.shieldedFee parameters.shielded.pool) (PoolNamedByOwner parameters input))
      run.final := by
  have hfree : run.transparentFee parameters.shielded.pool = 0 := by
    by_contra hpays
    exact absurd (run.signed_of_transparentFee hpays) (by simp [hguarded.1])
  have hinitial := run.initial_of_existing hkey hbefore
  rw [hfree] at hinitial
  have hlamports := (poolBalances_eq_some.mp hbalances).2.1
  have hstart : KeepsReserve lamports recorded 0 (PoolNamedByOwner parameters input)
      (before.debited 0) := by
    refine ⟨recorded, poolBalances_of_sameState (before.sameState_debited 0) hbalances, ?_⟩
    simp only [Account.debited]
    omega
  by_cases hsource : run.charged.feeSource = .shieldedPool
  · -- the only instruction is one of the shielded program
    obtain ⟨hpayer, step, hsteps, hprogram⟩ := run.unsigned_of_shieldedFee hsource
    have hstep : step ∈ simulationSteps parameters input := by simp [hsteps]
    have hfollows := run.follows
    rw [hsteps] at hfollows
    obtain ⟨hfirst, hfinal⟩ := hfollows.singleton
    rw [initial, ← hfirst] at hinitial
    obtain ⟨after, hafter, -⟩ := (run.stepOf step hstep).program.changes _ _ hinitial
    have hkept := run.step_keepsReserve hguarded hstep hinitial hafter hstart (.inr hprogram)
    rw [run.deferredFee_eq hstep, hpayer, Nat.zero_add] at hkept
    exact ⟨after, hfinal ▸ hafter, hkept⟩
  · have hnoFee : ∀ address, run.shieldedFee address = 0 := fun address => by
      simp [shieldedFee, hsource]
    rw [hnoFee]
    refine (run.holdsAt_invariant ⟨_, hinitial, hstart⟩
      fun step hstep first second hfirst hsecond _ hkeeps => ?_).1
    have hzero : deferredFee step.context = 0 := by
      rw [run.deferredFee_eq hstep, hnoFee]
    have hkept := run.step_keepsReserve hguarded hstep hfirst hsecond hkeeps (.inl hzero)
    rwa [hzero] at hkept

/-- A confirmed transaction does not lower the reserve, and keeps it if only the shielded
program is given the pool. -/
theorem poolBalances_nextState (hguarded : PoolGuarded parameters input)
    (hbalances : input.state.poolBalances parameters = some (lamports, recorded)) :
    ∃ after moved, (input.nextState result).poolBalances parameters = some (after, moved) ∧
      lamports + moved ≤ after + recorded ∧
      (PoolNamedByOwner parameters input → after + recorded = lamports + moved) := by
  obtain ⟨before, hbefore, hbalances⟩ := Option.bind_eq_some_iff.mp hbalances
  by_cases hkey : parameters.shielded.pool ∈ input.message.accountKeys
  · obtain ⟨final, hfinal, moved, hfinalBalances, hfloor, hexact⟩ :=
      run.final_keepsReserve hguarded hkey hbefore hbalances
    have hnext := run.nextState_of_existing hkey hbefore hfinal
    have henough := (run.settled_lookup parameters.shielded.pool).2 final hfinal
    refine ⟨final.lamports - run.shieldedFee parameters.shielded.pool, moved, ?_, by omega,
      fun h => by have := hexact h; omega⟩
    rw [ChainState.poolBalances, hnext]
    exact poolBalances_of_sameState (final.sameState_debited _) hfinalBalances
  · refine ⟨lamports, recorded, ?_, le_rfl, fun _ => rfl⟩
    rw [ChainState.poolBalances, run.nextState_of_not_mem hkey, hbefore, Option.bind_some,
      hbalances]

end

end ConfirmedRun

/-! ### Every run of transactions -/

/-- A transaction as a step of a run over states. -/
def transactionStep (parameters : RuntimeParameters) (state : ChainState)
    (event : SimulationInput) : Option ChainState :=
  some (executeTransaction parameters state event)

/-- In every run in which nobody signs for the pool and no stake instruction names it as its
validator account, the reserve never falls and the recorded balance stays covered; the reserve
stays the same if only instructions of the shielded program name the pool. -/
theorem reserve_never_falls {parameters : RuntimeParameters} {start state : ChainState}
    {lamports recorded : ℕ}
    (hstart : start.poolBalances parameters = some (lamports, recorded))
    (hcovered : recorded ≤ lamports) :
    (Reaches (transactionStep parameters) (fun _ => PoolGuarded parameters) start state →
      ∃ after moved, state.poolBalances parameters = some (after, moved) ∧ moved ≤ after ∧
        lamports - recorded ≤ after - moved) ∧
    (Reaches (transactionStep parameters)
        (fun _ event => PoolGuarded parameters event ∧ PoolNamedByOwner parameters event)
        start state →
      ∃ after moved, state.poolBalances parameters = some (after, moved) ∧ moved ≤ after ∧
        after - moved = lamports - recorded) := by
  constructor
  · intro h
    refine @Reaches.invariant _ _ _ _ _ _ (fun state => ∃ after moved,
      state.poolBalances parameters = some (after, moved) ∧ moved ≤ after ∧
        lamports - recorded ≤ after - moved) h ⟨lamports, recorded, hstart, hcovered, le_rfl⟩
      fun before event next hbefore hguarded hstep => ?_
    cases hstep
    obtain ⟨balance, record, hbalances, hrecord, hfloor⟩ := hbefore
    rcases executeTransaction_cases parameters before event with
      ⟨-, hsame⟩ | ⟨-, result, ⟨run⟩, hnext⟩
    · rw [hsame]
      exact ⟨balance, record, hbalances, hrecord, hfloor⟩
    · obtain ⟨after, moved, hafter, hkept, -⟩ := run.poolBalances_nextState hguarded hbalances
      rw [hnext]
      exact ⟨after, moved, hafter, by omega, by omega⟩
  · intro h
    refine @Reaches.invariant _ _ _ _ _ _ (fun state => ∃ after moved,
      state.poolBalances parameters = some (after, moved) ∧ moved ≤ after ∧
        after - moved = lamports - recorded) h ⟨lamports, recorded, hstart, hcovered, rfl⟩
      fun before event next hbefore hok hstep => ?_
    cases hstep
    obtain ⟨balance, record, hbalances, hrecord, hreserve⟩ := hbefore
    rcases executeTransaction_cases parameters before event with
      ⟨-, hsame⟩ | ⟨-, result, ⟨run⟩, hnext⟩
    · rw [hsame]
      exact ⟨balance, record, hbalances, hrecord, hreserve⟩
    · obtain ⟨after, moved, hafter, hkept, hexact⟩ := run.poolBalances_nextState hok.1 hbalances
      have htotal := hexact hok.2
      rw [hnext]
      exact ⟨after, moved, hafter, by omega, by omega⟩

theorem sampleSpendState_balances :
    sampleSpendState.poolBalances sampleParameters = some (30000000, 1000000) := by
  decide +kernel

/-- A note is spent without a payment into or out of the pool. -/
theorem reserve_never_falls_spend :
    ∃ state, Reaches (transactionStep sampleParameters)
        (fun _ event => PoolGuarded sampleParameters event ∧
          PoolNamedByOwner sampleParameters event) sampleSpendState state ∧
      ∃ after moved, state.poolBalances sampleParameters = some (after, moved) ∧ moved ≤ after ∧
        after - moved = 30000000 - 1000000 := by
  have hguarded : PoolGuarded sampleParameters spendEvent := by
    unfold PoolGuarded
    decide
  have hnamed : PoolNamedByOwner sampleParameters spendEvent := by
    unfold PoolNamedByOwner
    decide
  have hreach : Reaches (transactionStep sampleParameters)
      (fun _ event => PoolGuarded sampleParameters event ∧
        PoolNamedByOwner sampleParameters event) sampleSpendState
      (executeTransaction sampleParameters sampleSpendState spendEvent) :=
    .next .start ⟨hguarded, hnamed⟩ rfl
  exact ⟨_, hreach, (reserve_never_falls sampleSpendState_balances (by decide)).2 hreach⟩

/-- Account 1 sends 2000000 lamports to the pool with a system transfer. -/
def donationEvent : SimulationInput :=
  sampleInput [] [1, 900, System.programID] (by decide) [0, 1]
    (littleEndian 4 2 ++ littleEndian 8 2000000)

/-- The reserve grows from 29000000 to 31000000 lamports. -/
theorem donation_raises_reserve :
    ∃ state, Reaches (transactionStep sampleParameters) anyStep sampleSpendState state ∧
      sampleSpendState.poolBalances sampleParameters = some (30000000, 1000000) ∧
      state.poolBalances sampleParameters = some (32000000, 1000000) := by
  obtain ⟨state, hreach, htest⟩ := @exists_of_run _ _ (transactionStep sampleParameters)
    sampleSpendState [donationEvent] (fun state : ChainState =>
      decide (state.poolBalances sampleParameters = some (32000000, 1000000))) (by decide +kernel)
  exact ⟨state, hreach, sampleSpendState_balances, of_decide_eq_true htest⟩

end Ordexus
