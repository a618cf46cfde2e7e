import Ordexus.Runtime.ConfirmedTransaction

/-!
# Who may change an account

An account may be altered by a transaction that it signs, or by the program that owns it.
Two instructions do not keep to this: the stake program writes its state into an account
whoever owns it, and the shielded program turns an account that exists into a marker. A
transaction respects the authority over its accounts exactly when neither happens.
-/

namespace Ordexus

open Checked

/-- What needs an authority: another owner, other data, another executable flag, or fewer
lamports. -/
def Account.Altered (before after : Account) : Prop :=
  after.owner ≠ before.owner ∨ after.data ≠ before.data ∨
    after.executable ≠ before.executable ∨ after.lamports < before.lamports

instance (before after : Account) : Decidable (before.Altered after) :=
  inferInstanceAs (Decidable (_ ∨ _ ∨ _ ∨ _))

theorem Account.not_altered {before after : Account} :
    ¬before.Altered after ↔ before.SameState after ∧ before.lamports ≤ after.lamports := by
  constructor
  · intro h
    simp only [Altered, not_or, not_not, ne_eq, not_lt] at h
    exact ⟨⟨h.1, h.2.1, h.2.2.1⟩, h.2.2.2⟩
  · rintro ⟨⟨howner, hdata, hexecutable⟩, hlamports⟩
    simp [Altered, howner, hdata, hexecutable, hlamports]

def InstructionStep.Alters (step : InstructionStep) (address : PublicKey) : Prop :=
  ∃ before after, step.before.lookup address = some before ∧
    step.after.lookup address = some after ∧ before.Altered after

/-- The account signed the transaction, or every instruction that altered it is one of the
program that owned it. -/
def Authorized (parameters : RuntimeParameters) (input : SimulationInput) (address : PublicKey)
    (owner : PublicKey) : Prop :=
  isSignerAddress address input.message = true ∨
    (∃ step ∈ simulationSteps parameters input, step.context.program = some owner) ∧
      ∀ step ∈ simulationSteps parameters input, step.Alters address →
        step.context.program = some owner

/-- Every account of the state that is altered was altered with authority. -/
def AltersWithAuthority (parameters : RuntimeParameters) (input : SimulationInput)
    (result : TransactionExecutionResult) : Prop :=
  ∀ address before after, input.state.account? address = some before →
    (input.nextState result).account? address = some after → before.Altered after →
    Authorized parameters input address before.owner

/-- The account at the second place of an instruction. -/
def CompiledInstruction.secondAccount (instruction : CompiledInstruction)
    (message : ResolvedMessage) : Option PublicKey :=
  instruction.accountIndexes[1]?.bind fun accountIndex => message.accountKeys[accountIndex]?

/-- The instruction changes the owner of an account without asking for it: a validator account
that the stake program does not own, or a marker. -/
def TakesOver (addresses : ShieldedAddresses) (message : ResolvedMessage)
    (instruction : CompiledInstruction) (address owner : PublicKey) : Prop :=
  message.accountKeys[instruction.programIDIndex]? = some Stake.programID ∧
      instruction.secondAccount message = some address ∧ owner ≠ Stake.programID ∨
    message.accountKeys[instruction.programIDIndex]? = some Shielded.programID ∧
      address ∈ spentMarkers addresses instruction

/-! ### How the owner of an account moves -/

/-- Without its signature an account keeps its owner, or comes to the stake program, or
becomes a marker. -/
def OwnerMoves (first last : PublicKey) : Prop :=
  last = first ∨ last = Stake.programID ∨
    first = System.programID ∧ last = Shielded.programID

theorem OwnerMoves.trans {first second third : PublicKey} (hfirst : OwnerMoves first second)
    (hsecond : OwnerMoves second third) : OwnerMoves first third := by
  rcases hsecond with rfl | rfl | ⟨rfl, rfl⟩
  · exact hfirst
  · exact .inr (.inl rfl)
  · rcases hfirst with hsystem | hstake | ⟨-, hshielded⟩
    · exact .inr (.inr ⟨hsystem.symm, rfl⟩)
    · cases hstake
    · cases hshielded

variable {parameters : RuntimeParameters} {context : InstructionContext} {address : PublicKey}
  {accounts next : AccountMap}

theorem AccountChange.ownerMoves {before after : Account}
    (h : AccountChange parameters context address before after)
    (hunsigned : context.isSignerContextAddress address ≠ true) :
    OwnerMoves before.owner after.owner := by
  cases h with
  | credited hsame _ => exact .inl hsame.owner
  | paid hsigned _ | assigned hsigned _ _ => exact absurd hsigned hunsigned
  | written _ howner _ _ => exact .inl howner
  | pool _ _ howner => exact .inl (howner.2.trans howner.1.symm)
  | validator _ _ howner => exact .inr (.inl howner)
  | marker _ _ hbefore hafter _ => exact .inr (.inr ⟨hbefore.1, hafter.1⟩)

section

variable (h : ProgramStep parameters context accounts next)
include h

theorem ProgramStep.stake_execute (hprogram : context.program = some Stake.programID) :
    Stake.execute context accounts = .ok next := by
  cases h with
  | stake _ h => exact h
  | system hother _ | token hother _ | shielded hother _ | loader hother _ =>
    rw [hprogram] at hother; cases hother

/-- An instruction of the stake program leaves its validator account to that program. -/
theorem ProgramStep.owner_of_validator (hprogram : context.program = some Stake.programID)
    (haddress : context.accountAddressAt 1 = .ok address) :
    ∃ after, next.lookup address = some after ∧ after.owner = Stake.programID := by
  obtain ⟨_, _, validator, _, -, hexecutes⟩ := Stake.execute_executes (h.stake_execute hprogram)
  obtain ⟨middle, account, data, -, -, -, rfl⟩ := hexecutes.written
  obtain rfl := Except.ok.inj (hexecutes.validatorAt.symm.trans haddress)
  exact ⟨_, AList.lookup_insert _, rfl⟩

theorem ProgramStep.shielded_executes (hprogram : context.program = some Shielded.programID) :
    Nonempty (Shielded.Executes parameters.shielded context accounts next) := by
  cases h with
  | shielded _ h => exact Shielded.execute_eq_ok h
  | system hother _ | token hother _ | stake hother _ | loader hother _ =>
    rw [hprogram] at hother; cases hother

/-- A marker was a system account and belongs to the shielded program afterwards. -/
theorem ProgramStep.owner_of_marker (hprogram : context.program = some Shielded.programID)
    (hmarker : address ∈ spentMarkers parameters.shielded.toShieldedAddresses context.instruction) :
    (∃ before, accounts.lookup address = some before ∧ before.owner = System.programID) ∧
      ∃ after, next.lookup address = some after ∧ after.owner = Shielded.programID := by
  obtain ⟨executes⟩ := h.shielded_executes hprogram
  rw [spentMarkers, executes.decoded] at hmarker
  have hresolved : address ∈ executes.resolved.nullifierMarkers := by
    rw [executes.resolves.markers]
    exact hmarker
  obtain ⟨before, hbefore, howner, -, -⟩ := executes.unspent address hresolved
  refine ⟨⟨before, hbefore, howner⟩, ?_⟩
  rw [executes.written, Table.lookup_insert]
  by_cases hpool : address = parameters.shielded.pool
  · exact ⟨_, if_pos hpool, rfl⟩
  · rw [if_neg hpool, Shielded.storeNullifierMarkers_lookup, if_pos hresolved]
    exact ⟨_, rfl, rfl⟩

end

/-! ### Transactions -/

theorem InstructionContext.accountAddressAt_one :
    context.accountAddressAt 1 = .ok address ↔
      context.instruction.secondAccount context.message = some address := by
  simp only [accountAddressAt, accountIndexAt, accountKey, eq_ok, CompiledInstruction.secondAccount,
    Option.bind_eq_some_iff]

namespace ConfirmedRun

variable {parameters : RuntimeParameters} {input : SimulationInput}
  {result : TransactionExecutionResult} {address : PublicKey} {before : Account}

def HoldsAt (address : PublicKey) (property : Account → Prop) (accounts : AccountMap) : Prop :=
  ∃ account, accounts.lookup address = some account ∧ property account

/-- A property of an account that every change keeps, along the steps of a transaction. -/
theorem holdsAt_invariant (run : ConfirmedRun parameters input result)
    {property : Account → Prop} (hstart : HoldsAt address property run.initial)
    (hkeep : ∀ step ∈ simulationSteps parameters input, ∀ first second,
      step.before.lookup address = some first → step.after.lookup address = some second →
      AccountChange parameters step.context address first second → property first →
      property second) :
    HoldsAt address property run.final ∧
      ∀ step ∈ simulationSteps parameters input, HoldsAt address property step.before := by
  refine run.follows.invariant hstart fun step hstep hbefore => ?_
  obtain ⟨first, hfirst, hproperty⟩ := hbefore
  obtain ⟨second, hsecond, hchange⟩ := (run.stepOf step hstep).program.changes address first hfirst
  exact ⟨second, hsecond, hkeep step hstep first second hfirst hsecond hchange hproperty⟩

variable {step : InstructionStep}

section

variable (run : ConfirmedRun parameters input result)
include run

/-- The same from after a given step on. -/
theorem holdsAt_after {property : Account → Prop} (hstep : step ∈ simulationSteps parameters input)
    (hstart : HoldsAt address property step.after)
    (hkeep : ∀ step ∈ simulationSteps parameters input, ∀ first second,
      AccountChange parameters step.context address first second → property first →
      property second) : HoldsAt address property run.final := by
  refine run.follows.invariant_after hstep hstart fun later hlater hbefore => ?_
  obtain ⟨first, hfirst, hproperty⟩ := hbefore
  obtain ⟨second, hsecond, hchange⟩ :=
    (run.stepOf later hlater).program.changes address first hfirst
  exact ⟨second, hsecond, hkeep later hlater first second hchange hproperty⟩

section

variable (hkey : address ∈ input.message.accountKeys)
  (hbefore : input.state.account? address = some before)
include hkey hbefore

/-- An account of the state starts with its owner, data and flag. -/
theorem initial_of_existing :
    run.initial.lookup address = some (before.debited (run.transparentFee address)) := by
  obtain ⟨account, hloaded, -, hinitial⟩ := run.exists_initial hkey
  cases hloaded with
  | existing haccount =>
    obtain rfl := Option.mem_unique haccount hbefore
    exact hinitial
  | placeholder hnone _ _ => simp [hnone] at hbefore

/-- An account of the state is written back as the transaction leaves it. -/
theorem nextState_of_existing {final : Account} (hfinal : run.final.lookup address = some final) :
    (input.nextState result).account? address =
      some (final.debited (run.shieldedFee address)) := by
  rw [run.nextState_of_mem hkey hfinal, if_neg (by simp [hbefore])]

end

theorem unsigned_step (hstep : step ∈ simulationSteps parameters input)
    (hunsigned : isSignerAddress address input.message ≠ true) :
    step.context.isSignerContextAddress address ≠ true :=
  fun hsigned => hunsigned ((run.isSigner_iff hstep).mp hsigned)

/-- If only instructions of its owner alter an account, its owner stays. -/
theorem owner_of_authorized (hunsigned : isSignerAddress address input.message ≠ true)
    (hkey : address ∈ input.message.accountKeys)
    (hbefore : input.state.account? address = some before)
    (hauthorized : ∀ step ∈ simulationSteps parameters input, step.Alters address →
      step.context.program = some before.owner) :
    HoldsAt address (fun account => account.owner = before.owner) run.final ∧
      ∀ step ∈ simulationSteps parameters input,
        HoldsAt address (fun account => account.owner = before.owner) step.before := by
  refine run.holdsAt_invariant ⟨_, run.initial_of_existing hkey hbefore, rfl⟩
    fun step hstep first second hfirst hsecond hchange howner => ?_
  by_contra hmoved
  have halters : step.Alters address :=
    ⟨first, second, hfirst, hsecond, .inl fun hsame => hmoved (hsame.trans howner)⟩
  have hprogram := hauthorized step hstep halters
  cases hchange with
  | credited hsame _ => exact hmoved (hsame.owner.trans howner)
  | paid hsigned _ | assigned hsigned _ _ => exact run.unsigned_step hstep hunsigned hsigned
  | written _ hkept _ _ => exact hmoved (hkept.trans howner)
  | pool _ _ hkept => exact hmoved (hkept.2.trans (hkept.1.symm.trans howner))
  | validator hstake _ hafter =>
    rw [hstake] at hprogram
    exact hmoved (hafter.trans (Option.some.inj hprogram))
  | marker hshielded _ hempty _ _ =>
    rw [hshielded, ← howner, hempty.1] at hprogram
    cases hprogram

end

theorem mem_keys_of_secondAccount {instruction : CompiledInstruction} {message : ResolvedMessage}
    (h : instruction.secondAccount message = some address) : address ∈ message.accountKeys := by
  obtain ⟨accountIndex, -, hkey⟩ := Option.bind_eq_some_iff.mp h
  exact List.mem_of_getElem? hkey

section

variable (run : ConfirmedRun parameters input result)
  (hunsigned : isSignerAddress address input.message ≠ true)
include run hunsigned

section

variable (hbefore : input.state.account? address = some before)
  (hstep : step ∈ simulationSteps parameters input)
include hbefore hstep

/-- How the owner of an account that did not sign has moved before a step. -/
theorem ownerMoves_before {first : Account} (hfirst : step.before.lookup address = some first) :
    OwnerMoves before.owner first.owner := by
  have hkey := (run.covers.2 step hstep).mem hfirst
  have hstart : HoldsAt address (fun account => OwnerMoves before.owner account.owner)
      run.initial := ⟨_, run.initial_of_existing hkey hbefore, .inl rfl⟩
  obtain ⟨-, hsteps⟩ := run.holdsAt_invariant hstart
    fun later hlater first second _ _ hchange howner =>
      howner.trans (hchange.ownerMoves (run.unsigned_step hlater hunsigned))
  obtain ⟨account, haccount, hmoved⟩ := hsteps step hstep
  obtain rfl := Option.mem_unique hfirst haccount
  exact hmoved

variable (htakes : TakesOver parameters.shielded.toShieldedAddresses input.message
  step.context.instruction address before.owner)
include htakes

/-- What was taken over never comes back to its owner. -/
theorem owner_of_takesOver :
    address ∈ input.message.accountKeys ∧ ∃ after, step.after.lookup address = some after ∧
      ∀ last, OwnerMoves after.owner last → last ≠ before.owner := by
  have hprogram := (run.stepOf step hstep).program
  rw [← run.step_message hstep] at htakes
  rcases htakes with ⟨hstake, hsecond, hnotStake⟩ | ⟨hshielded, hmarker⟩
  · obtain ⟨after, hafter, howner⟩ := hprogram.owner_of_validator hstake
      (InstructionContext.accountAddressAt_one.mpr hsecond)
    refine ⟨?_, after, hafter, fun last hlast hsame => hnotStake ?_⟩
    · rw [← run.step_message hstep]
      exact mem_keys_of_secondAccount hsecond
    · rw [howner] at hlast
      rcases hlast with hlast | hlast | ⟨hsystem, -⟩
      · exact hsame.symm.trans hlast
      · exact hsame.symm.trans hlast
      · cases hsystem
  · obtain ⟨⟨first, hfirst, hsystem⟩, after, hafter, howner⟩ :=
      hprogram.owner_of_marker hshielded hmarker
    have hmoved := run.ownerMoves_before hunsigned hbefore hstep hfirst
    refine ⟨(run.covers.2 step hstep).mem hfirst, after, hafter, fun last hlast hsame => ?_⟩
    -- a system account stays one until it becomes a marker
    rw [hsystem] at hmoved
    rw [howner, hsame] at hlast
    rcases hmoved with hmoved | hmoved | ⟨-, hmoved⟩
    · rw [← hmoved] at hlast
      rcases hlast with hlast | hlast | ⟨hlast, -⟩ <;> cases hlast
    · cases hmoved
    · cases hmoved

/-- What an instruction takes over is altered without authority. -/
theorem not_authorized_of_takesOver : ¬AltersWithAuthority parameters input result := by
  intro hauthority
  obtain ⟨hkey, after, hafter, hchanged⟩ := run.owner_of_takesOver hunsigned hbefore hstep htakes
  have hstart : HoldsAt address (fun account => OwnerMoves after.owner account.owner)
      step.after := ⟨after, hafter, .inl rfl⟩
  obtain ⟨final, hfinal, hmoved⟩ := run.holdsAt_after hstep hstart
    fun later hlater first second hchange howner =>
      howner.trans (hchange.ownerMoves (run.unsigned_step hlater hunsigned))
  have hnext := run.nextState_of_existing hkey hbefore hfinal
  have hmovedOwner := hchanged final.owner hmoved
  rcases hauthority address before _ hbefore hnext (.inl hmovedOwner) with hsigned | ⟨-, hsteps⟩
  · exact hunsigned hsigned
  · obtain ⟨account, haccount, howner⟩ := (run.owner_of_authorized hunsigned hkey hbefore hsteps).1
    obtain rfl := Option.mem_unique hfinal haccount
    exact hmovedOwner howner

end

variable (hnone : ∀ step ∈ simulationSteps parameters input,
  ¬TakesOver parameters.shielded.toShieldedAddresses input.message step.context.instruction
    address before.owner)
include hnone

/-- If nothing is taken over, an unsigned account keeps its owner, and only instructions of
that owner alter it. -/
theorem authorized_of_not_takesOver (hstep : step ∈ simulationSteps parameters input)
    {first second : Account} (hchange : AccountChange parameters step.context address first second)
    (howner : first.owner = before.owner) :
    second.owner = before.owner ∧
      (first.Altered second → step.context.program = some before.owner) := by
  have hmessage := run.step_message hstep
  cases hchange with
  | credited hsame hlamports =>
    exact ⟨hsame.owner.trans howner,
      fun haltered => absurd haltered (Account.not_altered.mpr ⟨hsame, hlamports⟩)⟩
  | paid hsigned _ | assigned hsigned _ _ =>
    exact absurd hsigned (run.unsigned_step hstep hunsigned)
  | written hprogram hkept _ _ => exact ⟨hkept.trans howner, fun _ => howner ▸ hprogram⟩
  | pool hprogram _ hkept =>
    have hshielded : before.owner = Shielded.programID := howner.symm.trans hkept.1
    exact ⟨hkept.2.trans hshielded.symm, fun _ => hshielded ▸ hprogram⟩
  | validator hprogram haddress hafter =>
    have hstake : before.owner = Stake.programID := by
      by_contra hnotStake
      refine hnone step hstep (.inl ⟨?_, ?_, hnotStake⟩)
      · rw [← hmessage]
        exact hprogram
      · rw [← hmessage]
        exact InstructionContext.accountAddressAt_one.mp haddress
    exact ⟨hafter.trans hstake.symm, fun _ => hstake ▸ hprogram⟩
  | marker hprogram hmarker _ _ _ =>
    refine absurd (.inr ⟨?_, hmarker⟩) (hnone step hstep)
    rw [← hmessage]
    exact hprogram

/-- The owner and, while no instruction alters the account, everything else. -/
theorem kept_of_not_takesOver (hkey : address ∈ input.message.accountKeys)
    (hbefore : input.state.account? address = some before) :
    HoldsAt address (fun account => account.owner = before.owner ∧
        ((∀ step ∈ simulationSteps parameters input, ¬step.Alters address) →
          ¬before.Altered account)) run.final ∧
      ∀ step ∈ simulationSteps parameters input,
        HoldsAt address (fun account => account.owner = before.owner ∧
          ((∀ step ∈ simulationSteps parameters input, ¬step.Alters address) →
            ¬before.Altered account)) step.before := by
  have hfee : run.transparentFee address = 0 := by
    by_contra hpays
    exact hunsigned (run.signed_of_transparentFee hpays)
  have hinitial := run.initial_of_existing hkey hbefore
  rw [hfee] at hinitial
  refine run.holdsAt_invariant ⟨_, hinitial, rfl, fun _ => ?_⟩
    fun step hstep first second hfirst hsecond hchange hproperty => ?_
  · exact Account.not_altered.mpr ⟨⟨rfl, rfl, rfl⟩, le_rfl⟩
  · obtain ⟨howner, hkept⟩ := hproperty
    refine ⟨(run.authorized_of_not_takesOver hunsigned hnone hstep hchange howner).1,
      fun hquiet => ?_⟩
    obtain ⟨hsameFirst, hfirstLamports⟩ := Account.not_altered.mp (hkept hquiet)
    have hstill : ¬first.Altered second :=
      fun haltered => hquiet step hstep ⟨first, second, hfirst, hsecond, haltered⟩
    obtain ⟨hsame, hlamports⟩ := Account.not_altered.mp hstill
    exact Account.not_altered.mpr ⟨hsameFirst.trans hsame, hfirstLamports.trans hlamports⟩

end

/-- The pool pays a shielded fee, and an instruction of its program has been executed on it. -/
theorem owner_of_shieldedFee (run : ConfirmedRun parameters input result)
    (hfee : run.shieldedFee address ≠ 0) :
    ∃ step ∈ simulationSteps parameters input,
      step.context.program = some Shielded.programID ∧
      HoldsAt address (fun account => account.owner = Shielded.programID) step.before := by
  unfold shieldedFee at hfee
  split at hfee
  · next hpays =>
    obtain ⟨hpool, step, hsteps, hprogram⟩ := run.unsigned_of_shieldedFee hpays.1
    have hstep : step ∈ simulationSteps parameters input := by simp [hsteps]
    obtain ⟨executes⟩ := (run.stepOf step hstep).program.shielded_executes hprogram
    refine ⟨step, hstep, hprogram, executes.poolAccount, ?_, executes.pool.owner⟩
    rw [hpays.2, hpool]
    exact executes.pool.lookup
  · exact absurd rfl hfee

theorem altersWithAuthority_of_not_takesOver (run : ConfirmedRun parameters input result)
    (hnone : ∀ instruction ∈ input.message.instructions, ∀ address before,
      input.state.account? address = some before →
      TakesOver parameters.shielded.toShieldedAddresses input.message instruction address
        before.owner → isSignerAddress address input.message = true) :
    AltersWithAuthority parameters input result := by
  intro address before after hbefore hafter haltered
  by_cases hsigned : isSignerAddress address input.message = true
  · exact .inl hsigned
  by_cases hkey : address ∈ input.message.accountKeys
  swap
  · rw [run.nextState_of_not_mem hkey, hbefore] at hafter
    cases hafter
    exact absurd haltered (Account.not_altered.mpr ⟨.refl before, le_rfl⟩)
  have hsteps : ∀ step ∈ simulationSteps parameters input,
      ¬TakesOver parameters.shielded.toShieldedAddresses input.message step.context.instruction
        address before.owner := by
    intro step hstep htakes
    exact hsigned (hnone _ (run.instruction_mem hstep) address before hbefore htakes)
  obtain ⟨⟨final, hfinal, -, hfinalKept⟩, hkept⟩ :=
    run.kept_of_not_takesOver hsigned hsteps hkey hbefore
  have hprograms : ∀ step ∈ simulationSteps parameters input, step.Alters address →
      step.context.program = some before.owner := by
    rintro step hstep ⟨first, second, hfirst, hsecond, hstepAlters⟩
    obtain ⟨account, haccount, howner, -⟩ := hkept step hstep
    obtain rfl := Option.mem_unique hfirst haccount
    obtain ⟨changed, hchanged, hchange⟩ :=
      (run.stepOf step hstep).program.changes address first hfirst
    obtain rfl := Option.mem_unique hsecond hchanged
    exact (run.authorized_of_not_takesOver hsigned hsteps hstep hchange howner).2
      hstepAlters
  refine .inr ⟨?_, hprograms⟩
  -- an instruction altered the account, or only the fee did
  by_cases hquiet : ∀ step ∈ simulationSteps parameters input, ¬step.Alters address
  · rw [run.nextState_of_existing hkey hbefore hfinal] at hafter
    cases hafter
    have hfee : run.shieldedFee address ≠ 0 := by
      intro hfree
      rw [hfree] at haltered
      exact hfinalKept hquiet haltered
    obtain ⟨step, hstep, hprogram, account, haccount, hshielded⟩ := run.owner_of_shieldedFee hfee
    obtain ⟨first, hfirst, howner, -⟩ := hkept step hstep
    obtain rfl := Option.mem_unique haccount hfirst
    exact ⟨step, hstep, by rw [hprogram, ← howner, hshielded]⟩
  · push Not at hquiet
    obtain ⟨step, hstep, halters⟩ := hquiet
    exact ⟨step, hstep, hprograms step hstep halters⟩

end ConfirmedRun

/-- A confirmed transaction respects the authority over its accounts exactly when every
account of the state that one of its instructions takes over has signed. -/
theorem altersWithAuthority_iff {parameters : RuntimeParameters} {input : SimulationInput}
    {result : TransactionExecutionResult} (hresult : simulate parameters input = .ok result)
    (hconfirmed : result.status = .confirmed) :
    AltersWithAuthority parameters input result ↔
      ∀ instruction ∈ input.message.instructions, ∀ address before,
        input.state.account? address = some before →
        TakesOver parameters.shielded.toShieldedAddresses input.message instruction address
          before.owner → isSignerAddress address input.message = true := by
  obtain ⟨run⟩ := simulate_confirmed hresult hconfirmed
  constructor
  · intro hauthority instruction hinstruction address before hbefore htakes
    by_contra hunsigned
    rw [← run.charged_eq.1, ← run.instructions] at hinstruction
    obtain ⟨step, hstep, rfl⟩ := List.mem_map.mp hinstruction
    exact run.not_authorized_of_takesOver hunsigned hbefore hstep htakes hauthority
  · exact run.altersWithAuthority_of_not_takesOver

theorem altersWithAuthority_payment :
    ∃ result, simulate sampleParameters paymentInput = .ok result ∧
      AltersWithAuthority sampleParameters paymentInput result := by
  obtain ⟨result, hresult, htest⟩ : ∃ result,
      simulate sampleParameters paymentInput = .ok result ∧
        decide (result.status = .confirmed) = true :=
    exists_of_any (by decide +kernel)
  refine ⟨result, hresult, (altersWithAuthority_iff hresult (of_decide_eq_true htest)).mpr ?_⟩
  intro instruction hinstruction address before _ htakes
  have hprogram : ∀ instruction ∈ paymentInput.message.instructions,
      paymentInput.message.accountKeys[instruction.programIDIndex]? = some System.programID := by
    decide
  rcases htakes with ⟨hstake, -⟩ | ⟨hshielded, -⟩
  · rw [hprogram instruction hinstruction] at hstake
    cases hstake
  · rw [hprogram instruction hinstruction] at hshielded
    cases hshielded

/-- Account 1 registers a validator and names the wallet of account 2 as its account. -/
def takeoverInput : SimulationInput :=
  sampleInput [⟨1, Stake.sampleWallet⟩, ⟨2, Stake.sampleWallet⟩] [1, 2, Stake.programID]
    (by decide) [0, 1] (littleEndian 4 0 ++ bigEndian 32 7 ++ littleEndian 4 1 ++ [112] ++
      littleEndian 2 0 ++ littleEndian 8 20000000 ++ littleEndian 8 0)

/-- The wallet belongs to the stake program afterwards, without having signed. -/
theorem not_altersWithAuthority_takeover :
    ∃ result, simulate sampleParameters takeoverInput = .ok result ∧
      result.status = .confirmed ∧
      ¬AltersWithAuthority sampleParameters takeoverInput result := by
  obtain ⟨result, hresult, htest⟩ : ∃ result,
      simulate sampleParameters takeoverInput = .ok result ∧
        (decide (result.status = .confirmed) &&
          ((takeoverInput.nextState result).account? 2).any fun after =>
            decide (Stake.sampleWallet.Altered after)) = true :=
    exists_of_any (by decide +kernel)
  simp only [Bool.and_eq_true, decide_eq_true_eq] at htest
  obtain ⟨hconfirmed, haltered⟩ := htest
  refine ⟨result, hresult, hconfirmed, fun hauthority => ?_⟩
  obtain ⟨after, hafter, haltered⟩ : ∃ after,
      (takeoverInput.nextState result).account? 2 = some after ∧
        Stake.sampleWallet.Altered after := by
    cases hnext : (takeoverInput.nextState result).account? 2 with
    | none => simp [hnext] at haltered
    | some after => exact ⟨after, rfl, by simpa [hnext] using haltered⟩
  have hbefore : takeoverInput.state.account? 2 = some Stake.sampleWallet := by decide
  rcases hauthority 2 _ after hbefore hafter haltered with hsigned | ⟨⟨step, hstep, hprogram⟩, -⟩
  · cases hsigned
  · have hprograms : (simulationSteps sampleParameters takeoverInput).map
        (fun step => step.context.program) = [some Stake.programID] := by
      decide +kernel
    have hmem := List.mem_map_of_mem (f := fun step => step.context.program) hstep
    rw [hprograms, hprogram] at hmem
    exact absurd hmem (by decide)

end Ordexus
