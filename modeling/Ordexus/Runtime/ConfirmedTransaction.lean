import Ordexus.Library.WriteBatch
import Ordexus.Runtime.InstructionEffects

/-!
# Confirmed transactions

What `simulate` has done when it confirms a transaction: the accounts of the message were
loaded from the state, the fee was charged, every instruction was executed on what the one
before it left, and all accounts of the message were written back. Statements about
transactions are proved along the list of these steps.
-/

namespace Ordexus

open Checked List ChainState

/-! ### The steps of a transaction -/

/-- Each step starts from the accounts that the one before it left. -/
inductive Follows : AccountMap → List InstructionStep → AccountMap → Prop
  | nil (accounts : AccountMap) : Follows accounts [] accounts
  | cons {step : InstructionStep} {steps : List InstructionStep} {final : AccountMap}
      (hrest : Follows step.after steps final) : Follows step.before (step :: steps) final

namespace Follows

variable {accounts final : AccountMap} {steps : List InstructionStep}

/-- What every step keeps holds before every step and at the end. -/
theorem invariant {property : AccountMap → Prop} (h : Follows accounts steps final)
    (hstart : property accounts)
    (hkeep : ∀ step ∈ steps, property step.before → property step.after) :
    property final ∧ ∀ step ∈ steps, property step.before := by
  induction h with
  | nil => exact ⟨hstart, by simp⟩
  | @cons step steps final _ ih =>
    have hnext := hkeep step mem_cons_self hstart
    obtain ⟨hfinal, hsteps⟩ := ih hnext fun later hmem => hkeep later (mem_cons_of_mem _ hmem)
    exact ⟨hfinal, forall_mem_cons.mpr ⟨hstart, hsteps⟩⟩

/-- What every step keeps, from after a given step on. -/
theorem invariant_after {property : AccountMap → Prop} (h : Follows accounts steps final)
    {step : InstructionStep} (hstep : step ∈ steps) (hstart : property step.after)
    (hkeep : ∀ later ∈ steps, property later.before → property later.after) : property final := by
  induction h with
  | nil => cases hstep
  | @cons first steps final hrest ih =>
    have hkeepRest := fun later hmem => hkeep later (mem_cons_of_mem first hmem)
    rcases mem_cons.mp hstep with rfl | hlater
    · exact (hrest.invariant hstart hkeepRest).1
    · exact ih hlater hkeepRest

theorem eq_of_nil (h : Follows accounts [] final) : accounts = final := by
  cases h
  rfl

theorem singleton {step : InstructionStep} (h : Follows accounts [step] final) :
    step.before = accounts ∧ step.after = final := by
  cases h with
  | cons hrest => exact ⟨rfl, hrest.eq_of_nil⟩

end Follows

/-- The instruction steps of a transaction: what the loop executes after the fee is charged. -/
def simulationSteps (parameters : RuntimeParameters) (input : SimulationInput) :
    List InstructionStep :=
  match normalizeSimulationInput input with
  | .error _ => []
  | .ok input =>
    match prepareSimulation parameters input with
    | .error _ => []
    | .ok loaded =>
      match chargeTransparentFee loaded input.rentConfig with
      | .error _ => []
      | .ok charged => (runInstructions (registryExecute parameters) input charged).steps

/-- An instruction of a loaded transaction that succeeded. -/
structure StepOf (parameters : RuntimeParameters) (input : SimulationInput)
    (loaded : LoadedTransaction) (step : InstructionStep) : Prop where
  message : step.context.message = loaded.message
  signers : step.context.signerOverrides = []
  epoch : step.context.currentEpoch = input.currentEpoch
  rentConfig : step.context.rentConfig = input.rentConfig
  feeSource : step.context.feeSource = loaded.feeSource
  fee : step.context.transactionFee = loaded.feeDetails.totalFee
  program : ProgramStep parameters step.context step.before step.after
  writes : validateInstructionWrites step.context step.before step.after = .ok ()

section

variable {parameters : RuntimeParameters} {input : SimulationInput} {loaded : LoadedTransaction}

theorem executeInstructions_eq_ok {instructions : List (CompiledInstruction × ℕ)} {consumed : ℕ}
    {accounts final : AccountMap} {run : InstructionRun}
    (hrun : executeInstructions (registryExecute parameters) input loaded instructions consumed
      accounts = run)
    (h : run.outcome = .ok final) :
    Follows accounts run.steps final ∧
      (∀ step ∈ run.steps, StepOf parameters input loaded step) ∧
      run.steps.map (fun step => step.context.instruction) = instructions.map Prod.fst := by
  subst hrun
  induction instructions generalizing consumed accounts with
  | nil =>
    obtain rfl := Except.ok.inj h
    exact ⟨.nil accounts, by simp [executeInstructions], rfl⟩
  | cons entry instructions ih =>
    obtain ⟨instruction, instructionIndex⟩ := entry
    simp only [executeInstructions] at h ⊢
    by_cases hexceeded : (accumulateComputeUnits consumed
        (executeInstructionSandbox (registryExecute parameters)
          (simulationContext input loaded instruction instructionIndex consumed) accounts).1
        input.computeBudget.maxComputeUnits).2 = true
    · simp [hexceeded] at h
    · simp only [if_neg hexceeded] at h ⊢
      cases houtcome : (executeInstructionSandbox (registryExecute parameters)
          (simulationContext input loaded instruction instructionIndex consumed) accounts).2 with
      | error message => simp [houtcome] at h
      | ok next =>
        simp only [houtcome] at h ⊢
        obtain ⟨hfollows, hsteps, hinstructions⟩ := ih h
        obtain ⟨hprogram, hwrites⟩ := executeInstructionSandbox_eq_ok houtcome
        refine ⟨@Follows.cons ⟨_, accounts, next⟩ _ _ hfollows,
          forall_mem_cons.mpr ⟨?_, hsteps⟩, ?_⟩
        · exact ⟨rfl, rfl, rfl, rfl, rfl, rfl, registryExecute_eq_ok hprogram, hwrites⟩
        · rw [map_cons, hinstructions]
          rfl

end

/-- A transaction whose accounts were loaded and whose transparent fee was charged. -/
structure ChargedRun (parameters : RuntimeParameters) (input : SimulationInput) where
  settings : SimulationInput
  loaded : LoadedTransaction
  charged : LoadedTransaction
  normalized : normalizeSimulationInput input = .ok settings
  prepared : prepareSimulation parameters settings = .ok loaded
  charge : chargeTransparentFee loaded settings.rentConfig = .ok charged

/-- A transaction that was confirmed. -/
structure ConfirmedRun (parameters : RuntimeParameters) (input : SimulationInput)
    (result : TransactionExecutionResult) where
  settings : SimulationInput
  loaded : LoadedTransaction
  charged : LoadedTransaction
  final : AccountMap
  settled : AccountMap
  normalized : normalizeSimulationInput input = .ok settings
  prepared : prepareSimulation parameters settings = .ok loaded
  charge : chargeTransparentFee loaded settings.rentConfig = .ok charged
  follows : Follows (cloneLoadedAccountsToMap charged.accounts) (simulationSteps parameters input)
    final
  stepOf : ∀ step ∈ simulationSteps parameters input, StepOf parameters settings charged step
  instructions : (simulationSteps parameters input).map (fun step => step.context.instruction) =
    charged.message.instructions
  settle : chargeShieldedFee charged final settings.rentConfig = .ok settled
  fee : result.feeDetails = charged.feeDetails
  written : result.writtenAccounts =
    writtenAccountsFromMessage charged.message.accountKeys settled

section

variable {parameters : RuntimeParameters} {input : SimulationInput}
  {result outcome : TransactionExecutionResult}

theorem validated_eq_ok (h : outcome.validated = .ok result) : outcome = result := by
  simp only [TransactionExecutionResult.validated, eq_ok] at h
  exact h.2

theorem simulate_confirmed (h : simulate parameters input = .ok result)
    (hconfirmed : result.status = .confirmed) :
    Nonempty (ConfirmedRun parameters input result) := by
  obtain rfl := validated_eq_ok h
  unfold simulationResult at hconfirmed
  split at hconfirmed
  · cases hconfirmed
  next settings hnormalized =>
  split at hconfirmed
  · cases hconfirmed
  next loaded hprepared =>
  split at hconfirmed
  · cases hconfirmed
  next charged hcharged =>
  unfold finishSimulation at hconfirmed
  dsimp only at hconfirmed
  split at hconfirmed
  · cases hconfirmed
  next settled hsettled =>
  obtain ⟨final, hfinal, hcharge⟩ := bind_eq_ok.mp hsettled
  obtain ⟨hfollows, hsteps, hinstructions⟩ := executeInstructions_eq_ok rfl hfinal
  have hrun : simulationSteps parameters input =
      (runInstructions (registryExecute parameters) settings charged).steps := by
    simp only [simulationSteps, hnormalized, hprepared, hcharged]
  have hresult : simulationResult (.ok (registryExecute parameters)) parameters input =
      charged.result none settled
        (runInstructions (registryExecute parameters) settings charged).consumed := by
    simp only [simulationResult, hnormalized, hprepared, hcharged, finishSimulation, hsettled]
  rw [hresult]
  refine ⟨⟨settings, loaded, charged, final, settled, hnormalized, hprepared, hcharged, ?_, ?_, ?_,
    hcharge, rfl, rfl⟩⟩
  · rw [hrun]
    exact hfollows
  · rw [hrun]
    exact hsteps
  · rw [hrun]
    exact hinstructions.trans (zipIdx_map_fst 0 _)

end

/-! ### Loading -/

/-- What a transaction is given for an address: the account of the state or, if there is none,
an empty one. -/
inductive LoadedAs (state : ChainState) (address : PublicKey) : Account → Prop
  | existing {account : Account} (haccount : state.account? address = some account) :
      LoadedAs state address account
  | placeholder {account : Account} (hnone : state.account? address = none)
      (hempty : account.lamports = 0 ∧ account.data = [] ∧ account.executable = false)
      (howner : account.owner = defaultBuiltinProgramIDs.system ∨
        account.owner = defaultBuiltinProgramIDs.nativeLoader) : LoadedAs state address account

section

variable {accounts next : AccountMap} {address : PublicKey} {message : ResolvedMessage}
  {entries : List AddressedAccount}

/-- The table that is built from a list of accounts has an entry for each of them. -/
theorem accountMapFromAddressedAccounts_eq_ok {index : ℕ}
    (h : accountMapFromAddressedAccounts entries index accounts = .ok next) :
    (∀ address, next.lookup address =
      (accounts.lookup address).or (account? ⟨entries⟩ address)) ∧
      (entries.map AddressedAccount.address).Nodup ∧
      ∀ entry ∈ entries, accounts.lookup entry.address = none := by
  induction entries generalizing index accounts with
  | nil =>
    cases h
    exact ⟨fun address => by simp [account?, accountsAt], by simp, by simp⟩
  | cons entry entries ih =>
    simp only [accountMapFromAddressedAccounts, eq_ok, Option.not_isSome_iff_eq_none] at h
    obtain ⟨hnew, -, h⟩ := h
    obtain ⟨hlookup, hnodup, hfresh⟩ := ih h
    have hapart : entry.address ∉ entries.map AddressedAccount.address := by
      intro hmem
      obtain ⟨later, hlater, haddress⟩ := mem_map.mp hmem
      have hnone := hfresh later hlater
      rw [haddress, AList.lookup_insert] at hnone
      cases hnone
    refine ⟨fun address => ?_, ?_, ?_⟩
    · rw [hlookup, Table.lookup_insert]
      by_cases haddress : address = entry.address
      · subst haddress
        rw [hnew]
        have hrest : (entries.filter fun later => later.address = entry.address) = [] := by
          rw [filter_eq_nil_iff]
          intro later hlater hsame
          exact hapart (mem_map.mpr ⟨later, hlater, by simpa using hsame⟩)
        simp [account?, accountsAt, hrest]
      · rw [if_neg haddress]
        simp [account?, accountsAt, Ne.symm haddress]
    · exact nodup_cons.mpr ⟨hapart, hnodup⟩
    · refine forall_mem_cons.mpr ⟨hnew, fun later hlater => ?_⟩
      have hnone := hfresh later hlater
      rw [Table.lookup_insert] at hnone
      split at hnone
      · cases hnone
      · exact hnone

theorem addMissing_lookup (owner : PublicKey) (accounts : AccountMap) (missing : PublicKey) :
    (addMissing owner accounts missing).lookup address =
      (accounts.lookup address).or
        (if address = missing then some { Account.emptySystem with owner := owner } else none) := by
  unfold addMissing
  by_cases haddress : address = missing
  · subst haddress
    cases hlookup : accounts.lookup address with
    | none => simp
    | some account => simp [hlookup]
  · split
    · simp
    · simp [haddress]

/-- What a list of placeholders adds: nothing where there is an account. -/
theorem foldl_addMissing_lookup (owner : PublicKey) (missing : List PublicKey) :
    (missing.foldl (addMissing owner) accounts).lookup address =
      (accounts.lookup address).or
        (if address ∈ missing then some { Account.emptySystem with owner := owner }
          else none) := by
  induction missing generalizing accounts with
  | nil => simp
  | cons first missing ih =>
    rw [foldl_cons, ih, addMissing_lookup]
    cases accounts.lookup address with
    | some account => simp
    | none =>
      by_cases hfirst : address = first
      · simp [hfirst]
      · simp [hfirst]

theorem loadedAs_of_lookup {account : Account}
    (h : accountMapFromAddressedAccounts entries 0 ∅ = .ok accounts)
    (hlookup : (addMissingAccountPlaceholders message accounts).lookup address = some account) :
    LoadedAs ⟨entries⟩ address account := by
  have hstate := (accountMapFromAddressedAccounts_eq_ok h).1 address
  rw [AList.lookup_empty] at hstate
  rw [addMissingAccountPlaceholders, foldl_addMissing_lookup, foldl_addMissing_lookup,
    hstate] at hlookup
  cases haccount : account? ⟨entries⟩ address with
  | some found =>
    obtain rfl : found = account := by simpa [haccount] using hlookup
    exact .existing haccount
  | none =>
    rw [haccount] at hlookup
    split at hlookup
    · obtain rfl : _ = account := by simpa using hlookup
      exact .placeholder haccount ⟨rfl, rfl, rfl⟩ (.inr rfl)
    · split at hlookup
      · obtain rfl : _ = account := by simpa using hlookup
        exact .placeholder haccount ⟨rfl, rfl, rfl⟩ (.inl rfl)
      · cases hlookup

/-- The accounts are those of the message, in its order. -/
theorem loadSimulationAccounts_eq_ok (h : loadSimulationAccounts message accounts = .ok entries) :
    entries.map AddressedAccount.address = message.accountKeys ∧
      ∀ entry ∈ entries, accounts.lookup entry.address = some entry.account := by
  have hloaded := mapM_eq_ok h
  suffices hlist : ∀ keys : List (PublicKey × ℕ), Forall₂ (fun key entry => (do
        let account ← orFail (accounts.lookup key.1)
          s!"structure: invalid loaded transaction: account {key.2} is missing"
        pure ({ address := key.1, account } : AddressedAccount)) = .ok entry) keys entries →
      entries.map AddressedAccount.address = keys.map Prod.fst ∧
        ∀ entry ∈ entries, accounts.lookup entry.address = some entry.account by
    have hkeys := hlist _ hloaded
    rwa [zipIdx_map_fst] at hkeys
  clear h hloaded
  intro keys hkeys
  induction hkeys with
  | nil => simp
  | cons hhead _ ih =>
    simp only [eq_ok] at hhead
    obtain ⟨account, hlookup, rfl⟩ := hhead
    exact ⟨by rw [map_cons, map_cons, ih.1], forall_mem_cons.mpr ⟨hlookup, ih.2⟩⟩

end

/-! ### The accounts of a confirmed transaction -/

/-- The state a transaction is executed on. -/
def SimulationInput.state (input : SimulationInput) : ChainState where
  accounts := input.accounts

/-- The message in the form in which it is executed. -/
def SimulationInput.message (input : SimulationInput) : ResolvedMessage :=
  .ofMessage input.transaction.message

def SimulationInput.nextState (input : SimulationInput) (result : TransactionExecutionResult) :
    ChainState :=
  input.state.applyWrites result.writtenAccounts

/-- What a fee takes from an account. -/
def Account.debited (account : Account) (lamports : ℕ) : Account :=
  { account with lamports := account.lamports - lamports }

theorem Account.sameState_debited (account : Account) (lamports : ℕ) :
    account.SameState (account.debited lamports) :=
  ⟨rfl, rfl, rfl⟩

/-- What loading has checked and computed. -/
structure ConfirmedRun.Prepared (parameters : RuntimeParameters) (input : SimulationInput)
    (loaded : LoadedTransaction) : Prop where
  valid : input.transaction.validate parameters.shielded.toShieldedAddresses = .ok ()
  message : loaded.message = input.message
  nodup_keys : input.message.accountKeys.Nodup
  keys_ne_nil : input.message.accountKeys ≠ []
  nodup_addresses : input.state.addresses.Nodup
  accountStates : ∀ address account, loaded.accountStates.lookup address = some account →
    LoadedAs input.state address account
  feePayer : loaded.feePayer = input.message.accountKeys.headD 0
  feeSource : loaded.feeSource = if input.message.header.numRequiredSignatures = 0 then
    .shieldedPool else .transparentAccount

namespace ChargedRun

variable {parameters : RuntimeParameters} {input : SimulationInput} {address : PublicKey}

section

variable (run : ChargedRun parameters input)

theorem settings_eq :
    run.settings.transaction = input.transaction ∧ run.settings.accounts = input.accounts ∧
      run.settings.currentEpoch = input.currentEpoch := by
  have h := run.normalized
  simp only [normalizeSimulationInput, eq_ok] at h
  obtain ⟨_, -, h⟩ := h
  rw [← h]
  exact ⟨rfl, rfl, rfl⟩

theorem nodup_of_newResolvedMessage {message : OrdexusMessage}
    {resolved : ResolvedMessage} (h : newResolvedMessage message = .ok resolved) :
    resolved = .ofMessage message ∧ message.accountKeys.Nodup ∧ message.accountKeys ≠ [] := by
  simp only [newResolvedMessage, eq_ok] at h
  obtain ⟨-, hvalid, rfl⟩ := h
  simp only [ResolvedMessage.validate, eq_ok, not_not] at hvalid
  obtain ⟨-, hkeys, -, hnodup, -⟩ := hvalid
  exact ⟨rfl, hnodup, hkeys⟩

theorem prepareSimulation_eq_ok {loaded : LoadedTransaction}
    (h : prepareSimulation parameters input = .ok loaded) :
    ConfirmedRun.Prepared parameters input loaded := by
  simp only [prepareSimulation, eq_ok] at h
  obtain ⟨hvalid, _, -, -, _, -, -, -, -, -, resolved, hresolved, feeDetails, -, accounts,
    haccounts, entries, -, h⟩ := h
  simp only [newLoadedTransaction, eq_ok] at h
  obtain ⟨-, rfl⟩ := h
  obtain ⟨rfl, hnodup, hkeys⟩ := nodup_of_newResolvedMessage hresolved
  exact
    { valid := hvalid
      message := rfl
      nodup_keys := hnodup
      keys_ne_nil := hkeys
      nodup_addresses := (accountMapFromAddressedAccounts_eq_ok haccounts).2.1
      accountStates := fun _ _ => loadedAs_of_lookup haccounts
      feePayer := rfl
      feeSource := rfl }

theorem prepares : ConfirmedRun.Prepared parameters input run.loaded := by
  obtain ⟨htransaction, haccounts, -⟩ := run.settings_eq
  have h := prepareSimulation_eq_ok run.prepared
  have hmessage : run.settings.message = input.message := by
    rw [SimulationInput.message, htransaction, SimulationInput.message]
  have hstate : run.settings.state = input.state := by
    rw [SimulationInput.state, haccounts, SimulationInput.state]
  exact
    { valid := htransaction ▸ h.valid
      message := hmessage ▸ h.message
      nodup_keys := hmessage ▸ h.nodup_keys
      keys_ne_nil := hmessage ▸ h.keys_ne_nil
      nodup_addresses := hstate ▸ h.nodup_addresses
      accountStates := hstate ▸ h.accountStates
      feePayer := hmessage ▸ h.feePayer
      feeSource := hmessage ▸ h.feeSource }

/-- The fee that is taken from an account before the first instruction. -/
def transparentFee (address : PublicKey) : ℕ :=
  if run.charged.feeSource = .transparentAccount ∧ address = run.charged.feePayer then
    run.charged.feeDetails.totalFee
  else 0

/-- The accounts the first instruction starts from. -/
def initial : AccountMap :=
  cloneLoadedAccountsToMap run.charged.accounts

end

theorem debitSimulationFee_eq_ok {feePayer : PublicKey} {totalFee : ℕ}
    {accounts next : AccountMap} {rentConfig : RentConfig}
    (h : debitSimulationFee feePayer totalFee accounts rentConfig = .ok next) :
    ∃ payer, accounts.lookup feePayer = some payer ∧ totalFee ≤ payer.lamports ∧
      next = accounts.insert feePayer (payer.debited totalFee) := by
  simp only [debitSimulationFee, eq_ok] at h
  obtain ⟨payer, hpayer, debited, hdebited, rfl⟩ := h
  obtain ⟨henough, rfl⟩ := Account.debitLamports_eq_ok hdebited
  exact ⟨payer, hpayer, henough, rfl⟩

/-- A fee that is taken from one account, seen from any account. -/
theorem lookup_debited {feePayer : PublicKey} {fee : ℕ} {accounts : AccountMap}
    {payer : Account} (hpayer : accounts.lookup feePayer = some payer)
    (henough : fee ≤ payer.lamports) (address : PublicKey) :
    (accounts.insert feePayer (payer.debited fee)).lookup address =
        (accounts.lookup address).map (·.debited (if address = feePayer then fee else 0)) ∧
      ∀ account, accounts.lookup address = some account →
        (if address = feePayer then fee else 0) ≤ account.lamports := by
  rw [Table.lookup_insert]
  by_cases haddress : address = feePayer
  · subst haddress
    simp [hpayer, henough]
  · simp only [if_neg haddress]
    refine ⟨?_, fun account _ => Nat.zero_le _⟩
    cases accounts.lookup address <;> rfl

theorem chargeTransparentFee_eq_ok {loaded charged : LoadedTransaction}
    {rentConfig : RentConfig} (h : chargeTransparentFee loaded rentConfig = .ok charged) :
    ∃ accountStates accounts,
      (if loaded.feeSource = .transparentAccount then
          debitSimulationFee loaded.feePayer loaded.feeDetails.totalFee loaded.accountStates
            rentConfig
        else pure loaded.accountStates) = .ok accountStates ∧
      loadSimulationAccounts loaded.message accountStates = .ok accounts ∧
      charged = { loaded with accountStates := accountStates, accounts := accounts } := by
  unfold chargeTransparentFee at h
  split at h
  · next htransparent =>
    simp only [eq_ok] at h
    obtain ⟨accountStates, hstates, accounts, haccounts, rfl⟩ := h
    exact ⟨accountStates, accounts, by rw [if_pos htransparent, hstates], haccounts, rfl⟩
  · next hshielded =>
    simp only [eq_ok] at h
    obtain ⟨accountStates, hstates, accounts, haccounts, rfl⟩ := h
    exact ⟨accountStates, accounts, by rw [if_neg hshielded, hstates]; rfl, haccounts, rfl⟩

section

variable (run : ChargedRun parameters input)

theorem charged_eq :
    run.charged.message = input.message ∧ run.charged.feePayer = run.loaded.feePayer ∧
      run.charged.feeSource = run.loaded.feeSource ∧
      run.charged.feeDetails = run.loaded.feeDetails ∧
      loadSimulationAccounts input.message run.charged.accountStates =
        .ok run.charged.accounts := by
  obtain ⟨accountStates, accounts, -, haccounts, h⟩ := chargeTransparentFee_eq_ok run.charge
  rw [run.prepares.message] at haccounts
  rw [h]
  exact ⟨run.prepares.message, rfl, rfl, rfl, haccounts⟩

theorem charged_lookup (address : PublicKey) :
    run.charged.accountStates.lookup address =
        (run.loaded.accountStates.lookup address).map (·.debited (run.transparentFee address)) ∧
      ∀ account, run.loaded.accountStates.lookup address = some account →
        run.transparentFee address ≤ account.lamports := by
  obtain ⟨-, hpayer, hsource, hdetails, -⟩ := run.charged_eq
  obtain ⟨accountStates, accounts, hstates, -, h⟩ := chargeTransparentFee_eq_ok run.charge
  have hcharged : run.charged.accountStates = accountStates := by rw [h]
  rw [hcharged, transparentFee, hpayer, hsource, hdetails]
  split at hstates
  · next htransparent =>
    obtain ⟨payer, hlookup, henough, rfl⟩ := debitSimulationFee_eq_ok hstates
    simpa only [htransparent, true_and] using lookup_debited hlookup henough address
  · next hshielded =>
    cases hstates
    simp only [hshielded, false_and, if_false]
    refine ⟨?_, fun account _ => Nat.zero_le _⟩
    cases run.loaded.accountStates.lookup address <;> rfl

/-- The listed accounts are those of the message, and the table has them and no other. -/
theorem initial_lookup :
    run.charged.accounts.map AddressedAccount.address = input.message.accountKeys ∧
      (∀ entry ∈ run.charged.accounts, run.initial.lookup entry.address = some entry.account ∧
        run.charged.accountStates.lookup entry.address = some entry.account) ∧
      ∀ address ∉ input.message.accountKeys, run.initial.lookup address = none := by
  obtain ⟨-, -, -, -, hload⟩ := run.charged_eq
  obtain ⟨hkeys, hentries⟩ := loadSimulationAccounts_eq_ok hload
  rw [initial, cloneLoadedAccountsToMap, TableWrite.foldl_insert]
  refine ⟨hkeys, fun entry hentry => ⟨?_, hentries entry hentry⟩, fun address haddress => ?_⟩
  · rw [TableWrite.lookup_applyAll_puts (hkeys ▸ run.prepares.nodup_keys)]
    exact .inl ⟨entry, hentry, rfl, rfl⟩
  · rw [← hkeys] at haddress
    exact TableWrite.lookup_applyAll_of_not_mem (by simpa [TableWrite.key] using haddress)

/-- Every account of the message starts as it was loaded, less the transparent fee. -/
theorem exists_initial (haddress : address ∈ input.message.accountKeys) :
    ∃ account, LoadedAs input.state address account ∧
      run.transparentFee address ≤ account.lamports ∧
      run.initial.lookup address = some (account.debited (run.transparentFee address)) := by
  obtain ⟨hkeys, hentries, -⟩ := run.initial_lookup
  obtain ⟨entry, hentry, rfl⟩ := mem_map.mp (hkeys ▸ haddress)
  obtain ⟨hinitial, hstate⟩ := hentries entry hentry
  obtain ⟨hcharged, hfee⟩ := run.charged_lookup entry.address
  rw [hcharged] at hstate
  obtain ⟨account, haccount, hdebited⟩ := Option.map_eq_some_iff.mp hstate
  rw [← hdebited] at hinitial
  exact ⟨account, run.prepares.accountStates _ _ haccount, hfee account haccount, hinitial⟩

end

end ChargedRun

namespace ConfirmedRun

variable {parameters : RuntimeParameters} {input : SimulationInput}
  {result : TransactionExecutionResult} {address : PublicKey}

section

variable (run : ConfirmedRun parameters input result)

def toChargedRun : ChargedRun parameters input where
  settings := run.settings
  loaded := run.loaded
  charged := run.charged
  normalized := run.normalized
  prepared := run.prepared
  charge := run.charge

theorem prepares : Prepared parameters input run.loaded :=
  run.toChargedRun.prepares

def transparentFee (address : PublicKey) : ℕ :=
  if run.charged.feeSource = .transparentAccount ∧ address = run.charged.feePayer then
    result.feeDetails.totalFee
  else 0

/-- The fee that is taken from an account after the last instruction. -/
def shieldedFee (address : PublicKey) : ℕ :=
  if run.charged.feeSource = .shieldedPool ∧ address = run.charged.feePayer then
    result.feeDetails.totalFee
  else 0

theorem toChargedRun_transparentFee (address : PublicKey) :
    run.toChargedRun.transparentFee address = run.transparentFee address := by
  rw [transparentFee, run.fee]
  rfl

def initial : AccountMap :=
  cloneLoadedAccountsToMap run.charged.accounts

end

section

variable (run : ConfirmedRun parameters input result)

theorem charged_eq :
    run.charged.message = input.message ∧ run.charged.feePayer = run.loaded.feePayer ∧
      run.charged.feeSource = run.loaded.feeSource := by
  obtain ⟨hmessage, hpayer, hsource, -⟩ := run.toChargedRun.charged_eq
  exact ⟨hmessage, hpayer, hsource⟩

theorem exists_initial (haddress : address ∈ input.message.accountKeys) :
    ∃ account, LoadedAs input.state address account ∧
      run.transparentFee address ≤ account.lamports ∧
      run.initial.lookup address = some (account.debited (run.transparentFee address)) := by
  rw [← run.toChargedRun_transparentFee]
  exact run.toChargedRun.exists_initial haddress

end

/-- A table with an account for each address of the message and no other. -/
def Covers (message : ResolvedMessage) (accounts : AccountMap) : Prop :=
  ∀ address, (accounts.lookup address).isSome ↔ address ∈ message.accountKeys

theorem Covers.mem {message : ResolvedMessage} {accounts : AccountMap} {account : Account}
    (h : Covers message accounts) (hlookup : accounts.lookup address = some account) :
    address ∈ message.accountKeys :=
  (h address).mp (by simp [hlookup])

theorem Covers.exists_lookup {message : ResolvedMessage} {accounts : AccountMap}
    (h : Covers message accounts) (hmem : address ∈ message.accountKeys) :
    ∃ account, accounts.lookup address = some account :=
  Option.isSome_iff_exists.mp ((h address).mpr hmem)

section

variable (run : ConfirmedRun parameters input result)
include run

theorem initial_covers : Covers input.message run.initial := by
  intro address
  by_cases haddress : address ∈ input.message.accountKeys
  · obtain ⟨account, -, -, hlookup⟩ := run.exists_initial haddress
    simp [hlookup, haddress]
  · have hnone : run.initial.lookup address = none :=
      run.toChargedRun.initial_lookup.2.2 address haddress
    simp [hnone, haddress]

theorem step_message {step : InstructionStep} (hstep : step ∈ simulationSteps parameters input) :
    step.context.message = input.message :=
  (run.stepOf step hstep).message.trans run.charged_eq.1

theorem instruction_mem {step : InstructionStep}
    (hstep : step ∈ simulationSteps parameters input) :
    step.context.instruction ∈ input.message.instructions := by
  rw [← run.charged_eq.1, ← run.instructions]
  exact mem_map_of_mem hstep

/-- Steps neither lose accounts nor create any outside the message. -/
theorem covers :
    Covers input.message run.final ∧
      ∀ step ∈ simulationSteps parameters input, Covers input.message step.before := by
  refine run.follows.invariant run.initial_covers
    fun step hstep (hbefore : Covers input.message step.before) address => ?_
  have hof := run.stepOf step hstep
  constructor
  · intro hafter
    rw [← run.step_message hstep]
    by_cases hnone : step.before.lookup address = none
    · exact mem_accountKeys_of_created hof.writes hnone hafter
    · rw [run.step_message hstep, ← hbefore address]
      exact Option.isSome_iff_ne_none.mpr hnone
  · intro hmem
    obtain ⟨before, hlookup⟩ := hbefore.exists_lookup hmem
    obtain ⟨after, hafter, -⟩ := hof.program.changes address before hlookup
    simp [hafter]

theorem settled_lookup (address : PublicKey) :
    run.settled.lookup address =
        (run.final.lookup address).map (·.debited (run.shieldedFee address)) ∧
      ∀ account, run.final.lookup address = some account →
        run.shieldedFee address ≤ account.lamports := by
  have h := run.settle
  rw [shieldedFee, run.fee]
  unfold chargeShieldedFee at h
  split at h
  · next hshielded =>
    obtain ⟨payer, hlookup, henough, hsettled⟩ := ChargedRun.debitSimulationFee_eq_ok h
    rw [hsettled]
    simpa only [hshielded, true_and] using ChargedRun.lookup_debited hlookup henough address
  · next htransparent =>
    rw [← pure_eq_ok.mp h]
    simp only [htransparent, false_and, if_false]
    refine ⟨?_, fun account _ => Nat.zero_le _⟩
    cases run.final.lookup address <;> rfl

/-! What is written back -/

theorem written_eq : result.writtenAccounts = input.message.accountKeys.map fun address =>
    { address, account := accountOrZero run.settled address } := by
  rw [run.written, run.charged_eq.1, writtenAccountsFromMessage]

theorem written_addresses :
    result.writtenAccounts.map AddressedAccount.address = input.message.accountKeys := by
  rw [run.written_eq, map_map]
  exact map_id _

theorem nextState_of_not_mem (haddress : address ∉ input.message.accountKeys) :
    (input.nextState result).account? address = input.state.account? address := by
  rw [← run.written_addresses] at haddress
  exact account?_applyWrites_of_not_mem haddress

/-- Every account of the message is written back, empty entries of built-in programs apart. -/
theorem nextState_of_mem (haddress : address ∈ input.message.accountKeys) {final : Account}
    (hfinal : run.final.lookup address = some final) :
    (input.nextState result).account? address =
      if input.state.account? address = none ∧ isBuiltinProgramPlaceholder
          ⟨address, final.debited (run.shieldedFee address)⟩ = true then none
      else some (final.debited (run.shieldedFee address)) := by
  have hsettled := (run.settled_lookup address).1
  rw [hfinal] at hsettled
  have hwritten : ⟨address, final.debited (run.shieldedFee address)⟩ ∈
      result.writtenAccounts := by
    rw [run.written_eq, mem_map]
    exact ⟨address, haddress, by rw [accountOrZero_of_lookup hsettled]⟩
  have hnodup : (result.writtenAccounts.map AddressedAccount.address).Nodup := by
    rw [run.written_addresses]
    exact run.prepares.nodup_keys
  exact account?_applyWrites hnodup hwritten

/-! Who pays the fee -/

theorem isSigner_iff {step : InstructionStep} (hstep : step ∈ simulationSteps parameters input) :
    step.context.isSignerContextAddress address = true ↔
      isSignerAddress address input.message = true := by
  rw [InstructionContext.isSignerContextAddress, (run.stepOf step hstep).signers,
    run.step_message hstep]
  simp

/-- A transparent fee is paid by the first signer. -/
theorem signed_of_transparentFee (h : run.transparentFee address ≠ 0) :
    isSignerAddress address input.message = true := by
  obtain ⟨-, hpayer, hsource⟩ := run.charged_eq
  unfold transparentFee at h
  split at h
  · next hpays =>
    obtain ⟨htransparent, haddress⟩ := hpays
    rw [hsource, run.prepares.feeSource] at htransparent
    have hsigned : input.message.header.numRequiredSignatures ≠ 0 := by
      intro hzero
      rw [if_pos hzero] at htransparent
      cases htransparent
    rw [haddress, hpayer, run.prepares.feePayer]
    obtain ⟨key, keys, hlist⟩ := exists_cons_of_ne_nil run.prepares.keys_ne_nil
    obtain ⟨required, hrequired⟩ := Nat.exists_eq_succ_of_ne_zero hsigned
    have hstatic : input.message.staticAccountKeys = key :: keys := hlist
    simp [isSignerAddress, hstatic, hlist, hrequired]
  · exact absurd rfl h

/-- A shielded fee is paid by the pool; the only instruction is one of its program. -/
theorem unsigned_of_shieldedFee (h : run.charged.feeSource = .shieldedPool) :
    run.charged.feePayer = parameters.shielded.pool ∧
      ∃ step, simulationSteps parameters input = [step] ∧
        step.context.program = some Shielded.programID := by
  obtain ⟨hmessage, hpayer, hsource⟩ := run.charged_eq
  rw [hsource, run.prepares.feeSource] at h
  have hunsigned : input.message.header.numRequiredSignatures = 0 := by
    by_contra hsigned
    rw [if_neg hsigned] at h
    cases h
  obtain ⟨compiled, instruction, hinstructions, hprogram, -, -, hpool⟩ :=
    Transaction.unsigned_of_validate run.prepares.valid hunsigned
  have hsteps := run.instructions
  have hone : run.charged.message.instructions = [compiled] := by
    rw [hmessage]
    exact hinstructions
  rw [hone] at hsteps
  obtain ⟨step, hstep, hcompiled⟩ := map_eq_singleton_iff.mp hsteps
  refine ⟨?_, step, hstep, ?_⟩
  · rw [hpayer, run.prepares.feePayer]
    have hhead : input.message.accountKeys.head? = some parameters.shielded.pool := by
      rw [head?_eq_getElem?]
      exact hpool
    rw [headD_eq_head?_getD, hhead]
    rfl
  · have hmember : step ∈ simulationSteps parameters input := by simp [hstep]
    rw [InstructionContext.program, run.step_message hmember, hcompiled]
    exact hprogram

end

end ConfirmedRun

/-! ### Runs of transactions -/

/-- A transaction that is executed on a given state. -/
def SimulationInput.on (event : SimulationInput) (state : ChainState) : SimulationInput :=
  { event with accounts := state.accounts }

section

variable (parameters : RuntimeParameters) (state : ChainState) (event : SimulationInput)

/-- The state after a transaction: it changes only if the transaction is confirmed. -/
def executeTransaction : ChainState :=
  match simulate parameters (event.on state) with
  | .error _ => state
  | .ok result =>
    if result.status = .confirmed then (event.on state).nextState result else state

/-- Whether a transaction is confirmed on a state. -/
def isConfirmed : Bool :=
  match simulate parameters (event.on state) with
  | .error _ => false
  | .ok result => decide (result.status = .confirmed)

/-- A transaction that is not confirmed changes nothing; a confirmed one has a run. -/
theorem executeTransaction_cases :
    isConfirmed parameters state event = false ∧
        executeTransaction parameters state event = state ∨
      isConfirmed parameters state event = true ∧
        ∃ result, Nonempty (ConfirmedRun parameters (event.on state) result) ∧
          executeTransaction parameters state event = (event.on state).nextState result := by
  unfold isConfirmed executeTransaction
  cases hresult : simulate parameters (event.on state) with
  | error message => exact .inl ⟨rfl, rfl⟩
  | ok result =>
    by_cases hconfirmed : result.status = .confirmed
    · exact .inr ⟨by simp [hconfirmed], result, simulate_confirmed hresult hconfirmed,
        by simp [hconfirmed]⟩
    · exact .inl ⟨by simp [hconfirmed], by simp [hconfirmed]⟩

end

/-! Concrete transactions run with a pool at address 900 and with the marker of a nullifier
1000 addresses above it; every signature and every proof is accepted. -/

def sampleShielded : Shielded.Program where
  pool := 900
  nullifierAccount := fun nullifier => 1000 + nullifier
  verifyingKeyHash := 7
  merkleNode := fun left right => .ok (left + right + 1)
  parseEncryptedNote := fun note => .ok (note.take 32)
  contextDigest := fun _ => .ok 1
  verifyShieldedCircuit := fun _ _ => .ok ()

def sampleParameters : RuntimeParameters where
  hasValidSignatures := fun _ => .ok true
  txIDString := fun _ => .ok [1]
  shielded := sampleShielded
  loader :=
    { policy :=
        { allowedDeployers := [], minDeploymentDepositLamports := 0, requireManifest := false
          allowUpgradeableContracts := false }
      loadBytecode := fun _ => .ok ()
      decodeProgramManifest := fun _ => .ok none }

/-- The first account signs, the last one is the program of the instruction. -/
def sampleInput (accounts : List AddressedAccount) (accountKeys : List PublicKey)
    (hkeys : ∀ key ∈ accountKeys, key < 256 ^ 32) (accountIndexes : List ℕ) (data : Bytes) :
    SimulationInput where
  transaction :=
    { signatures := [1]
      message :=
        { header := { numRequiredSignatures := 1, numReadonlySignedAccounts := 0
                      numReadonlyUnsignedAccounts := 1 }
          accountKeys := accountKeys
          recentBlockhash := 1
          instructions := [{ programIDIndex := accountKeys.length - 1, accountIndexes, data }]
          addressTableLookups := []
          version := 0
          usesAddressTable := false
          key_lt := hkeys } }
  accounts := accounts
  blockhashQueue := { entries := [{ blockhash := 1, slot := 1 }], maxAgeSlots := 150 }
  currentSlot := 1
  currentEpoch := 1
  feeCalculator := .zero
  computeBudget := .zero
  rentConfig := .zero
  processedTxIDs := []

/-- Account 1 pays 2000000 lamports to account 2. -/
def paymentInput : SimulationInput :=
  sampleInput [⟨1, Stake.sampleWallet⟩, ⟨2, Stake.sampleWallet⟩] [1, 2, System.programID]
    (by decide) [0, 1] (littleEndian 4 2 ++ littleEndian 8 2000000)

end Ordexus
