import Mathlib.Algebra.BigOperators.Group.Finset.Piecewise
import Ordexus.Runtime.ConfirmedTransaction

/-!
# Where lamports come from and go to

A transfer takes both accounts out of the table before it writes either of them back. Between
two accounts it moves lamports; from an account to itself it creates them. A delegation
writes the validator account back as it was before the transfer, so what was delegated is
gone. Nothing else changes the sum of all balances but the fee.
-/

namespace Ordexus

open Checked List

/-- The first two accounts of the instruction are the same. -/
def InstructionContext.MovesToItself (context : InstructionContext) : Prop :=
  context.accountAddressAt 0 = context.accountAddressAt 1

instance (context : InstructionContext) : Decidable context.MovesToItself :=
  inferInstanceAs (Decidable (_ = _))

section

variable (context : InstructionContext)

/-- The lamports that an instruction moves between its first two accounts. -/
def lamportsMoved (accounts : AccountMap) : ℕ :=
  if context.program = some System.programID then
    match System.unmarshalSystemInstructionBinary context.instruction.data with
    | .ok (.transfer lamports) => lamports
    | _ => 0
  else if context.program = some Stake.programID then
    match Stake.unmarshalInstructionBinary context.instruction.data,
      context.accountAddressAt 0, context.accountAddressAt 1 with
    | .ok instruction, .ok party, .ok validator =>
      if instruction.type = .registerValidator ∨ instruction.type = .stake then instruction.amount
      else Stake.withdrawn instruction party (Stake.stateAt accounts validator)
    | _, _, _ => 0
  else if context.program = some Shielded.programID then
    match unmarshalShieldedTransferInstructionBinary context.instruction.data with
    | .ok instruction => instruction.transparentInputAmount
    | .error _ => 0
  else 0

/-- The lamports that an instruction delegates to a validator account. -/
def lamportsDelegated : ℕ :=
  if context.program = some Stake.programID then
    match Stake.unmarshalInstructionBinary context.instruction.data with
    | .ok instruction => if instruction.type = .delegate then instruction.amount else 0
    | .error _ => 0
  else 0

/-- What an instruction creates: lamports that it moves from an account to itself. -/
def lamportsCreated (accounts : AccountMap) : ℕ :=
  if context.MovesToItself then lamportsMoved context accounts else 0

/-- What an instruction destroys: lamports delegated by another account. -/
def lamportsDestroyed : ℕ :=
  if context.MovesToItself then 0 else lamportsDelegated context

/-- The sum of all balances changes by what an instruction creates and destroys. -/
def Accounted (accounts next : AccountMap) : Prop :=
  AccountMap.lamports next + lamportsDestroyed context =
    AccountMap.lamports accounts + lamportsCreated context accounts

end

/-! ### One instruction -/

section

variable {parameters : RuntimeParameters} {context : InstructionContext}
  {accounts next : AccountMap}

theorem lamports_insert_of_lamports {address : PublicKey} {account : Account}
    (h : account.lamports = (accountOrZero accounts address).lamports) :
    AccountMap.lamports (accounts.insert address account) = AccountMap.lamports accounts := by
  have hinsert := AccountMap.lamports_insert accounts address account
  omega

theorem movesToItself_iff {first second : PublicKey}
    (hfirst : context.accountAddressAt 0 = .ok first)
    (hsecond : context.accountAddressAt 1 = .ok second) :
    context.MovesToItself ↔ first = second := by
  rw [InstructionContext.MovesToItself, hfirst, hsecond, Except.ok.injEq]

theorem system_lamports (hprogram : context.program = some System.programID)
    (h : System.execute context accounts = .ok next) :
    Accounted context accounts next := by
  have hdestroyed : lamportsDestroyed context = 0 := by
    simp only [lamportsDestroyed, lamportsDelegated, hprogram, Option.some.injEq]
    rw [if_neg (by decide : System.programID ≠ Stake.programID), ite_self]
  obtain ⟨instruction, hdecode, h⟩ := bind_eq_ok.mp h
  rw [Accounted, hdestroyed, lamportsCreated, lamportsMoved, if_pos hprogram, hdecode]
  cases instruction with
  | transfer lamports =>
    obtain ⟨source, destination, hsource, hdestination, -, -, -, htransfer⟩ :=
      System.executeSystemTransfer_eq_ok h
    rw [transferLamports_lamports htransfer]
    simp only [movesToItself_iff hsource hdestination, Nat.add_zero]
  | createAccount lamports space owner =>
    obtain ⟨payer, created, funded, -, -, -, -, hne, -, -, -, -, hfunded, rfl⟩ :=
      System.executeSystemCreateAccount_eq_ok h
    rw [lamports_insert_of_lamports (by rfl), transferLamports_lamports hfunded, if_neg hne]
    simp
  | assign owner =>
    obtain ⟨target, -, -, -, rfl⟩ := System.executeSystemAssign_eq_ok h
    rw [lamports_insert_of_lamports (by rfl)]
    simp
  | allocate space =>
    obtain ⟨target, data, -, -, -, rfl⟩ := System.executeSystemAllocate_eq_ok h
    rw [lamports_insert_of_lamports (by rfl)]
    simp

theorem dataWrites_lamports {owner : PublicKey} (hprogram : context.program = some owner)
    (howner : owner ≠ System.programID ∧ owner ≠ Stake.programID ∧ owner ≠ Shielded.programID)
    (h : DataWrites owner accounts next) :
    Accounted context accounts next := by
  obtain ⟨hsystem, hstake, hshielded⟩ := howner
  simp [Accounted, h.lamports, lamportsDestroyed, lamportsDelegated, lamportsCreated,
    lamportsMoved, hprogram, hsystem, hstake, hshielded]

theorem withdrawn_eq_zero {instruction : Stake.Instruction} {party : PublicKey}
    (state : Option Stake.ValidatorState)
    (h : instruction.type ≠ .withdrawUnstaked ∧ instruction.type ≠ .withdrawDelegation) :
    Stake.withdrawn instruction party state = 0 := by
  cases state with
  | none => rfl
  | some state =>
    unfold Stake.withdrawn
    cases htype : instruction.type <;> simp_all

/-- The payment of a stake instruction and the account it writes its state into. -/
theorem payment_lamports {instruction : Stake.Instruction} {party validator : PublicKey}
    {middle : AccountMap} {account : Account} {data : Bytes}
    (h : Stake.Payment context accounts instruction party validator middle account) :
    AccountMap.lamports (middle.insert validator (Stake.Account.withState account data)) +
        (if party = validator then 0
          else if instruction.type = .delegate then instruction.amount else 0) =
      AccountMap.lamports accounts +
        if party = validator then
          if instruction.type = .registerValidator ∨ instruction.type = .stake then
            instruction.amount
          else Stake.withdrawn instruction party (Stake.stateAt accounts validator)
        else 0 := by
  cases h with
  | deposit htype htransfer =>
    have hdelegate : instruction.type ≠ .delegate := by
      rcases htype with htype | htype <;> simp [htype]
    rw [lamports_insert_of_lamports (by rfl), transferLamports_lamports htransfer]
    simp only [htype, hdelegate, if_true, if_false, ite_self, Nat.add_zero]
  | delegation htype htransfer hlookup =>
    -- the account that is written back does not have the delegated lamports
    have hnone := @withdrawn_eq_zero instruction party (Stake.stateAt accounts validator)
      (by simp [htype])
    have hcredited : accountOrZero middle validator =
        { account with lamports := account.lamports + instruction.amount } := by
      have hdestination := transferLamports_lookup htransfer validator
      rw [if_pos rfl, accountOrZero_of_lookup hlookup] at hdestination
      exact accountOrZero_of_lookup hdestination
    have hinsert := AccountMap.lamports_insert middle validator
      (Stake.Account.withState account data)
    have htotal := transferLamports_lamports htransfer
    simp only [Stake.Account.withState, htype, hnone, reduceCtorEq, or_self, if_true, if_false,
      ite_self] at hinsert ⊢
    split <;> simp_all <;> omega
  | unpaid htype hlookup =>
    have hnone := @withdrawn_eq_zero instruction party (Stake.stateAt accounts validator)
      (by rcases htype with h | h | h | h <;> simp [h])
    have hother : ¬(instruction.type = .registerValidator ∨ instruction.type = .stake) ∧
        instruction.type ≠ .delegate := by
      rcases htype with h | h | h | h <;> simp [h]
    rw [lamports_insert_of_lamports (by rw [accountOrZero_of_lookup hlookup]; rfl), hnone,
      if_neg hother.1, if_neg hother.2]
  | withdrawal htype htransfer =>
    have hother : ¬(instruction.type = .registerValidator ∨ instruction.type = .stake) ∧
        instruction.type ≠ .delegate := by
      rcases htype with h | h <;> simp [h]
    rw [lamports_insert_of_lamports (by rfl), transferLamports_lamports htransfer,
      if_neg hother.1, if_neg hother.2, ite_self, Nat.add_zero]
    simp only [@eq_comm _ validator party]

theorem stake_lamports (hprogram : context.program = some Stake.programID)
    (h : Stake.execute context accounts = .ok next) :
    Accounted context accounts next := by
  obtain ⟨instruction, party, validator, state, hdecode, hexecutes⟩ := Stake.execute_executes h
  obtain ⟨middle, account, data, hpayment, -, -, rfl⟩ := hexecutes.written
  have hsame := movesToItself_iff hexecutes.partyAt hexecutes.validatorAt
  have hnotSystem : context.program ≠ some System.programID := by
    rw [hprogram]
    decide
  simp only [Accounted, lamportsDestroyed, lamportsDelegated, lamportsCreated, lamportsMoved,
    if_pos hprogram, if_neg hnotSystem, hdecode, hexecutes.partyAt, hexecutes.validatorAt, hsame]
  exact payment_lamports hpayment

theorem payIf_lamports {source destination : Option PublicKey} {amount : ℕ}
    {rentConfig : RentConfig}
    (h : Shielded.payIf source destination amount accounts rentConfig = .ok next) :
    AccountMap.lamports next = AccountMap.lamports accounts +
      if source.isSome ∧ source = destination then amount else 0 := by
  unfold Shielded.payIf at h
  split at h
  · next payer payee =>
    rw [transferLamports_lamports h]
    simp
  · next hnone =>
    cases h
    cases source with
    | none => simp
    | some payer =>
      cases destination with
      | none => simp
      | some payee => exact absurd rfl (hnone payer payee rfl)

theorem storeNullifierMarkers_lamports (markers : List PublicKey) :
    AccountMap.lamports (Shielded.storeNullifierMarkers accounts markers) =
      AccountMap.lamports accounts := by
  induction markers generalizing accounts with
  | nil => rfl
  | cons marker markers ih =>
    rw [Shielded.storeNullifierMarkers_cons, ih, lamports_insert_of_lamports (by rfl)]

theorem shielded_lamports (hprogram : context.program = some Shielded.programID)
    (h : (Shielded.execute parameters.shielded context accounts).2 = .ok next) :
    Accounted context accounts next := by
  obtain ⟨executes⟩ := Shielded.execute_eq_ok h
  have hother : context.program ≠ some System.programID ∧
      context.program ≠ some Stake.programID := by
    rw [hprogram]
    decide
  have htotal := congrArg AccountMap.lamports executes.written
  rw [lamports_insert_of_lamports (by rfl), storeNullifierMarkers_lamports] at htotal
  have hfund := payIf_lamports executes.fund
  have hpay := payIf_lamports executes.pay
  rw [if_neg (fun hboth => executes.resolves.targetNotPool hboth.2.symm)] at hpay
  simp only [Accounted, lamportsDestroyed, lamportsDelegated, lamportsCreated, lamportsMoved,
    if_neg hother.1, if_neg hother.2, if_pos hprogram, executes.decoded, ite_self]
  have hself : (if executes.resolved.transparentSource.isSome = true ∧
        executes.resolved.transparentSource = some parameters.shielded.pool then
        executes.instruction.transparentInputAmount else 0) =
      if context.MovesToItself then executes.instruction.transparentInputAmount else 0 := by
    cases hsource : executes.resolved.transparentSource with
    | none =>
      have hzero : executes.instruction.transparentInputAmount = 0 := by
        have hpays := executes.resolves.source
        rw [hsource] at hpays
        simpa using hpays
      simp [hzero]
    | some source =>
      have hsame := movesToItself_iff executes.resolves.pool
        (executes.resolves.sourceAt source hsource)
      simp [hsame, eq_comm]
  omega

/-- How the sum of all balances changes with an instruction. -/
theorem ProgramStep.lamports (h : ProgramStep parameters context accounts next) :
    Accounted context accounts next := by
  cases h with
  | system hprogram h => exact system_lamports hprogram h
  | token hprogram h =>
    exact dataWrites_lamports hprogram (by decide) (Token.execute_writes h)
  | stake hprogram h => exact stake_lamports hprogram h
  | shielded hprogram h => exact shielded_lamports hprogram h
  | loader hprogram h =>
    exact dataWrites_lamports hprogram (by decide) (BpfLoader.execute_writes h)

end

/-! ### One transaction -/

/-- All that the instructions of a transaction create. -/
def stepsCreated (steps : List InstructionStep) : ℕ :=
  (steps.map fun step => lamportsCreated step.context step.before).sum

/-- All that the instructions of a transaction destroy. -/
def stepsDestroyed (steps : List InstructionStep) : ℕ :=
  (steps.map fun step => lamportsDestroyed step.context).sum

theorem Follows.lamports {accounts final : AccountMap} {steps : List InstructionStep}
    (h : Follows accounts steps final)
    (hsteps : ∀ step ∈ steps, Accounted step.context step.before step.after) :
    AccountMap.lamports final + stepsDestroyed steps =
      AccountMap.lamports accounts + stepsCreated steps := by
  induction h with
  | nil => rfl
  | cons _ ih =>
    obtain ⟨hfirst, hrest⟩ := forall_mem_cons.mp hsteps
    have htail := ih hrest
    simp only [Accounted, stepsCreated, stepsDestroyed, map_cons, sum_cons]
      at hfirst htail ⊢
    omega

namespace ConfirmedRun

variable {parameters : RuntimeParameters} {input : SimulationInput}
  {result : TransactionExecutionResult}

theorem Covers.lamports {message : ResolvedMessage} {accounts : AccountMap}
    (h : Covers message accounts) (hnodup : message.accountKeys.Nodup) :
    AccountMap.lamports accounts =
      (message.accountKeys.map fun address => (accountOrZero accounts address).lamports).sum := by
  rw [AccountMap.lamports, Table.total_eq_sum hnodup h]
  refine congrArg sum (map_congr_left fun address _ => ?_)
  unfold Table.weightAt accountOrZero
  cases accounts.lookup address <;> rfl

theorem sum_ite_eq {keys : List PublicKey} {payer : PublicKey} (hnodup : keys.Nodup)
    (hmem : payer ∈ keys) (fee : ℕ) :
    (keys.map fun address => if address = payer then fee else 0).sum = fee := by
  rw [← sum_toFinset _ hnodup, Finset.sum_ite_eq', if_pos (mem_toFinset.mpr hmem)]

section

variable (run : ConfirmedRun parameters input result)
include run

theorem feePayer_mem : run.charged.feePayer ∈ input.message.accountKeys := by
  rw [run.charged_eq.2.1, run.prepares.feePayer]
  have hkeys := run.prepares.keys_ne_nil
  obtain ⟨key, keys, hlist⟩ := exists_cons_of_ne_nil hkeys
  rw [hlist]
  exact mem_cons_self

/-- The two fees together are the fee that is reported. -/
theorem sum_fees :
    (input.message.accountKeys.map run.transparentFee).sum +
      (input.message.accountKeys.map run.shieldedFee).sum = result.feeDetails.totalFee := by
  have hsum := sum_ite_eq run.prepares.nodup_keys run.feePayer_mem result.feeDetails.totalFee
  unfold transparentFee shieldedFee
  cases hsource : run.charged.feeSource with
  | transparentAccount => simpa using hsum
  | shieldedPool => simpa using hsum

/-- The sum of all balances follows the fee and what the instructions create and destroy. -/
theorem lamports_nextState :
    (input.nextState result).lamports + result.feeDetails.totalFee +
        stepsDestroyed (simulationSteps parameters input) =
      input.state.lamports + stepsCreated (simulationSteps parameters input) := by
  have hnodup := run.prepares.nodup_keys
  -- what the transaction is given, what its instructions make of it, and what it leaves
  have hinitial : AccountMap.lamports run.initial +
      (input.message.accountKeys.map run.transparentFee).sum =
        (input.message.accountKeys.map fun address => input.state.balanceAt address).sum := by
    rw [run.initial_covers.lamports hnodup, ← sum_map_add]
    refine congrArg sum (map_congr_left fun address haddress => ?_)
    obtain ⟨account, hloaded, henough, hlookup⟩ := run.exists_initial haddress
    rw [accountOrZero_of_lookup hlookup, Account.debited]
    have hbalance : input.state.balanceAt address = account.lamports := by
      cases hloaded with
      | existing haccount => simp [ChainState.balanceAt, haccount]
      | placeholder hnone hempty _ => simp [ChainState.balanceAt, hnone, hempty.1]
    dsimp only
    omega
  have hsteps := run.follows.lamports fun step hstep => (run.stepOf step hstep).program.lamports
  have hfinal : (input.message.accountKeys.map fun address =>
      (accountOrZero run.settled address).lamports).sum +
        (input.message.accountKeys.map run.shieldedFee).sum = AccountMap.lamports run.final := by
    rw [run.covers.1.lamports hnodup, ← sum_map_add]
    refine congrArg sum (map_congr_left fun address haddress => ?_)
    obtain ⟨final, hlookup⟩ := run.covers.1.exists_lookup haddress
    obtain ⟨hsettled, henough⟩ := run.settled_lookup address
    have hfee := henough final hlookup
    rw [hlookup, Option.map_some] at hsettled
    rw [accountOrZero_of_lookup hsettled, accountOrZero_of_lookup hlookup, Account.debited]
    dsimp only
    omega
  have hwrites := ChainState.lamports_applyWrites input.state (run.written_addresses ▸ hnodup)
  simp only [run.written_eq, map_map, Function.comp_def] at hwrites
  have hfees := run.sum_fees
  rw [SimulationInput.nextState, run.written_eq]
  have hstart : AccountMap.lamports run.initial =
      AccountMap.lamports (cloneLoadedAccountsToMap run.charged.accounts) := rfl
  omega

end

end ConfirmedRun

/-- A confirmed transaction takes exactly its fee from the sum of all balances if and only if
its instructions create as much as they destroy. -/
theorem lamports_conserved_iff {parameters : RuntimeParameters} {input : SimulationInput}
    {result : TransactionExecutionResult} (hresult : simulate parameters input = .ok result)
    (hconfirmed : result.status = .confirmed) :
    (input.nextState result).lamports + result.feeDetails.totalFee = input.state.lamports ↔
      stepsCreated (simulationSteps parameters input) =
        stepsDestroyed (simulationSteps parameters input) := by
  obtain ⟨run⟩ := simulate_confirmed hresult hconfirmed
  have htotal := run.lamports_nextState
  omega

theorem lamports_conserved_transfer :
    ∃ result, simulate sampleParameters paymentInput = .ok result ∧
      (paymentInput.nextState result).lamports + result.feeDetails.totalFee =
        paymentInput.state.lamports := by
  obtain ⟨result, hresult, htest⟩ : ∃ result,
      simulate sampleParameters paymentInput = .ok result ∧
        decide (result.status = .confirmed) = true :=
    exists_of_any (by decide +kernel)
  have hequal : stepsCreated (simulationSteps sampleParameters paymentInput) =
      stepsDestroyed (simulationSteps sampleParameters paymentInput) := by
    decide +kernel
  exact ⟨result, hresult, (lamports_conserved_iff hresult (of_decide_eq_true htest)).mpr hequal⟩

/-- Account 1 pays 2000000 lamports to itself. -/
def selfTransferInput : SimulationInput :=
  sampleInput [⟨1, Stake.sampleWallet⟩] [1, System.programID] (by decide) [0, 0]
    (littleEndian 4 2 ++ littleEndian 8 2000000)

/-- The transfer leaves 2000000 lamports more than there were. -/
theorem lamports_not_conserved_self_transfer :
    ∃ result, simulate sampleParameters selfTransferInput = .ok result ∧
      result.status = .confirmed ∧
      (selfTransferInput.nextState result).lamports + result.feeDetails.totalFee =
        selfTransferInput.state.lamports + 2000000 := by
  obtain ⟨result, hresult, htest⟩ : ∃ result,
      simulate sampleParameters selfTransferInput = .ok result ∧
        decide (result.status = .confirmed ∧
          (selfTransferInput.nextState result).lamports + result.feeDetails.totalFee =
            selfTransferInput.state.lamports + 2000000) = true :=
    exists_of_any (by decide +kernel)
  exact ⟨result, hresult, of_decide_eq_true htest⟩

end Ordexus
