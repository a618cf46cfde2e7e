import Ordexus.Runtime.ConfirmedTransaction
import Ordexus.Runtime.SandboxFrame

/-!
# Failed transactions

The accounts that `Simulate` reports, with an arbitrary program registry, for a transaction that
fails after its fee was charged: those of the state, less the fee of the fee payer, whatever the
instructions before the failure had written.
-/

namespace Ordexus

open Checked List

namespace ChargedRun

variable {parameters : RuntimeParameters} {input : SimulationInput}

section

variable (run : ChargedRun parameters input)
include run

theorem simulationResult_eq (registry : Except String ProgramHandler) :
    simulationResult registry parameters input =
      finishSimulation registry run.settings run.charged := by
  simp only [simulationResult, run.normalized, run.prepared, run.charge]

/-- The fee is that of the calculator for the signatures and the budget of the transaction. -/
theorem feeDetails_eq :
    run.settings.feeCalculator.calculate input.transaction.signatures.length
      run.settings.computeBudget = .ok run.charged.feeDetails := by
  obtain ⟨-, -, -, hdetails, -⟩ := run.charged_eq
  have h := run.prepared
  simp only [prepareSimulation, eq_ok] at h
  obtain ⟨-, _, -, -, _, -, -, -, -, -, _, -, feeDetails, hfee, _, -, _, -, h⟩ := h
  simp only [newLoadedTransaction, eq_ok] at h
  obtain ⟨-, hloaded⟩ := h
  rw [hdetails, ← hloaded, ← run.settings_eq.1]
  exact hfee

/-- The accounts of a message as they are listed and as they are looked up. -/
theorem written_initial :
    writtenAccountsFromMessage run.charged.message.accountKeys run.initial =
      run.charged.accounts := by
  obtain ⟨hkeys, hentries, -⟩ := run.initial_lookup
  rw [run.charged_eq.1, writtenAccountsFromMessage, ← hkeys, map_map]
  refine (map_congr_left fun entry hentry => ?_).trans (map_id _)
  exact congrArg (AddressedAccount.mk entry.address)
    (accountOrZero_of_lookup (hentries entry hentry).1)

/-- Every exit of a failed transaction restores the accounts after the transparent fee. -/
theorem written_of_failed (registry : Except String ProgramHandler)
    (hfailed : (simulationResult registry parameters input).status = .failed) :
    (simulationResult registry parameters input).writtenAccounts = run.charged.accounts ∧
      (simulationResult registry parameters input).feeDetails = run.charged.feeDetails := by
  rw [run.simulationResult_eq] at hfailed ⊢
  unfold finishSimulation at hfailed ⊢
  cases registry with
  | error message => exact ⟨rfl, rfl⟩
  | ok execute =>
    dsimp only at hfailed ⊢
    split
    · exact ⟨run.written_initial, rfl⟩
    · next settled hsettled => simp [hsettled, LoadedTransaction.result] at hfailed

end

end ChargedRun

/-- What a failed transaction costs an account: the fee payer of a signed transaction pays the
total fee. -/
def SimulationInput.failureCost (input : SimulationInput) (totalFee : ℕ) (address : PublicKey) :
    ℕ :=
  if input.message.header.numRequiredSignatures ≠ 0 ∧
      address = input.message.accountKeys.headD 0 then totalFee
  else 0

theorem ChargedRun.transparentFee_eq {parameters : RuntimeParameters} {input : SimulationInput}
    (run : ChargedRun parameters input) (address : PublicKey) :
    run.transparentFee address =
      input.failureCost run.charged.feeDetails.totalFee address := by
  obtain ⟨-, hpayer, hsource, -, -⟩ := run.charged_eq
  rw [transparentFee, SimulationInput.failureCost, hpayer, hsource, run.prepares.feePayer,
    run.prepares.feeSource]
  by_cases hsigned : input.message.header.numRequiredSignatures = 0
  · simp [hsigned]
  · simp [hsigned]

/-- A transaction that fails after its fee was charged reports the accounts of its message as they
are in the state, less the total fee of the fee payer if that fee is a transparent one. An account
that the state does not have is reported as the empty one that was loaded for it. -/
theorem failed_transaction_pays_only_fee (registry : Except String ProgramHandler)
    (parameters : RuntimeParameters) (input : SimulationInput)
    (run : ChargedRun parameters input)
    (hfailed : (simulationResult registry parameters input).status = .failed) :
    let result := simulationResult registry parameters input
    run.settings.feeCalculator.calculate input.transaction.signatures.length
        run.settings.computeBudget = .ok result.feeDetails ∧
      result.writtenAccounts.map AddressedAccount.address = input.message.accountKeys ∧
      ∀ written ∈ result.writtenAccounts, ∃ account,
        LoadedAs input.state written.address account ∧
        input.failureCost result.feeDetails.totalFee written.address ≤ account.lamports ∧
        written.account =
          account.debited (input.failureCost result.feeDetails.totalFee written.address) := by
  dsimp only
  obtain ⟨hwritten, hdetails⟩ := run.written_of_failed registry hfailed
  rw [hwritten, hdetails]
  obtain ⟨hkeys, hentries, -⟩ := run.initial_lookup
  refine ⟨run.feeDetails_eq, hkeys, fun written hmem => ?_⟩
  have haddress : written.address ∈ input.message.accountKeys := hkeys ▸ mem_map_of_mem hmem
  obtain ⟨account, hloaded, henough, hlookup⟩ := run.exists_initial haddress
  rw [run.transparentFee_eq] at henough hlookup
  refine ⟨account, hloaded, henough, ?_⟩
  exact Option.mem_unique (hentries written hmem).1 hlookup

/-! ### A payment after which the payer has too little for the next one -/

/-- Whether the accounts of a transaction are loaded and its transparent fee is charged. -/
def isFeeCharged (parameters : RuntimeParameters) (input : SimulationInput) : Bool :=
  succeeds do
    let settings ← normalizeSimulationInput input
    let loaded ← prepareSimulation parameters settings
    chargeTransparentFee loaded settings.rentConfig

theorem exists_chargedRun {parameters : RuntimeParameters} {input : SimulationInput}
    (h : isFeeCharged parameters input = true) : Nonempty (ChargedRun parameters input) := by
  obtain ⟨charged, hcharged⟩ := succeeds_iff.mp h
  simp only [eq_ok] at hcharged
  obtain ⟨settings, hnormalized, loaded, hprepared, hcharged⟩ := hcharged
  exact ⟨⟨settings, loaded, charged, hnormalized, hprepared, hcharged⟩⟩

/-- The first instruction is that of `paymentInput`, the second asks for more than is left. -/
def overdraftInput : SimulationInput :=
  let message := paymentInput.transaction.message
  let overdraft : CompiledInstruction :=
    { programIDIndex := 2, accountIndexes := [0, 1]
      data := littleEndian 4 2 ++ littleEndian 8 (2 ^ 63) }
  { paymentInput with
    transaction := { paymentInput.transaction with
      message := { message with instructions := message.instructions ++ [overdraft] } } }

theorem overdraft_pays_only_fee :
    let result :=
      simulationResult (.ok (registryExecute sampleParameters)) sampleParameters overdraftInput
    result.status = .failed ∧ 0 < result.feeDetails.totalFee ∧
      ∀ written ∈ result.writtenAccounts, ∃ account,
        LoadedAs overdraftInput.state written.address account ∧
        overdraftInput.failureCost result.feeDetails.totalFee written.address ≤
          account.lamports ∧
        written.account = account.debited
          (overdraftInput.failureCost result.feeDetails.totalFee written.address) := by
  have hcharged : isFeeCharged sampleParameters overdraftInput = true := by
    decide +kernel
  obtain ⟨run⟩ := exists_chargedRun hcharged
  have hfailed : (simulationResult (.ok (registryExecute sampleParameters)) sampleParameters
      overdraftInput).status = .failed := by
    decide +kernel
  exact ⟨hfailed, by decide +kernel, (failed_transaction_pays_only_fee
    (.ok (registryExecute sampleParameters)) sampleParameters overdraftInput run hfailed).2.2⟩

end Ordexus
