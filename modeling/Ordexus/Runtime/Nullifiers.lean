import Ordexus.Runtime.Authority

/-!
# Nullifiers and their markers

A note is spent by turning the account of its nullifier into a marker, which belongs to the
shielded program. No instruction gives a marker back to the system program, so a nullifier is
consumed once. The stake program, however, writes into any account: a marker it takes over
is no marker any more.
-/

namespace Ordexus

open Checked Transition List Shielded

/-- The nullifiers that an instruction of a message consumes. -/
def consumedNullifiers (message : ResolvedMessage) (instruction : CompiledInstruction) :
    List Hash :=
  if message.accountKeys[instruction.programIDIndex]? = some programID then
    match unmarshalShieldedTransferInstructionBinary instruction.data with
    | .error _ => []
    | .ok shielded => spentNullifiers shielded.bundle.actions
  else []

def ResolvedMessage.nullifiers (message : ResolvedMessage) : List Hash :=
  message.instructions.flatMap (consumedNullifiers message)

/-! ### One instruction -/

/-- The account has left the system program for good. -/
def Account.Taken (account : Account) : Prop :=
  account.owner = programID ∨ account.owner = Stake.programID

theorem Account.Taken.not_system {account : Account} (h : account.Taken) :
    account.owner ≠ System.programID := by
  intro hsystem
  rcases h with h | h <;> (rw [hsystem] at h; cases h)

/-- An account that was spent, as the shielded program leaves it. -/
def Account.IsMarker (account : Account) : Prop :=
  account.owner = programID ∧ account.data = [] ∧ account.executable = false

instance (account : Account) : Decidable account.IsMarker :=
  inferInstanceAs (Decidable (_ ∧ _ ∧ _))

namespace AccountChange

variable {parameters : RuntimeParameters} {context : InstructionContext} {address : PublicKey}
  {before after : Account}

theorem taken (h : AccountChange parameters context address before after)
    (hbefore : before.Taken) : after.Taken := by
  cases h with
  | credited hsame _ | paid _ hsame => rwa [Account.Taken, hsame.owner]
  | assigned _ _ howner => exact absurd howner hbefore.not_system
  | written _ howner _ _ => rwa [Account.Taken, howner]
  | pool _ _ howner => exact .inl howner.2
  | validator _ _ howner => exact .inr howner
  | marker _ _ _ hafter _ => exact .inl hafter.1

/-- Only as the validator account of a stake instruction is a marker replaced. -/
theorem isMarker (h : AccountChange parameters context address before after)
    (hbefore : before.IsMarker) (hpool : address ≠ parameters.shielded.pool)
    (hvalidator : context.program = some Stake.programID →
      context.accountAddressAt 1 ≠ .ok address) : after.IsMarker := by
  obtain ⟨howner, hdata, hexecutable⟩ := hbefore
  cases h with
  | credited hsame _ | paid _ hsame =>
    exact ⟨hsame.owner.trans howner, hsame.data.trans hdata, hsame.executable.trans hexecutable⟩
  | assigned _ _ hsystem => rw [howner] at hsystem; cases hsystem
  | written _ _ _ hkind =>
    rw [howner] at hkind
    rcases hkind with hkind | hkind <;> cases hkind
  | pool _ haddress _ => exact absurd haddress hpool
  | validator hprogram haddress _ => exact absurd haddress (hvalidator hprogram)
  | marker _ _ hsystem _ _ =>
    rw [howner] at hsystem
    exact absurd hsystem.1 (by decide)

end AccountChange

/-- A system account that comes to the shielded program has become a marker. -/
theorem AccountChange.isMarker_of_owner {parameters : RuntimeParameters}
    {context : InstructionContext} {address : PublicKey} {before after : Account}
    (h : AccountChange parameters context address before after)
    (hprogram : context.program = some programID)
    (hbefore : before.owner = System.programID) (hafter : after.owner = programID) :
    after.IsMarker := by
  have hmoved : after.owner ≠ before.owner := by
    rw [hbefore, hafter]
    decide
  cases h with
  | credited hsame _ | paid _ hsame => exact absurd hsame.owner hmoved
  | assigned _ hsystem _ => rw [hprogram] at hsystem; cases hsystem
  | written _ howner _ _ => exact absurd howner hmoved
  | pool _ _ howner => rw [howner.1] at hbefore; cases hbefore
  | validator hstake _ _ => rw [hprogram] at hstake; cases hstake
  | marker _ _ _ hmarker _ => exact hmarker

section

variable {parameters : RuntimeParameters} {context : InstructionContext}
  {accounts next : AccountMap} {nullifier : Hash}

theorem mem_consumedNullifiers {message : ResolvedMessage} {instruction : CompiledInstruction}
    (h : nullifier ∈ consumedNullifiers message instruction) (addresses : ShieldedAddresses) :
    message.accountKeys[instruction.programIDIndex]? = some programID ∧
      addresses.nullifierAccount nullifier ∈ spentMarkers addresses instruction := by
  unfold consumedNullifiers at h
  split at h
  · next hprogram =>
    refine ⟨hprogram, ?_⟩
    split at h
    · cases h
    · next hdecode =>
      rw [spentMarkers, hdecode]
      exact mem_map_of_mem h
  · cases h

/-- The account of a nullifier that is consumed was a system account and is a marker now. -/
theorem ProgramStep.consumes (h : ProgramStep parameters context accounts next)
    (hmem : nullifier ∈ consumedNullifiers context.message context.instruction) :
    parameters.shielded.nullifierAccount nullifier ≠ parameters.shielded.pool ∧
      (∃ before, accounts.lookup (parameters.shielded.nullifierAccount nullifier) =
        some before ∧ before.owner = System.programID) ∧
      ∃ after, next.lookup (parameters.shielded.nullifierAccount nullifier) = some after ∧
        after.IsMarker := by
  obtain ⟨hprogram, hmarker⟩ := mem_consumedNullifiers hmem parameters.shielded.toShieldedAddresses
  obtain ⟨⟨before, hbefore, hsystem⟩, after, hafter, hshielded⟩ :=
    h.owner_of_marker hprogram hmarker
  refine ⟨?_, ⟨before, hbefore, hsystem⟩, after, hafter, ?_⟩
  · intro hpool
    obtain ⟨executes⟩ := h.shielded_executes hprogram
    have hlookup := executes.pool.lookup
    rw [← hpool, hbefore] at hlookup
    cases hlookup
    have howner := executes.pool.owner
    rw [hsystem] at howner
    cases howner
  · obtain ⟨changed, hchanged, hchange⟩ := h.changes _ before hbefore
    obtain rfl := Option.mem_unique hafter hchanged
    exact hchange.isMarker_of_owner hprogram hsystem hshielded

theorem consumedNullifiers_nodup (message : ResolvedMessage) (instruction : CompiledInstruction) :
    (consumedNullifiers message instruction).Nodup := by
  unfold consumedNullifiers
  split
  · split
    · exact .nil
    · next hdecode => exact (unmarshalShieldedTransferInstructionBinary_eq_ok hdecode).1
  · exact .nil

end

/-! ### One transaction -/

namespace ConfirmedRun

variable {parameters : RuntimeParameters} {input : SimulationInput}
  {result : TransactionExecutionResult} {address : PublicKey}

/-- The nullifier is used up: its account, if the transaction knows it, is taken. -/
def UsedIn (parameters : RuntimeParameters) (accounts : AccountMap) (nullifier : Hash) : Prop :=
  ∀ account, accounts.lookup (parameters.shielded.nullifierAccount nullifier) = some account →
    account.Taken

/-- The nullifier is used up in a state. -/
def Used (parameters : RuntimeParameters) (state : ChainState) (nullifier : Hash) : Prop :=
  ∃ account, state.account? (parameters.shielded.nullifierAccount nullifier) = some account ∧
    account.Taken

theorem step_spendsOnce (run : ConfirmedRun parameters input result) {step : InstructionStep}
    (hstep : step ∈ simulationSteps parameters input) :
    SpendsOnce (UsedIn parameters) step.before step.after
      (consumedNullifiers input.message step.context.instruction) := by
  have hof := run.stepOf step hstep
  rw [← run.step_message hstep]
  refine ⟨consumedNullifiers_nodup _ _, ?_, ?_, ?_⟩
  · intro nullifier hmem hused
    obtain ⟨-, ⟨before, hbefore, hsystem⟩, -⟩ := hof.program.consumes hmem
    exact (hused before hbefore).not_system hsystem
  · intro nullifier hmem account haccount
    obtain ⟨-, -, after, hafter, hmarker⟩ := hof.program.consumes hmem
    obtain rfl := Option.mem_unique hafter haccount
    exact .inl hmarker.1
  · intro nullifier hused account haccount
    -- an account that is there after the step is one of the message, so it was there before
    have hkey : parameters.shielded.nullifierAccount nullifier ∈ input.message.accountKeys := by
      by_cases hnone : step.before.lookup (parameters.shielded.nullifierAccount nullifier) = none
      · rw [← run.step_message hstep]
        exact mem_accountKeys_of_created hof.writes hnone (by simp [haccount])
      · exact (run.covers.2 step hstep _).mp (Option.isSome_iff_ne_none.mpr hnone)
    obtain ⟨before, hbefore⟩ := (run.covers.2 step hstep).exists_lookup hkey
    obtain ⟨after, hafter, hchange⟩ := hof.program.changes _ before hbefore
    obtain rfl := Option.mem_unique hafter haccount
    exact hchange.taken (hused before hbefore)

theorem spendsOnce_of_follows {accounts final : AccountMap} {steps : List InstructionStep}
    (h : Follows accounts steps final) (hsteps : ∀ step ∈ steps,
      SpendsOnce (UsedIn parameters) step.before step.after
        (consumedNullifiers input.message step.context.instruction)) :
    SpendsOnce (UsedIn parameters) accounts final
      (steps.flatMap fun step => consumedNullifiers input.message step.context.instruction) := by
  induction h with
  | nil accounts => exact .refl _ accounts
  | cons _ ih =>
    obtain ⟨hfirst, hrest⟩ := forall_mem_cons.mp hsteps
    exact hfirst.trans (ih hrest)

section

variable (run : ConfirmedRun parameters input result)
include run

theorem nullifiers_eq :
    input.message.nullifiers = (simulationSteps parameters input).flatMap fun step =>
      consumedNullifiers input.message step.context.instruction := by
  rw [ResolvedMessage.nullifiers, ← run.charged_eq.1, ← run.instructions, flatMap_map]

/-- An account that a transaction starts with is the one of the state or a new one. -/
theorem taken_initial (hkey : address ∈ input.message.accountKeys) {account : Account}
    (haccount : run.initial.lookup address = some account) :
    account.Taken ↔ ∃ before, input.state.account? address = some before ∧ before.Taken := by
  obtain ⟨loaded, hloaded, -, hinitial⟩ := run.exists_initial hkey
  rw [haccount] at hinitial
  cases hinitial
  cases hloaded with
  | existing hbefore => simp [hbefore, Account.Taken, Account.debited]
  | placeholder hnone _ howner =>
    simp only [hnone, reduceCtorEq, false_and, exists_false, iff_false]
    rintro (htaken | htaken) <;>
    · simp only [Account.debited] at htaken
      rw [htaken] at howner
      rcases howner with howner | howner <;> cases howner

/-- An account that is taken at the end of a transaction is written back. -/
theorem nextState_of_taken (hkey : address ∈ input.message.accountKeys) {final : Account}
    (hfinal : run.final.lookup address = some final) (htaken : final.Taken) :
    (input.nextState result).account? address =
      some (final.debited (run.shieldedFee address)) := by
  rw [run.nextState_of_mem hkey hfinal, if_neg]
  rintro ⟨-, hplaceholder⟩
  rw [isBuiltinProgramPlaceholder, Bool.and_eq_true] at hplaceholder
  have howner : final.owner = defaultBuiltinProgramIDs.nativeLoader :=
    of_decide_eq_true hplaceholder.2
  rcases htaken with htaken | htaken <;>
  · rw [howner] at htaken
    cases htaken

/-- A confirmed transaction consumes each nullifier of its instructions once. -/
theorem spendsOnce :
    SpendsOnce (Used parameters) input.state (input.nextState result) input.message.nullifiers := by
  have hspends : SpendsOnce (UsedIn parameters) run.initial run.final input.message.nullifiers := by
    rw [run.nullifiers_eq]
    exact spendsOnce_of_follows run.follows fun step hstep => run.step_spendsOnce hstep
  have hfresh : ∀ nullifier ∈ input.message.nullifiers, ∃ account,
      run.initial.lookup (parameters.shielded.nullifierAccount nullifier) = some account ∧
        ¬account.Taken := by
    intro nullifier hmem
    have hunused := hspends.fresh nullifier hmem
    unfold UsedIn at hunused
    push Not at hunused
    exact hunused
  refine ⟨hspends.nodup, ?_, ?_, ?_⟩
  · intro nullifier hmem hused
    obtain ⟨account, haccount, hfree⟩ := hfresh nullifier hmem
    have hkey := run.initial_covers.mem haccount
    exact hfree ((run.taken_initial hkey haccount).mpr hused)
  · intro nullifier hmem
    obtain ⟨account, haccount, -⟩ := hfresh nullifier hmem
    have hkey := run.initial_covers.mem haccount
    obtain ⟨final, hfinal⟩ := run.covers.1.exists_lookup hkey
    have htaken := hspends.spent nullifier hmem final hfinal
    exact ⟨_, run.nextState_of_taken hkey hfinal htaken, htaken⟩
  · rintro nullifier ⟨before, hbefore, htaken⟩
    by_cases hkey : parameters.shielded.nullifierAccount nullifier ∈ input.message.accountKeys
    · have hused : UsedIn parameters run.initial nullifier := fun account haccount =>
        (run.taken_initial hkey haccount).mpr ⟨before, hbefore, htaken⟩
      obtain ⟨final, hfinal⟩ := run.covers.1.exists_lookup hkey
      have htaken := hspends.keeps nullifier hused final hfinal
      exact ⟨_, run.nextState_of_taken hkey hfinal htaken, htaken⟩
    · exact ⟨before, by rw [run.nextState_of_not_mem hkey, hbefore], htaken⟩

section

variable (hpool : address ≠ parameters.shielded.pool)
  (hvalidator : ∀ instruction ∈ input.message.instructions,
    input.message.accountKeys[instruction.programIDIndex]? = some Stake.programID →
      instruction.secondAccount input.message ≠ some address)
include hpool hvalidator

/-- The account is a marker and no instruction of the transaction names it as a validator
account. -/
theorem isMarker_of_after {step : InstructionStep} (hstep : step ∈ simulationSteps parameters input)
    {first second : Account} (hchange : AccountChange parameters step.context address first second)
    (hfirst : first.IsMarker) : second.IsMarker := by
  refine hchange.isMarker hfirst hpool fun hprogram haddress => ?_
  rw [InstructionContext.program, run.step_message hstep] at hprogram
  rw [InstructionContext.accountAddressAt_one, run.step_message hstep] at haddress
  exact hvalidator _ (run.instruction_mem hstep) hprogram haddress

/-- A marker of the state stays one. -/
theorem isMarker_of_state {before : Account} (hbefore : input.state.account? address = some before)
    (hmarker : before.IsMarker) :
    ∃ after, (input.nextState result).account? address = some after ∧ after.IsMarker := by
  by_cases hkey : address ∈ input.message.accountKeys
  · obtain ⟨⟨final, hfinal, hmarker⟩, -⟩ := run.holdsAt_invariant
      ⟨_, run.initial_of_existing hkey hbefore, hmarker⟩
      fun step hstep first second _ _ hchange =>
        run.isMarker_of_after hpool hvalidator hstep hchange
    exact ⟨_, run.nextState_of_taken hkey hfinal (.inl hmarker.1), hmarker⟩
  · exact ⟨before, by rw [run.nextState_of_not_mem hkey, hbefore], hmarker⟩

end

/-- The account of a nullifier that the transaction consumes is a marker afterwards. -/
theorem isMarker_of_consumed {nullifier : Hash} (hmem : nullifier ∈ input.message.nullifiers)
    (hvalidator : ∀ instruction ∈ input.message.instructions,
      input.message.accountKeys[instruction.programIDIndex]? = some Stake.programID →
        instruction.secondAccount input.message ≠
          some (parameters.shielded.nullifierAccount nullifier)) :
    parameters.shielded.nullifierAccount nullifier ≠ parameters.shielded.pool ∧
      ∃ after, (input.nextState result).account? (parameters.shielded.nullifierAccount nullifier) =
        some after ∧ after.IsMarker := by
  rw [run.nullifiers_eq] at hmem
  obtain ⟨step, hstep, hconsumed⟩ := mem_flatMap.mp hmem
  rw [← run.step_message hstep] at hconsumed
  obtain ⟨hpool, ⟨before, hbefore, -⟩, after, hafter, hmarker⟩ :=
    (run.stepOf step hstep).program.consumes hconsumed
  have hkey := (run.covers.2 step hstep).mem hbefore
  obtain ⟨final, hfinal, hmarker⟩ := run.holdsAt_after hstep ⟨after, hafter, hmarker⟩
    fun later hlater first second hchange => run.isMarker_of_after hpool hvalidator hlater hchange
  exact ⟨hpool, _, run.nextState_of_taken hkey hfinal (.inl hmarker.1), hmarker⟩

end

end ConfirmedRun

/-! ### Every run of transactions -/

structure NullifierLedger where
  state : ChainState
  consumed : List Hash
deriving DecidableEq

namespace NullifierLedger

variable {parameters : RuntimeParameters} {state : ChainState} {ledger : NullifierLedger}

section

variable (parameters : RuntimeParameters) (ledger : NullifierLedger) (event : SimulationInput)

/-- Execute a transaction and record what it consumes. -/
def step : Option NullifierLedger :=
  some
    { state := executeTransaction parameters ledger.state event
      consumed := ledger.consumed ++
        if isConfirmed parameters ledger.state event then event.message.nullifiers else [] }

/-- No stake instruction of the transaction names as its validator account the account of a
nullifier that was consumed or that the transaction consumes. -/
def MarkersUntouched : Prop :=
  ∀ instruction ∈ event.message.instructions,
    event.message.accountKeys[instruction.programIDIndex]? = some Stake.programID →
    ∀ nullifier ∈ ledger.consumed ++ event.message.nullifiers,
      instruction.secondAccount event.message ≠
        some (parameters.shielded.nullifierAccount nullifier)

end

/-- Whatever the transactions are, no nullifier is consumed twice. -/
theorem spendsOnce (h : Reaches (step parameters) anyStep ⟨state, []⟩ ledger) :
    SpendsOnce (ConfirmedRun.Used parameters) state ledger.state ledger.consumed := by
  refine @Reaches.invariant _ _ _ _ _ _ (fun ledger =>
    SpendsOnce (ConfirmedRun.Used parameters) state ledger.state ledger.consumed) h
    (.refl _ state) fun before event after hbefore _ hstep => ?_
  cases hstep
  rcases executeTransaction_cases parameters before.state event with
    ⟨hfailed, hstate⟩ | ⟨hconfirmed, result, ⟨run⟩, hstate⟩
  · rw [hfailed, hstate]
    simpa using hbefore
  · rw [hconfirmed, hstate]
    exact hbefore.trans run.spendsOnce

/-- The accounts of all consumed nullifiers are markers. -/
def Marked (parameters : RuntimeParameters) (ledger : NullifierLedger) : Prop :=
  ∀ nullifier ∈ ledger.consumed,
    parameters.shielded.nullifierAccount nullifier ≠ parameters.shielded.pool ∧
      ∃ account, ledger.state.account? (parameters.shielded.nullifierAccount nullifier) =
        some account ∧ account.IsMarker

theorem Marked.step {event : SimulationInput} {after : NullifierLedger}
    (h : Marked parameters ledger) (hok : MarkersUntouched parameters ledger event)
    (hstep : step parameters ledger event = some after) : Marked parameters after := by
  cases hstep
  rcases executeTransaction_cases parameters ledger.state event with
    ⟨hfailed, hstate⟩ | ⟨hconfirmed, result, ⟨run⟩, hstate⟩
  · intro nullifier hmem
    rw [hfailed] at hmem
    rw [hstate]
    exact h nullifier (by simpa using hmem)
  · intro nullifier hmem
    rw [if_pos hconfirmed] at hmem
    rw [hstate]
    have hvalidator := fun instruction hinstruction hprogram =>
      hok instruction hinstruction hprogram nullifier hmem
    rcases mem_append.mp hmem with hold | hnew
    · obtain ⟨hpool, account, haccount, hmarker⟩ := h nullifier hold
      exact ⟨hpool, run.isMarker_of_state hpool hvalidator haccount hmarker⟩
    · exact run.isMarker_of_consumed hnew hvalidator

/-- No nullifier is consumed twice in any run; and in every run in which no stake instruction
names the account of a consumed nullifier as its validator account, these accounts stay the
markers they are. -/
theorem consumed_once_and_marked (parameters : RuntimeParameters) (state : ChainState) :
    (∀ ledger, Reaches (step parameters) anyStep ⟨state, []⟩ ledger → ledger.consumed.Nodup) ∧
      ∀ ledger, Reaches (step parameters) (MarkersUntouched parameters) ⟨state, []⟩ ledger →
        ∀ nullifier ∈ ledger.consumed, ∃ account,
          ledger.state.account? (parameters.shielded.nullifierAccount nullifier) = some account ∧
            account.IsMarker := by
  refine ⟨fun ledger h => (spendsOnce h).nodup, fun ledger h nullifier hmem => ?_⟩
  have hmarked : Marked parameters ledger :=
    h.invariant (by simp [Marked]) fun before event after => Marked.step
  exact (hmarked nullifier hmem).2

end NullifierLedger

/-! Account 1 spends the note with nullifier 5; the account of the nullifier is 1005. -/

def samplePoolState : ShieldedPoolState where
  stateEncodingVersion := shieldedPoolStateEncodingVersion
  protocolVersion := shieldedProtocolVersion
  circuitID := circuitID
  verifyingKeyHash := 7
  treeDepth := merkleDepth
  leafCount := 0
  frontier := List.replicate merkleDepth 0
  currentRoot := 3
  recentAnchors := []
  poolLamports := 1000000

def samplePool : Account where
  lamports := 30000000
  data := samplePoolState.encode
  owner := programID
  executable := false
  rentEpoch := 0

def sampleSpend : ShieldedTransferInstruction where
  encodingVersion := shieldedInstructionEncodingVersion
  transparentInputAmount := 0
  transparentOutputAmount := 0
  bundle :=
    { protocolVersion := shieldedProtocolVersion
      consensusBranchID := shieldedConsensusBranchID
      anchor := 3
      actions :=
        [{ enabledSpend := true, enabledOutput := false, nullifier := 5, noteCommitment := 0
           ephemeralKey := [], encryptedNote := [] }]
      valueBalance := 0
      proof := List.replicate shieldedGroth16ProofBytes 1 }

def sampleSpendState : ChainState where
  accounts := [⟨1, Stake.sampleWallet⟩, ⟨900, samplePool⟩]

/-- The accounts of an event are those of the state it is executed on. -/
def spendEvent : SimulationInput :=
  sampleInput [] [1, 900, 1005, programID] (by decide) [1, 2] sampleSpend.encode

/-- Account 1 registers a validator with account 1005 as its account. -/
def registerOverMarkerEvent : SimulationInput :=
  sampleInput [] [1, 1005, Stake.programID] (by decide) [0, 1] (littleEndian 4 0 ++
    bigEndian 32 7 ++ littleEndian 4 1 ++ [112] ++ littleEndian 2 0 ++
    littleEndian 8 20000000 ++ littleEndian 8 0)

namespace NullifierLedger

theorem consumed_once_and_marked_sample :
    ∃ ledger, Reaches (step sampleParameters) (MarkersUntouched sampleParameters)
        ⟨sampleSpendState, []⟩ ledger ∧ ledger.consumed = [5] ∧
      ∃ account, ledger.state.account? 1005 = some account ∧ account.IsMarker := by
  have huntouched : MarkersUntouched sampleParameters ⟨sampleSpendState, []⟩ spendEvent := by
    intro instruction hinstruction hprogram
    have hshielded : ∀ instruction ∈ spendEvent.message.instructions,
        spendEvent.message.accountKeys[instruction.programIDIndex]? ≠ some Stake.programID := by
      decide
    exact absurd hprogram (hshielded instruction hinstruction)
  have hreach := Reaches.next .start huntouched
    (rfl : step sampleParameters ⟨sampleSpendState, []⟩ spendEvent = some _)
  have hconsumed : ([] : List Hash) ++
      (if isConfirmed sampleParameters sampleSpendState spendEvent then
        spendEvent.message.nullifiers else []) = [5] := by
    decide +kernel
  refine ⟨_, hreach, hconsumed, ?_⟩
  have hmem : (5 : Hash) ∈ ([] : List Hash) ++
      (if isConfirmed sampleParameters sampleSpendState spendEvent then
        spendEvent.message.nullifiers else []) := by
    rw [hconsumed]
    exact mem_cons_self
  exact (consumed_once_and_marked sampleParameters sampleSpendState).2 _ hreach 5 hmem

/-- A marker is replaced by a validator account. -/
theorem marker_replaced :
    ∃ ledger, Reaches (step sampleParameters) anyStep ⟨sampleSpendState, []⟩ ledger ∧
      5 ∈ ledger.consumed ∧
      ∃ account, ledger.state.account? 1005 = some account ∧ ¬account.IsMarker := by
  obtain ⟨ledger, hreach, htest⟩ := @exists_of_run _ _ (step sampleParameters)
    ⟨sampleSpendState, []⟩ [spendEvent, registerOverMarkerEvent]
    (fun ledger : NullifierLedger => decide (5 ∈ ledger.consumed) &&
      (ledger.state.account? 1005).any fun account : Account => !decide account.IsMarker)
    (by decide +kernel)
  rw [Bool.and_eq_true, decide_eq_true_eq] at htest
  refine ⟨ledger, hreach, htest.1, ?_⟩
  cases haccount : ledger.state.account? 1005 with
  | none => simp [haccount] at htest
  | some account => exact ⟨account, rfl, by simpa [haccount] using htest.2⟩

end NullifierLedger

end Ordexus
