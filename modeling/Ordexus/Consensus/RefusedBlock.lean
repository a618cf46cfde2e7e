import Ordexus.Consensus.Reproduction
import Ordexus.Consensus.SequentialRefinement
import Ordexus.Library.Fields

/-!
# When every produced block is accepted

Transactions that report their label and what they hear of their id make a receipt
root tell the order of the commits. With them, locks that are not reproducible lead
to a block that its leader produces and that every other validator refuses.
-/

namespace Ordexus

open Checked Borsh List BlockExecutor ProduceBlockRequest

/-! ### Transactions that report -/

def reportingModel : BlockTransactionModel LabelledTransaction where
  toTransactionModel := labelledModel
  hash _ := .ok 0
  estimateTransactionResourceDemand _ := .ok 0
  txIDString_mark _ _ := rfl
  transactionLockAccounts_mark _ _ := rfl
  estimateTransactionResourceDemand_mark _ _ := rfl

def reportResult (accepted : Bool) (label : ℕ) (processed : Bool) : TransactionExecutionResult :=
  { verdictResult accepted with postBalances := [label, if processed then 1 else 0] }

/-- An executor that confirms the chosen labels. -/
def reportingExecutor (confirmed : ℕ → Bool) : TransactionExecutor LabelledTransaction :=
  fun request => .ok (reportResult (confirmed request.transaction.label) request.transaction.label
    (request.transaction.footprint.id ∈ request.processedTxIDs))

theorem reportingExecutor_touchesOnlyLocked (confirmed : ℕ → Bool) :
    TouchesOnlyLocked labelledModel (reportingExecutor confirmed) where
  reads := by
    intro request footprint accounts processed hfootprint _ hprocessed
    obtain rfl := Except.ok.inj ((footprint_labelled request.transaction).symm.trans hfootprint)
    simp only [reportingExecutor, hprocessed]
  writes := by
    rintro request footprint result - ⟨rfl⟩ write hwrite
    exact absurd hwrite (by simp [reportResult, verdictResult])

theorem reportingExecutor_ignoresMark (confirmed : ℕ → Bool) :
    IgnoresMark labelledModel (reportingExecutor confirmed) :=
  fun _ _ => rfl

section

variable {crypto : Crypto} {input : ParallelExecutionInput LabelledTransaction}
  {confirmed : ℕ → Bool} {progress start : Progress LabelledTransaction}

def lockedBy (scheduled : ScheduledTransaction LabelledTransaction) : Footprint :=
  scheduled.transaction.footprint

def accepted (confirmed : ℕ → Bool) (scheduled : ScheduledTransaction LabelledTransaction) : Bool :=
  confirmed scheduled.transaction.label

/-- The turns of a run over reporting transactions. -/
def reportTurns (confirmed : ℕ → Bool) (processed : List TransactionID)
    (transactions : List LabelledTransaction) :
    List (ScheduledTransaction LabelledTransaction × Bool) :=
  commitOrder lockedBy (accepted confirmed) transactions.length processed
    (buildScheduledTransactions transactions)

/-- What is committed at a turn. -/
def reported (turn : ScheduledTransaction LabelledTransaction × Bool) :
    Committed LabelledTransaction where
  scheduled := turn.1
  processed := turn.2
  result := reportResult true turn.1.transaction.label turn.2

private def Unused (progress : Progress LabelledTransaction) : Prop :=
  progress.output.resourceUsage = { computeUnits := 0, costUnits := 0 }

theorem addBlockResourceUsage_unused (hunused : Unused progress) :
    addBlockResourceUsage progress.output.resourceUsage { computeUnits := 0, costUnits := 0 } =
      some progress.output.resourceUsage := by
  rw [hunused]
  rfl

private def answer (confirmed : ℕ → Bool) (processed : List TransactionID)
    (scheduled : ScheduledTransaction LabelledTransaction) :
    ParallelExecutionResult LabelledTransaction :=
  { scheduled with
    result := reportResult (accepted confirmed scheduled) scheduled.transaction.label
      (decide ((lockedBy scheduled).id ∈ processed)) }

theorem finalState_reported (state : ChainState)
    (turns : List (ScheduledTransaction LabelledTransaction × Bool)) :
    finalState state (turns.map reported) = state := by
  induction turns generalizing state with
  | nil => rfl
  | cons turn turns ih => exact ih state

section

variable (hexecutor : input.executor = reportingExecutor confirmed)
include hexecutor

theorem report_batch (batch : List (ScheduledTransaction LabelledTransaction))
    (hunused : Unused progress)
    (hstrict : input.rejectFailed = true → ∀ scheduled ∈ batch, accepted confirmed scheduled) :
    ∃ next, (batch.mapM (executeScheduledTransaction input start) >>= fun results =>
        results.foldlM (applyExecutionResult crypto labelledModel input) progress) = .ok next ∧
      Unused next ∧
      Commits crypto labelledModel input lockedBy progress next
        ((batchTurns lockedBy start.processed (batch.filter (accepted confirmed))).map
          reported) := by
  induction batch generalizing progress with
  | nil => exact ⟨progress, rfl, hunused, .refl _⟩
  | cons scheduled batch ih =>
    have hexecute : executeScheduledTransaction input start scheduled =
        .ok (answer confirmed start.processed scheduled) := by
      simp only [executeScheduledTransaction, hexecutor]
      rfl
    obtain ⟨middle, hmiddle, hunusedMiddle, hcommits⟩ : ∃ middle,
        applyExecutionResult crypto labelledModel input progress
          (answer confirmed start.processed scheduled) = .ok middle ∧ Unused middle ∧
        Commits crypto labelledModel input lockedBy progress middle
          ((batchTurns lockedBy start.processed ([scheduled].filter (accepted confirmed))).map
            reported) := by
      cases haccepted : accepted confirmed scheduled with
      | true =>
        rw [filter_cons_of_pos haccepted]
        obtain ⟨middle, hmiddle, hcommits, husage⟩ := @applyExecutionResult_confirmed _ crypto
          labelledModel input lockedBy progress _
          (reported (scheduled, decide ((lockedBy scheduled).id ∈ start.processed))) rfl rfl
          (addBlockResourceUsage_unused hunused)
        rw [answer, haccepted]
        exact ⟨middle, hmiddle, husage.trans hunused, hcommits⟩
      | false =>
        rw [filter_cons_of_neg (by simp [haccepted])]
        have hlenient : ¬input.rejectFailed = true := fun hfails =>
          absurd (hstrict hfails scheduled mem_cons_self) (by simp [haccepted])
        refine ⟨{ progress with output := { progress.output with
            rejectedTransactions := progress.output.rejectedTransactions ++ [
              { transactionID := (lockedBy scheduled).id
                transaction := scheduled.transaction
                status := .failed
                error := "transaction rejected" }] } },
          ?_, hunused, { Commits.refl progress with }⟩
        rw [answer, haccepted]
        simp only [applyExecutionResult, addActualBlockResourceUsage, eq_ok]
        refine ⟨_, addBlockResourceUsage_unused hunused, ?_⟩
        rw [if_pos (by simp [reportResult, verdictResult])]
        simp only [eq_ok]
        exact ⟨hlenient, _, rfl, rfl⟩
    obtain ⟨next, hnext, hunusedNext, hcommitsNext⟩ := ih hunusedMiddle fun hfails other hmem =>
      hstrict hfails other (mem_cons_of_mem scheduled hmem)
    refine ⟨next, ?_, hunusedNext, ?_⟩
    · simp only [mapM_cons, hexecute, bind_assoc, pure_bind, foldlM_cons]
      simp only [Bind.bind, Except.bind, hmiddle] at hnext ⊢
      exact hnext
    · have hboth := hcommits.trans hcommitsNext
      rwa [← map_append, batchTurns, batchTurns, ← map_append, ← filter_append]
        at hboth

/-- A run over reporting transactions, with the turns it takes. -/
theorem parallelLoop_reports (finishing : ℕ → List ℕ) (fuel : ℕ)
    {pending : List (ScheduledTransaction LabelledTransaction)} (hunused : Unused progress)
    (hroom : progress.output.transactions.length + pending.length ≤ input.maxIncludedCount)
    (hstrict : input.rejectFailed = true → ∀ scheduled ∈ pending, accepted confirmed scheduled) :
    ∃ next, parallelLoop crypto labelledModel input finishing fuel progress pending = .ok next ∧
      Commits crypto labelledModel input lockedBy progress next
        ((commitOrder lockedBy (accepted confirmed) fuel progress.processed pending).map
          reported) := by
  induction fuel generalizing progress pending with
  | zero => exact ⟨progress, rfl, .refl _⟩
  | succ fuel ih =>
    by_cases hnil : pending = []
    · subst hnil
      rw [commitOrder_nil]
      exact ⟨progress, rfl, .refl _⟩
    obtain ⟨batch, remaining, hnext, hperm, hbatch, hrest, -, hround⟩ :=
      @parallelLoop_round _ crypto labelledModel input lockedBy progress pending finishing fuel
        (fun scheduled _ => footprint_labelled scheduled.transaction) hroom hnil
    obtain ⟨middle, hmiddle, hunusedMiddle, hcommits⟩ := @report_batch crypto input confirmed
      progress progress hexecutor batch hunused fun hfails scheduled hmem =>
        hstrict hfails scheduled (hbatch.subset hmem)
    obtain ⟨next, hlater, hcommitsLater⟩ := @ih middle remaining hunusedMiddle
      (by
        have hparts := hperm.length_eq
        have hshort := batch.length_filter_le (accepted confirmed)
        rw [length_append] at hparts
        rw [hcommits.transactions, length_append, length_map, length_map, batchTurns, length_map]
        omega)
      fun hfails scheduled hmem => hstrict hfails scheduled (hrest.subset hmem)
    refine ⟨next, toOption_eq_some.mp ?_, ?_⟩
    · rw [hround, Batch.together, hmiddle, toOption_ok, Option.bind_some, hlater, toOption_ok]
    · have hboth := hcommits.trans hcommitsLater
      have hprocessed : (batchTurns lockedBy progress.processed
          (batch.filter (accepted confirmed))).map (Committed.scheduled ∘ reported) =
            batch.filter (accepted confirmed) := by
        rw [batchTurns, map_map]
        exact map_id _
      rw [hcommits.processed, map_map, hprocessed, ← map_append] at hboth
      simpa only [commitOrder, hnext] using hboth

theorem execute_reports (crypto : Crypto) (finishing : ℕ → List ℕ)
    (hroom : input.transactions.length ≤ input.maxIncludedCount)
    (hstrict : input.rejectFailed = true → ∀ transaction ∈ input.transactions,
      confirmed transaction.label = true) :
    ∃ output, executeTransactionsParallel crypto labelledModel input finishing = .ok output ∧
      output.state = input.state ∧
      output.transactions = (reportTurns confirmed input.processedTxIDs input.transactions).map
        (fun turn => turn.1.transaction) ∧
      output.receipts = (reportTurns confirmed input.processedTxIDs input.transactions).map
        (fun turn => hashReceipt crypto
          (reportResult true turn.1.transaction.label turn.2)) ∧
      ∀ fees ∈ output.feeDetails, fees = noFee := by
  obtain ⟨next, hnext, hcommits⟩ := @parallelLoop_reports crypto input confirmed
    (initialProgress input) hexecutor finishing input.transactions.length
    (buildScheduledTransactions input.transactions) rfl
    (by simpa [initialProgress, buildScheduledTransactions] using hroom)
    (fun hfails scheduled hmem => hstrict hfails _ (by
      rw [← buildScheduledTransactions_transaction input.transactions]
      exact mem_map_of_mem hmem))
  refine ⟨next.output, ?_, ?_, ?_, ?_, ?_⟩
  · simp only [executeTransactionsParallel, eq_ok]
    exact ⟨next, hnext, rfl⟩
  · rw [hcommits.state, finalState_reported]
    rfl
  · rw [hcommits.transactions, map_map]
    refine map_congr_left fun turn _ => ?_
    by_cases hmark : input.markIncluded = true
    · exact if_pos hmark
    · exact if_neg hmark
  · rw [hcommits.receipts, map_map]
    rfl
  · intro fees hmem
    rw [hcommits.feeDetails, map_map] at hmem
    obtain ⟨turn, -, rfl⟩ := mem_map.mp hmem
    rfl

end

end

/-! ### A chain with one validator -/

/-- Receipts are their own digests; beyond that, one text is told from all others. -/
def reportingCrypto (blockReceipts : Bytes) : Crypto where
  sha256 bytes :=
    if bytes.length = 32 then Borsh.ofBigEndian bytes else if bytes = blockReceipts then 1 else 0
  newValidatorID _ := [76]
  decodesAsBLSKey _ := true
  verifyMessageSignature _ _ _ := true

def soleValidator : ValidatorState where
  validatorID := [76]
  accountAddress := 1
  consensusPublicKey := 1
  blsPublicKey := []
  p2pPeerID := []
  stakeLamports := 1
  status := .active
  commissionBps := 0
  lastVotedSlot := 0
  missedProposalCount := 0
  missedVoteCount := 0
  jailUntilEpoch := 0

def soleSnapshot (crypto : Crypto) : EpochSnapshot where
  epochID := 0
  startSlot := 0
  endSlot := 9
  randomSeed := 0
  totalActiveStake := 1
  validators := [soleValidator]
  snapshotStateRoot := hashEpochSnapshot crypto 0 0 10 0 [soleValidator]

def zeroRewardConfig : RewardConfig where
  finalityDepth := 0
  rewardQCQuorum := { numerator := 0, denominator := 0, strict := false }
  voteRewardLamportsPerCredit := 0
  exactStakePayoutActivationEpoch := 0
  monetaryPolicy := defaultMonetaryPolicy
  maxVoteRewardDelaySlots := 0
  missedVoteJailThreshold := 0
  missedVoteJailEpochs := 0
  missedProposalJailThreshold := 0
  missedProposalJailEpochs := 0
  minActiveValidatorsAfterPerformanceJail := 0
  maliciousSlashBasisPoints := 0
  maliciousJailEpochs := 0

/-- The first block of a chain without accounts. -/
def firstBlockRequest (crypto : Crypto) (transactions : List LabelledTransaction) :
    ProduceBlockRequest LabelledTransaction where
  slot := 1
  parentSlot := 0
  height := 1
  epochSnapshot := soleSnapshot crypto
  schedule := { slotToLeader := [(1, [76])] }
  parentHash := 0
  previousQCHash := 0
  timeoutQC := none
  parentState := { accounts := [] }
  transactions := transactions
  blockhashQueue := { entries := [], maxAgeSlots := 0 }
  leaderKeyPair := { publicKey := 1, sign := fun _ => 0 }
  rewardQCs := []
  evidence := []
  proofSnapshots := []
  rewardConfig := zeroRewardConfig

section

variable {blockReceipts : Bytes} {signed : List VoteMessage} {crypto : Crypto}
  {transactions : List LabelledTransaction} {confirmed : ℕ → Bool} {finishing : ℕ → List ℕ}

section

variable (hcrypto : crypto = reportingCrypto blockReceipts)
include hcrypto

theorem soleSnapshot_validate : (soleSnapshot crypto).validate crypto = .ok () := by
  subst hcrypto
  have hset : newValidatorSet (reportingCrypto blockReceipts) [soleValidator] =
      .ok { entries := [soleValidator] } := rfl
  have hsnapshot : newEpochSnapshot (reportingCrypto blockReceipts) 0 0 10 0
      { entries := [soleValidator] } = .ok (soleSnapshot (reportingCrypto blockReceipts)) := rfl
  simp only [EpochSnapshot.validate, eq_ok]
  exact ⟨by simp [soleSnapshot, maxUint64], _, hset, _, hsnapshot, by simp⟩

theorem firstBlockRequest_validate :
    (firstBlockRequest crypto transactions).validate crypto signed = .ok () := by
  have hsnapshot := soleSnapshot_validate hcrypto
  simp only [validate, eq_ok]
  exact ⟨hsnapshot, by simp [firstBlockRequest], by simp [firstBlockRequest], rfl, rfl, [76], rfl,
    fun h => h soleValidator rfl rfl⟩

end

theorem applyBlockRewards_firstBlock {fees : List FeeDetails}
    (hfees : ∀ fee ∈ fees, fee = noFee) :
    applyBlockRewards crypto signed
        ((firstBlockRequest crypto transactions).rewardInput soleValidator fees)
        { accounts := [] } =
      .ok { state := { accounts := [] }, rewards := [] } := by
  have hsum : sumValidatorFees fees = .ok 0 := by
    induction fees with
    | nil => rfl
    | cons fee fees ih =>
      obtain ⟨rfl, htail⟩ := forall_mem_cons.mp hfees
      exact ih htail
  have hquorum : strictTwoThirds.requiredStake 1 = .ok 1 := rfl
  have hvalid : ((firstBlockRequest crypto transactions).rewardInput
      soleValidator fees).normalize.validate = .ok () := by
    simp only [BlockRewardInput.validate, eq_ok]
    have hslash : ¬10000 < 5000 := by decide
    refine ⟨?_, ?_, Nat.not_lt_zero _, Nat.not_lt_zero _, hslash, 1, hquorum, rfl, rfl⟩
    all_goals
      rintro (h | h)
      all_goals cases h
  simp only [applyBlockRewards, eq_ok]
  refine ⟨hvalid, { state := { accounts := [] }, rewards := [] }, ?_, _, rfl, _, rfl, _, rfl, _,
    rfl, _, rfl, Nat.not_lt_zero _, rfl⟩
  simp only [applyLeaderFeeReward, eq_ok]
  exact ⟨0, hsum, rfl⟩

theorem selectBlockTransactionPrefix_reporting
    (hlength : transactions.length ≤ maxProposalTransactions) :
    ∃ usage, selectBlockTransactionPrefix reportingModel transactions =
      .ok (transactions, usage, false) := by
  have hfree : 0 + (transactions.zipIdx.map fun _ => 0).sum ≤ 0 := by simp
  obtain ⟨usage, h⟩ := @selectPrefixFrom_all _ reportingModel maxProposalTransactions
    { computeUnits := 0, costUnits := 0 } transactions.zipIdx (by simpa using hlength)
    (fun _ _ => ⟨rfl, Nat.zero_le _⟩)
    ⟨hfree.trans (Nat.zero_le _), hfree.trans (Nat.zero_le _)⟩
  rw [zipIdx_map_fst] at h
  exact ⟨usage, h⟩

theorem hashTransactions_reporting (crypto : Crypto)
    (transactions : List LabelledTransaction) :
    ∃ root, hashTransactions crypto reportingModel transactions = .ok root := by
  simp only [hashTransactions, eq_ok]
  obtain ⟨hashes, hhashes⟩ := exists_mapM_eq_ok fun entry (_ : entry ∈ transactions.zipIdx) =>
    ⟨0, withContext_eq_ok.mpr rfl⟩
  exact ⟨_, hashes, hhashes, rfl⟩

/-- The leader of the first block produces it, whatever is confirmed. -/
theorem produce_firstBlock (hcrypto : crypto = reportingCrypto blockReceipts)
    (confirmed : ℕ → Bool) (finishing : ℕ → List ℕ)
    (hlength : transactions.length ≤ maxProposalTransactions) :
    ∃ report, produceBlockWithReport crypto signed reportingModel
        { chainID := [97], executor := reportingExecutor confirmed, finishing := finishing } 0
        (firstBlockRequest crypto transactions) = .ok report ∧
      report.proposal.transactions = (reportTurns confirmed [] transactions).map
        (fun turn => turn.1.transaction) ∧
      report.proposal.header.receiptRoot = hashHashList crypto
        ((reportTurns confirmed [] transactions).map fun turn =>
          hashReceipt crypto (reportResult true turn.1.transaction.label turn.2)) := by
  obtain ⟨output, houtput, hstate, htransactions, hreceipts, hfees⟩ := @execute_reports
    (productionInput
      { chainID := [97], executor := reportingExecutor confirmed, finishing := finishing }
      (firstBlockRequest crypto transactions) transactions)
    confirmed rfl crypto finishing hlength nofun
  obtain ⟨txRoot, htxRoot⟩ := hashTransactions_reporting crypto output.transactions
  obtain ⟨header, hheader, hroot, signData, hsignData⟩ : ∃ header,
      buildProposalHeader crypto reportingModel [97] 0 (firstBlockRequest crypto transactions)
        output.transactions output.receipts [] { accounts := [] } = .ok header ∧
      header.receiptRoot = hashHashList crypto output.receipts ∧
      ∃ signData, header.signBytes = .ok signData := by
    simp only [buildProposalHeader, computeProposalRoots, htxRoot]
    exact ⟨_, rfl, rfl, _, rfl⟩
  have hrewarded := @applyBlockRewards_firstBlock signed crypto transactions _
    hfees
  refine ⟨{ proposal :=
              { header := header, transactions := output.transactions, rewardQCs := []
                timeoutQC := none, evidence := [], rewards := [], leaderSignature := 0 }
            state := { accounts := [] }
            rejectedTransactions := output.rejectedTransactions }, ?_, htransactions, ?_⟩
  · obtain ⟨usage, hselected⟩ := selectBlockTransactionPrefix_reporting hlength
    simp only [produceBlockWithReport, eq_ok]
    refine ⟨firstBlockRequest_validate hcrypto, _, hselected, output, houtput, [76], rfl,
      soleValidator, rfl, { state := { accounts := [] }, rewards := [] }, ?_, header, hheader,
      signData, hsignData, rfl⟩
    rw [hstate]
    exact hrewarded
  · rw [hroot, hreceipts]
    rfl

end

/-! ### Roots that tell the order -/

section

variable {blockReceipts : Bytes}

theorem reportingCrypto_sha256 {bytes : Bytes} (h : bytes.length = 32) :
    (reportingCrypto blockReceipts).sha256 bytes = ofBigEndian bytes :=
  if_pos h

theorem reportingCrypto_sha256_lt (bytes : Bytes) :
    (reportingCrypto blockReceipts).sha256 bytes < 2 ^ 256 := by
  simp only [reportingCrypto]
  split
  · next hlength =>
    have hbound := ofLittleEndian_lt bytes.reverse
    rw [length_reverse, hlength] at hbound
    exact hbound
  · split <;> decide

def reportDigest (label : ℕ) (processed : Bool) : Hash :=
  Borsh.ofBigEndian (uint64ForHash 1 ++ uint64ForHash 0 ++
    (uint64ForHash label ++ uint64ForHash (if processed then 1 else 0)))

theorem hashReceipt_reported (label : ℕ) (processed : Bool) :
    hashReceipt (reportingCrypto blockReceipts) (reportResult true label processed) =
      reportDigest label processed := by
  have hbytes : hashReceipt (reportingCrypto blockReceipts) (reportResult true label processed) =
      (reportingCrypto blockReceipts).sha256 (uint64ForHash 1 ++ uint64ForHash 0 ++
        [label, if processed then 1 else 0].flatMap uint64ForHash) := rfl
  rw [hbytes, reportingCrypto_sha256 (by simp [uint64ForHash])]
  simp only [flatMap_cons, flatMap_nil, append_nil, reportDigest]

theorem reportDigest_lt (label : ℕ) (processed : Bool) :
    reportDigest label processed < 2 ^ 256 := by
  rw [← @hashReceipt_reported []]
  exact reportingCrypto_sha256_lt _

theorem reportDigest_inj {label label' : ℕ} {processed processed' : Bool}
    (hlabel : label < 2 ^ 64) (hlabel' : label' < 2 ^ 64)
    (h : reportDigest label processed = reportDigest label' processed') :
    label = label' ∧ processed = processed' := by
  have hbytes := append_cancel_left (ofBigEndian_inj (by simp [uint64ForHash]) h)
  obtain ⟨hlabels, hflags⟩ := append_inj hbytes (by simp [uint64ForHash])
  refine ⟨littleEndian_inj hlabel hlabel' hlabels, ?_⟩
  have hbits := littleEndian_inj (by split <;> decide) (by split <;> decide) hflags
  cases processed <;> cases processed' <;> simp_all

section

variable {first second : List Hash} (hfirst : ∀ hash ∈ first, hash < 2 ^ 256)
  (hsecond : ∀ hash ∈ second, hash < 2 ^ 256) (hlength : first.length = second.length)
include hfirst hsecond hlength

theorem hashHashList_inj
    (h : hashHashList (reportingCrypto (first.flatMap (bigEndian 32))) first =
      hashHashList (reportingCrypto (first.flatMap (bigEndian 32))) second) : first = second := by
  by_cases hnil : first = []
  · rw [hnil] at hlength ⊢
    exact (length_eq_zero_iff.mp hlength.symm).symm
  have hnil' : second ≠ [] := by
    rintro rfl
    exact hnil (length_eq_zero_iff.mp hlength)
  have hnonempty (hash : Hash) : bigEndian 32 hash ≠ [] := by
    simp [bigEndian]
  rw [← forall₂_eq_eq_eq]
  refine forall₂_of_flatMap hnonempty (fun hash hmem other hother _ _ =>
    split_bigEndian (hfirst hash hmem) (hsecond other hother)) ?_
  have hbytes : (first.flatMap (bigEndian 32)).length = (second.flatMap (bigEndian 32)).length := by
    simp [length_flatMap, hlength]
  simp only [hashHashList, if_neg hnil, if_neg hnil', reportingCrypto, ← hbytes] at h
  split at h
  · exact ofBigEndian_inj hbytes h
  · by_contra hne
    rw [if_neg (Ne.symm hne)] at h
    cases h

end

end

section

variable {footprints : List Footprint}

/-- A reporting transaction as the condition sees it. -/
private def labelledTask (scheduled : ScheduledTransaction LabelledTransaction) : Footprint × ℕ :=
  (scheduled.transaction.footprint, scheduled.transaction.label)

theorem labelledTask_build (transactions : List LabelledTransaction) :
    (buildScheduledTransactions transactions).map labelledTask =
      transactions.map fun transaction => (transaction.footprint, transaction.label) := by
  have h := congrArg (map fun transaction : LabelledTransaction =>
    (transaction.footprint, transaction.label))
      (buildScheduledTransactions_transaction transactions)
  rwa [map_map] at h

theorem labelledTransactions_tasks (footprints : List Footprint) :
    ((labelledTransactions footprints).map fun transaction =>
      (transaction.footprint, transaction.label)) = footprints.zipIdx := by
  simp only [labelledTransactions, map_map, Function.comp_def]
  exact map_id _

theorem zipIdx_inj {first second : Footprint × ℕ} (hfirst : first ∈ footprints.zipIdx)
    (hsecond : second ∈ footprints.zipIdx) (h : first.2 = second.2) : first = second := by
  refine inj_on_of_nodup_map ?_ hfirst hsecond h
  rw [zipIdx_map_snd]
  exact nodup_range'

/-- Turns of tasks are told apart by their digests. -/
theorem turns_eq_of_digests {first second : List ((Footprint × ℕ) × Bool)}
    (hlength : footprints.length ≤ maxProposalTransactions)
    (hfirst : ∀ turn ∈ first, turn.1 ∈ footprints.zipIdx)
    (hsecond : ∀ turn ∈ second, turn.1 ∈ footprints.zipIdx)
    (h : first.map (fun turn => reportDigest turn.1.2 turn.2) =
      second.map fun turn => reportDigest turn.1.2 turn.2) : first = second := by
  induction first generalizing second with
  | nil => exact (map_eq_nil_iff.mp h.symm).symm
  | cons turn first ih =>
    cases second with
    | nil => simp at h
    | cons other second =>
      obtain ⟨hturn, hfirst⟩ := forall_mem_cons.mp hfirst
      obtain ⟨hother, hsecond⟩ := forall_mem_cons.mp hsecond
      obtain ⟨hhead, htail⟩ := cons.inj h
      have hbound : ∀ item ∈ footprints.zipIdx, item.2 < 2 ^ 64 := by
        intro item hmem
        have hindex := snd_lt_of_mem_zipIdx hmem
        rw [maxProposalTransactions] at hlength
        omega
      obtain ⟨hlabel, hflag⟩ := reportDigest_inj (hbound _ hturn) (hbound _ hother) hhead
      have htask : turn.1 = other.1 := zipIdx_inj hturn hother hlabel
      rw [Prod.ext htask hflag, ih hfirst hsecond htail]

private def confirms (chosen : List (Footprint × ℕ)) (label : ℕ) : Bool :=
  label ∈ chosen.map Prod.snd

/-- The leader's turns, as the condition sees them. -/
theorem leader_turns {chosen : List (Footprint × ℕ)}
    (hchosen : chosen.Sublist footprints.zipIdx) :
    (reportTurns (confirms chosen) [] (labelledTransactions footprints)).map
        (Prod.map labelledTask id) =
      commitOrder Prod.fst (fun task => decide (task ∈ chosen)) footprints.length []
        footprints.zipIdx := by
  have hlength : (labelledTransactions footprints).length = footprints.length := by
    simp [labelledTransactions]
  have htasks := labelledTask_build (labelledTransactions footprints)
  rw [labelledTransactions_tasks] at htasks
  rw [reportTurns, hlength, ← htasks]
  refine (commitOrder_map _ _ (by exact fun _ _ => rfl) fun scheduled hmem => ?_).symm
  have htask : labelledTask scheduled ∈ footprints.zipIdx := htasks ▸ mem_map_of_mem hmem
  rw [Bool.eq_iff_iff, accepted, confirms, decide_eq_true_eq, decide_eq_true_eq, mem_map]
  constructor
  · exact fun hmem => ⟨_, hmem, rfl⟩
  · rintro ⟨other, hother, hlabel⟩
    rwa [← zipIdx_inj (hchosen.subset hother) htask hlabel]

/-- A verifier's turns, as the condition sees them. -/
theorem verifier_turns {confirmed : ℕ → Bool}
    {turns : List (ScheduledTransaction LabelledTransaction × Bool)}
    (hturns : ∀ turn ∈ turns, accepted confirmed turn.1 = true) :
    (reportTurns confirmed [] (turns.map fun turn => turn.1.transaction)).map
        (Prod.map labelledTask id) =
      commitOrder Prod.fst (fun _ => true) (turns.map (Prod.map labelledTask id)).length []
        ((turns.map (Prod.map labelledTask id)).map Prod.fst) := by
  have htasks := labelledTask_build (turns.map fun turn => turn.1.transaction)
  rw [map_map] at htasks
  have hsame : (turns.map (Prod.map labelledTask id)).map Prod.fst =
      (buildScheduledTransactions (turns.map fun turn => turn.1.transaction)).map
        labelledTask := by
    rw [htasks, map_map]
    rfl
  rw [reportTurns, hsame, length_map, length_map]
  refine (commitOrder_map _ _ (by exact fun _ _ => rfl) fun scheduled hmem => ?_).symm
  have htransaction : scheduled.transaction ∈ turns.map fun turn => turn.1.transaction := by
    rw [← buildScheduledTransactions_transaction (turns.map fun turn => turn.1.transaction)]
    exact mem_map_of_mem hmem
  obtain ⟨turn, hturn, heq⟩ := mem_map.mp htransaction
  rw [accepted, ← heq]
  exact (hturns turn hturn).symm

end

/-- Every block that the leader makes of a request is accepted by every validator that
runs the same executor on the same chain. -/
def AcceptedByAll {τ : Type} (crypto : Crypto) (signed : List VoteMessage)
    (model : BlockTransactionModel τ) (chainID : Bytes) (executor : TransactionExecutor τ)
    (request : ProduceBlockRequest τ) : Prop :=
  ∀ (finishing finishing' : ℕ → List ℕ) (now : ℤ) (report : BlockProductionResult τ)
    (leaderID : ValidatorID) (leader : ValidatorState),
    produceBlockWithReport crypto signed model
      { chainID := chainID, executor := executor, finishing := finishing } now request =
        .ok report →
    request.schedule.leaderForSlot request.slot = .ok leaderID →
    request.epochSnapshot.validatorByID leaderID = some leader →
    BlockExecutor.verifyProposal crypto signed model
      { chainID := chainID, executor := executor, finishing := finishing' }
      (request.verification report.proposal leader) = .ok report.state

/-- Locks that are not reproducible: some block is produced and refused. -/
theorem refused_of_not_reproducible {footprints : List Footprint}
    (hlength : footprints.length ≤ maxProposalTransactions) (h : ¬reproducible footprints = true) :
    ∃ blockReceipts confirmed, ¬AcceptedByAll (reportingCrypto blockReceipts) [] reportingModel
      [97] (reportingExecutor confirmed)
      (firstBlockRequest (reportingCrypto blockReceipts) (labelledTransactions footprints)) := by
  simp only [reproducible, all_eq_true, mem_sublists, decide_eq_true_eq, not_forall] at h
  obtain ⟨chosen, hchosen, hne⟩ := h
  rw [← leader_turns hchosen] at hne
  generalize hturns : reportTurns (confirms chosen) [] (labelledTransactions footprints) = turns
    at hne
  have haccepted : ∀ turn ∈ turns, accepted (confirms chosen) turn.1 = true :=
    fun turn hmem => commitOrder_confirmed _ _ _ (hturns ▸ hmem)
  have hverifier := verifier_turns haccepted
  generalize hagain : reportTurns (confirms chosen) []
    (turns.map fun turn => turn.1.transaction) = turns' at hverifier
  rw [← hverifier] at hne
  generalize hreceipts : (turns.map fun turn =>
    reportDigest turn.1.transaction.label turn.2).flatMap (bigEndian 32) = blockReceipts
  refine ⟨blockReceipts, confirms chosen, fun haccept => ?_⟩
  obtain ⟨report, hreport, htransactions, hroot⟩ := @produce_firstBlock blockReceipts [] _
    (labelledTransactions footprints) rfl (confirms chosen) (fun _ => [])
    (by simpa [labelledTransactions] using hlength)
  rw [hturns] at htransactions hroot
  have hverified := haccept (fun _ => []) (fun _ => []) 0 report [76] soleValidator hreport rfl rfl
  simp only [BlockExecutor.verifyProposal, eq_ok] at hverified
  obtain ⟨-, -, -, _, -, -, -, output, houtput, _, -, hroots, -⟩ := hverified
  obtain ⟨again, hrun, -, -, hrunReceipts, -⟩ := @execute_reports
    (verificationInput
      { chainID := [97]
        executor := reportingExecutor (confirms chosen)
        finishing := fun _ => [] }
      ((firstBlockRequest (reportingCrypto blockReceipts)
        (labelledTransactions footprints)).verification report.proposal soleValidator))
    (confirms chosen) rfl (reportingCrypto blockReceipts) (fun _ => []) (Nat.le_refl _) (by
      intro _ transaction hmem
      rw [verificationInput, verification, htransactions] at hmem
      obtain ⟨turn, hturn, rfl⟩ := mem_map.mp hmem
      exact haccepted turn hturn)
  obtain rfl := Except.ok.inj (hrun.symm.trans houtput)
  have hsameRoot : hashHashList (reportingCrypto blockReceipts)
      (turns.map fun turn => reportDigest turn.1.transaction.label turn.2) =
      hashHashList (reportingCrypto blockReceipts)
        (turns'.map fun turn => reportDigest turn.1.transaction.label turn.2) := by
    simp only [verifyProposalRoots, computeProposalRoots, eq_ok] at hroots
    obtain ⟨_, ⟨_, -, _, -, _, -, _, -, rfl⟩, hmatch, -⟩ := hroots
    simp only [not_or, not_not] at hmatch
    rw [verificationInput, verification] at hrunReceipts
    rw [htransactions, hagain] at hrunReceipts
    have hreceiptRoot := hmatch.2
    rw [hrunReceipts, verification, hroot] at hreceiptRoot
    simpa only [hashReceipt_reported] using hreceiptRoot
  have hcount : turns.length = turns'.length := by
    have h := congrArg length hverifier
    rw [commitOrder_length _ _ (by simp)] at h
    simpa using h.symm
  rw [← hreceipts] at hsameRoot
  have hsmall : ∀ turns : List (ScheduledTransaction LabelledTransaction × Bool),
      ∀ hash ∈ turns.map (fun turn => reportDigest turn.1.transaction.label turn.2),
        hash < 2 ^ 256 := by
    rintro turns hash hmem
    obtain ⟨turn, -, rfl⟩ := mem_map.mp hmem
    exact reportDigest_lt _ _
  have hdigests := hashHashList_inj (hsmall turns) (hsmall turns') (by simpa using hcount)
    hsameRoot
  have htasks : ∀ turn ∈ turns.map (Prod.map labelledTask id), turn.1 ∈ footprints.zipIdx := by
    rw [← hturns, leader_turns hchosen]
    exact fun turn hmem => (commitOrder_subperm _ _ _).subset (mem_map_of_mem hmem)
  refine hne (turns_eq_of_digests hlength ?_ htasks ?_)
  · rw [hverifier]
    intro turn hmem
    obtain ⟨other, hother, heq⟩ := mem_map.mp
      ((commitOrder_subperm _ _ _).subset (mem_map_of_mem hmem))
    exact heq ▸ htasks other hother
  · rw [map_map, map_map]
    exact hdigests.symm

/-- Every block that a leader produces from transactions with given locks is accepted,
whatever the executor makes of what is locked, exactly when the locks are
reproducible. -/
theorem produced_blocks_accepted_iff (footprints : List Footprint) :
    (∀ (τ : Type) (crypto : Crypto) (signed : List VoteMessage) (model : BlockTransactionModel τ)
        (chainID : Bytes) (executor : TransactionExecutor τ) (request : ProduceBlockRequest τ)
        (selected : List τ) (usage : BlockResourceUsage) (truncated : Bool),
      (∀ bytes, crypto.sha256 bytes < 2 ^ 256) →
      (∀ message, crypto.verifyMessageSignature request.leaderKeyPair.publicKey message
        (request.leaderKeyPair.sign message) = true) →
      selectBlockTransactionPrefix model request.transactions = .ok (selected, usage, truncated) →
      selected.map model.footprint = footprints.map .ok →
      TouchesOnlyLocked model.toTransactionModel executor →
      IgnoresMark model.toTransactionModel executor →
      AcceptedByAll crypto signed model chainID executor request) ↔
      (footprints.length ≤ maxProposalTransactions → reproducible footprints = true) := by
  constructor
  · intro haccept hlength
    by_contra h
    obtain ⟨blockReceipts, confirmed, hrefused⟩ := refused_of_not_reproducible hlength h
    obtain ⟨usage, hselected⟩ := @selectBlockTransactionPrefix_reporting
      (labelledTransactions footprints) (by simpa [labelledTransactions] using hlength)
    refine hrefused (haccept _ _ _ _ _ _ _ (labelledTransactions footprints) usage false
      reportingCrypto_sha256_lt (fun _ => rfl) hselected ?_
      (reportingExecutor_touchesOnlyLocked confirmed) (reportingExecutor_ignoresMark confirmed))
    have hfootprints := labelledTransactions_footprint footprints
    conv_rhs => rw [← hfootprints, map_map]
    rfl
  · intro h τ crypto signed model chainID executor request selected usage truncated _ hsigns
      hselected hfootprints hlocal hmark finishing finishing' now report leaderID leader hproduced
      hleaderID hleader
    have hlength : footprints.length ≤ maxProposalTransactions := by
      have hcount := congrArg length hfootprints
      rw [length_map, length_map] at hcount
      rw [← hcount]
      exact selectBlockTransactionPrefix_length hselected
    exact verifyProposal_of_reproducible hlocal hmark hsigns hselected hfootprints (h hlength)
      hproduced hleaderID hleader

/-- The first transaction shares its lock with the last one, the second with the third. -/
def crossedFootprints : List Footprint :=
  [{ id := [1], reads := [], writes := [101] }, { id := [2], reads := [], writes := [102] },
    { id := [3], reads := [], writes := [102] }, { id := [4], reads := [], writes := [101] }]

/-- The receipts of the second, the third and the fourth transaction, in this order. -/
def crossedReceipts : Bytes :=
  [1, 2, 3].flatMap fun label => bigEndian 32 (reportDigest label false)

def crossedExecutor : BlockExecutor LabelledTransaction where
  chainID := [97]
  executor := reportingExecutor fun label => label ≠ 0
  finishing := fun _ => []

def crossedRequest : ProduceBlockRequest LabelledTransaction :=
  firstBlockRequest (reportingCrypto crossedReceipts) (labelledTransactions crossedFootprints)

/-- The first transaction fails. Its lock held the last one back, so that the leader
commits the others in their order; without it the last one overtakes the third. -/
theorem produced_block_refused :
    TouchesOnlyLocked reportingModel.toTransactionModel crossedExecutor.executor ∧
      IgnoresMark reportingModel.toTransactionModel crossedExecutor.executor ∧
      (crossedExecutor.produceBlockWithReport (reportingCrypto crossedReceipts) [] reportingModel 0
        crossedRequest).toOption.map (fun report =>
          report.proposal.transactions.map LabelledTransaction.label) = some [1, 2, 3] ∧
      failureMessage (do
        let report ← crossedExecutor.produceBlockWithReport (reportingCrypto crossedReceipts) []
          reportingModel 0 crossedRequest
        crossedExecutor.verifyProposal (reportingCrypto crossedReceipts) [] reportingModel
          (crossedRequest.verification report.proposal soleValidator)) =
        some "consensus: proposal transaction roots mismatch" :=
  ⟨reportingExecutor_touchesOnlyLocked fun label => label ≠ 0,
    reportingExecutor_ignoresMark fun label => label ≠ 0, by decide +kernel, by decide +kernel⟩

end Ordexus
