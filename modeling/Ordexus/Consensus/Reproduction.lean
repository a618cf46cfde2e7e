import Ordexus.Consensus.CommitOrder
import Ordexus.Consensus.Proposal

/-!
# Can a produced block be reproduced?

A leader leaves the transactions that fail out of its block, and a verifier
schedules what is left. The verifier meets the same results if its batches commit
the transactions in the order of the block. That depends on the locks alone, and
it is exact: if some choice of failing transactions spoils the order, then there is
an executor for which a produced block is refused.
-/

namespace Ordexus

open Checked List

/-- Whichever transactions fail, the others are committed in the same order, and hear
the same of their ids, when the scheduler meets only them. -/
def reproducible (footprints : List Footprint) : Bool :=
  footprints.zipIdx.sublists.all fun confirmed =>
    let turns := commitOrder Prod.fst (fun task => decide (task ∈ confirmed)) footprints.length []
      footprints.zipIdx
    commitOrder Prod.fst (fun _ => true) turns.length [] (turns.map Prod.fst) = turns

variable {τ : Type}

/-- An executor that does not look at the mark of a confirmed transaction. -/
def IgnoresMark (model : TransactionModel τ) (executor : TransactionExecutor τ) : Prop :=
  ∀ (request : TransactionRequest τ) (fee : ℕ),
    executor { request with
      transaction := model.markTransactionConfirmed request.transaction fee } = executor request

/-! ### The turns of the second run -/

section

variable {known : ScheduledTransaction τ → Footprint}

/-- A scheduled transaction as the condition sees it. -/
private def task (known : ScheduledTransaction τ → Footprint)
    (scheduled : ScheduledTransaction τ) : Footprint × ℕ :=
  (known scheduled, scheduled.originalIndex)

variable {pending : List (ScheduledTransaction τ)} {footprints : List Footprint}
  {transcript : List (Committed τ)} {confirmed : ScheduledTransaction τ → Bool}

section

variable (hturns : transcript.map Committed.turn =
  commitOrder known confirmed footprints.length [] pending)
include hturns

theorem transcript_subperm : (transcript.map Committed.scheduled).Subperm pending := by
  have hsub := @commitOrder_subperm _ known confirmed footprints.length [] pending
  rwa [← hturns, map_map] at hsub

variable (hnodup : (pending.map ScheduledTransaction.originalIndex).Nodup)
include hnodup

theorem nodup_of_turns :
    (transcript.map fun committed => committed.scheduled.originalIndex).Nodup := by
  obtain ⟨chosen, hperm, hsub⟩ := transcript_subperm hturns
  have hindexes := (hperm.map ScheduledTransaction.originalIndex).nodup_iff.mp
    ((hsub.map _).nodup hnodup)
  rwa [map_map] at hindexes

theorem reproducible_turns (h : reproducible footprints = true)
    (hpending : pending.map (task known) = footprints.zipIdx) :
    commitOrder Prod.fst (fun _ => true) transcript.length []
        (transcript.map fun committed => task known committed.scheduled) =
      transcript.map fun committed => (task known committed.scheduled, committed.processed) := by
  simp only [reproducible, all_eq_true, mem_sublists, decide_eq_true_eq] at h
  have hsub : ((pending.filter confirmed).map (task known)).Sublist footprints.zipIdx :=
    hpending ▸ filter_sublist.map _
  have horder := @commitOrder_map _ _ known pending confirmed Prod.fst (task known)
    (fun item => decide (item ∈ (pending.filter confirmed).map (task known))) footprints.length []
    (fun _ _ => rfl) fun scheduled hmem => by
      rw [Bool.eq_iff_iff, decide_eq_true_eq, mem_map]
      constructor
      · rintro ⟨other, hother, heq⟩
        obtain ⟨hotherMem, hconfirmed⟩ := mem_filter.mp hother
        rwa [inj_on_of_nodup_map hnodup hotherMem hmem (congrArg Prod.snd heq)] at hconfirmed
      · exact fun hconfirmed => ⟨scheduled, mem_filter.mpr ⟨hmem, hconfirmed⟩, rfl⟩
  have hsame := h _ hsub
  rw [← hpending, horder, ← hturns, length_map, length_map, map_map, map_map, map_map] at hsame
  exact hsame

end

/-- A list as the first parts of its numbered entries. -/
theorem map_eq_map_zipIdx {α β : Type} (items : List α) (f : α → β) :
    items.map f = items.zipIdx.map fun item => f item.1 := by
  conv_lhs => rw [← zipIdx_map_fst 0 items, map_map]
  rfl

end

/-- The block's transactions as a verifier schedules them. -/
def rescheduled (model : TransactionModel τ) (transcript : List (Committed τ)) :
    List (Committed τ) :=
  transcript.zipIdx.map fun (committed, index) =>
    { committed with scheduled :=
        { originalIndex := index
          transaction := model.markTransactionConfirmed committed.scheduled.transaction
            committed.result.feeDetails.totalFee } }

section

variable {model : BlockTransactionModel τ} {transcript : List (Committed τ)}

theorem footprint_mark (model : BlockTransactionModel τ) (transaction : τ) (fee : ℕ) :
    model.footprint (model.markTransactionConfirmed transaction fee) =
      model.footprint transaction := by
  simp only [TransactionModel.footprint, model.txIDString_mark, model.transactionLockAccounts_mark]

theorem knownFootprint_mark (index : ℕ) (committed : Committed τ) (fee : ℕ) :
    model.knownFootprint
        { originalIndex := index
          transaction := model.markTransactionConfirmed committed.scheduled.transaction fee } =
      model.knownFootprint committed.scheduled := by
  simp only [TransactionModel.knownFootprint, footprint_mark]

theorem map_rescheduled {β : Type} (f : TransactionExecutionResult → β) :
    (rescheduled model.toTransactionModel transcript).map (fun committed => f committed.result) =
      transcript.map fun committed => f committed.result := by
  rw [map_eq_map_zipIdx transcript, rescheduled, map_map]
  rfl

theorem rescheduled_scheduled :
    (rescheduled model.toTransactionModel transcript).map Committed.scheduled =
      buildScheduledTransactions (transcript.map fun committed =>
        model.markTransactionConfirmed committed.scheduled.transaction
          committed.result.feeDetails.totalFee) := by
  simp only [rescheduled, buildScheduledTransactions, zipIdx_map, map_map]
  rfl

variable {footprints : List Footprint} {finishing : ℕ → List ℕ} {output : ParallelExecutionOutput τ}

/-- The verifier's batches commit the transactions in the order of the block. -/
theorem rescheduled_turns {pending : List (ScheduledTransaction τ)}
    (h : reproducible footprints = true)
    (hnodup : (pending.map ScheduledTransaction.originalIndex).Nodup)
    (hpending : pending.map (task model.knownFootprint) = footprints.zipIdx)
    {confirmed : ScheduledTransaction τ → Bool}
    (hturns : transcript.map Committed.turn =
      commitOrder model.knownFootprint confirmed footprints.length [] pending) :
    (rescheduled model.toTransactionModel transcript).map Committed.turn =
      commitOrder model.knownFootprint (fun _ => true) transcript.length []
        ((rescheduled model.toTransactionModel transcript).map Committed.scheduled) := by
  cases transcript with
  | nil => rfl
  | cons first later =>
  have : Nonempty (ScheduledTransaction τ) := ⟨first.scheduled⟩
  generalize hall : first :: later = transcript at hturns ⊢
  have hkeys : (transcript.zipIdx.map fun item =>
      task model.knownFootprint item.1.scheduled).Nodup := by
    refine Nodup.of_map Prod.snd ?_
    rw [map_map]
    have hindexes := nodup_of_turns hturns hnodup
    rwa [map_eq_map_zipIdx] at hindexes
  obtain ⟨rename, hrename⟩ := Batch.exists_factor
    (fun item : Committed τ × ℕ => (⟨item.2, model.markTransactionConfirmed
      item.1.scheduled.transaction item.1.result.feeDetails.totalFee⟩ : ScheduledTransaction τ))
    hkeys
  have hscheduled : (rescheduled model.toTransactionModel transcript).map Committed.scheduled =
      (transcript.map fun committed => task model.knownFootprint committed.scheduled).map
        rename := by
    rw [map_map, map_eq_map_zipIdx transcript, rescheduled, map_map]
    exact map_congr_left fun item hmem => (hrename item hmem).symm
  rw [hscheduled, @commitOrder_map _ _ Prod.fst _ (fun _ => true) model.knownFootprint rename
    (fun _ => true) transcript.length [] ?_ fun _ _ => rfl]
  · rw [reproducible_turns hturns hnodup h hpending, map_map, map_eq_map_zipIdx transcript,
      rescheduled, map_map]
    exact map_congr_left fun item hmem =>
      congrArg (Prod.mk · item.1.processed) (hrename item hmem).symm
  · intro key hmem
    rw [map_eq_map_zipIdx] at hmem
    obtain ⟨item, hitem, rfl⟩ := mem_map.mp hmem
    exact (congrArg _ (hrename item hitem)).trans (knownFootprint_mark _ _ _)

/-- The second execution of a block: everything has to be confirmed. -/
def ParallelExecutionInput.again (input : ParallelExecutionInput τ) (transactions : List τ)
    (label : String) : ParallelExecutionInput τ :=
  { input with
    transactions := transactions
    maxIncludedCount := transactions.length
    rejectFailed := true
    markIncluded := false
    failureLabel := label }

variable {input : ParallelExecutionInput τ}

section

variable (hmark : IgnoresMark model.toTransactionModel input.executor) (transactions : List τ)
  (label : String)
include hmark

theorem runTurn_mark (id : TransactionID) (processed : Bool) (transaction : τ) (fee : ℕ)
    (state : ChainState) :
    runTurn (input.again transactions label) id processed
        (model.markTransactionConfirmed transaction fee) state =
      runTurn input id processed transaction state :=
  hmark
    { chainID := input.chainID, slot := input.slot, epoch := input.epoch
      transaction := transaction, accounts := state, blockhashQueue := input.blockhashQueue
      processedTxIDs := if processed then [id] else [] } fee

theorem Replays.rescheduled {state : ChainState}
    (h : Replays input model.knownFootprint state transcript) :
    Replays (input.again transactions label) model.knownFootprint state
      (rescheduled model.toTransactionModel transcript) := by
  rw [Ordexus.rescheduled]
  generalize 0 = start
  induction transcript generalizing state start with
  | nil => trivial
  | cons committed later ih =>
    obtain ⟨hrun, hstatus, hlater⟩ := h
    refine ⟨?_, hstatus, ih hlater (start + 1)⟩
    rw [← hrun, ← runTurn_mark hmark transactions label]
    exact congrArg (fun footprint : Footprint => runTurn _ footprint.id _ _ _)
      (knownFootprint_mark _ _ _)

end

theorem finalState_rescheduled (state : ChainState) :
    finalState state (rescheduled model.toTransactionModel transcript) =
      finalState state transcript := by
  have hfold : ∀ transcript : List (Committed τ), finalState state transcript =
      (transcript.map Committed.result).foldl
        (fun state result => state.applyWrites result.writtenAccounts) state :=
    fun transcript => by rw [foldl_map, finalState]
  rw [hfold, hfold]
  exact congrArg _ (map_rescheduled id)

section

variable {crypto : Crypto} (hlocal : TouchesOnlyLocked model.toTransactionModel input.executor)
  (hfootprints : input.transactions.map model.footprint = footprints.map .ok)
  (hmarks : input.markIncluded = true) (hfresh : input.processedTxIDs = [])
  (hroom : input.transactions.length ≤ input.maxIncludedCount)
  (hrun : executeTransactionsParallel crypto model.toTransactionModel input finishing = .ok output)
include hlocal hfootprints hmarks hfresh hroom hrun

/-- What a first execution commits. -/
theorem executeTransactionsParallel_transcript :
    ∃ transcript : List (Committed τ), ∃ confirmed,
      transcript.map Committed.turn = commitOrder model.knownFootprint confirmed footprints.length
        [] (buildScheduledTransactions input.transactions) ∧
      Replays input model.knownFootprint input.state transcript ∧
      output.state = finalState input.state transcript ∧
      output.transactions = (transcript.map fun committed => model.markTransactionConfirmed
        committed.scheduled.transaction committed.result.feeDetails.totalFee) ∧
      output.receipts = (transcript.map fun committed => hashReceipt crypto committed.result) ∧
      output.feeDetails = (transcript.map fun committed => committed.result.feeDetails) ∧
      ∃ usage, addBlockResourceUsage { computeUnits := 0, costUnits := 0 }
        (transcriptUsage transcript) = some usage := by
  obtain ⟨hknown, hmap⟩ := buildScheduledTransactions_known hfootprints
  simp only [executeTransactionsParallel, eq_ok] at hrun
  obtain ⟨next, hnext, rfl⟩ := hrun
  have hlength : (buildScheduledTransactions input.transactions).length =
      input.transactions.length := by simp [buildScheduledTransactions]
  have hcount : input.transactions.length = footprints.length := by
    rw [← hlength, ← hmap, length_map]
  obtain ⟨transcript, ⟨confirmed, hturns⟩, hreplays, hcommits, hpays⟩ :=
    parallelLoop_transcript finishing input.transactions.length hknown
      (by rw [hlength]; simpa [initialProgress] using hroom) hlocal
      (by rw [buildScheduledTransactions_originalIndex]; exact nodup_range') hnext
  rw [hcount, initialProgress, hfresh] at hturns
  refine ⟨transcript, confirmed, hturns, hreplays, hcommits.state, ?_, hcommits.receipts,
    hcommits.feeDetails, _, addBlockResourceUsage_eq_some.mpr ⟨rfl, ?_, ?_⟩⟩
  · rw [hcommits.transactions]
    exact map_congr_left fun committed _ => if_pos hmarks
  · exact hpays.computeUnits.trans (hpays.computeLimit (Nat.zero_le _))
  · exact hpays.costUnits.trans (hpays.costLimit (Nat.zero_le _))

/-- A block of transactions with reproducible locks is executed again to the same
results. -/
theorem executeTransactionsParallel_again
    (hmark : IgnoresMark model.toTransactionModel input.executor)
    (hreproducible : reproducible footprints = true) (label : String) (finishing' : ℕ → List ℕ) :
    ∃ again, executeTransactionsParallel crypto model.toTransactionModel
        (input.again output.transactions label) finishing' = .ok again ∧
      again.state = output.state ∧ again.receipts = output.receipts ∧
      again.feeDetails = output.feeDetails := by
  obtain ⟨hknown, hmap⟩ := buildScheduledTransactions_known hfootprints
  obtain ⟨transcript, confirmed, hturns, hreplays, hstate, htransactions, hreceipts, hfees, _,
    hfits⟩ := executeTransactionsParallel_transcript hlocal hfootprints hmarks hfresh
      hroom hrun
  have hnodup : ((buildScheduledTransactions input.transactions).map
      ScheduledTransaction.originalIndex).Nodup := by
    rw [buildScheduledTransactions_originalIndex]
    exact nodup_range'
  have hpending : (buildScheduledTransactions input.transactions).map
      (task model.knownFootprint) = footprints.zipIdx := by
    have hcount : footprints.length = input.transactions.length := by
      simpa using (congrArg length hfootprints).symm
    have hpositions := buildScheduledTransactions_originalIndex input.transactions
    rw [← hcount, ← zipIdx_map_snd 0 footprints] at hpositions
    rw [← zipIdx_map_fst 0 footprints] at hmap
    refine (zip_of_prod rfl rfl).trans ?_
    rw [map_map, map_map]
    exact (congrArg₂ zip hmap hpositions).trans (zip_of_prod rfl rfl).symm
  have hagain := rescheduled_turns hreproducible hnodup hpending hturns
  have hlength : transcript.length = output.transactions.length := by
    rw [htransactions, length_map]
  rw [rescheduled_scheduled, ← htransactions, hlength] at hagain
  have husage : transcriptUsage (rescheduled model.toTransactionModel transcript) =
      transcriptUsage transcript := by
    simp only [transcriptUsage]
    rw [map_rescheduled fun result => result.computeUnitsConsumed,
      map_rescheduled fun result => result.costUnits]
  have hknownAgain : ∀ scheduled ∈ buildScheduledTransactions output.transactions,
      model.footprint scheduled.transaction = .ok (model.knownFootprint scheduled) := by
    intro scheduled hmem
    obtain ⟨committed, hcommitted, heq⟩ : ∃ committed ∈ transcript, model.markTransactionConfirmed
        committed.scheduled.transaction committed.result.feeDetails.totalFee =
          scheduled.transaction := by
      rw [← mem_map, ← htransactions, ← buildScheduledTransactions_transaction output.transactions]
      exact mem_map_of_mem hmem
    have hfootprint := hknown committed.scheduled
      ((transcript_subperm hturns).subset (mem_map_of_mem hcommitted))
    have hsame := footprint_mark model committed.scheduled.transaction
      committed.result.feeDetails.totalFee
    rw [heq] at hsame
    rw [hsame, hfootprint]
    simp only [TransactionModel.knownFootprint, hsame]
  obtain ⟨next, hnext, hcommits⟩ := @parallelLoop_of_transcript _ crypto model.toTransactionModel
    (input.again output.transactions label) model.knownFootprint
    (initialProgress (input.again output.transactions label)) _
    (rescheduled model.toTransactionModel transcript)
    (buildScheduledTransactions output.transactions) finishing' output.transactions.length
    hknownAgain
    (by simp [initialProgress, ParallelExecutionInput.again, buildScheduledTransactions]) hlocal
    (by rw [hagain, initialProgress, ParallelExecutionInput.again, hfresh])
    (hreplays.rescheduled hmark _ _) (husage ▸ hfits)
  refine ⟨next.output, ?_, ?_, ?_, ?_⟩
  · simp only [executeTransactionsParallel, eq_ok]
    exact ⟨next, hnext, rfl⟩
  · rw [hcommits.state, hstate, finalState_rescheduled]
    rfl
  · rw [hcommits.receipts, hreceipts, map_rescheduled]
    rfl
  · rw [hcommits.feeDetails, hfees, map_rescheduled fun result => result.feeDetails]
    rfl

/-- What is included is, up to its mark, part of what was there to include. -/
theorem executeTransactionsParallel_included {β : Type} (f : τ → β)
    (hf : ∀ transaction fee, f (model.markTransactionConfirmed transaction fee) = f transaction) :
    (output.transactions.map f).Subperm (input.transactions.map f) := by
  obtain ⟨transcript, confirmed, hturns, -, -, htransactions, -⟩ :=
    executeTransactionsParallel_transcript hlocal hfootprints hmarks hfresh hroom hrun
  obtain ⟨chosen, hperm, hsub⟩ := transcript_subperm hturns
  refine ⟨chosen.map fun scheduled => f scheduled.transaction, ?_, ?_⟩
  · have hincluded := hperm.map fun scheduled => f scheduled.transaction
    rw [map_map] at hincluded
    rw [htransactions, map_map]
    simpa only [Function.comp_def, hf] using hincluded
  · have hselected := hsub.map fun scheduled => f scheduled.transaction
    conv_rhs at hselected => rw [← Function.comp_def f, ← map_map]
    rwa [buildScheduledTransactions_transaction] at hselected

end

end

/-! ### The resources of a block -/

section

variable {model : BlockTransactionModel τ} {room : ℕ} {usage : BlockResourceUsage}

/-- The units a transaction asks for, if that can be told. -/
private def demand (model : BlockTransactionModel τ) (transaction : τ) : ℕ :=
  (model.estimateTransactionResourceDemand transaction).toOption.getD 0

/-- A transaction that a block may hold. -/
private def Affordable (model : BlockTransactionModel τ) (transaction : τ) : Prop :=
  model.estimateTransactionResourceDemand transaction = .ok (demand model transaction) ∧
    demand model transaction ≤ maxComputeUnitsPerTransaction

/-- The block has so many units left. -/
private def Affords (usage : BlockResourceUsage) (units : ℕ) : Prop :=
  usage.computeUnits + units ≤ maxBlockComputeUnits ∧ usage.costUnits + units ≤ maxBlockCostUnits

theorem estimateBlockTransactionResourceDemand_eq_ok {index : ℕ} {transaction : τ}
    {required : BlockResourceUsage} :
    estimateBlockTransactionResourceDemand model index transaction = .ok required ↔
      Affordable model transaction ∧ required =
        { computeUnits := demand model transaction, costUnits := demand model transaction } := by
  simp only [estimateBlockTransactionResourceDemand, eq_ok, Affordable, demand]
  constructor
  · rintro ⟨units, hunits, hlimit, rfl⟩
    simp only [hunits, toOption_ok, Option.getD_some]
    exact ⟨⟨trivial, Nat.le_of_not_lt hlimit⟩, trivial⟩
  · rintro ⟨⟨hunits, hlimit⟩, rfl⟩
    exact ⟨_, hunits, Nat.not_lt_of_le hlimit, rfl⟩

variable {selected : List τ} {final : BlockResourceUsage} {truncated : Bool}

theorem selectPrefixFrom_eq_ok {transactions : List (τ × ℕ)}
    (h : selectPrefixFrom model room usage transactions = .ok (selected, final, truncated))
    (hfits : Affords usage 0) :
    selected.length ≤ room ∧ (∀ transaction ∈ selected, Affordable model transaction) ∧
      Affords usage (selected.map (demand model)).sum := by
  induction transactions generalizing room usage selected with
  | nil =>
    rw [selectPrefixFrom, pure_eq_ok] at h
    obtain rfl := congrArg Prod.fst h
    exact ⟨Nat.zero_le _, by simp, hfits⟩
  | cons first transactions ih =>
    cases room with
    | zero =>
      rw [selectPrefixFrom, pure_eq_ok] at h
      obtain rfl := congrArg Prod.fst h
      exact ⟨Nat.zero_le _, by simp, hfits⟩
    | succ room =>
      simp only [selectPrefixFrom, eq_ok] at h
      obtain ⟨required, hrequired, h⟩ := h
      obtain ⟨haffordable, rfl⟩ := estimateBlockTransactionResourceDemand_eq_ok.mp hrequired
      split at h
      · obtain rfl := congrArg Prod.fst (pure_eq_ok.mp h)
        exact ⟨Nat.zero_le _, by simp, hfits⟩
      · next total htotal =>
        obtain ⟨rfl, hfitsTotal⟩ := addBlockResourceUsage_eq_some.mp htotal
        simp only [eq_ok] at h
        obtain ⟨⟨rest, last, more⟩, hrest, heq⟩ := h
        obtain ⟨rfl, rfl, rfl⟩ : first.1 :: rest = selected ∧ last = final ∧ more = truncated := by
          simpa using heq
        obtain ⟨hlength, hall, hsum⟩ := ih hrest hfitsTotal
        simp only [length_cons, map_cons, sum_cons]
        refine ⟨by omega, forall_mem_cons.mpr ⟨haffordable, hall⟩, ?_⟩
        simpa only [Affords, Nat.add_assoc] using hsum

theorem selectPrefixFrom_all {transactions : List (τ × ℕ)}
    (hlength : transactions.length ≤ room)
    (haffordable : ∀ item ∈ transactions, Affordable model item.1)
    (hfits : Affords usage (transactions.map fun item => demand model item.1).sum) :
    ∃ final, selectPrefixFrom model room usage transactions =
      .ok (transactions.map Prod.fst, final, false) := by
  induction transactions generalizing room usage with
  | nil => exact ⟨usage, by rw [selectPrefixFrom]; rfl⟩
  | cons first transactions ih =>
    obtain ⟨hfirst, hrest⟩ := forall_mem_cons.mp haffordable
    simp only [Affords, map_cons, sum_cons, ← Nat.add_assoc] at hfits
    obtain ⟨space, rfl⟩ := Nat.exists_eq_add_of_le' (Nat.le_of_add_left_le hlength)
    obtain ⟨final, hfinal⟩ := @ih space
      { computeUnits := usage.computeUnits + demand model first.1
        costUnits := usage.costUnits + demand model first.1 }
      (Nat.le_of_succ_le_succ hlength) hrest hfits
    refine ⟨final, ?_⟩
    simp only [selectPrefixFrom, eq_ok]
    refine ⟨_, estimateBlockTransactionResourceDemand_eq_ok.mpr ⟨hfirst, rfl⟩, ?_⟩
    rw [addBlockResourceUsage_eq_some.mpr ⟨rfl, (Nat.le_add_right _ _).trans hfits.1,
      (Nat.le_add_right _ _).trans hfits.2⟩]
    simp only [eq_ok]
    exact ⟨_, hfinal, rfl⟩

/-- Part of a selected list, marked as it may be, is within the limits. -/
theorem validateBlockTransactionResources_of_subperm {transactions included : List τ}
    (hselected : selectBlockTransactionPrefix model transactions = .ok (selected, final, truncated))
    (hincluded : (included.map model.estimateTransactionResourceDemand).Subperm
      (selected.map model.estimateTransactionResourceDemand)) :
    validateBlockTransactionResources model included = .ok () := by
  obtain ⟨hlength, haffordable, hfits⟩ := selectPrefixFrom_eq_ok hselected
    ⟨Nat.zero_le _, Nat.zero_le _⟩
  have hdemand : ∀ transactions : List τ, transactions.map (demand model) =
      (transactions.map model.estimateTransactionResourceDemand).map fun estimate =>
        estimate.toOption.getD 0 := fun transactions => by
    rw [map_map]
    rfl
  have hsum : (included.map (demand model)).sum ≤ (selected.map (demand model)).sum := by
    obtain ⟨chosen, hperm, hsub⟩ := hincluded
    rw [hdemand included, hdemand selected, ← (hperm.map _).sum_nat]
    exact (hsub.map _).sum_le_sum fun _ _ => Nat.zero_le _
  have hincludedAffordable : ∀ transaction ∈ included, Affordable model transaction := by
    intro transaction hmem
    obtain ⟨other, hother, heq⟩ := mem_map.mp
      (hincluded.subset (mem_map_of_mem hmem))
    obtain ⟨hestimate, hlimit⟩ := haffordable other hother
    simp only [Affordable, demand, ← heq] at hestimate hlimit ⊢
    exact ⟨hestimate, hlimit⟩
  have hcount : included.length ≤ selected.length := by
    simpa using hincluded.length_le
  have hmap := map_eq_map_zipIdx included (demand model)
  obtain ⟨last, hlast⟩ := @selectPrefixFrom_all _ model maxProposalTransactions
    { computeUnits := 0, costUnits := 0 } included.zipIdx (by simpa using hcount.trans hlength)
    (fun item hmem => hincludedAffordable _ (fst_mem_of_mem_zipIdx hmem))
    (hmap ▸ ⟨(Nat.add_le_add_left hsum _).trans hfits.1,
      (Nat.add_le_add_left hsum _).trans hfits.2⟩)
  simp only [validateBlockTransactionResources, eq_ok]
  refine ⟨_, hlast, ?_⟩
  simp

theorem selectBlockTransactionPrefix_length {transactions : List τ}
    (h : selectBlockTransactionPrefix model transactions = .ok (selected, final, truncated)) :
    selected.length ≤ maxProposalTransactions :=
  (selectPrefixFrom_eq_ok h ⟨Nat.zero_le _, Nat.zero_le _⟩).1

end

/-! ### Every selected transaction has a footprint -/

section

variable {crypto : Crypto} {model : TransactionModel τ} {input : ParallelExecutionInput τ}
  {progress next final : Progress τ}

/-- A pass drops nothing, and has read the locks of what it takes. -/
theorem selectParallelBatch_locks {room : ℕ} {locks : AccountLockSet}
    {pending batch remaining : List (ScheduledTransaction τ)}
    (h : selectParallelBatch model room locks pending = .ok (batch, remaining)) :
    pending.Perm (batch ++ remaining) ∧ ∀ scheduled ∈ batch,
      ∃ accounts, model.transactionLockAccounts scheduled.transaction = .ok accounts := by
  induction pending generalizing room locks batch remaining with
  | nil =>
    cases room <;> cases h <;> simp
  | cons scheduled pending ih =>
    cases room with
    | zero =>
      cases h
      simp
    | succ room =>
      simp only [selectParallelBatch, bind_eq_ok, withContext_eq_ok, tryLockTransaction] at h
      obtain ⟨held, ⟨accounts, haccounts, -⟩, h⟩ := h
      cases held with
      | some held =>
        simp only [eq_ok, Prod.mk.injEq] at h
        obtain ⟨⟨later, rest⟩, hlater, rfl, rfl⟩ := h
        obtain ⟨hperm, hlocks⟩ := ih hlater
        exact ⟨hperm.cons _, forall_mem_cons.mpr ⟨⟨accounts, haccounts⟩, hlocks⟩⟩
      | none =>
        simp only [eq_ok, Prod.mk.injEq] at h
        obtain ⟨⟨later, rest⟩, hlater, rfl, rfl⟩ := h
        obtain ⟨hperm, hlocks⟩ := ih hlater
        exact ⟨(hperm.cons _).trans perm_middle.symm, hlocks⟩

/-- A result is included or rejected under the id of its transaction. -/
theorem applyExecutionResult_id {executed : ParallelExecutionResult τ}
    (h : applyExecutionResult crypto model input progress executed = .ok next) :
    ∃ id, model.txIDString executed.transaction = .ok id := by
  obtain ⟨usage, -, h⟩ := bind_eq_ok.mp h
  split at h
  · simp only [eq_ok, buildRejectedTransaction] at h
    obtain ⟨-, -, ⟨id, hid, -⟩, rfl⟩ := h
    exact ⟨id, hid⟩
  · simp only [eq_ok] at h
    obtain ⟨id, hid, rfl⟩ := h
    exact ⟨id, hid⟩

theorem applyParallelBatchResults_ids {results : List (ParallelExecutionResult τ)}
    (h : applyParallelBatchResults crypto model input progress results = .ok next) :
    (∀ executed ∈ results, ∃ id, model.txIDString executed.transaction = .ok id) ∧
      next.output.transactions.length ≤
        progress.output.transactions.length + results.length := by
  unfold applyParallelBatchResults at h
  induction results generalizing progress with
  | nil =>
    cases h
    simp
  | cons executed results ih =>
    rw [foldlM_cons] at h
    obtain ⟨middle, hmiddle, hrest⟩ := bind_eq_ok.mp h
    have hone := applyExecutionResult_length hmiddle
    obtain ⟨hids, hcount⟩ := ih hrest
    refine ⟨forall_mem_cons.mpr ⟨applyExecutionResult_id hmiddle, hids⟩, ?_⟩
    rw [length_cons]
    omega

theorem executeParallelBatch_transactions {finished : List ℕ}
    {batch : List (ScheduledTransaction τ)} {results : List (ParallelExecutionResult τ)}
    (h : executeParallelBatch input finished progress batch = .ok results) :
    results.map ParallelExecutionResult.toScheduledTransaction = batch := by
  have hmap : batch.mapM (executeScheduledTransaction input progress) = .ok results := by
    rw [← toOption_eq_some, ← executeParallelBatch_toOption finished, h]
    rfl
  have hall := mapM_eq_ok hmap
  clear h hmap
  induction hall with
  | nil => rfl
  | cons hhead _ ih =>
    simp only [executeScheduledTransaction, eq_ok] at hhead
    obtain ⟨_, -, rfl⟩ := hhead
    rw [map_cons, ih]

/-- The loop ends, with room for all, when every pending transaction has been committed. -/
theorem parallelLoop_footprints {finishing : ℕ → List ℕ} {fuel : ℕ}
    {pending : List (ScheduledTransaction τ)} (hfuel : pending.length ≤ fuel)
    (hroom : progress.output.transactions.length + pending.length ≤ input.maxIncludedCount)
    (h : parallelLoop crypto model input finishing fuel progress pending = .ok final) :
    ∀ scheduled ∈ pending, ∃ footprint, model.footprint scheduled.transaction = .ok footprint := by
  induction fuel generalizing progress pending with
  | zero =>
    rw [eq_nil_of_length_eq_zero (Nat.le_zero.mp hfuel)]
    simp
  | succ fuel ih =>
    rw [parallelLoop] at h
    split at h
    next hdone =>
      have hnil : pending = [] := by
        rcases hdone with hnil | hfull
        · exact hnil
        · exact eq_nil_of_length_eq_zero (by omega)
      simp [hnil]
    next =>
      simp only [eq_ok] at h
      obtain ⟨⟨batch, remaining⟩, hselect, hbatch, results, hresults, next, hnext, hrest⟩ := h
      dsimp only at hbatch hresults hrest
      obtain ⟨hperm, hlocks⟩ := selectParallelBatch_locks hselect
      obtain ⟨hids, hcount⟩ := applyParallelBatchResults_ids hnext
      have hexecuted := executeParallelBatch_transactions hresults
      have hsame := congrArg length hexecuted
      rw [length_map] at hsame
      have hlength := hperm.length_eq
      have hpositive := length_pos_of_ne_nil hbatch
      rw [length_append] at hlength
      have hlater := ih (by omega) (by omega) hrest
      intro scheduled hmem
      rcases mem_append.mp (hperm.mem_iff.mp hmem) with hnow | hlaterMem
      · obtain ⟨executed, hin, rfl⟩ := mem_map.mp (hexecuted ▸ hnow)
        obtain ⟨id, hid⟩ := hids executed hin
        obtain ⟨accounts, haccounts⟩ := hlocks _ hnow
        refine ⟨⟨id, accounts.1, accounts.2⟩, ?_⟩
        simp only [TransactionModel.footprint, eq_ok]
        exact ⟨id, hid, accounts, haccounts, rfl⟩
      · exact hlater scheduled hlaterMem

end

/-! ### Verifying a produced block -/

/-- A verifier that knows of the parent what the leader knew. -/
def ProduceBlockRequest.verification (request : ProduceBlockRequest τ) (proposal : BlockProposal τ)
    (leader : ValidatorState) : VerifyProposalRequest τ where
  proposal := proposal
  parentSlot := request.parentSlot
  epochSnapshot := request.epochSnapshot
  schedule := request.schedule
  parentHash := request.parentHash
  parentState := request.parentState
  blockhashQueue := request.blockhashQueue
  leader := leader
  proofSnapshots := request.proofSnapshots
  rewardConfig := request.rewardConfig

section

variable {crypto : Crypto} {signed : List VoteMessage} {model : BlockTransactionModel τ}
  {chainID : Bytes} {executor : TransactionExecutor τ} {finishing finishing' : ℕ → List ℕ}
  {now : ℤ} {request : ProduceBlockRequest τ} {report : BlockProductionResult τ}

/-- Reproducible locks: what the leader produces is accepted, with the same state. -/
theorem verifyProposal_of_reproducible
    (hlocal : TouchesOnlyLocked model.toTransactionModel executor)
    (hmark : IgnoresMark model.toTransactionModel executor)
    (hsigns : ∀ message, crypto.verifyMessageSignature request.leaderKeyPair.publicKey message
      (request.leaderKeyPair.sign message) = true)
    {selected : List τ} {final : BlockResourceUsage} {truncated : Bool}
    (hselected : selectBlockTransactionPrefix model request.transactions =
      .ok (selected, final, truncated))
    {footprints : List Footprint} (hfootprints : selected.map model.footprint = footprints.map .ok)
    (hreproducible : reproducible footprints = true)
    (hproduced : BlockExecutor.produceBlockWithReport crypto signed model
      { chainID := chainID, executor := executor, finishing := finishing } now request =
        .ok report)
    {leaderID : ValidatorID} {leader : ValidatorState}
    (hleaderID : request.schedule.leaderForSlot request.slot = .ok leaderID)
    (hleader : request.epochSnapshot.validatorByID leaderID = some leader) :
    BlockExecutor.verifyProposal crypto signed model
        { chainID := chainID, executor := executor, finishing := finishing' }
        (request.verification report.proposal leader) = .ok report.state := by
  simp only [BlockExecutor.produceBlockWithReport, eq_ok, hselected, hleaderID, hleader,
    Except.ok.injEq, Option.some.injEq, exists_eq_left'] at hproduced
  obtain ⟨hvalid, output, houtput, rewarded, hrewarded, header, hheader, signData, hsignData, rfl⟩
    := hproduced
  simp only [ProduceBlockRequest.validate, eq_ok, hleaderID, hleader, Except.ok.injEq,
    exists_eq_left', Option.mem_def, Option.some.injEq, forall_eq', not_not] at hvalid
  obtain ⟨hsnapshot, -, hparentSlot, htimeout, hproof, hkey⟩ := hvalid
  simp only [buildProposalHeader, eq_ok, hleaderID, Except.ok.injEq, exists_eq_left'] at hheader
  obtain ⟨roots, hroots, timeoutQCHash, htimeoutHash, rfl⟩ := hheader
  have hroom : selected.length ≤ maxProposalTransactions :=
    selectBlockTransactionPrefix_length hselected
  obtain ⟨again, hagain, hstate, hreceipts, hfees⟩ := @executeTransactionsParallel_again _ model
    _ _ _ _ _ hlocal hfootprints rfl rfl hroom houtput hmark hreproducible "proposal" finishing'
  have hincluded := @executeTransactionsParallel_included _ model _ _ _ _ _ hlocal hfootprints
    rfl rfl hroom houtput _ model.estimateTransactionResourceDemand
    model.estimateTransactionResourceDemand_mark
  have hleaderKey : leader.validatorID = leaderID := by
    simpa using find?_some hleader
  simp only [BlockExecutor.verifyProposal, eq_ok]
  refine ⟨?_, fun h => h rfl, ?_, leaderID, hleaderID, ?_,
    validateBlockTransactionResources_of_subperm hselected hincluded, again, hagain, rewarded, ?_,
    ?_, rfl⟩
  · simp only [VerifyProposalRequest.validate, eq_ok]
    refine ⟨hsnapshot, fun h => h rfl, hparentSlot, htimeout, hproof, timeoutQCHash, htimeoutHash,
      fun h => h rfl, fun h => h rfl, fun h => h rfl, ?_⟩
    have hcount : output.transactions.length ≤ selected.length := by
      simpa [BlockExecutor.productionInput] using hincluded.length_le
    exact Nat.not_lt_of_le (hcount.trans hroom)
  · simp only [SignedHeader.verifyLeaderSignature, eq_ok]
    refine ⟨signData, hsignData, ?_⟩
    rw [ProduceBlockRequest.verification, hkey, BlockProposal.signedHeader]
    simp [hsigns]
  · rintro (h | h)
    · exact h rfl
    · exact h hleaderKey.symm
  · rw [hstate, hfees]
    exact hrewarded
  · rw [hreceipts]
    simp only [verifyProposalRoots, eq_ok]
    refine ⟨roots, hroots, ?_⟩
    simp [ProduceBlockRequest.verification]

/-- A request that becomes a block has transactions with ids and locks. -/
theorem produceBlockWithReport_footprints {producer : BlockExecutor τ} {selected : List τ}
    {final : BlockResourceUsage} {truncated : Bool}
    (hselected : selectBlockTransactionPrefix model request.transactions =
      .ok (selected, final, truncated))
    (h : producer.produceBlockWithReport crypto signed model now request = .ok report) :
    ∃ footprints : List Footprint, selected.map model.footprint = footprints.map .ok := by
  simp only [BlockExecutor.produceBlockWithReport, eq_ok, hselected, Except.ok.injEq,
    exists_eq_left'] at h
  obtain ⟨-, output, houtput, -⟩ := h
  simp only [executeTransactionsParallel, eq_ok] at houtput
  obtain ⟨progress, hloop, -⟩ := houtput
  have hcount := selectBlockTransactionPrefix_length hselected
  have hlength : (buildScheduledTransactions selected).length = selected.length := by
    simp [buildScheduledTransactions]
  have hall := parallelLoop_footprints hlength.le (by
    simpa [initialProgress, hlength, BlockExecutor.productionInput] using hcount) hloop
  refine ⟨(buildScheduledTransactions selected).map model.knownFootprint, ?_⟩
  conv_lhs => rw [← buildScheduledTransactions_transaction selected, map_map]
  rw [map_map]
  refine map_congr_left fun scheduled hmem => ?_
  obtain ⟨footprint, hfootprint⟩ := hall scheduled hmem
  simp [TransactionModel.knownFootprint, hfootprint]

end

end Ordexus
