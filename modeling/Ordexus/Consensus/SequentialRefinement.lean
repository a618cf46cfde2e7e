import Ordexus.Consensus.BatchOrder

/-!
# When the scheduler refines sequential execution

The condition on the batches is exact. If it fails for a list of footprints, then
there are transactions with these footprints and an executor that follows a script,
for which the scheduler and the sequential loop end differently.
-/

namespace Ordexus

open Checked List

/-- A transaction that carries its footprint and a label of its own. -/
structure LabelledTransaction where
  label : ℕ
  footprint : Footprint
deriving DecidableEq

def labelledModel : TransactionModel LabelledTransaction where
  txIDString transaction := .ok transaction.footprint.id
  transactionLockAccounts transaction :=
    .ok (transaction.footprint.reads, transaction.footprint.writes)
  markTransactionConfirmed transaction _ := transaction

/-- What a script has in store for a transaction. -/
inductive Verdict where
  | confirm
  | reject
  | confirmFresh
deriving DecidableEq

/-- Is a transaction confirmed, given whether its id has been processed? -/
def Verdict.accepts : Verdict → Bool → Bool
  | .confirm, _ => true
  | .reject, _ => false
  | .confirmFresh, processed => !processed

def noFee : FeeDetails where
  signatureCount := 0
  signatureFee := 0
  computeFee := 0
  storageWriteFee := 0
  baseFee := 0
  prioritizationFee := 0
  totalFee := 0
  burnedFee := 0
  validatorFee := 0

def verdictResult (accepted : Bool) : TransactionExecutionResult where
  status := if accepted then .confirmed else .failed
  error := none
  feeDetails := noFee
  postBalances := []
  computeUnitsConsumed := 0
  costUnits := 0
  writtenAccounts := []

/-- An executor that follows a script and touches nothing. -/
def scriptedExecutor (script : ℕ → Verdict) : TransactionExecutor LabelledTransaction :=
  fun request => .ok (verdictResult ((script request.transaction.label).accepts
    (request.transaction.footprint.id ∈ request.processedTxIDs)))

def scriptedInput (script : ℕ → Verdict) (processed : List TransactionID) (capacity : ℕ)
    (transactions : List LabelledTransaction) : ParallelExecutionInput LabelledTransaction where
  chainID := []
  slot := 0
  epoch := 0
  transactions := transactions
  state := { accounts := [] }
  blockhashQueue := { entries := [], maxAgeSlots := 0 }
  processedTxIDs := processed
  executor := scriptedExecutor script
  maxIncludedCount := capacity
  rejectFailed := false
  markIncluded := false
  failureLabel := ""

theorem footprint_labelled (transaction : LabelledTransaction) :
    labelledModel.footprint transaction = .ok transaction.footprint := rfl

theorem scriptedExecutor_touchesOnlyLocked (script : ℕ → Verdict) :
    TouchesOnlyLocked labelledModel (scriptedExecutor script) where
  reads := by
    intro request footprint accounts processed hfootprint _ hprocessed
    obtain rfl := Except.ok.inj ((footprint_labelled request.transaction).symm.trans hfootprint)
    simp only [scriptedExecutor, hprocessed]
  writes := by
    rintro request footprint result - ⟨rfl⟩ write hwrite
    exact absurd hwrite (by simp [verdictResult])

section

variable {crypto : Crypto} {script : ℕ → Verdict} {ids : List TransactionID} {capacity : ℕ}
  {all : List LabelledTransaction} {progress : Progress LabelledTransaction}
  {scheduled : ScheduledTransaction LabelledTransaction}
  {pending : List (ScheduledTransaction LabelledTransaction)}

/-- Nothing has been used up yet. -/
private def Idle (progress : Progress LabelledTransaction) : Prop :=
  progress.output.resourceUsage = { computeUnits := 0, costUnits := 0 }

private def verdictAt (script : ℕ → Verdict) (progress : Progress LabelledTransaction)
    (scheduled : ScheduledTransaction LabelledTransaction) : Bool :=
  (script scheduled.transaction.label).accepts
    (scheduled.transaction.footprint.id ∈ progress.processed)

private def scriptedNext (crypto : Crypto) (progress : Progress LabelledTransaction)
    (accepted : Bool) (scheduled : ScheduledTransaction LabelledTransaction) :
    Progress LabelledTransaction :=
  let output := progress.output
  if accepted then
    { processed := scheduled.transaction.footprint.id :: progress.processed
      output := { output with
        transactions := output.transactions ++ [scheduled.transaction]
        receipts := output.receipts ++ [hashReceipt crypto (verdictResult true)]
        feeDetails := output.feeDetails ++ [noFee] } }
  else
    { progress with output := { output with
        rejectedTransactions := output.rejectedTransactions ++
          [{ transactionID := scheduled.transaction.footprint.id
             transaction := scheduled.transaction
             status := .failed
             error := "transaction rejected" }] } }

theorem Idle.next (h : Idle progress) (accepted : Bool) :
    Idle (scriptedNext crypto progress accepted scheduled) := by
  cases accepted <;> exact h

theorem execute_scripted :
    executeScheduledTransaction (scriptedInput script ids capacity all) progress scheduled =
      .ok { scheduled with result := verdictResult (verdictAt script progress scheduled) } := rfl

theorem commit_scripted (hidle : Idle progress) (accepted : Bool) :
    applyExecutionResult crypto labelledModel (scriptedInput script ids capacity all) progress
        { scheduled with result := verdictResult accepted } =
      .ok (scriptedNext crypto progress accepted scheduled) := by
  have husage : addActualBlockResourceUsage progress.output.resourceUsage (verdictResult accepted)
      scheduled.originalIndex = .ok progress.output.resourceUsage := by
    rw [hidle]
    rfl
  cases accepted with
  | true =>
    simp only [applyExecutionResult, husage]
    rfl
  | false =>
    simp only [applyExecutionResult, husage]
    rfl

/-- A batch of scripted transactions, evaluated at its start. -/
theorem together_scripted (crypto : Crypto) (script : ℕ → Verdict)
    (ids : List TransactionID) (capacity : ℕ) (all : List LabelledTransaction)
    (batch : List (ScheduledTransaction LabelledTransaction))
    (start : Progress LabelledTransaction) (hidle : Idle progress) :
    ∃ next, (batch.mapM (executeScheduledTransaction (scriptedInput script ids capacity all) start)
        >>= fun results => results.foldlM
          (applyExecutionResult crypto labelledModel (scriptedInput script ids capacity all))
          progress) = .ok next ∧
      next.output.transactions = progress.output.transactions ++
        (batch.filter (verdictAt script start)).map ScheduledTransaction.transaction := by
  induction batch generalizing progress with
  | nil => exact ⟨progress, rfl, by simp⟩
  | cons scheduled batch ih =>
    obtain ⟨next, hrun, htransactions⟩ := ih (hidle.next (verdictAt script start scheduled))
    refine ⟨next, ?_, ?_⟩
    · simp only [mapM_cons, execute_scripted, bind_assoc, pure_bind, foldlM_cons]
      simp only [Bind.bind, Except.bind] at hrun ⊢
      simpa only [commit_scripted hidle] using hrun
    · rw [htransactions]
      cases hverdict : verdictAt script start scheduled <;> simp [scriptedNext, hverdict]

/-- The transactions of a list that one after the other are included. -/
private def includes (script : ℕ → Verdict) : ℕ → List TransactionID →
    List (ScheduledTransaction LabelledTransaction) →
    List (ScheduledTransaction LabelledTransaction)
  | _, _, [] => []
  | 0, _, _ => []
  | room + 1, processed, scheduled :: pending =>
    let id := scheduled.transaction.footprint.id
    if (script scheduled.transaction.label).accepts (id ∈ processed) then
      scheduled :: includes script room (id :: processed) pending
    else includes script (room + 1) processed pending

theorem sequentialLoop_scripted (hidle : Idle progress) :
    ∃ next, sequentialLoop crypto labelledModel (scriptedInput script ids capacity all) progress
        pending = .ok next ∧
      next.output.transactions = progress.output.transactions ++
        (includes script (capacity - progress.output.transactions.length) progress.processed
          pending).map ScheduledTransaction.transaction := by
  induction pending generalizing progress with
  | nil => exact ⟨progress, rfl, by simp [includes]⟩
  | cons scheduled pending ih =>
    by_cases hfull : capacity ≤ progress.output.transactions.length
    · exact ⟨progress, if_pos hfull, by simp [Nat.sub_eq_zero_of_le hfull, includes]⟩
    obtain ⟨next, hnext, htransactions⟩ :=
      @ih (scriptedNext crypto progress (verdictAt script progress scheduled) scheduled)
        (hidle.next _)
    refine ⟨next, (if_neg hfull).trans ?_, ?_⟩
    · simp only [execute_scripted, Bind.bind, Except.bind, commit_scripted hidle, hnext]
    · obtain ⟨room, hroom⟩ : ∃ room, capacity - progress.output.transactions.length = room + 1 :=
        ⟨capacity - progress.output.transactions.length - 1, by omega⟩
      have hless : capacity - (progress.output.transactions.length + 1) = room := by omega
      rw [htransactions, hroom]
      cases hverdict : verdictAt script progress scheduled with
      | true =>
        rw [verdictAt] at hverdict
        simp [scriptedNext, includes, hverdict, hless]
      | false =>
        rw [verdictAt] at hverdict
        simp [scriptedNext, includes, hverdict, hroom]

/-- If everything is confirmed, the front of the list is included. -/
theorem includes_confirm (room : ℕ) (processed : List TransactionID)
    (hscript : ∀ scheduled ∈ pending, script scheduled.transaction.label = .confirm) :
    includes script room processed pending = pending.take room := by
  induction pending generalizing room processed with
  | nil => simp [includes]
  | cons scheduled pending ih =>
    obtain ⟨hhead, htail⟩ := forall_mem_cons.mp hscript
    cases room with
    | zero => rfl
    | succ room => simp [includes, hhead, Verdict.accepts, ih _ _ htail]

/-- A transaction that waits for an id to be fresh is not included once the id is processed. -/
theorem not_mem_includes {transaction : LabelledTransaction} (room : ℕ)
    {processed : List TransactionID} (hscript : script transaction.label = .confirmFresh)
    (hprocessed : transaction.footprint.id ∈ processed) :
    transaction ∉
      (includes script room processed pending).map ScheduledTransaction.transaction := by
  induction pending generalizing room processed with
  | nil => simp [includes]
  | cons scheduled pending ih =>
    cases room with
    | zero => simp [includes]
    | succ room =>
      rw [includes]
      split
      · next haccepts =>
        rw [map_cons, mem_cons, not_or]
        refine ⟨?_, ih room (mem_cons_of_mem _ hprocessed)⟩
        rintro rfl
        simp [hscript, Verdict.accepts, hprocessed] at haccepts
      · exact ih (room + 1) hprocessed

/-- One transaction is confirmed, and a later one waits for the same id to be fresh. -/
theorem includes_shared {first second : ScheduledTransaction LabelledTransaction}
    (room : ℕ) (processed : List TransactionID) (hnodup : (pending.map (·.transaction)).Nodup)
    (hpair : [first, second].Sublist pending)
    (hsame : first.transaction.footprint.id = second.transaction.footprint.id)
    (hfirst : script first.transaction.label = .confirm)
    (hsecond : script second.transaction.label = .confirmFresh) :
    second.transaction ∉
      (includes script room processed pending).map ScheduledTransaction.transaction := by
  induction pending generalizing room processed with
  | nil => simp [includes]
  | cons scheduled pending ih =>
    obtain ⟨hnotMem, htail⟩ := nodup_cons.mp hnodup
    have hother (hmem : second ∈ pending) : second.transaction ≠ scheduled.transaction :=
      fun heq => hnotMem (mem_map.mpr ⟨second, hmem, heq⟩)
    cases room with
    | zero => simp [includes]
    | succ room =>
      cases hpair with
      | cons_cons _ hlater =>
        -- the pair starts here: the id is processed from now on
        simp only [includes, hfirst, Verdict.accepts, if_true, map_cons, mem_cons, not_or]
        exact ⟨hother (hlater.subset mem_cons_self),
          not_mem_includes room hsecond (hsame ▸ mem_cons_self)⟩
      | cons _ hlater =>
        rw [includes]
        split
        · rw [map_cons, mem_cons, not_or]
          exact ⟨hother (hlater.subset (by simp)), ih room _ htail hlater⟩
        · exact ih (room + 1) processed htail hlater

/-- The two loops end differently on a list of labelled transactions. -/
private def Differs (crypto : Crypto) (finishing : ℕ → List ℕ) (fuel room : ℕ)
    (processed : List TransactionID) (script : ℕ → Verdict)
    (pending : List (ScheduledTransaction LabelledTransaction)) : Prop :=
  ∀ ids capacity all progress, Idle progress → progress.processed = processed →
    capacity - progress.output.transactions.length = room →
    (parallelLoop crypto labelledModel (scriptedInput script ids capacity all) finishing fuel
        progress pending).toOption.map Progress.output ≠
      (sequentialLoop crypto labelledModel (scriptedInput script ids capacity all) progress
        pending).toOption.map Progress.output

private def known (scheduled : ScheduledTransaction LabelledTransaction) : Footprint :=
  scheduled.transaction.footprint

variable {finishing : ℕ → List ℕ} {fuel room : ℕ} {processed : List TransactionID}
  {batch remaining : List (ScheduledTransaction LabelledTransaction)}
  {next : Progress LabelledTransaction}

section

variable (hpicked : pickBatch known room pending = (batch, remaining))
include hpicked

/-- A batch that starts the list of transactions is the front of the pending list. -/
theorem append_of_isPrefix (hnodup : (pending.map (·.transaction)).Nodup)
    (hinit : batch.map (·.transaction) <+: pending.map (·.transaction)) :
    batch ++ remaining = pending := by
  have hmap := @pickBatch_map _ _ known LabelledTransaction.footprint pending (·.transaction) room
    fun _ _ => rfl
  rw [hpicked] at hmap
  have hfront := @Batch.greedy_append_of_isPrefix _ _
    (fun locks (transaction : LabelledTransaction) => transaction.footprint.tryLock locks) room
    .empty (pending.map (·.transaction)) hnodup
  rw [pickBatch] at hmap
  rw [hmap] at hfront
  refine pickBatch_front (·.transaction) hpicked (fun first second heq => ?_) (hfront hinit)
  exact congrArg LabelledTransaction.footprint heq

variable (hpositive : 0 < room)
include hpositive

/-- The first round of the scheduler on scripted transactions. -/
theorem parallelLoop_scripted (hidle : Idle progress) (hpending : pending ≠ [])
    (hroom : capacity - progress.output.transactions.length = room)
    (hnext : parallelLoop crypto labelledModel (scriptedInput script ids capacity all) finishing
      (fuel + 1) progress pending = .ok next) :
    progress.output.transactions ++
        (batch.filter (verdictAt script progress)).map ScheduledTransaction.transaction <+:
      next.output.transactions := by
  obtain ⟨middle, hmiddle, htransactions⟩ :=
    together_scripted crypto script ids capacity all batch progress hidle
  subst hroom
  have hround : _ = _ := @parallelLoop_succ _ crypto labelledModel
    (scriptedInput script ids capacity all) known progress batch remaining pending finishing fuel
    (fun scheduled _ => footprint_labelled scheduled.transaction) hpending
    (Nat.lt_of_sub_pos hpositive) hpicked
  rw [hnext, Batch.together, hmiddle] at hround
  cases hrest : parallelLoop crypto labelledModel (scriptedInput script ids capacity all) finishing
      fuel middle remaining with
  | error message => simp [hrest] at hround
  | ok last =>
    obtain rfl : next = last := by simpa [hrest] using hround
    rw [← htransactions]
    exact parallelLoop_isPrefix hrest

/-- A batch that is confirmed as a whole, but is not what the sequential loop includes first. -/
theorem differs_of_includes (hpending : pending ≠ [])
    (haccepts : ∀ scheduled ∈ batch, (script scheduled.transaction.label).accepts
      (scheduled.transaction.footprint.id ∈ processed) = true)
    (hdiffers : ¬batch.map ScheduledTransaction.transaction <+:
      (includes script room processed pending).map ScheduledTransaction.transaction) :
    Differs crypto finishing (fuel + 1) room processed script pending := by
  rintro ids capacity all progress hidle rfl rfl heq
  obtain ⟨next, hsequential, hincluded⟩ := @sequentialLoop_scripted crypto script ids capacity all
    progress pending hidle
  rw [hsequential, toOption_ok] at heq
  obtain ⟨last, hlast, houtput⟩ := Option.map_eq_some_iff.mp heq
  have hfront := parallelLoop_scripted hpicked hpositive hidle hpending rfl
    (toOption_eq_some.mp hlast)
  have hfilter : batch.filter (verdictAt script progress) = batch := filter_eq_self.mpr haccepts
  rw [hfilter, houtput, hincluded, prefix_append_right_inj] at hfront
  exact hdiffers hfront

/-- A batch that is not the front of the list: a script that confirms everything
tells the two loops apart. -/
theorem differs_of_reorder (hnodup : (pending.map (·.transaction)).Nodup)
    (hpending : pending ≠ []) (horder : batch ++ remaining ≠ pending)
    (hscript : ∀ scheduled ∈ pending, script scheduled.transaction.label = .confirm) :
    Differs crypto finishing (fuel + 1) room processed script pending := by
  obtain ⟨-, hbatch, -, -⟩ := pickBatch_parts hpicked
  refine differs_of_includes hpicked hpositive hpending (fun scheduled hmem => ?_) fun hfront => ?_
  · rw [hscript scheduled (hbatch.subset hmem)]
    rfl
  · rw [includes_confirm room processed hscript] at hfront
    exact horder (append_of_isPrefix hpicked hnodup (hfront.trans (.map _ <| take_prefix _ _)))

/-- Two transactions of a batch share an id that is not processed: sequential
execution lets the second one see the first, the scheduler does not. -/
theorem differs_of_shared {first second : ScheduledTransaction LabelledTransaction}
    (hnodup : (pending.map (·.transaction)).Nodup)
    (hpair : [first, second].Sublist batch) (hsame : (known first).id = (known second).id)
    (hfresh : (known first).id ∉ processed)
    (hscript : ∀ scheduled ∈ pending, script scheduled.transaction.label =
      if scheduled = second then .confirmFresh else .confirm) :
    Differs crypto finishing (fuel + 1) room processed script pending := by
  obtain ⟨-, hbatch, -, -⟩ := pickBatch_parts hpicked
  have hboth := hpair.trans hbatch
  have hne : first ≠ second := by
    rintro rfl
    exact absurd (hboth.nodup (.of_map _ hnodup)) (by simp)
  have hfirst := hscript first (hboth.subset mem_cons_self)
  have hsecond := hscript second (hboth.subset (by simp))
  rw [if_neg hne] at hfirst
  rw [if_pos rfl] at hsecond
  refine differs_of_includes hpicked hpositive
    (ne_nil_of_mem (hboth.subset mem_cons_self)) (fun scheduled hmem => ?_) fun hfront => ?_
  · rw [hscript scheduled (hbatch.subset hmem)]
    split
    · next heq =>
      rw [heq, Verdict.accepts, Bool.not_eq_true', decide_eq_false_iff_not]
      exact fun hmem => hfresh (hsame ▸ hmem)
    · rfl
  · refine includes_shared room processed hnodup hboth hsame hfirst hsecond (hfront.subset ?_)
    exact mem_map_of_mem (hpair.subset (by simp))

end

/-- A script that confirms a chosen part of a batch. -/
theorem oneByOne_scripted (crypto : Crypto) (ids : List TransactionID) (capacity : ℕ)
    (all : List LabelledTransaction) (hidle : Idle progress)
    {confirmed : ScheduledTransaction LabelledTransaction → Bool}
    (hscript : ∀ scheduled ∈ batch, script scheduled.transaction.label =
      if confirmed scheduled then .confirm else .reject) :
    ∃ next, Batch.oneByOne (executeScheduledTransaction (scriptedInput script ids capacity all))
        (applyExecutionResult crypto labelledModel (scriptedInput script ids capacity all))
        progress batch = .ok next ∧ Idle next ∧
      next.processed =
        (((batch.filter confirmed).map known).map Footprint.id).reverse ++ progress.processed ∧
      next.output.transactions.length =
        progress.output.transactions.length + (batch.filter confirmed).length := by
  induction batch generalizing progress with
  | nil => exact ⟨progress, rfl, hidle, rfl, rfl⟩
  | cons scheduled batch ih =>
    obtain ⟨hhead, htail⟩ := forall_mem_cons.mp hscript
    have hverdict : verdictAt script progress scheduled = confirmed scheduled := by
      rw [verdictAt, hhead]
      cases confirmed scheduled <;> rfl
    obtain ⟨next, hrun, hidleNext, hprocessed, hlength⟩ :=
      @ih (scriptedNext crypto progress (confirmed scheduled) scheduled) (hidle.next _) htail
    refine ⟨next, ?_, hidleNext, ?_, ?_⟩
    · simp only [Batch.oneByOne, foldlM_cons, execute_scripted, hverdict]
      simp only [Bind.bind, Except.bind, commit_scripted hidle]
      exact hrun
    · rw [hprocessed]
      cases hcase : confirmed scheduled <;> simp [scriptedNext, known, hcase]
    · rw [hlength]
      cases hcase : confirmed scheduled <;> simp [scriptedNext, hcase, Nat.add_assoc, Nat.add_comm]

/-- A difference that shows after a batch which is the front of the list. -/
theorem differs_later {confirmed : ScheduledTransaction LabelledTransaction → Bool}
    (hpending : batch ++ remaining ≠ []) (hpositive : 0 < room)
    (hpicked : pickBatch known room (batch ++ remaining) = (batch, remaining))
    (hfresh : (batch.map known).Pairwise (Footprint.freshApart processed))
    (hscript : ∀ scheduled ∈ batch, script scheduled.transaction.label =
      if confirmed scheduled then .confirm else .reject)
    (hlater : Differs crypto finishing fuel (room - (batch.filter confirmed).length)
      ((((batch.filter confirmed).map known).map Footprint.id).reverse ++ processed) script
      remaining) :
    Differs crypto finishing (fuel + 1) room processed script (batch ++ remaining) := by
  rintro ids capacity all progress hidle rfl rfl heq
  obtain ⟨next, hrun, hidleNext, hprocessed, hlength⟩ :=
    oneByOne_scripted crypto ids capacity all hidle hscript
  obtain ⟨hparallel, hsequential⟩ := @loops_round _ labelledModel
    (scriptedInput script ids capacity all) known progress batch remaining
    (scriptedExecutor_touchesOnlyLocked script) crypto finishing fuel
    (fun scheduled _ => footprint_labelled scheduled.transaction) hpending
    (Nat.lt_of_sub_pos hpositive) hpicked hfresh
  rw [hparallel, hsequential, hrun, toOption_ok] at heq
  refine hlater ids capacity all next hidleNext hprocessed ?_ heq
  rw [hlength, Nat.sub_sub]

/-- A list whose batches do not keep the order is told apart by some script, and by
every script that agrees with it on the list. -/
theorem exists_differs (crypto : Crypto) (finishing : ℕ → List ℕ) (fuel room : ℕ)
    (processed : List TransactionID) (hlabels : (pending.map (·.transaction.label)).Nodup)
    (horder : keepsOrder fuel room processed (pending.map known) = false) :
    ∃ script : ℕ → Verdict, ∀ script' : ℕ → Verdict,
      (∀ scheduled ∈ pending, script' scheduled.transaction.label =
        script scheduled.transaction.label) →
      Differs crypto finishing fuel room processed script' pending := by
  induction fuel generalizing room processed pending with
  | zero => exact absurd horder (by simp [keepsOrder])
  | succ fuel ih =>
    rcases hpicked : pickBatch known room pending with ⟨batch, remaining⟩
    simp only [keepsOrder, greedy_known hpicked, map_eq_nil_iff, Bool.or_eq_false_iff,
      decide_eq_false_iff_not] at horder
    obtain ⟨⟨hpending, hroom⟩, hfails⟩ := horder
    have hpositive : 0 < room := Nat.pos_of_ne_zero hroom
    have htransactions : (pending.map (·.transaction)).Nodup := by
      refine .of_map LabelledTransaction.label ?_
      rw [map_map]
      exact hlabels
    have hnodup : pending.Nodup := .of_map _ hlabels
    have : Nonempty Verdict := ⟨.reject⟩
    by_cases hfront : batch ++ remaining = pending
    · subst hfront
      simp only [map_append, decide_true, Bool.true_and, Bool.and_eq_false_iff,
        decide_eq_false_iff_not] at hfails
      by_cases hfresh : (batch.map known).Pairwise (Footprint.freshApart processed)
      · -- the batch is in order for some choice of confirmed transactions, the rest is not
        have hlater := hfails.resolve_left (not_not.mpr hfresh)
        simp only [all_eq_false, mem_sublists, Bool.not_eq_true] at hlater
        obtain ⟨footprints, hsub, hrest⟩ := hlater
        obtain ⟨confirmed, hconfirmed, rfl⟩ := sublist_map_iff.mp hsub
        have hparts := hlabels
        rw [map_append] at hparts
        rw [length_map,
          ← Batch.filter_mem_map_of_sublist _ hconfirmed hparts.of_append_left] at hrest
        obtain ⟨later, hlater⟩ := ih _ _ hparts.of_append_right hrest
        -- distinct labels let a script treat every pending transaction on its own
        obtain ⟨script, hscript⟩ := Batch.exists_factor (fun scheduled =>
          if scheduled ∈ batch then
            if scheduled.transaction.label ∈ confirmed.map (·.transaction.label) then .confirm
            else .reject
          else later scheduled.transaction.label) hlabels
        refine ⟨script, fun script' hagree => ?_⟩
        refine differs_later hpending hpositive hpicked hfresh (fun scheduled hmem => ?_)
          (hlater script' fun scheduled hmem => ?_)
        · have hall := mem_append_left remaining hmem
          rw [hagree scheduled hall, hscript scheduled hall, if_pos hmem]
          simp only [decide_eq_true_eq]
        · have hall := mem_append_right batch hmem
          have hnotMem : scheduled ∉ batch := fun hfirst =>
            (nodup_append.mp hnodup).2.2 scheduled hfirst scheduled hmem rfl
          rw [hagree scheduled hall, hscript scheduled hall, if_neg hnotMem]
      · rw [pairwise_map, pairwise_iff_forall_sublist] at hfresh
        simp only [not_forall, Footprint.freshApart, not_or, not_not] at hfresh
        obtain ⟨first, second, hpair, hsame, hunprocessed⟩ := hfresh
        obtain ⟨script, hscript⟩ := Batch.exists_factor (fun scheduled =>
          if scheduled = second then Verdict.confirmFresh else .confirm) hlabels
        refine ⟨script, fun script' hagree => ?_⟩
        refine differs_of_shared hpicked hpositive htransactions hpair hsame hunprocessed
          fun scheduled hmem => ?_
        rw [hagree scheduled hmem, hscript scheduled hmem]
    · obtain ⟨script, hscript⟩ := Batch.exists_factor (fun _ => Verdict.confirm) hlabels
      refine ⟨script, fun script' hagree => ?_⟩
      refine differs_of_reorder hpicked hpositive htransactions hpending hfront
        fun scheduled hmem => ?_
      rw [hagree scheduled hmem, hscript scheduled hmem]

end

/-- Transactions with given footprints, labelled by their positions. -/
def labelledTransactions (footprints : List Footprint) : List LabelledTransaction :=
  footprints.zipIdx.map fun (footprint, index) => { label := index, footprint := footprint }

theorem labelledTransactions_footprint (footprints : List Footprint) :
    (labelledTransactions footprints).map LabelledTransaction.footprint = footprints := by
  simp only [labelledTransactions, map_map, Function.comp_def]
  exact zipIdx_map_fst 0 footprints

theorem labelledTransactions_label (footprints : List Footprint) :
    (labelledTransactions footprints).map LabelledTransaction.label =
      range' 0 footprints.length := by
  simp only [labelledTransactions, map_map, Function.comp_def]
  exact zipIdx_map_snd 0 footprints

/-- The scheduler does what it stands for on all transactions with given footprints,
whatever state they meet and whatever their executor makes of what they lock,
exactly when the batches keep the order. -/
theorem executeTransactionsParallel_refines_iff (crypto : Crypto)
    (processed : List TransactionID) (capacity : ℕ) (footprints : List Footprint) :
    (∀ (τ : Type) (model : TransactionModel τ) (input : ParallelExecutionInput τ)
        (finishing : ℕ → List ℕ), input.processedTxIDs = processed →
      input.maxIncludedCount = capacity →
      input.transactions.map model.footprint = footprints.map .ok →
      TouchesOnlyLocked model input.executor →
      (executeTransactionsParallel crypto model input finishing).toOption =
        (executeTransactionsSequentially crypto model input).toOption) ↔
      keepsOrder footprints.length capacity processed footprints = true := by
  constructor
  · intro hrefines
    by_contra horder
    have hlabels : ((buildScheduledTransactions (labelledTransactions footprints)).map
        (·.transaction.label)).Nodup := by
      have h := congrArg (map LabelledTransaction.label)
        (buildScheduledTransactions_transaction (labelledTransactions footprints))
      rw [map_map, labelledTransactions_label] at h
      exact h ▸ nodup_range'
    have hfootprints : (buildScheduledTransactions (labelledTransactions footprints)).map known =
        footprints := by
      have h := congrArg (map LabelledTransaction.footprint)
        (buildScheduledTransactions_transaction (labelledTransactions footprints))
      rwa [map_map, labelledTransactions_footprint] at h
    obtain ⟨script, hdiffers⟩ := exists_differs crypto (fun _ => []) footprints.length capacity
      processed hlabels (by rw [hfootprints]; simpa using horder)
    have hsame := hrefines LabelledTransaction labelledModel
      (scriptedInput script processed capacity (labelledTransactions footprints)) (fun _ => [])
      rfl rfl ?_ (scriptedExecutor_touchesOnlyLocked script)
    · refine hdiffers script (fun _ _ => rfl) processed capacity (labelledTransactions footprints)
        (initialProgress (scriptedInput script processed capacity
          (labelledTransactions footprints))) rfl rfl rfl ?_
      have hlength : (labelledTransactions footprints).length = footprints.length := by
        simp [labelledTransactions]
      simpa only [executeTransactionsParallel, executeTransactionsSequentially, toOption_bind,
        toOption_pure, scriptedInput, hlength, Option.map_eq_bind, Function.comp_def] using hsame
    · have h := labelledTransactions_footprint footprints
      conv_rhs => rw [← h, map_map]
      rfl
  · rintro horder τ model input finishing rfl rfl hfootprints hlocal
    exact executeTransactionsParallel_toOption hlocal crypto finishing hfootprints horder

def recordedAccount (label : ℕ) : Account where
  lamports := label
  data := []
  owner := 0
  executable := false
  rentEpoch := 0

/-- An executor that leaves the label of a transaction in every account it may write. -/
def recordingExecutor : TransactionExecutor LabelledTransaction := fun request =>
  .ok { verdictResult true with
    writtenAccounts := request.transaction.footprint.writes.map fun address =>
      { address := address, account := recordedAccount request.transaction.label } }

theorem recordingExecutor_touchesOnlyLocked :
    TouchesOnlyLocked labelledModel recordingExecutor where
  reads := fun _ _ _ _ _ _ _ => rfl
  writes := by
    rintro request footprint result hfootprint ⟨rfl⟩ write hwrite
    obtain rfl := Except.ok.inj ((footprint_labelled request.transaction).symm.trans hfootprint)
    obtain ⟨address, haddress, rfl⟩ := mem_map.mp hwrite
    exact .inl haddress

/-- The second transaction conflicts with the other two, which do not conflict. -/
def chainedFootprints : List Footprint :=
  [{ id := [1], reads := [], writes := [101] }, { id := [2], reads := [], writes := [101, 102] },
    { id := [3], reads := [], writes := [102] }]

def chainedInput : ParallelExecutionInput LabelledTransaction :=
  { scriptedInput (fun _ => .confirm) [] 3 (labelledTransactions chainedFootprints) with
    executor := recordingExecutor }

def constantCrypto : Crypto where
  sha256 := fun _ => 0
  newValidatorID := fun _ => []
  decodesAsBLSKey := fun _ => true
  verifyMessageSignature := fun _ _ _ => true

/-- The third transaction overtakes the second one, which then has the last word on
the account they share. -/
theorem executeTransactionsParallel_overtakes :
    TouchesOnlyLocked labelledModel chainedInput.executor ∧
      (executeTransactionsParallel constantCrypto labelledModel chainedInput
        fun _ => []).toOption.map (fun output =>
          (output.transactions.map LabelledTransaction.label,
            (output.state.accountsAt 102).map Account.lamports)) = some ([0, 2, 1], [1]) ∧
      (executeTransactionsSequentially constantCrypto labelledModel chainedInput).toOption.map
        (fun output => (output.transactions.map LabelledTransaction.label,
          (output.state.accountsAt 102).map Account.lamports)) = some ([0, 1, 2], [2]) :=
  ⟨recordingExecutor_touchesOnlyLocked, by decide, by decide⟩

end Ordexus
