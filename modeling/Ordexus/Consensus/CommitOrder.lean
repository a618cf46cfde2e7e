import Ordexus.Consensus.BatchOrder

/-!
# The order in which a run commits

Seen from outside, a run of the scheduler is a list of turns: the transactions it
confirms, in the order of their commits, each with whether its id had been
processed when its batch started. An executor that touches only what is locked
cannot tell a run from a replay of its turns one after the other. Any list that
the scheduler takes up in the order of the turns is therefore executed to the same
results.
-/

namespace Ordexus

open Checked List

/-! ### Turns -/

section

variable {α β : Type} (footprint : α → Footprint)

/-- The next batch when there is room for everything. -/
def nextBatch (pending : List α) : List α × List α :=
  Batch.greedy (fun locks task => (footprint task).tryLock locks) pending.length .empty pending

/-- Transactions of a batch that starts after `processed`. -/
def batchTurns (processed : List TransactionID) (batch : List α) : List (α × Bool) :=
  batch.map fun task => (task, decide ((footprint task).id ∈ processed))

def processedAfter (processed : List TransactionID) (batch : List α) : List TransactionID :=
  (batch.map fun task => (footprint task).id).reverse ++ processed

/-- The turns of a run that confirms the given transactions. The number of pending
transactions is enough fuel. -/
def commitOrder (confirmed : α → Bool) : ℕ → List TransactionID → List α → List (α × Bool)
  | 0, _, _ => []
  | fuel + 1, processed, pending =>
    let (batch, remaining) := nextBatch footprint pending
    let committed := batch.filter confirmed
    batchTurns footprint processed committed ++
      commitOrder confirmed fuel (processedAfter footprint processed committed) remaining

variable {footprint} {pending : List α} {confirmed : α → Bool}

section

variable (fuel : ℕ) (processed : List TransactionID)

theorem commitOrder_nil : commitOrder footprint confirmed fuel processed [] = [] := by
  induction fuel with
  | zero => rfl
  | succ fuel ih => exact ih

theorem nextBatch_perm_sublist (pending : List α) :
    ((nextBatch footprint pending).1 ++ (nextBatch footprint pending).2).Perm pending ∧
      (nextBatch footprint pending).1.Sublist pending ∧
      (nextBatch footprint pending).2.Sublist pending := by
  obtain ⟨hperm, hbatch, hrest, -⟩ := @pickBatch_parts _ footprint pending.length pending _ _ rfl
  exact ⟨hperm, hbatch, hrest⟩

theorem nextBatch_of_pickBatch {room : ℕ} {batch remaining : List α}
    (hroom : pending.length ≤ room)
    (hpicked : pickBatch footprint room pending = (batch, remaining)) :
    nextBatch footprint pending = (batch, remaining) := by
  rw [nextBatch, ← hpicked, pickBatch, Batch.greedy_of_length_le AccountLockSet.empty hroom]

/-- Every turn belongs to a pending transaction of its own. -/
theorem commitOrder_subperm (pending : List α) :
    ((commitOrder footprint confirmed fuel processed pending).map Prod.fst).Subperm pending := by
  induction fuel generalizing processed pending with
  | zero => exact nil_subperm
  | succ fuel ih =>
    obtain ⟨hperm, -, -⟩ := @nextBatch_perm_sublist α footprint pending
    refine Subperm.trans ?_ hperm.subperm
    simp only [commitOrder, map_append, batchTurns, map_map, Function.comp_def, map_id']
    exact filter_sublist.subperm.append (ih _ _)

/-- Only confirmed transactions have a turn. -/
theorem commitOrder_confirmed (pending : List α) {turn : α × Bool}
    (hmem : turn ∈ commitOrder footprint confirmed fuel processed pending) :
    confirmed turn.1 = true := by
  induction fuel generalizing processed pending with
  | zero => exact absurd hmem not_mem_nil
  | succ fuel ih =>
    simp only [commitOrder, mem_append, batchTurns, mem_map] at hmem
    rcases hmem with ⟨task, htask, rfl⟩ | hlater
    · exact (mem_filter.mp htask).2
    · exact ih _ _ hlater

theorem nextBatch_ne_nil (hpending : pending ≠ []) : (nextBatch footprint pending).1 ≠ [] :=
  pickBatch_ne_nil rfl hpending (length_pos_iff.mpr hpending)

/-- If everything is confirmed, everything has its turn. -/
theorem commitOrder_length (hfuel : pending.length ≤ fuel) :
    (commitOrder footprint (fun _ => true) fuel processed pending).length = pending.length := by
  induction fuel generalizing processed pending with
  | zero => exact (Nat.le_zero.mp hfuel).symm
  | succ fuel ih =>
    by_cases hnil : pending = []
    · rw [hnil, commitOrder_nil]
      rfl
    have hparts := (@nextBatch_perm_sublist α footprint pending).1.length_eq
    have hpositive := length_pos_iff.mpr (@nextBatch_ne_nil α footprint pending hnil)
    rw [length_append] at hparts
    simp only [commitOrder, filter_true, length_append, batchTurns, length_map]
    rw [ih _ (by omega), hparts]

end

section

variable {footprint' : β → Footprint} {f : α → β} {confirmed' : β → Bool}

theorem nextBatch_map (hf : ∀ task ∈ pending, footprint' (f task) = footprint task) :
    nextBatch footprint' (pending.map f) =
      ((nextBatch footprint pending).1.map f, (nextBatch footprint pending).2.map f) := by
  rw [nextBatch, length_map]
  exact pickBatch_map f pending.length hf

section

variable (processed : List TransactionID)
  (hf : ∀ task ∈ pending, footprint' (f task) = footprint task)
include hf

theorem batchTurns_map :
    batchTurns footprint' processed (pending.map f) =
      (batchTurns footprint processed pending).map (Prod.map f id) := by
  simp only [batchTurns, map_map]
  exact map_congr_left fun task hmem => by simp [hf task hmem]

theorem processedAfter_map :
    processedAfter footprint' processed (pending.map f) =
      processedAfter footprint processed pending := by
  have hids : (pending.map f).map (fun task => (footprint' task).id) =
      pending.map fun task => (footprint task).id := by
    rw [map_map]
    exact map_congr_left fun task hmem => by simp [hf task hmem]
  rw [processedAfter, hids, processedAfter]

end

/-- Turns depend on the footprints and on what is confirmed, and on nothing else. -/
theorem commitOrder_map (fuel : ℕ) (processed : List TransactionID)
    (hf : ∀ task ∈ pending, footprint' (f task) = footprint task)
    (hconfirmed : ∀ task ∈ pending, confirmed' (f task) = confirmed task) :
    commitOrder footprint' confirmed' fuel processed (pending.map f) =
      (commitOrder footprint confirmed fuel processed pending).map (Prod.map f id) := by
  induction fuel generalizing processed pending with
  | zero => rfl
  | succ fuel ih =>
    obtain ⟨-, hbatch, hrest⟩ := @nextBatch_perm_sublist α footprint pending
    have hfilter : ((nextBatch footprint pending).1.map f).filter confirmed' =
        ((nextBatch footprint pending).1.filter confirmed).map f := by
      rw [filter_map]
      exact congrArg (map f) (filter_congr fun task hmem =>
        hconfirmed task (hbatch.subset hmem))
    have hpicked : ∀ task ∈ (nextBatch footprint pending).1.filter confirmed,
        footprint' (f task) = footprint task :=
      fun task hmem => hf task (hbatch.subset (mem_of_mem_filter hmem))
    simp only [commitOrder, nextBatch_map hf, hfilter, map_append]
    rw [batchTurns_map processed hpicked, processedAfter_map processed hpicked,
      ih _ (fun task hmem => hf task (hrest.subset hmem))
        fun task hmem => hconfirmed task (hrest.subset hmem)]

theorem commitOrder_congr {other : α → Bool} (fuel : ℕ) (processed : List TransactionID)
    (h : ∀ task ∈ pending, confirmed task = other task) :
    commitOrder footprint confirmed fuel processed pending =
      commitOrder footprint other fuel processed pending := by
  have hmap := @commitOrder_map _ _ footprint pending other footprint id confirmed fuel processed
    (fun _ _ => rfl) h
  simpa using hmap

end

end

/-! ### Transcripts -/

variable {τ : Type}

/-- A confirmed transaction: its turn and its result. -/
structure Committed (τ : Type) where
  scheduled : ScheduledTransaction τ
  processed : Bool
  result : TransactionExecutionResult

def Committed.turn (committed : Committed τ) : ScheduledTransaction τ × Bool :=
  (committed.scheduled, committed.processed)

/-- Execute a transaction that is told only whether its own id has been processed. -/
def runTurn (input : ParallelExecutionInput τ) (id : TransactionID) (processed : Bool)
    (transaction : τ) (state : ChainState) : Except String TransactionExecutionResult :=
  input.executor
    { chainID := input.chainID, slot := input.slot, epoch := input.epoch
      transaction := transaction, accounts := state
      blockhashQueue := input.blockhashQueue
      processedTxIDs := if processed then [id] else [] }

/-- The results of a transcript are those of executing its turns one after the other. -/
def Replays (input : ParallelExecutionInput τ) (known : ScheduledTransaction τ → Footprint) :
    ChainState → List (Committed τ) → Prop
  | _, [] => True
  | state, committed :: later =>
    runTurn input (known committed.scheduled).id committed.processed
        committed.scheduled.transaction state = .ok committed.result ∧
      committed.result.status = .confirmed ∧
      Replays input known (state.applyWrites committed.result.writtenAccounts) later

def finalState (state : ChainState) (transcript : List (Committed τ)) : ChainState :=
  transcript.foldl (fun state committed => state.applyWrites committed.result.writtenAccounts) state

section

variable {model : TransactionModel τ} {input : ParallelExecutionInput τ}
  {known : ScheduledTransaction τ → Footprint} {state : ChainState}

theorem Replays.append {first second : List (Committed τ)} :
    Replays input known state (first ++ second) ↔
      Replays input known state first ∧ Replays input known (finalState state first) second := by
  induction first generalizing state with
  | nil => simp [Replays, finalState]
  | cons committed first ih => simp [Replays, finalState, ih, and_assoc]

section

variable (hlocal : TouchesOnlyLocked model input.executor)
include hlocal

/-- A commit does not change what a compatible transaction makes of its accounts. -/
theorem runTurn_applyWrites {committed : Committed τ} {scheduled : ScheduledTransaction τ}
    {processed : Bool}
    (hfirst : model.footprint committed.scheduled.transaction = .ok (known committed.scheduled))
    (hsecond : model.footprint scheduled.transaction = .ok (known scheduled))
    (hcompatible : (known committed.scheduled).Compatible (known scheduled))
    (hrun : runTurn input (known committed.scheduled).id committed.processed
      committed.scheduled.transaction state = .ok committed.result) :
    runTurn input (known scheduled).id processed scheduled.transaction
        (state.applyWrites committed.result.writtenAccounts) =
      runTurn input (known scheduled).id processed scheduled.transaction state := by
  refine hlocal.reads (input.request scheduled.transaction state
    (if processed then [(known scheduled).id] else [])) _ _ _ hsecond
    (fun address haddress => ?_) Iff.rfl
  have hwrites : ∀ write ∈ committed.result.writtenAccounts,
      write.address ∈ (known committed.scheduled).writes ∨ state.Unchanged write :=
    fun write hwrite => (hlocal.writes _ _ _ hfirst hrun write hwrite).imp_right And.right
  refine ChainState.accountsAt_applyWrites hwrites fun hwrite => ?_
  obtain ⟨hreads, hwrites⟩ := hcompatible.1 address hwrite
  exact haddress.elim hreads hwrites

/-- Compatible transactions are replayed as if each of them met the first state. -/
theorem replays_iff_of_compatible {transcript : List (Committed τ)}
    (hknown : model.Knows known (transcript.map Committed.scheduled))
    (hcompatible : (transcript.map fun committed => known committed.scheduled).Pairwise
      Footprint.Compatible) :
    Replays input known state transcript ↔ ∀ committed ∈ transcript,
      runTurn input (known committed.scheduled).id committed.processed
          committed.scheduled.transaction state = .ok committed.result ∧
        committed.result.status = .confirmed := by
  induction transcript generalizing state with
  | nil => simp [Replays]
  | cons committed later ih =>
    obtain ⟨hhead, htail⟩ := forall_mem_cons.mp hknown
    obtain ⟨hfirst, hpairwise⟩ := pairwise_cons.mp hcompatible
    rw [Replays, ih htail hpairwise, forall_mem_cons, and_assoc]
    refine and_congr_right fun hrun => and_congr_right fun _ => forall₂_congr fun other hmem => ?_
    rw [runTurn_applyWrites hlocal hhead (htail _ (mem_map_of_mem hmem))
      (hfirst _ (mem_map_of_mem hmem)) hrun]

/-- Telling a transaction about its own id is as good as telling it about all ids. -/
theorem runTurn_eq_executor {scheduled : ScheduledTransaction τ} {processed : List TransactionID}
    (hfootprint : model.footprint scheduled.transaction = .ok (known scheduled)) :
    runTurn input (known scheduled).id (decide ((known scheduled).id ∈ processed))
        scheduled.transaction state =
      input.executor (input.request scheduled.transaction state processed) := by
  refine hlocal.reads (input.request scheduled.transaction state processed) _ state _ hfootprint
    (fun _ _ => rfl) ?_
  change _ ↔ (known scheduled).id ∈ processed
  by_cases hmem : (known scheduled).id ∈ processed <;> simp [hmem]

end

end

/-! ### Runs and their transcripts -/

def includedTransaction (model : TransactionModel τ) (input : ParallelExecutionInput τ)
    (committed : Committed τ) : τ :=
  if input.markIncluded then
    model.markTransactionConfirmed committed.scheduled.transaction
      committed.result.feeDetails.totalFee
  else committed.scheduled.transaction

/-- What a run adds to the output so far is what its transcript says. -/
structure Commits (crypto : Crypto) (model : TransactionModel τ) (input : ParallelExecutionInput τ)
    (known : ScheduledTransaction τ → Footprint) (progress next : Progress τ)
    (transcript : List (Committed τ)) : Prop where
  state : next.output.state = finalState progress.output.state transcript
  processed : next.processed =
    processedAfter known progress.processed (transcript.map Committed.scheduled)
  transactions : next.output.transactions =
    progress.output.transactions ++ transcript.map (includedTransaction model input)
  receipts : next.output.receipts =
    progress.output.receipts ++ transcript.map fun committed => hashReceipt crypto committed.result
  feeDetails : next.output.feeDetails =
    progress.output.feeDetails ++ transcript.map fun committed => committed.result.feeDetails

def transcriptUsage (transcript : List (Committed τ)) : BlockResourceUsage where
  computeUnits := (transcript.map fun committed => committed.result.computeUnitsConsumed).sum
  costUnits := (transcript.map fun committed => committed.result.costUnits).sum

/-- The transcript has been paid for, and the block limits are kept. -/
structure Pays (progress next : Progress τ) (transcript : List (Committed τ)) : Prop where
  computeUnits : progress.output.resourceUsage.computeUnits +
    (transcriptUsage transcript).computeUnits ≤ next.output.resourceUsage.computeUnits
  costUnits : progress.output.resourceUsage.costUnits +
    (transcriptUsage transcript).costUnits ≤ next.output.resourceUsage.costUnits
  computeLimit : progress.output.resourceUsage.computeUnits ≤ maxBlockComputeUnits →
    next.output.resourceUsage.computeUnits ≤ maxBlockComputeUnits
  costLimit : progress.output.resourceUsage.costUnits ≤ maxBlockCostUnits →
    next.output.resourceUsage.costUnits ≤ maxBlockCostUnits

section

variable {crypto : Crypto} {model : TransactionModel τ} {input : ParallelExecutionInput τ}
  {known : ScheduledTransaction τ → Footprint} {progress middle next : Progress τ}
  {first second : List (Committed τ)}

theorem Commits.refl (progress : Progress τ) :
    Commits crypto model input known progress progress [] where
  state := rfl
  processed := rfl
  transactions := (append_nil _).symm
  receipts := (append_nil _).symm
  feeDetails := (append_nil _).symm

theorem Commits.trans (hfirst : Commits crypto model input known progress middle first)
    (hsecond : Commits crypto model input known middle next second) :
    Commits crypto model input known progress next (first ++ second) where
  state := by rw [hsecond.state, hfirst.state, finalState, finalState, finalState,
    foldl_append]
  processed := by simp [hsecond.processed, hfirst.processed, processedAfter]
  transactions := by simp [hsecond.transactions, hfirst.transactions]
  receipts := by simp [hsecond.receipts, hfirst.receipts]
  feeDetails := by simp [hsecond.feeDetails, hfirst.feeDetails]

theorem Pays.refl (progress : Progress τ) : Pays progress progress [] where
  computeUnits := le_refl _
  costUnits := le_refl _
  computeLimit := id
  costLimit := id

theorem Pays.trans (hfirst : Pays progress middle first) (hsecond : Pays middle next second) :
    Pays progress next (first ++ second) := by
  obtain ⟨hcompute, hcost, hcomputeLimit, hcostLimit⟩ := hfirst
  obtain ⟨hcompute', hcost', hcomputeLimit', hcostLimit'⟩ := hsecond
  simp only [transcriptUsage] at hcompute hcost hcompute' hcost'
  refine ⟨?_, ?_, hcomputeLimit' ∘ hcomputeLimit, hcostLimit' ∘ hcostLimit⟩
  all_goals
    simp only [transcriptUsage, map_append, sum_append]
    omega

variable {usage : BlockResourceUsage} {transcript : List (Committed τ)}
  {pending : List (ScheduledTransaction τ)}

theorem addBlockResourceUsage_eq_some {additional total : BlockResourceUsage} :
    addBlockResourceUsage usage additional = some total ↔
      total = { computeUnits := usage.computeUnits + additional.computeUnits
                costUnits := usage.costUnits + additional.costUnits } ∧
      usage.computeUnits + additional.computeUnits ≤ maxBlockComputeUnits ∧
      usage.costUnits + additional.costUnits ≤ maxBlockCostUnits := by
  simp only [addBlockResourceUsage]
  split
  · next hfull =>
    refine ⟨fun h => absurd h (by simp), fun ⟨_, hcompute, hcost⟩ => ?_⟩
    omega
  · next hfits =>
    rw [Option.some.injEq]
    refine ⟨fun h => ⟨h.symm, ?_, ?_⟩, fun h => h.1.symm⟩ <;> omega

theorem addBlockResourceUsage_append {total : BlockResourceUsage}
    (h : addBlockResourceUsage usage (transcriptUsage (first ++ second)) = some total) :
    ∃ spent, addBlockResourceUsage usage (transcriptUsage first) = some spent ∧
      addBlockResourceUsage spent (transcriptUsage second) = some total := by
  simp only [addBlockResourceUsage_eq_some, transcriptUsage, map_append, sum_append,
    ← Nat.add_assoc] at h ⊢
  obtain ⟨rfl, hcompute, hcost⟩ := h
  exact ⟨_, ⟨rfl, by omega, by omega⟩, rfl, hcompute, hcost⟩

theorem processedAfter_singleton {scheduled : ScheduledTransaction τ}
    {processed : List TransactionID} {id : TransactionID}
    (hfootprint : model.footprint scheduled.transaction = .ok (known scheduled))
    (hid : model.txIDString scheduled.transaction = .ok id) :
    processedAfter known processed [scheduled] = id :: processed := by
  simp [processedAfter, TransactionModel.footprint_id hfootprint hid]

/-- Committing one result: a transaction that is not confirmed is only paid for. -/
theorem applyExecutionResult_commits {executed : ParallelExecutionResult τ}
    (hfootprint : model.footprint executed.transaction =
      .ok (known executed.toScheduledTransaction)) (processed : Bool)
    (h : applyExecutionResult crypto model input progress executed = .ok next) :
    ∃ transcript : List (Committed τ),
      (transcript = [] ∨ executed.result.status = .confirmed ∧
        transcript = [{ scheduled := executed.toScheduledTransaction, processed := processed,
                        result := executed.result }]) ∧
      Commits crypto model input known progress next transcript ∧
      Pays progress next transcript := by
  simp only [applyExecutionResult, addActualBlockResourceUsage, eq_ok,
    addBlockResourceUsage_eq_some] at h
  obtain ⟨_, ⟨rfl, hcompute, hcost⟩, h⟩ := h
  split at h
  · simp only [eq_ok] at h
    obtain ⟨-, rejected, -, rfl⟩ := h
    refine ⟨[], .inl rfl, { Commits.refl progress with }, ?_, ?_, fun _ => hcompute, fun _ => hcost⟩
    · simp [transcriptUsage]
    · simp [transcriptUsage]
  · next hstatus =>
    simp only [eq_ok] at h
    obtain ⟨id, hid, rfl⟩ := h
    refine ⟨_, .inr ⟨not_not.mp hstatus, rfl⟩, ⟨rfl, ?_, rfl, rfl, rfl⟩, ?_, ?_, fun _ => hcompute,
      fun _ => hcost⟩
    · exact (processedAfter_singleton hfootprint hid).symm
    · simp [transcriptUsage]
    · simp [transcriptUsage]

theorem turns_eq_batchTurns {processed : List TransactionID}
    {batch : List (ScheduledTransaction τ)} :
    transcript.map Committed.turn = batchTurns known processed batch ↔
      transcript.map Committed.scheduled = batch ∧ ∀ committed ∈ transcript,
        committed.processed = decide ((known committed.scheduled).id ∈ processed) := by
  have hturns : batchTurns known processed (transcript.map Committed.scheduled) =
      transcript.map fun committed =>
        (committed.scheduled, decide ((known committed.scheduled).id ∈ processed)) := by
    simp [batchTurns]
  constructor
  · intro h
    have hbatch : transcript.map Committed.scheduled = batch := by
      have hfirst := congrArg (map Prod.fst) h
      simpa [batchTurns, Function.comp_def, Committed.turn] using hfirst
    rw [← hbatch, hturns, map_inj_left] at h
    exact ⟨hbatch, fun committed hmem => congrArg Prod.snd (h committed hmem)⟩
  · rintro ⟨rfl, hflags⟩
    rw [hturns, map_inj_left]
    exact fun committed hmem => congrArg (Prod.mk _) (hflags committed hmem)

/-- The transactions of a batch as its results are committed. -/
theorem batch_transcript (hlocal : TouchesOnlyLocked model input.executor)
    {start : Progress τ} {batch : List (ScheduledTransaction τ)}
    {results : List (ParallelExecutionResult τ)} (hknown : model.Knows known batch)
    (hresults : batch.mapM (executeScheduledTransaction input start) = .ok results)
    (happly : results.foldlM (applyExecutionResult crypto model input) progress = .ok next) :
    ∃ transcript : List (Committed τ), (transcript.map Committed.scheduled).Sublist batch ∧
      (∀ committed ∈ transcript,
        committed.processed = decide ((known committed.scheduled).id ∈ start.processed) ∧
        runTurn input (known committed.scheduled).id committed.processed
          committed.scheduled.transaction start.output.state = .ok committed.result ∧
        committed.result.status = .confirmed) ∧
      Commits crypto model input known progress next transcript ∧
      Pays progress next transcript := by
  induction batch generalizing progress results with
  | nil =>
    simp only [mapM_nil, pure_eq_ok] at hresults
    subst hresults
    cases happly
    exact ⟨[], .slnil, by simp, .refl _, .refl _⟩
  | cons scheduled batch ih =>
    obtain ⟨hhead, htail⟩ := forall_mem_cons.mp hknown
    simp only [mapM_cons, eq_ok] at hresults
    obtain ⟨executed, hexecuted, rest, hrest, rfl⟩ := hresults
    simp only [foldlM_cons, eq_ok] at happly
    obtain ⟨middle, hmiddle, happly⟩ := happly
    obtain ⟨rfl, hresult⟩ := executeScheduledTransaction_eq_ok hexecuted
    obtain ⟨later, hsub, hlater, hcommits, hpays⟩ := ih htail hrest happly
    obtain ⟨first, hfirst, hcommitsFirst, hpaysFirst⟩ := applyExecutionResult_commits hhead
      (decide ((known executed.toScheduledTransaction).id ∈ start.processed)) hmiddle
    refine ⟨first ++ later, ?_, ?_, hcommitsFirst.trans hcommits, hpaysFirst.trans hpays⟩
    · rcases hfirst with rfl | ⟨-, rfl⟩
      · exact hsub.cons _
      · exact hsub.cons_cons _
    · rcases hfirst with rfl | ⟨hstatus, rfl⟩
      · exact hlater
      · refine forall_mem_cons.mpr ⟨⟨rfl, ?_, hstatus⟩, hlater⟩
        rw [← hresult]
        exact runTurn_eq_executor hlocal hhead

def Committed.executed (committed : Committed τ) : ParallelExecutionResult τ :=
  { committed.scheduled with result := committed.result }

/-- A confirmed result that fits into the block is committed. -/
theorem applyExecutionResult_confirmed {committed : Committed τ}
    (hfootprint : model.footprint committed.scheduled.transaction = .ok (known committed.scheduled))
    (hstatus : committed.result.status = .confirmed)
    (husage : addBlockResourceUsage progress.output.resourceUsage (transcriptUsage [committed]) =
      some usage) :
    ∃ next, applyExecutionResult crypto model input progress committed.executed = .ok next ∧
      Commits crypto model input known progress next [committed] ∧
      next.output.resourceUsage = usage := by
  obtain ⟨id, hid⟩ : ∃ id, model.txIDString committed.scheduled.transaction = .ok id := by
    simp only [TransactionModel.footprint, eq_ok] at hfootprint
    exact hfootprint.imp fun _ h => h.1
  refine ⟨{ processed := id :: progress.processed, output := { progress.output with
      state := progress.output.state.applyWrites committed.result.writtenAccounts
      transactions := progress.output.transactions ++ [includedTransaction model input committed]
      receipts := progress.output.receipts ++ [hashReceipt crypto committed.result]
      feeDetails := progress.output.feeDetails ++ [committed.result.feeDetails]
      resourceUsage := usage } }, ?_,
    ⟨rfl, (processedAfter_singleton hfootprint hid).symm, rfl, rfl, rfl⟩, rfl⟩
  simp only [applyExecutionResult, eq_ok]
  refine ⟨usage, orFail_eq_ok.mpr husage, ?_⟩
  have hconfirmed : ¬committed.executed.result.status ≠ .confirmed := not_not.mpr hstatus
  rw [if_neg hconfirmed]
  simp only [eq_ok]
  exact ⟨id, hid, rfl⟩

/-- Confirmed results that fit into the block are all committed. -/
theorem commit_confirmed (hknown : model.Knows known (transcript.map Committed.scheduled))
    (hstatus : ∀ committed ∈ transcript, committed.result.status = .confirmed)
    (husage : addBlockResourceUsage progress.output.resourceUsage (transcriptUsage transcript) =
      some usage) :
    ∃ next, (transcript.map Committed.executed).foldlM (applyExecutionResult crypto model input)
        progress = .ok next ∧ Commits crypto model input known progress next transcript ∧
      next.output.resourceUsage = usage := by
  induction transcript generalizing progress with
  | nil => exact ⟨progress, rfl, .refl _, (addBlockResourceUsage_eq_some.mp husage).1.symm⟩
  | cons committed later ih =>
    obtain ⟨hhead, htail⟩ := forall_mem_cons.mp hknown
    obtain ⟨hconfirmed, hconfirmedTail⟩ := forall_mem_cons.mp hstatus
    obtain ⟨spent, hspent, hleft⟩ := @addBlockResourceUsage_append _ [committed] later _ _ husage
    obtain ⟨middle, hmiddle, hcommits, rfl⟩ := @applyExecutionResult_confirmed _ crypto model
      input known progress _ committed hhead hconfirmed hspent
    obtain ⟨next, hnext, hcommits', hlast⟩ := ih htail hconfirmedTail hleft
    refine ⟨next, ?_, hcommits.trans hcommits', hlast⟩
    rw [map_cons, foldlM_cons, hmiddle]
    exact hnext

theorem mapM_executed (hlocal : TouchesOnlyLocked model input.executor)
    (hknown : model.Knows known (transcript.map Committed.scheduled))
    (hflags : ∀ committed ∈ transcript,
      committed.processed = decide ((known committed.scheduled).id ∈ progress.processed))
    (hruns : ∀ committed ∈ transcript, runTurn input (known committed.scheduled).id
      committed.processed committed.scheduled.transaction progress.output.state =
        .ok committed.result) :
    (transcript.map Committed.scheduled).mapM (executeScheduledTransaction input progress) =
      .ok (transcript.map Committed.executed) := by
  induction transcript with
  | nil => rfl
  | cons committed later ih =>
    obtain ⟨hhead, htail⟩ := forall_mem_cons.mp hknown
    obtain ⟨hflag, hflagsTail⟩ := forall_mem_cons.mp hflags
    obtain ⟨hrun, hrunsTail⟩ := forall_mem_cons.mp hruns
    rw [hflag, runTurn_eq_executor hlocal hhead, ParallelExecutionInput.request] at hrun
    simp only [map_cons, mapM_cons, ih htail hflagsTail hrunsTail,
      executeScheduledTransaction, hrun, withContext]
    rfl

section

variable (finishing : ℕ → List ℕ) (fuel : ℕ) (hknown : model.Knows known pending)
  (hroom : progress.output.transactions.length + pending.length ≤ input.maxIncludedCount)
include hknown hroom

/-- A round of a run that has room for everything. -/
theorem parallelLoop_round (hnil : pending ≠ []) :
    ∃ batch remaining, nextBatch known pending = (batch, remaining) ∧
      (batch ++ remaining).Perm pending ∧ batch.Sublist pending ∧ remaining.Sublist pending ∧
      (batch.map known).Pairwise Footprint.Compatible ∧
      (parallelLoop crypto model input finishing (fuel + 1) progress pending).toOption =
        (Batch.together (executeScheduledTransaction input)
          (applyExecutionResult crypto model input) progress batch).toOption.bind fun next =>
            (parallelLoop crypto model input finishing fuel next remaining).toOption := by
  have hpositive := length_pos_iff.mpr hnil
  rcases hpicked : pickBatch known
    (input.maxIncludedCount - progress.output.transactions.length) pending with ⟨batch, remaining⟩
  obtain ⟨hperm, hbatch, hrest, -⟩ := pickBatch_parts hpicked
  exact ⟨batch, remaining, nextBatch_of_pickBatch (by omega) hpicked, hperm, hbatch, hrest,
    pickBatch_compatible hpicked, parallelLoop_succ finishing fuel hknown hnil (by omega) hpicked⟩

variable (hlocal : TouchesOnlyLocked model input.executor)
include hlocal

/-- Every successful run has a transcript, whose results are those of a replay. -/
theorem parallelLoop_transcript
    (hnodup : (pending.map ScheduledTransaction.originalIndex).Nodup)
    (h : parallelLoop crypto model input finishing fuel progress pending = .ok next) :
    ∃ transcript : List (Committed τ),
      (∃ confirmed, transcript.map Committed.turn =
        commitOrder known confirmed fuel progress.processed pending) ∧
      Replays input known progress.output.state transcript ∧
      Commits crypto model input known progress next transcript ∧
      Pays progress next transcript := by
  induction fuel generalizing progress pending with
  | zero =>
    cases h
    exact ⟨[], ⟨fun _ => true, rfl⟩, trivial, .refl _, .refl _⟩
  | succ fuel ih =>
    by_cases hnil : pending = []
    · subst hnil
      cases h
      exact ⟨[], ⟨fun _ => true, (commitOrder_nil _ _).symm⟩, trivial, .refl _, .refl _⟩
    obtain ⟨batch, remaining, hnext, hperm, hbatch, hrest, hcompatible, hround⟩ :=
      @parallelLoop_round _ crypto _ _ _ _ _ finishing fuel hknown hroom hnil
    rw [h, toOption_ok, eq_comm, Option.bind_eq_some_iff] at hround
    obtain ⟨middle, hmiddle, hlater⟩ := hround
    simp only [toOption_eq_some] at hmiddle hlater
    simp only [Batch.together, eq_ok] at hmiddle
    obtain ⟨results, hresults, happly⟩ := hmiddle
    obtain ⟨first, hsub, hfirst, hcommits, hpays⟩ :=
      batch_transcript hlocal (hknown.mono hbatch.subset) hresults happly
    have hlength : middle.output.transactions.length + remaining.length ≤
        input.maxIncludedCount := by
      have hshort := hsub.length_le
      have hparts := hperm.length_eq
      rw [length_map] at hshort
      rw [length_append] at hparts
      rw [hcommits.transactions, length_append, length_map]
      omega
    have hnodupParts := (hperm.map ScheduledTransaction.originalIndex).nodup_iff.mpr hnodup
    rw [map_append] at hnodupParts
    obtain ⟨second, ⟨confirmed, hturns⟩, hreplays, hcommits', hpays'⟩ :=
      ih (hknown.mono hrest.subset) hlength hnodupParts.of_append_right hlater
    refine ⟨first ++ second, ?_, ?_, hcommits.trans hcommits', hpays.trans hpays'⟩
    · refine ⟨fun scheduled =>
        if scheduled.originalIndex ∈ batch.map ScheduledTransaction.originalIndex then
          decide (scheduled.originalIndex ∈ (first.map Committed.scheduled).map
            ScheduledTransaction.originalIndex)
        else confirmed scheduled, ?_⟩
      have hfilter := Batch.filter_mem_map_of_sublist ScheduledTransaction.originalIndex hsub
        hnodupParts.of_append_left
      simp only [commitOrder, hnext, map_append]
      rw [filter_congr fun scheduled hmem => if_pos (mem_map_of_mem hmem), hfilter,
        turns_eq_batchTurns.mpr ⟨rfl, fun committed hmem => (hfirst committed hmem).1⟩, hturns,
        hcommits.processed]
      refine congrArg _ (commitOrder_congr _ _ fun scheduled hmem => (if_neg fun hbatch => ?_).symm)
      exact (nodup_append.mp hnodupParts).2.2 _ hbatch _ (mem_map_of_mem hmem) rfl
    · rw [Replays.append, ← hcommits.state]
      refine ⟨(replays_iff_of_compatible hlocal (hknown.mono ?_) ?_).mpr
        fun committed hmem => (hfirst committed hmem).2, hreplays⟩
      · exact (hsub.trans hbatch).subset
      · have hknownSub := hsub.map known
        rw [map_map] at hknownSub
        exact hcompatible.sublist hknownSub

/-- A list that the scheduler takes up in the order of a transcript is executed to the
results of that transcript. -/
theorem parallelLoop_of_transcript
    (hturns : transcript.map Committed.turn =
      commitOrder known (fun _ => true) fuel progress.processed pending)
    (hreplays : Replays input known progress.output.state transcript)
    (husage : addBlockResourceUsage progress.output.resourceUsage (transcriptUsage transcript) =
      some usage) :
    ∃ next, parallelLoop crypto model input finishing fuel progress pending = .ok next ∧
      Commits crypto model input known progress next transcript := by
  induction fuel generalizing progress pending transcript with
  | zero =>
    rw [map_eq_nil_iff.mp hturns]
    exact ⟨progress, rfl, .refl _⟩
  | succ fuel ih =>
    by_cases hnil : pending = []
    · subst hnil
      rw [commitOrder_nil, map_eq_nil_iff] at hturns
      rw [hturns]
      exact ⟨progress, rfl, .refl _⟩
    obtain ⟨batch, remaining, hnext, hperm, hbatch, hrest, hcompatible, hround⟩ :=
      @parallelLoop_round _ crypto _ _ _ _ _ finishing fuel hknown hroom hnil
    simp only [commitOrder, hnext, filter_true] at hturns
    obtain ⟨first, second, rfl, hfirst, hsecond⟩ := map_eq_append_iff.mp hturns
    obtain ⟨rfl, hflags⟩ := turns_eq_batchTurns.mp hfirst
    have hknownFirst := hknown.mono hbatch.subset
    rw [map_map] at hcompatible
    obtain ⟨hreplaysFirst, hreplaysSecond⟩ := Replays.append.mp hreplays
    have hruns := (replays_iff_of_compatible hlocal hknownFirst hcompatible).mp hreplaysFirst
    obtain ⟨spent, hspent, hleft⟩ := addBlockResourceUsage_append husage
    obtain ⟨middle, hmiddle, hcommits, rfl⟩ := @commit_confirmed _ crypto _ input _ progress _
      first hknownFirst (fun committed hmem => (hruns committed hmem).2) hspent
    have hlength : middle.output.transactions.length + remaining.length ≤
        input.maxIncludedCount := by
      have hparts := hperm.length_eq
      rw [length_append, length_map] at hparts
      rw [hcommits.transactions, length_append, length_map]
      omega
    obtain ⟨next, hlater, hcommits'⟩ := ih (hknown.mono hrest.subset) hlength
      (by rw [hsecond, hcommits.processed]) (by rwa [hcommits.state]) hleft
    refine ⟨next, toOption_eq_some.mp ?_, hcommits.trans hcommits'⟩
    have hresults := mapM_executed hlocal hknownFirst hflags fun committed hmem =>
      (hruns committed hmem).1
    rw [hround, Batch.together, hresults]
    simp only [Bind.bind, Except.bind, hmiddle, toOption_ok, Option.bind_some, hlater]

end

end

end Ordexus
