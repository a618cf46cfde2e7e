import Mathlib.Data.List.Sublists
import Ordexus.Consensus.ParallelExecution

/-!
# Batches that keep the order

A transaction that is passed over holds no locks, so a batch may reach beyond it.
As long as every batch is the front of the pending list, and no two transactions
of a batch share an id that is still unprocessed, the scheduler does what it
stands for: it ends as if the transactions had been executed one after the other.
-/

namespace Ordexus

open Checked Batch List AccountLockSet

/-- What the scheduler sees of a transaction. -/
structure Footprint where
  id : TransactionID
  reads : List PublicKey
  writes : List PublicKey
deriving DecidableEq

def Footprint.tryLock (locks : AccountLockSet) (footprint : Footprint) : Option AccountLockSet :=
  locks.tryLock footprint.reads footprint.writes

/-- Neither transaction writes what the other one locks. -/
def Footprint.Compatible (first second : Footprint) : Prop :=
  (∀ account ∈ first.writes, account ∉ second.reads ∧ account ∉ second.writes) ∧
    ∀ account ∈ second.writes, account ∉ first.reads

/-- Two transactions that may be executed without hearing of each other: they have
different ids, or their id is already processed. -/
def Footprint.freshApart (processed : List TransactionID) (first second : Footprint) : Prop :=
  first.id ≠ second.id ∨ first.id ∈ processed

instance (processed : List TransactionID) (first second : Footprint) :
    Decidable (first.freshApart processed second) :=
  inferInstanceAs (Decidable (_ ∨ _))

/-- Whichever transactions of each batch are confirmed, the next batch is the front
of the pending list and its unprocessed ids are distinct. `room` is the number of
transactions that may still be included. The number of pending transactions is
enough fuel. -/
def keepsOrder : ℕ → ℕ → List TransactionID → List Footprint → Bool
  | 0, _, _, _ => true
  | fuel + 1, room, processed, pending =>
    let picked := Batch.greedy Footprint.tryLock room .empty pending
    pending = [] || room = 0 ||
      (picked.1 ++ picked.2 = pending && picked.1.Pairwise (Footprint.freshApart processed) &&
        picked.1.sublists.all fun confirmed =>
          keepsOrder fuel (room - confirmed.length)
            ((confirmed.map Footprint.id).reverse ++ processed) picked.2)

variable {τ : Type}

def TransactionModel.footprint (model : TransactionModel τ) (transaction : τ) :
    Except String Footprint := do
  let id ← model.txIDString transaction
  let (reads, writes) ← model.transactionLockAccounts transaction
  pure { id := id, reads := reads, writes := writes }

/-- An executor that touches only what its transaction locks. It may see whether
its own id has been processed; an account it only reads is written back as it was. -/
structure TouchesOnlyLocked (model : TransactionModel τ) (executor : TransactionExecutor τ) :
    Prop where
  reads : ∀ (request : TransactionRequest τ) (footprint : Footprint) (accounts : ChainState)
    (processed : List TransactionID), model.footprint request.transaction = .ok footprint →
    (∀ address, address ∈ footprint.reads ∨ address ∈ footprint.writes →
      accounts.accountsAt address = request.accounts.accountsAt address) →
    (footprint.id ∈ processed ↔ footprint.id ∈ request.processedTxIDs) →
    executor { request with accounts := accounts, processedTxIDs := processed } = executor request
  writes : ∀ (request : TransactionRequest τ) (footprint : Footprint)
    (result : TransactionExecutionResult), model.footprint request.transaction = .ok footprint →
    executor request = .ok result → ∀ write ∈ result.writtenAccounts,
      write.address ∈ footprint.writes ∨
        (write.address ∈ footprint.reads ∧ request.accounts.Unchanged write)

def ParallelExecutionInput.request (input : ParallelExecutionInput τ) (transaction : τ)
    (accounts : ChainState) (processed : List TransactionID) : TransactionRequest τ where
  chainID := input.chainID
  slot := input.slot
  epoch := input.epoch
  transaction := transaction
  accounts := accounts
  blockhashQueue := input.blockhashQueue
  processedTxIDs := processed

/-- The scheduled transactions have known footprints. -/
def TransactionModel.Knows (model : TransactionModel τ) (known : ScheduledTransaction τ → Footprint)
    (pending : List (ScheduledTransaction τ)) : Prop :=
  ∀ scheduled ∈ pending, model.footprint scheduled.transaction = .ok (known scheduled)

section

variable {model : TransactionModel τ} {pending batch : List (ScheduledTransaction τ)}
  {known : ScheduledTransaction τ → Footprint}

theorem TransactionModel.Knows.mono (h : model.Knows known pending) (hsub : batch ⊆ pending) :
    model.Knows known batch :=
  fun scheduled hmem => h scheduled (hsub hmem)

theorem TransactionModel.footprint_id {transaction : τ} {footprint : Footprint} {id : TransactionID}
    (hfootprint : model.footprint transaction = .ok footprint)
    (hid : model.txIDString transaction = .ok id) : footprint.id = id := by
  simp only [TransactionModel.footprint, eq_ok] at hfootprint
  obtain ⟨ownID, hownID, _, -, rfl⟩ := hfootprint
  exact Except.ok.inj (hownID.symm.trans hid)

/-- A pass of the scheduler over tasks with given footprints. -/
def pickBatch {α : Type} (footprint : α → Footprint) (room : ℕ) (pending : List α) :
    List α × List α :=
  Batch.greedy (fun locks task => (footprint task).tryLock locks) room .empty pending

/-- A selection among transactions with known footprints is the greedy one. -/
theorem selectParallelBatch_eq (room : ℕ) (hknown : model.Knows known pending) :
    selectParallelBatch model room .empty pending = .ok (pickBatch known room pending) := by
  unfold pickBatch
  generalize empty = locks
  induction pending generalizing room locks with
  | nil => cases room <;> rfl
  | cons scheduled pending ih =>
    obtain ⟨hhead, htail⟩ := forall_mem_cons.mp hknown
    cases room with
    | zero => rfl
    | succ room =>
      have hlock : tryLockTransaction model locks scheduled.transaction =
          .ok ((known scheduled).tryLock locks) := by
        simp only [TransactionModel.footprint, eq_ok] at hhead
        obtain ⟨id, -, accounts, hlocks, heq⟩ := hhead
        simp [tryLockTransaction, hlocks, ← heq, Footprint.tryLock]
      rw [greedy_cons]
      simp only [selectParallelBatch, hlock, withContext]
      cases (known scheduled).tryLock locks with
      | some held => simp [Bind.bind, Except.bind, ih _ htail, pure, Except.pure]
      | none => simp [Bind.bind, Except.bind, ih _ htail, pure, Except.pure]

theorem AccountLockSet.tryLock_eq_some {locks held : AccountLockSet} {reads writes : List PublicKey}
    (h : locks.tryLock reads writes = some held) :
    (∀ account ∈ writes, account ∉ locks.writeLocks ∧ account ∉ locks.readLocks) ∧
      (∀ account ∈ reads, account ∉ locks.writeLocks) ∧
      held =
        { readLocks := reads ++ locks.readLocks, writeLocks := writes ++ locks.writeLocks } := by
  unfold tryLock at h
  split at h
  · cases h
  · next hfree =>
    obtain ⟨hwrites, hreads⟩ := not_or.mp hfree
    refine ⟨fun account hmem => ?_, fun account hmem hlocked => ?_, (Option.some.inj h).symm⟩
    · exact not_or.mp fun hlocked => hwrites ⟨account, hmem, hlocked⟩
    · exact hreads ⟨account, hmem, hlocked⟩

/-- The locks leave room for a transaction. -/
private def Admits (locks : AccountLockSet) (footprint : Footprint) : Prop :=
  (∀ account ∈ footprint.writes, account ∉ locks.writeLocks ∧ account ∉ locks.readLocks) ∧
    ∀ account ∈ footprint.reads, account ∉ locks.writeLocks

end

section

variable {α β : Type} {footprint : α → Footprint} {footprint' : β → Footprint} {room : ℕ}
  {pending batch remaining : List α} (f : α → β)

theorem pickBatch_map (room : ℕ) (hf : ∀ task ∈ pending, footprint' (f task) = footprint task) :
    pickBatch footprint' room (pending.map f) =
      ((pickBatch footprint room pending).1.map f, (pickBatch footprint room pending).2.map f) :=
  greedy_map _ f room _ fun held task hmem => by rw [hf task hmem]

variable (hpicked : pickBatch footprint room pending = (batch, remaining))
include hpicked

theorem pickBatch_parts :
    (batch ++ remaining).Perm pending ∧ batch.Sublist pending ∧ remaining.Sublist pending ∧
      batch.length ≤ room := by
  have hparts := @greedy_perm_sublist _ _ (fun locks task => (footprint task).tryLock locks)
    room .empty pending
  rw [pickBatch] at hpicked
  rwa [hpicked] at hparts

/-- The first pending transaction finds no lock in its way. -/
theorem pickBatch_ne_nil (hpending : pending ≠ []) (hroom : 0 < room) : batch ≠ [] := by
  obtain ⟨task, pending, rfl⟩ := exists_cons_of_ne_nil hpending
  obtain ⟨space, rfl⟩ : ∃ space, room = space + 1 := ⟨_, (Nat.succ_pred_eq_of_pos hroom).symm⟩
  obtain ⟨held, hfirst⟩ : ∃ held, (footprint task).tryLock .empty = some held := by
    simp [Footprint.tryLock, tryLock, empty]
  have hne : (pickBatch footprint (space + 1) (task :: pending)).1 ≠ [] := by
    simp [pickBatch, greedy_cons, hfirst]
  rwa [hpicked] at hne

/-- A batch whose images start the pending ones is the front of the pending list. -/
theorem pickBatch_front
    (hf : ∀ first second, f first = f second → footprint first = footprint second)
    (h : batch.map f ++ remaining.map f = pending.map f) : batch ++ remaining = pending := by
  have hfront := @greedy_append_of_map _ _ _
    (fun locks task => (footprint task).tryLock locks) pending f room .empty
    fun locks first second heq => by rw [hf first second heq]
  rw [pickBatch] at hpicked
  rw [hpicked] at hfront
  exact hfront h

/-- The batch the scheduler takes, seen through the footprints. -/
theorem greedy_known : greedy Footprint.tryLock room .empty (pending.map footprint) =
    (batch.map footprint, remaining.map footprint) := by
  have hmap := @pickBatch_map _ _ footprint id pending footprint room fun _ _ => rfl
  rw [hpicked] at hmap
  exact hmap

/-- The transactions of a batch are pairwise compatible. -/
theorem pickBatch_compatible : (batch.map footprint).Pairwise Footprint.Compatible := by
  have hbatch : _ = batch.map footprint := congrArg Prod.fst (greedy_known hpicked)
  rw [← hbatch]
  refine (greedy_pairwise Admits ?_ ?_).1
  · intro locks footprint held hlock
    obtain ⟨hwrites, hreads, -⟩ := tryLock_eq_some hlock
    exact ⟨hwrites, hreads⟩
  · intro locks footprint held other hlock hother
    obtain ⟨-, -, rfl⟩ := tryLock_eq_some hlock
    simp only [Admits, mem_append, not_or] at hother
    obtain ⟨hwrites, hreads⟩ := hother
    refine ⟨⟨fun account hmem => ?_, fun account hmem => (hreads account hmem).2⟩, ?_, ?_⟩
    · exact ⟨(hwrites account hmem).1.2, (hwrites account hmem).2.2⟩
    · exact fun account hmem => ⟨fun hread => (hreads account hread).1 hmem,
        fun hwrite => (hwrites account hwrite).1.1 hmem⟩
    · exact fun account hmem => (hwrites account hmem).2.1

end

section

variable {crypto : Crypto} {model : TransactionModel τ} {input : ParallelExecutionInput τ}
  {progress next : Progress τ} {executed : ParallelExecutionResult τ}
  {scheduled : ScheduledTransaction τ}

/-- What committing one result does: a transaction that is not confirmed is only
recorded, a confirmed one is included and written. -/
theorem applyExecutionResult_cases
    (h : applyExecutionResult crypto model input progress executed = .ok next) :
    (executed.result.status ≠ .confirmed ∧ next.processed = progress.processed ∧
      next.output.state = progress.output.state ∧
      next.output.transactions = progress.output.transactions) ∨
    (executed.result.status = .confirmed ∧ ∃ id included,
      model.txIDString executed.transaction = .ok id ∧
      next.processed = id :: progress.processed ∧
      next.output.state = progress.output.state.applyWrites executed.result.writtenAccounts ∧
      next.output.transactions = progress.output.transactions ++ [included]) := by
  simp only [applyExecutionResult, eq_ok] at h
  obtain ⟨usage, -, h⟩ := h
  split at h
  · next hstatus =>
    simp only [eq_ok] at h
    obtain ⟨-, rejected, -, rfl⟩ := h
    exact .inl ⟨hstatus, rfl, rfl, rfl⟩
  · next hstatus =>
    simp only [eq_ok] at h
    obtain ⟨id, hid, rfl⟩ := h
    exact .inr ⟨not_not.mp hstatus, id, _, hid, rfl, rfl, rfl⟩

theorem applyExecutionResult_length
    (h : applyExecutionResult crypto model input progress executed = .ok next) :
    next.output.transactions.length ≤ progress.output.transactions.length + 1 := by
  rcases applyExecutionResult_cases h with ⟨-, -, -, heq⟩ | ⟨-, _, _, -, -, -, heq⟩
  · rw [heq]
    exact Nat.le_succ _
  · rw [heq, length_append, length_singleton]

theorem executeScheduledTransaction_eq_ok
    (h : executeScheduledTransaction input progress scheduled = .ok executed) :
    executed.toScheduledTransaction = scheduled ∧
      input.executor (input.request scheduled.transaction progress.output.state
        progress.processed) = .ok executed.result := by
  simp only [executeScheduledTransaction, eq_ok] at h
  obtain ⟨result, hresult, rfl⟩ := h
  exact ⟨rfl, hresult⟩

theorem applyParallelBatchResults_isPrefix {results : List (ParallelExecutionResult τ)}
    (h : applyParallelBatchResults crypto model input progress results = .ok next) :
    progress.output.transactions <+: next.output.transactions := by
  induction results generalizing progress with
  | nil =>
    cases h
    exact prefix_refl _
  | cons executed results ih =>
    simp only [applyParallelBatchResults, foldlM_cons, eq_ok] at h
    obtain ⟨middle, hmiddle, hrest⟩ := h
    refine IsPrefix.trans ?_ (ih hrest)
    rcases applyExecutionResult_cases hmiddle with ⟨-, -, -, heq⟩ | ⟨-, _, _, -, -, -, heq⟩
    · simp [heq]
    · rw [heq]
      exact prefix_append _ _

/-- What has been included stays at the front of the block. -/
theorem parallelLoop_isPrefix {finishing : ℕ → List ℕ} {fuel : ℕ}
    {pending : List (ScheduledTransaction τ)}
    (h : parallelLoop crypto model input finishing fuel progress pending = .ok next) :
    progress.output.transactions <+: next.output.transactions := by
  induction fuel generalizing progress pending with
  | zero =>
    cases h
    exact prefix_refl _
  | succ fuel ih =>
    simp only [parallelLoop] at h
    split at h
    · cases h
      exact prefix_refl _
    · simp only [eq_ok] at h
      obtain ⟨picked, -, -, results, -, middle, hmiddle, hrest⟩ := h
      exact (applyParallelBatchResults_isPrefix hmiddle).trans (ih hrest)

/-- Room for a whole batch: the sequential loop goes through it without stopping. -/
theorem sequentialLoop_append (batch rest : List (ScheduledTransaction τ))
    (hroom : progress.output.transactions.length + batch.length ≤ input.maxIncludedCount) :
    sequentialLoop crypto model input progress (batch ++ rest) =
      oneByOne (executeScheduledTransaction input) (applyExecutionResult crypto model input)
        progress batch >>= fun next => sequentialLoop crypto model input next rest := by
  induction batch generalizing progress with
  | nil => simp [oneByOne]
  | cons scheduled batch ih =>
    rw [length_cons] at hroom
    have hfree : ¬input.maxIncludedCount ≤ progress.output.transactions.length := by omega
    simp only [cons_append, sequentialLoop, if_neg hfree, oneByOne, foldlM_cons, bind_assoc]
    congr 1
    funext executed
    cases hnext : applyExecutionResult crypto model input progress executed with
    | error message => rfl
    | ok next =>
      have hlength := applyExecutionResult_length hnext
      exact ih (by omega)

/-- The order in which the workers finish does not matter for a successful batch. -/
theorem executeParallelBatch_toOption (finished : List ℕ)
    (batch : List (ScheduledTransaction τ)) :
    (executeParallelBatch input finished progress batch).toOption =
      (batch.mapM (executeScheduledTransaction input progress)).toOption := by
  simp only [executeParallelBatch]
  cases hstored : finished.findSome? fun index =>
      (batch.map (executeScheduledTransaction input progress))[index]?.bind
        failureMessage with
  | none => exact congrArg Except.toOption mapM_map
  | some message =>
    obtain ⟨index, -, hindex⟩ := exists_of_findSome?_eq_some hstored
    obtain ⟨result, hresult, hfailure⟩ := Option.bind_eq_some_iff.mp hindex
    rw [getElem?_map, Option.map_eq_some_iff] at hresult
    obtain ⟨scheduled, hscheduled, rfl⟩ := hresult
    cases hrun : executeScheduledTransaction input progress scheduled with
    | ok executed => simp [hrun, failureMessage] at hfailure
    | error cause =>
      exact (toOption_mapM_eq_none (mem_of_getElem? hscheduled) hrun).symm

end

section

variable {crypto : Crypto} {model : TransactionModel τ} {input : ParallelExecutionInput τ}
  {known : ScheduledTransaction τ → Footprint} {progress : Progress τ}

/-- A transaction cannot tell two moments of a run apart: its accounts and the
standing of its id are the same. -/
private structure SeesSame (model : TransactionModel τ)
    (known : ScheduledTransaction τ → Footprint) (start current : Progress τ)
    (scheduled : ScheduledTransaction τ) : Prop where
  footprint : model.footprint scheduled.transaction = .ok (known scheduled)
  accounts : ∀ address, address ∈ (known scheduled).reads ∨ address ∈ (known scheduled).writes →
    current.output.state.accountsAt address = start.output.state.accountsAt address
  processed : (known scheduled).id ∈ current.processed ↔ (known scheduled).id ∈ start.processed

variable {batch remaining pending : List (ScheduledTransaction τ)} {footprints : List Footprint}

/-- The transactions that a run over a batch confirms. -/
theorem oneByOne_confirmed {next : Progress τ} (hknown : model.Knows known batch)
    (h : oneByOne (executeScheduledTransaction input)
      (applyExecutionResult crypto model input) progress batch = .ok next) :
    ∃ confirmed : List Footprint, confirmed.Sublist (batch.map known) ∧
      next.processed = (confirmed.map Footprint.id).reverse ++ progress.processed ∧
      next.output.transactions.length =
        progress.output.transactions.length + confirmed.length := by
  induction batch generalizing progress with
  | nil =>
    simp only [oneByOne, foldlM_nil, pure_eq_ok] at h
    subst h
    exact ⟨[], by simp⟩
  | cons scheduled batch ih =>
    simp only [oneByOne, foldlM_cons, eq_ok] at h
    obtain ⟨middle, ⟨executed, hexecuted, hmiddle⟩, hrest⟩ := h
    obtain ⟨hhead, htail⟩ := forall_mem_cons.mp hknown
    obtain ⟨confirmed, hsub, hprocessed, hlength⟩ := ih htail hrest
    rcases applyExecutionResult_cases hmiddle with
      ⟨-, hsame, -, htransactions⟩ | ⟨-, id, included, hid, hadded, -, htransactions⟩
    · refine ⟨confirmed, hsub.cons _, by rw [hprocessed, hsame], ?_⟩
      rw [hlength, htransactions]
    · have hown := TransactionModel.footprint_id hhead
        ((executeScheduledTransaction_eq_ok hexecuted).1 ▸ hid)
      refine ⟨known scheduled :: confirmed, hsub.cons_cons _, ?_, ?_⟩
      · simp [hprocessed, hadded, hown]
      · simp only [hlength, htransactions, length_append, length_cons, length_nil]
        omega

theorem parallelLoop_succ (finishing : ℕ → List ℕ) (fuel : ℕ)
    (hknown : model.Knows known pending) (hpending : pending ≠ [])
    (hroom : progress.output.transactions.length < input.maxIncludedCount)
    (hpicked : pickBatch known (input.maxIncludedCount - progress.output.transactions.length)
      pending = (batch, remaining)) :
    (parallelLoop crypto model input finishing (fuel + 1) progress pending).toOption =
      (together (executeScheduledTransaction input) (applyExecutionResult crypto model input)
        progress batch).toOption.bind fun next =>
          (parallelLoop crypto model input finishing fuel next remaining).toOption := by
  have hbatch := pickBatch_ne_nil hpicked hpending (Nat.sub_pos_of_lt hroom)
  have hfull : ¬(pending = [] ∨ input.maxIncludedCount ≤ progress.output.transactions.length) := by
    rintro (hnil | hle)
    · exact hpending hnil
    · omega
  simp only [parallelLoop, if_neg hfull, selectParallelBatch_eq _ hknown, hpicked, toOption_bind,
    toOption_ok, Option.bind_some, executeParallelBatch_toOption, failIf_of_not hbatch,
    together, applyParallelBatchResults, Option.bind_assoc]

theorem buildScheduledTransactions_transaction {τ : Type} (transactions : List τ) :
    (buildScheduledTransactions transactions).map ScheduledTransaction.transaction =
      transactions := by
  simp only [buildScheduledTransactions, map_map, Function.comp_def]
  exact zipIdx_map_fst 0 transactions

theorem buildScheduledTransactions_originalIndex {τ : Type} (transactions : List τ) :
    (buildScheduledTransactions transactions).map ScheduledTransaction.originalIndex =
      range' 0 transactions.length := by
  simp only [buildScheduledTransactions, map_map, Function.comp_def]
  exact zipIdx_map_snd 0 transactions

/-- The footprint of a scheduled transaction that has one. -/
def TransactionModel.knownFootprint (model : TransactionModel τ)
    (scheduled : ScheduledTransaction τ) : Footprint :=
  match model.footprint scheduled.transaction with
  | .ok footprint => footprint
  | .error _ => { id := [], reads := [], writes := [] }

theorem knownFootprint_queue {queue : List (ScheduledTransaction τ)}
    (hqueue : queue.map (fun scheduled => model.footprint scheduled.transaction) =
      footprints.map .ok) :
    model.Knows model.knownFootprint queue ∧ queue.map model.knownFootprint = footprints := by
  induction queue generalizing footprints with
  | nil => simpa [TransactionModel.Knows] using hqueue.symm
  | cons scheduled queue ih =>
    cases footprints with
    | nil => simp at hqueue
    | cons footprint footprints =>
      obtain ⟨hhead, htail⟩ := cons.inj hqueue
      have hknown : model.knownFootprint scheduled = footprint := by
        simp [TransactionModel.knownFootprint, hhead]
      obtain ⟨hall, hmap⟩ := ih htail
      exact ⟨forall_mem_cons.mpr ⟨hknown ▸ hhead, hall⟩, by rw [map_cons, hknown, hmap]⟩

/-- Transactions whose footprints are given, as the scheduler queues them. -/
theorem buildScheduledTransactions_known {transactions : List τ}
    (hfootprints : transactions.map model.footprint = footprints.map .ok) :
    model.Knows model.knownFootprint (buildScheduledTransactions transactions) ∧
      (buildScheduledTransactions transactions).map model.knownFootprint = footprints := by
  refine knownFootprint_queue ?_
  rw [← hfootprints]
  conv_rhs => rw [← buildScheduledTransactions_transaction transactions, map_map]
  rfl

section

variable (hlocal : TouchesOnlyLocked model input.executor)
include hlocal

theorem SeesSame.execute {current : Progress τ} {scheduled : ScheduledTransaction τ}
    (h : SeesSame model known progress current scheduled) :
    executeScheduledTransaction input current scheduled =
      executeScheduledTransaction input progress scheduled := by
  have hsame := hlocal.reads (input.request scheduled.transaction progress.output.state
    progress.processed) _ _ _ h.footprint h.accounts h.processed
  exact congrArg (fun result => withContext _ result >>= _) hsame

/-- Committing one transaction is not noticed by a transaction that is apart from it. -/
theorem SeesSame.commit {current next : Progress τ} {scheduled other : ScheduledTransaction τ}
    {executed : ParallelExecutionResult τ} (h : SeesSame model known progress current scheduled)
    (hexecuted : executeScheduledTransaction input progress scheduled = .ok executed)
    (hnext : applyExecutionResult crypto model input current executed = .ok next)
    (hcompatible : (known scheduled).Compatible (known other))
    (hfresh : (known scheduled).freshApart progress.processed (known other))
    (hother : SeesSame model known progress current other) :
    SeesSame model known progress next other := by
  obtain ⟨hscheduled, hresult⟩ := executeScheduledTransaction_eq_ok hexecuted
  rcases applyExecutionResult_cases hnext with
    ⟨-, hprocessed, hstate, -⟩ | ⟨-, id, included, hid, hprocessed, hstate, -⟩
  · exact ⟨hother.footprint, by rw [hstate]; exact hother.accounts,
      by rw [hprocessed]; exact hother.processed⟩
  · refine ⟨hother.footprint, fun address haddress => ?_, ?_⟩
    · -- the writes stay within the write locks, which the other transaction does not touch
      have hwrites : ∀ write ∈ executed.result.writtenAccounts,
          write.address ∈ (known scheduled).writes ∨ current.output.state.Unchanged write := by
        intro write hwrite
        refine (hlocal.writes _ _ _ h.footprint hresult write hwrite).imp_right ?_
        rintro ⟨hread, hunchanged⟩
        exact hunchanged.congr (h.accounts _ (.inl hread))
      have hoff : address ∉ (known scheduled).writes := by
        intro hwrite
        obtain ⟨hreads, hwrites⟩ := hcompatible.1 address hwrite
        exact haddress.elim hreads hwrites
      rw [hstate, ChainState.accountsAt_applyWrites hwrites hoff]
      exact hother.accounts address haddress
    · have hown := TransactionModel.footprint_id h.footprint (hscheduled ▸ hid)
      rw [hprocessed, mem_cons, hother.processed, ← hown]
      constructor
      · rintro (heq | hmem)
        · exact heq ▸ hfresh.resolve_left fun hne => hne heq.symm
        · exact hmem
      · exact .inr

/-- A batch of compatible transactions ends as its transactions do one by one. -/
theorem parallelBatch_toOption (hknown : model.Knows known batch)
    (hcompatible : (batch.map known).Pairwise Footprint.Compatible)
    (hfresh : (batch.map known).Pairwise (Footprint.freshApart progress.processed)) :
    (together (executeScheduledTransaction input)
        (applyExecutionResult crypto model input) progress batch).toOption =
      (oneByOne (executeScheduledTransaction input)
        (applyExecutionResult crypto model input) progress batch).toOption := by
  have hsame : ∀ scheduled ∈ batch, SeesSame model known progress progress scheduled :=
    fun scheduled hmem => ⟨hknown scheduled hmem, fun _ _ => rfl, Iff.rfl⟩
  refine together_toOption (fun current scheduled => SeesSame.execute hlocal) ?_
    ((pairwise_map.mp hcompatible).and (pairwise_map.mp hfresh)) hsame
  exact fun current scheduled executed next h hexecuted hnext other hapart hother =>
    SeesSame.commit hlocal h hexecuted hnext hapart.1 hapart.2 hother

/-- A round whose batch is the front of the pending list: both loops go through the
batch in the same way. -/
theorem loops_round (crypto : Crypto) (finishing : ℕ → List ℕ) (fuel : ℕ)
    (hknown : model.Knows known (batch ++ remaining)) (hpending : batch ++ remaining ≠ [])
    (hroom : progress.output.transactions.length < input.maxIncludedCount)
    (hpicked : pickBatch known (input.maxIncludedCount - progress.output.transactions.length)
      (batch ++ remaining) = (batch, remaining))
    (hfresh : (batch.map known).Pairwise (Footprint.freshApart progress.processed)) :
    (parallelLoop crypto model input finishing (fuel + 1) progress (batch ++ remaining)).toOption =
        (oneByOne (executeScheduledTransaction input)
          (applyExecutionResult crypto model input) progress batch).toOption.bind (fun next =>
            (parallelLoop crypto model input finishing fuel next remaining).toOption) ∧
      (sequentialLoop crypto model input progress (batch ++ remaining)).toOption =
        (oneByOne (executeScheduledTransaction input)
          (applyExecutionResult crypto model input) progress batch).toOption.bind (fun next =>
            (sequentialLoop crypto model input next remaining).toOption) := by
  obtain ⟨-, hbatch, -, hlength⟩ := pickBatch_parts hpicked
  constructor
  · rw [parallelLoop_succ finishing fuel hknown hpending hroom hpicked, parallelBatch_toOption
      hlocal (hknown.mono hbatch.subset) (pickBatch_compatible hpicked) hfresh]
  · rw [sequentialLoop_append batch remaining (by omega), toOption_bind]

/-- Batches that keep the order: the scheduler ends as the sequential loop does. -/
theorem parallelLoop_toOption (finishing : ℕ → List ℕ) (fuel : ℕ)
    (hknown : model.Knows known pending) (hfuel : pending.length ≤ fuel)
    (horder : keepsOrder fuel (input.maxIncludedCount - progress.output.transactions.length)
      progress.processed (pending.map known) = true) :
    (parallelLoop crypto model input finishing fuel progress pending).toOption =
      (sequentialLoop crypto model input progress pending).toOption := by
  induction fuel generalizing progress pending with
  | zero =>
    rw [eq_nil_of_length_eq_zero (Nat.le_zero.mp hfuel)]
    rfl
  | succ fuel ih =>
    by_cases hnil : pending = []
    · subst hnil
      rfl
    by_cases hfull : input.maxIncludedCount ≤ progress.output.transactions.length
    · obtain ⟨scheduled, pending, rfl⟩ := exists_cons_of_ne_nil hnil
      simp [parallelLoop, sequentialLoop, hfull]
    rcases hpicked : pickBatch known
      (input.maxIncludedCount - progress.output.transactions.length) pending with ⟨batch, remaining⟩
    have hspace : input.maxIncludedCount - progress.output.transactions.length ≠ 0 := by omega
    simp only [keepsOrder, greedy_known hpicked, map_eq_nil_iff, hnil, hspace,
      decide_false, Bool.false_or, Bool.and_eq_true, decide_eq_true_eq, all_eq_true,
      mem_sublists] at horder
    obtain ⟨⟨hinOrder, hfresh⟩, hlater⟩ := horder
    obtain rfl := pickBatch_front known hpicked (fun _ _ => id) hinOrder
    obtain ⟨hparallel, hsequential⟩ := loops_round hlocal crypto finishing fuel hknown hnil
      (by omega) hpicked hfresh
    rw [hparallel, hsequential]
    cases hrun : oneByOne (executeScheduledTransaction input)
        (applyExecutionResult crypto model input) progress batch with
    | error message => rfl
    | ok next =>
      obtain ⟨confirmed, hsub, hprocessed, hlength⟩ :=
        oneByOne_confirmed (hknown.mono (subset_append_left _ _)) hrun
      have hshort : remaining.length ≤ fuel := by
        have hpositive := length_pos_iff.mpr
          (pickBatch_ne_nil hpicked hnil (Nat.pos_of_ne_zero hspace))
        rw [length_append] at hfuel
        omega
      refine ih (hknown.mono (subset_append_right _ _)) hshort ?_
      have hnext := hlater confirmed hsub
      rwa [hprocessed, hlength, ← Nat.sub_sub]

theorem executeTransactionsParallel_toOption (crypto : Crypto) (finishing : ℕ → List ℕ)
    (hfootprints : input.transactions.map model.footprint = footprints.map .ok)
    (horder : keepsOrder footprints.length input.maxIncludedCount input.processedTxIDs
      footprints = true) :
    (executeTransactionsParallel crypto model input finishing).toOption =
      (executeTransactionsSequentially crypto model input).toOption := by
  obtain ⟨hknown, hmap⟩ := buildScheduledTransactions_known hfootprints
  have hlength : input.transactions.length = footprints.length := by
    simpa using congrArg length hfootprints
  have hfuel : (buildScheduledTransactions input.transactions).length ≤ footprints.length := by
    rw [← hmap, length_map]
  have hloop : (parallelLoop crypto model input finishing footprints.length (initialProgress input)
      (buildScheduledTransactions input.transactions)).toOption = _ :=
    parallelLoop_toOption hlocal finishing footprints.length hknown hfuel
      (by rw [hmap]; exact horder)
  simp only [executeTransactionsParallel, executeTransactionsSequentially, toOption_bind, hlength,
    hloop]

end

end

end Ordexus
