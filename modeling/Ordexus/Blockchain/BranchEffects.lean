import Ordexus.Blockchain.Effects

/-!
# What reorganizations and imports do

The description of `ReorganizeTo` and of `ImportFinalizedSnapshot`. Both take blocks out of
the indexes of the main chain and put others in, and what they write to a table is the
concatenation of what they write for each of these blocks.
-/

namespace Ordexus.Blockchain

open Checked List TableWrite Database DBOperation

variable {τ : Type} {crypto : Crypto} {model : LedgerTransactionModel τ}

/-! ### Blocks of the main chain -/

def Database.transactionIDsOf (model : LedgerTransactionModel τ) (db : Database τ)
    (hash : Hash) : List TransactionID :=
  ((db.blocks.lookup hash).bind fun block =>
    (transactionIDsForProposal model block).toOption).getD []

def Database.slotsOf (db : Database τ) (hash : Hash) : List ℕ :=
  ((db.blocks.lookup hash).bind fun block => (rewardQCSlots block).toOption).getD []

def Database.heightOf (db : Database τ) (hash : Hash) : Option ℕ :=
  (db.blocks.lookup hash).map fun block => block.header.height

/-- A stored block that passes the checks made of a block of the main chain. -/
structure Database.Readable (model : LedgerTransactionModel τ) (db : Database τ) (hash : Hash)
    (block : BlockProposal τ) : Prop where
  lookup : db.blocks.lookup hash = some block
  transactions : transactionIDsForProposal model block = .ok (db.transactionIDsOf model hash)
  slots : rewardQCSlots block = .ok (db.slotsOf hash)
  history : ∃ entries, buildAddressHistoryEntries model block hash = .ok entries

variable {db : Database τ} {oldBlocks : List Hash}

section

variable {hash : Hash} {block : BlockProposal τ} {ids : List TransactionID} {slots : List ℕ}
  (hblock : db.blocks.lookup hash = some block)
include hblock

theorem transactionIDsOf_eq (hids : transactionIDsForProposal model block = .ok ids) :
    db.transactionIDsOf model hash = ids := by
  simp [transactionIDsOf, hblock, hids]

theorem slotsOf_eq (hslots : rewardQCSlots block = .ok slots) : db.slotsOf hash = slots := by
  simp [slotsOf, hblock, hslots]

theorem Database.Readable.of_stored (hids : transactionIDsForProposal model block = .ok ids)
    (hslots : rewardQCSlots block = .ok slots)
    (hentries : ∃ entries, buildAddressHistoryEntries model block hash = .ok entries) :
    db.Readable model hash block ∧ db.transactionIDsOf model hash = ids ∧
      db.slotsOf hash = slots ∧ db.heightOf hash = some block.header.height := by
  have htransactions := transactionIDsOf_eq hblock hids
  have hrewards := slotsOf_eq hblock hslots
  exact ⟨⟨hblock, htransactions ▸ hids, hrewards ▸ hslots, hentries⟩, htransactions, hrewards,
    by simp [heightOf, hblock]⟩

end

section

variable {α : Type} (model : LedgerTransactionModel τ) (db : Database τ)
  (write : DBOperation τ → Option α) (hash : Hash)

/-- The writes of one block that leaves the main chain, on one table. -/
def deletedBlock : List α :=
  ((db.transactionIDsOf model hash).filterMap fun id => write (.deleteTransaction id)) ++
    ((db.slotsOf hash).filterMap fun slot => write (.deleteRewardedQCSlot slot)) ++
    (db.heightOf hash).toList.filterMap fun height => write (.deleteHeight height)

/-- The writes of one block that joins the main chain, on one table. -/
def addedBlock : List α :=
  ((db.transactionIDsOf model hash).filterMap fun id => write (.putTransaction id hash)) ++
    ((db.slotsOf hash).filterMap fun slot => write (.putRewardedQCSlot slot hash)) ++
    (db.heightOf hash).toList.filterMap fun height => write (.putHeight height hash)

end

theorem oldBlockOps_eq_ok {hash : Hash} {removed : List TransactionID × List (DBOperation τ)}
    (h : oldBlockOps model db hash = .ok removed) :
    (∃ block, db.Readable model hash block) ∧ removed.1 = db.transactionIDsOf model hash ∧
      ∀ {α : Type} {write : DBOperation τ → Option α}, NotHistory write →
        removed.2.filterMap write = deletedBlock model db write hash := by
  simp only [oldBlockOps, eq_ok, loadProposalByHash_eq_ok, addressHistoryDeleteOps,
    rewardQCDeleteOps_eq_ok] at h
  obtain ⟨block, hblock, ids, hids, _, ⟨entries, hentries, rfl⟩, _, ⟨slots, hslots, rfl⟩, rfl⟩ := h
  obtain ⟨hreadable, htransactions, hrewards, hheight⟩ :=
    Readable.of_stored hblock hids hslots ⟨entries, hentries⟩
  refine ⟨⟨block, hreadable⟩, htransactions.symm, fun {α write} htable => ?_⟩
  rw [deletedBlock, htransactions, hrewards, hheight]
  simp [filterMap_append, filterMap_map, htable.deletedHistory, filterMap_cons]

/-- The transactions of a block join those of the blocks before it. -/
theorem addNewTransactions_eq_ok {newHash : Hash} {transactionIDs : List TransactionID}
    {added final : List (TransactionID × Hash)}
    (h : transactionIDs.foldlM (addNewTransaction db oldBlocks newHash) added = .ok final)
    (hdistinct : (added.map Prod.fst).Nodup) :
    final = added ++ transactionIDs.map (·, newHash) ∧ (final.map Prod.fst).Nodup ∧
      ∀ id ∈ transactionIDs, ∀ indexed, db.txToBlock.lookup id = some indexed →
        indexed ∈ oldBlocks := by
  induction transactionIDs generalizing added with
  | nil =>
    cases h
    exact ⟨(append_nil _).symm, hdistinct, by simp⟩
  | cons id transactionIDs ih =>
    obtain ⟨next, hnext, hrest⟩ := bind_eq_ok.mp h
    simp only [addNewTransaction, eq_ok] at hnext
    obtain ⟨hfresh, hindexed, rfl⟩ := hnext
    have hdistinct' : ((added ++ [(id, newHash)]).map Prod.fst).Nodup := by
      rw [map_append, nodup_append]
      refine ⟨hdistinct, nodup_singleton _, ?_⟩
      rintro other hother _ hmem rfl
      obtain rfl := mem_singleton.mp hmem
      exact hfresh hother
    obtain ⟨rfl, hnodup, hold⟩ := ih hrest hdistinct'
    refine ⟨by rw [append_assoc, map_cons, singleton_append], hnodup,
      forall_mem_cons.mpr ⟨fun indexed hlookup => ?_, hold⟩⟩
    by_contra hnot
    exact hindexed ⟨indexed, hlookup, hnot⟩

/-- The writes for the new blocks, block by block. -/
structure AddsBlocks (model : LedgerTransactionModel τ) (db : Database τ)
    (oldBlocks newBlocks : List Hash) (progress final : NewBlockProgress τ) : Prop where
  readable : ∀ hash ∈ newBlocks, ∃ block, db.Readable model hash block
  added : final.added = progress.added ++
    newBlocks.flatMap fun hash => (db.transactionIDsOf model hash).map (·, hash)
  distinct : (final.added.map Prod.fst).Nodup
  indexed : ∀ hash ∈ newBlocks, ∀ id ∈ db.transactionIDsOf model hash, ∀ block,
    db.txToBlock.lookup id = some block → block ∈ oldBlocks
  operations : ∀ {α : Type} {write : DBOperation τ → Option α}, NotHistory write →
    final.operations.filterMap write =
      progress.operations.filterMap write ++ newBlocks.flatMap (addedBlock model db write)

theorem newBlockOps_eq_ok {newBlocks : List Hash} {progress final : NewBlockProgress τ}
    (h : newBlocks.foldlM (newBlockOps model db oldBlocks) progress = .ok final)
    (hdistinct : (progress.added.map Prod.fst).Nodup) :
    AddsBlocks model db oldBlocks newBlocks progress final := by
  induction newBlocks generalizing progress with
  | nil =>
    cases h
    exact ⟨by simp, by simp, hdistinct, by simp, fun _ => by simp⟩
  | cons newHash newBlocks ih =>
    obtain ⟨next, hnext, hrest⟩ := bind_eq_ok.mp h
    simp only [newBlockOps, eq_ok, loadProposalByHash_eq_ok, addressHistoryIndexOps,
      rewardQCIndexOps_eq_ok] at hnext
    obtain ⟨block, hblock, ids, hids, added, hadded, _, ⟨entries, hentries, rfl⟩, _,
      ⟨slots, hslots, rfl⟩, rfl⟩ := hnext
    obtain ⟨rfl, hnodup, hindexed⟩ := addNewTransactions_eq_ok hadded hdistinct
    have hrests := ih hrest hnodup
    obtain ⟨hreadable, htransactions, hrewards, hheight⟩ :=
      Readable.of_stored hblock hids hslots ⟨entries, hentries⟩
    constructor
    · exact forall_mem_cons.mpr ⟨⟨block, hreadable⟩, hrests.readable⟩
    · rw [hrests.added, flatMap_cons, htransactions, append_assoc]
    · exact hrests.distinct
    · refine forall_mem_cons.mpr ⟨?_, hrests.indexed⟩
      rw [htransactions]
      exact hindexed
    · intro α write htable
      rw [hrests.operations htable, flatMap_cons, addedBlock, htransactions, hrewards, hheight]
      simp [filterMap_append, filterMap_map, htable.history, filterMap_cons]

structure ReorgWrites (model : LedgerTransactionModel τ) (oldBlocks newBlocks : List Hash)
    (state : ChainState) (head : Head) (delta : TransactionIndexDelta) (db nextDB : Database τ) :
    Prop extends SameStorage db nextDB where
  readableOld : ∀ hash ∈ oldBlocks, ∃ block, db.Readable model hash block
  readableNew : ∀ hash ∈ newBlocks, ∃ block, db.Readable model hash block
  removed : delta.removeIDs = oldBlocks.flatMap (db.transactionIDsOf model)
  added : delta.add =
    newBlocks.flatMap fun hash => (db.transactionIDsOf model hash).map (·, hash)
  distinct : (delta.add.map Prod.fst).Nodup
  indexed : ∀ hash ∈ newBlocks, ∀ id ∈ db.transactionIDsOf model hash, ∀ block,
    db.txToBlock.lookup id = some block → block ∈ oldBlocks
  heights : nextDB.heightToHash = applyAll db.heightToHash
    ((oldBlocks.flatMap fun hash => (db.heightOf hash).toList.map .delete) ++
      newBlocks.flatMap fun hash => (db.heightOf hash).toList.map fun height => .put height hash)
  transactions : nextDB.txToBlock = applyAll db.txToBlock
    ((oldBlocks.flatMap fun hash => (db.transactionIDsOf model hash).map .delete) ++
      newBlocks.flatMap fun hash => (db.transactionIDsOf model hash).map fun id => .put id hash)
  rewards : nextDB.rewardedQCSlots = applyAll db.rewardedQCSlots
    ((oldBlocks.flatMap fun hash => (db.slotsOf hash).map .delete) ++
      newBlocks.flatMap fun hash => (db.slotsOf hash).map fun slot => .put slot hash)
  accounts : nextDB.accounts = applyAll db.accounts
    (state.accounts.map fun entry => .put entry.address entry.account)
  valid : ∀ entry ∈ state.accounts, ∃ data, entry.account.marshalBinary = .ok data
  dbHead : nextDB.head = some (marshalHead head)

theorem collectReorgOps_eq_ok {head : Head} {newBlocks : List Hash} {state : ChainState}
    {operations : List (DBOperation τ)} {delta : TransactionIndexDelta}
    (h : collectReorgOps model db head oldBlocks newBlocks state = .ok (operations, delta)) :
    ReorgWrites model oldBlocks newBlocks state head delta db (db.dataTransaction operations) := by
  simp only [collectReorgOps, eq_ok, accountOps_eq_ok, Prod.mk.injEq] at h
  obtain ⟨old, hold, progress, hnew, _, ⟨hvalid, rfl⟩, rfl, rfl⟩ := h
  have hadds := newBlockOps_eq_ok hnew nodup_nil
  have hnone {α : Type} (hashes : List Hash) : hashes.flatMap (fun _ => ([] : List α)) = [] :=
    flatMap_eq_nil_iff.mpr fun _ _ => rfl
  -- the operations on one table
  have hops {α : Type} {write : DBOperation τ → Option α} (htable : NotHistory write) :
      (old.flatMap Prod.snd ++ progress.operations ++
        (state.accounts.map fun entry => .putAccount entry.address entry.account) ++
        [.putHead head] : List (DBOperation τ)).filterMap write =
      oldBlocks.flatMap (deletedBlock model db write) ++
        newBlocks.flatMap (addedBlock model db write) ++
        (state.accounts.filterMap fun entry => write (.putAccount entry.address entry.account)) ++
        [putHead head].filterMap write := by
    simp only [filterMap_append, hadds.operations htable, filterMap_nil,
      nil_append, filterMap_map, Function.comp_def, filterMap_flatMap]
    rw [flatMap_of_mapM hold fun _ _ hblock => (oldBlockOps_eq_ok hblock).2.2 htable]
  constructor
  · constructor
    · rw [blocks_dataTransaction, hops ⟨fun _ _ => rfl, fun _ => rfl⟩]
      delta deletedBlock addedBlock
      simp [filterMap_cons, hnone]
    · rw [checkpoints_dataTransaction, hops ⟨fun _ _ => rfl, fun _ => rfl⟩]
      delta deletedBlock addedBlock
      simp [filterMap_cons, hnone]
  · exact forall_of_mapM hold fun _ _ hblock => (oldBlockOps_eq_ok hblock).1
  · exact hadds.readable
  · exact flatMap_of_mapM hold fun _ _ hblock => (oldBlockOps_eq_ok hblock).2.1
  · exact hadds.added
  · exact hadds.distinct
  · exact hadds.indexed
  · rw [heights_dataTransaction, hops mainChain_height.toNotHistory]
    delta deletedBlock addedBlock
    simp [filterMap_cons]
  · rw [transactions_dataTransaction, hops mainChain_transaction.toNotHistory]
    delta deletedBlock addedBlock
    simp [filterMap_cons]
  · rw [rewards_dataTransaction, hops mainChain_reward.toNotHistory]
    delta deletedBlock addedBlock
    simp [filterMap_cons]
  · rw [accounts_dataTransaction, hops mainChain_account.toNotHistory]
    delta deletedBlock addedBlock
    simp [filterMap_cons, hnone]
  · exact hvalid
  · simp

namespace Ledger

/-! ### Reorganizations -/

/-- What a reorganization asks for and what it leaves in memory. -/
structure Reorganizes (crypto : Crypto) (model : LedgerTransactionModel τ) (ledger : Ledger τ)
    (newTipHash : Hash) (db : Database τ) (newTip : BlockProposal τ) (plan : ReorgPlan)
    (operations : List (DBOperation τ)) (delta : TransactionIndexDelta) (next : Ledger τ) :
    Prop where
  before : ledger.db = some db
  tip : db.blocks.lookup newTipHash = some newTip
  better : isBetterTip newTip.header newTipHash ledger.head = true
  planned : collectReorgPlan crypto db ledger.head newTip newTipHash = .ok plan
  notBelow : ledger.head.finalizedHeight ≤ plan.commonAncestor.height
  state : db.loadStateSnapshot newTipHash = .ok next.state
  root : next.state.rootHash crypto = .ok newTip.header.stateRoot
  head : next.head.Names newTip.header newTipHash
  finalizedHeight : next.head.finalizedHeight = ledger.nextFinalizedHeight newTip.header.height
  finalizedHash : finalizedHashFromReorgPlan db (ledger.nextFinalizedHeight newTip.header.height)
    plan.commonAncestor plan.newBlocks ledger.head.finalizedHash = .ok next.head.finalizedHash
  collected : collectReorgOps model db next.head plan.oldBlocks plan.newBlocks next.state =
    .ok (operations, delta)
  committed : next.committedTransactions =
    applyTransactionIndexDelta ledger.committedTransactions delta
  after : next.db = some (db.dataTransaction operations)

theorem reorganizeTo_eq_ok {ledger next : Ledger τ} {newTipHash : Hash} {decision : ForkDecision}
    (h : ledger.reorganizeTo crypto model newTipHash = .ok (next, decision)) :
    next = ledger ∨ ∃ db newTip plan operations delta,
      Reorganizes crypto model ledger newTipHash db newTip plan operations delta next := by
  simp only [reorganizeTo, eq_ok, loadProposalByHash_eq_ok] at h
  obtain ⟨db, hdb, newTip, htip, h⟩ := h
  split at h
  · simp only [pure_eq_ok, Prod.mk.injEq] at h
    exact .inl h.1.symm
  · next hbetter =>
    simp only [eq_ok, not_lt, ne_eq, not_not, Prod.mk.injEq] at h
    obtain ⟨plan, hplan, hbelow, state, hstate, stateRoot, hroot, rfl, finalizedHash, hfinalized,
      head, hattach, ⟨operations, delta⟩, hoperations, rfl, -⟩ := h
    obtain ⟨qcHash, hhead⟩ := attachBestQCForHead_eq_ok hattach
    refine .inr ⟨db, newTip, plan, operations, delta, ?_⟩
    constructor
    · exact hdb
    · exact htip
    · simpa using hbetter
    · exact hplan
    · exact hbelow
    · exact hstate
    · exact hroot
    · rw [hhead]
      exact ⟨rfl, rfl, rfl, rfl⟩
    · rw [hhead]
      rfl
    · rw [hhead]
      exact hfinalized
    · exact hoperations
    · rfl
    · rfl

/-! ### Imports -/

/-- The writes of a rollback at one height, on one table. -/
def rolledBack {α : Type} (model : LedgerTransactionModel τ) (db : Database τ)
    (write : DBOperation τ → Option α) (height : ℕ) : List α :=
  (db.heightToHash.lookup height).toList.flatMap fun hash =>
    ((db.transactionIDsOf model hash).filterMap fun id => write (.deleteTransaction id)) ++
      ((db.slotsOf hash).filterMap fun slot => write (.deleteRewardedQCSlot slot)) ++
      [deleteHeight height].filterMap write

theorem rollbackOpsAtHeight_eq_ok {db : Database τ} {height : ℕ}
    {removed : List TransactionID × List (DBOperation τ)}
    (h : rollbackOpsAtHeight model db height = .ok removed) :
    (∀ hash, db.heightToHash.lookup height = some hash →
        ∃ block, db.Readable model hash block) ∧
      removed.1 = (db.heightToHash.lookup height).toList.flatMap (db.transactionIDsOf model) ∧
      ∀ {α : Type} {write : DBOperation τ → Option α}, NotHistory write →
        removed.2.filterMap write = rolledBack model db write height := by
  cases hindex : db.heightToHash.lookup height with
  | none =>
    simp only [rollbackOpsAtHeight, hindex, pure_eq_ok] at h
    subst h
    simp [rolledBack, hindex]
  | some hash =>
    simp only [rollbackOpsAtHeight, hindex, eq_ok, loadProposalByHash_eq_ok,
      addressHistoryDeleteOps, rewardQCDeleteOps_eq_ok] at h
    obtain ⟨block, hblock, ids, hids, _, ⟨entries, hentries, rfl⟩, _, ⟨slots, hslots, rfl⟩,
      rfl⟩ := h
    obtain ⟨hreadable, htransactions, hrewards, -⟩ :=
      Readable.of_stored hblock hids hslots ⟨entries, hentries⟩
    refine ⟨?_, ?_, fun {α write} htable => ?_⟩
    · rintro other hother
      cases hother
      exact ⟨block, hreadable⟩
    · simp [htransactions]
    · simp [rolledBack, hindex, htransactions, hrewards, filterMap_append, filterMap_map,
        htable.deletedHistory]

def heightsAbove (head : Head) (height : ℕ) : List ℕ :=
  List.range' (height + 1) (head.height - height)

/-- What the import of a snapshot asks for and what it leaves in memory. -/
structure Replaces (crypto : Crypto) (model : LedgerTransactionModel τ) (ledger : Ledger τ)
    (request : ImportSnapshotRequest τ) (blockHash : Hash) (transactionIDs : List TransactionID)
    (removed : List TransactionID) (next : Ledger τ) : Prop where
  chainID : request.proposal.header.chainID = ledger.head.chainID
  hash : request.proposal.hash crypto = .ok blockHash
  root : request.state.rootHash crypto = .ok request.proposal.header.stateRoot
  above : ledger.head.finalizedHeight < request.proposal.header.height
  apart : ¬(request.proposal.header.height ≤ ledger.head.height ∧
    ledger.mainChainHashAtHeight request.proposal.header.height = some blockHash)
  transactions : transactionIDsForProposal model request.proposal = .ok transactionIDs
  head : next.head.Names request.proposal.header blockHash
  finalizedHeight : next.head.finalizedHeight = request.proposal.header.height
  finalizedHash : next.head.finalizedHash = blockHash
  state : next.state = request.state
  committed : next.committedTransactions = addCommittedTransactionIDs
    (removed.foldl (fun index id => index.erase id) ledger.committedTransactions)
    transactionIDs blockHash

structure ImportWrites (model : LedgerTransactionModel τ) (request : ImportSnapshotRequest τ)
    (blockHash : Hash) (removed : List TransactionID) (head nextHead : Head)
    (db nextDB : Database τ) : Prop extends
    StorageWrites model request.proposal blockHash request.state db nextDB where
  readable : ∀ height ∈ heightsAbove head nextHead.height, ∀ hash,
    db.heightToHash.lookup height = some hash → ∃ block, db.Readable model hash block
  removed : removed = (heightsAbove head nextHead.height).flatMap fun height =>
    (db.heightToHash.lookup height).toList.flatMap (db.transactionIDsOf model)
  heights : nextDB.heightToHash = applyAll db.heightToHash
    ((heightsAbove head nextHead.height).flatMap (rolledBack model db heightWrite) ++
      [.put nextHead.height blockHash])
  transactions : nextDB.txToBlock = applyAll db.txToBlock
    ((heightsAbove head nextHead.height).flatMap
      (rolledBack model db transactionWrite))
  rewards : ∃ slots, rewardQCSlots request.proposal = .ok slots ∧
    nextDB.rewardedQCSlots = applyAll db.rewardedQCSlots
      ((heightsAbove head nextHead.height).flatMap
        (rolledBack model db rewardWrite) ++ slots.map fun slot => .put slot blockHash)
  history : ∃ operations, addressHistoryIndexOps model request.proposal blockHash = .ok operations
  accounts : nextDB.accounts = applyAll db.accounts
    ((db.accounts.keys.filter fun address => decide (address ∉ request.state.addresses)).map
      .delete ++ request.state.accounts.map fun entry => .put entry.address entry.account)
  dbHead : nextDB.head = some (marshalHead nextHead)

theorem importedQCOps_onlyQCs {qc : QuorumCertificate} {blockHash : Hash}
    {operations : List (DBOperation τ)} (h : importedQCOps crypto qc blockHash = .ok operations) :
    OnlyQCs operations := by
  simp only [importedQCOps, eq_ok] at h
  obtain ⟨canonicalQCHash, -, fullQCHash, -, rfl⟩ := h
  intro operation hmem
  simp only [mem_cons, not_mem_nil, or_false] at hmem
  rcases hmem with rfl | rfl | rfl
  · exact .inl ⟨_, _, rfl⟩
  · exact .inl ⟨_, _, rfl⟩
  · exact .inr ⟨_, _, rfl⟩

theorem persistImportedSnapshot_eq_ok {db nextDB : Database τ} {head nextHead : Head}
    {request : ImportSnapshotRequest τ} {qc : QuorumCertificate} {blockHash : Hash}
    {removed : List TransactionID}
    (h : persistImportedSnapshot crypto model db head request qc blockHash nextHead =
      .ok (nextDB, removed)) :
    ImportWrites model request blockHash removed head nextHead db nextDB := by
  simp only [persistImportedSnapshot, collectImportedSnapshotRollbackOps, eq_ok,
    rewardQCIndexOps_eq_ok, accountSnapshotImportOps, accountOps_eq_ok, Prod.mk.injEq] at h
  obtain ⟨_, ⟨rollbacks, hrollbacks, rfl⟩, storage, hstorage, certificates, hcertificates,
    history, hhistory, _, ⟨slots, hslots, rfl⟩, _, ⟨_, ⟨-, rfl⟩, rfl⟩, rfl, rfl⟩ := h
  have honly := importedQCOps_onlyQCs hcertificates
  have hrolled {α : Type} {write : DBOperation τ → Option α} (htable : NotHistory write) :
      (rollbacks.flatMap fun removed => removed.2.filterMap write) =
        (heightsAbove head nextHead.height).flatMap (rolledBack model db write) :=
    flatMap_of_mapM hrollbacks fun _ _ hheight => (rollbackOpsAtHeight_eq_ok hheight).2.2 htable
  -- what the tables of the main chain do not see
  have hskip {α : Type} {write : DBOperation τ → Option α} (htable : MainChainTable write) :=
    htable.skips hstorage hhistory honly
  constructor
  · simp only [append_assoc]
    obtain ⟨entries, rfl⟩ := addressHistoryIndexOps_eq_ok hhistory
    refine storageWrites_dataTransaction hstorage ?_ ?_
    all_goals
      simp only [filterMap_append, filterMap_map, filterMap_flatMap]
      rw [honly.filterMap_eq_nil (fun _ _ => rfl) (fun _ _ => rfl),
        hrolled ⟨fun _ _ => rfl, fun _ => rfl⟩]
      simp [rolledBack, Function.comp_def]
  · exact forall_of_mapM hrollbacks fun _ _ hheight => (rollbackOpsAtHeight_eq_ok hheight).1
  · exact flatMap_of_mapM hrollbacks fun _ _ hheight => (rollbackOpsAtHeight_eq_ok hheight).2.1
  · simp [filterMap_cons, filterMap_flatMap,
      hskip mainChain_height, hrolled mainChain_height.toNotHistory, Function.comp_def]
  · simp [filterMap_cons, filterMap_flatMap,
      hskip mainChain_transaction, hrolled mainChain_transaction.toNotHistory, Function.comp_def]
  · refine ⟨slots, hslots, ?_⟩
    simp [filterMap_cons, filterMap_flatMap,
      hskip mainChain_reward, hrolled mainChain_reward.toNotHistory, Function.comp_def]
  · exact ⟨_, hhistory⟩
  · have hnone : (heightsAbove head nextHead.height).flatMap
        (rolledBack model db accountWrite) = [] :=
      flatMap_eq_nil_iff.mpr fun height _ => by simp [rolledBack]
    simp [filterMap_cons, filterMap_flatMap,
      hskip mainChain_account, (hrolled mainChain_account.toNotHistory).trans hnone,
      Function.comp_def]
  · simp [filterMap_cons, hskip mainChain_head]

/-- A snapshot at or below the finalized block changes nothing, one on the main chain is
finalized there, and any other one replaces the head. -/
theorem importFinalizedSnapshot_eq_ok {ledger next : Ledger τ} {request : ImportSnapshotRequest τ}
    (h : ledger.importFinalizedSnapshot crypto model request = .ok next) :
    next = ledger ∨
      (∃ blockHash, request.proposal.hash crypto = .ok blockHash ∧
        ledger.head.finalizedHeight < request.proposal.header.height ∧
        Advances ledger request.proposal.header.height blockHash next) ∨
      ∃ blockHash transactionIDs removed,
        Replaces crypto model ledger request blockHash transactionIDs removed next ∧
        ((ledger.db = none ∧ next.db = none ∧ removed = []) ∨
          ∃ db nextDB, ledger.db = some db ∧ next.db = some nextDB ∧
            ImportWrites model request blockHash removed ledger.head next.head db nextDB) := by
  simp only [importFinalizedSnapshot, checkImport, eq_ok, ne_eq, not_not] at h
  obtain ⟨_, ⟨hchain, blockHash, hhash, stateRoot, hroot, rfl, qc, -, -, -, qcHash, -, rfl⟩, h⟩ := h
  split at h
  · exact .inl (pure_eq_ok.mp h).symm
  next hnotBelow =>
  split at h
  · simp only [eq_ok] at h
    obtain ⟨-, -, rfl⟩ := h
    exact .inl rfl
  next hne =>
  have habove : ledger.head.finalizedHeight < request.proposal.header.height := by omega
  cases hadvance : ledger.tryAdvanceFinalizedCheckpoint request.proposal.header.height
      blockHash with
  | some advanced =>
    simp only [hadvance, pure_eq_ok] at h
    subst h
    exact .inr (.inl ⟨blockHash, hhash, habove, tryAdvanceFinalizedCheckpoint_eq_some hadvance⟩)
  | none =>
    have hapart : ¬(request.proposal.header.height ≤ ledger.head.height ∧
        ledger.mainChainHashAtHeight request.proposal.header.height = some blockHash) := by
      intro hon
      rw [tryAdvanceFinalizedCheckpoint, if_pos hon] at hadvance
      cases hadvance
    simp only [hadvance, replaceBySnapshot, eq_ok] at h
    obtain ⟨ids, hids, h⟩ := h
    cases hdb : ledger.db with
    | none =>
      simp only [hdb, eq_ok] at h
      obtain ⟨_, rfl, rfl⟩ := h
      exact .inr (.inr ⟨blockHash, ids, [], ⟨hchain, hhash, hroot, habove, hapart, hids,
        ⟨rfl, rfl, rfl, rfl⟩, rfl, rfl, rfl, rfl⟩, .inl ⟨rfl, rfl, rfl⟩⟩)
    | some db =>
      simp only [hdb, eq_ok] at h
      obtain ⟨⟨nextDB, removed⟩, hpersist, _, rfl, rfl⟩ := h
      exact .inr (.inr ⟨blockHash, ids, removed, ⟨hchain, hhash, hroot, habove, hapart, hids,
        ⟨rfl, rfl, rfl, rfl⟩, rfl, rfl, rfl, rfl⟩,
        .inr ⟨db, nextDB, rfl, rfl, persistImportedSnapshot_eq_ok hpersist⟩⟩)

end Ledger

end Ordexus.Blockchain
