import Ordexus.Blockchain.Branches

/-!
# What the operations do

One description of each operation of the ledger: what it asks of its arguments, the head and
the index it leaves in memory, and what it does to each table of the database. The invariants
of the ledger use these descriptions and never the operations themselves.
-/

namespace Ordexus.Blockchain

open Checked List TableWrite Database DBOperation

variable {τ : Type} {crypto : Crypto} {model : LedgerTransactionModel τ}

/-! ### Common parts -/

/-- A block and the accounts after it, as they are stored. -/
structure StorageWrites (model : LedgerTransactionModel τ) (proposal : BlockProposal τ)
    (blockHash : Hash) (state : ChainState) (db nextDB : Database τ) : Prop where
  blocks : ∃ stored, StoredAs model proposal stored ∧
    nextDB.blocks = db.blocks.insert blockHash stored
  checkpoints : nextDB.checkpoints = applyAll db.checkpoints
    (state.accounts.map fun entry => .put (blockHash, entry.address) entry.account)
  valid : ∀ entry ∈ state.accounts, ∃ data, entry.account.marshalBinary = .ok data

/-- The tables that describe the main chain are the same. -/
structure SameIndexes (db nextDB : Database τ) : Prop where
  heights : nextDB.heightToHash = db.heightToHash
  transactions : nextDB.txToBlock = db.txToBlock
  rewards : nextDB.rewardedQCSlots = db.rewardedQCSlots
  accounts : nextDB.accounts = db.accounts

structure SameStorage (db nextDB : Database τ) : Prop where
  blocks : nextDB.blocks = db.blocks
  checkpoints : nextDB.checkpoints = db.checkpoints

/-- A head names a block. -/
structure Head.Names (head : Head) (header : BlockHeader) (blockHash : Hash) : Prop where
  chainID : head.chainID = header.chainID
  height : head.height = header.height
  blockHash : head.blockHash = blockHash
  stateRoot : head.stateRoot = header.stateRoot

theorem attachBestQCForHead_eq_ok {db : Database τ} {blockHash : Hash} {head next : Head}
    (h : attachBestQCForHead crypto db blockHash head = .ok next) :
    ∃ qcHash, next = { head with qcHash := qcHash } := by
  unfold attachBestQCForHead at h
  split at h
  · cases h
    exact ⟨head.qcHash, rfl⟩
  · simp only [eq_ok] at h
    obtain ⟨-, qcHash, -, rfl⟩ := h
    exact ⟨qcHash, rfl⟩

section

variable {proposal : BlockProposal τ} {blockHash : Hash} {state : ChainState} {db : Database τ}
  {operations : List (DBOperation τ)}

/-- The storage operations followed by others that touch neither blocks nor checkpoints. -/
theorem storageWrites_dataTransaction {storage : List (DBOperation τ)}
    (h : collectBlockStorageOps model proposal blockHash state = .ok storage)
    (hblocks : operations.filterMap blockWrite = [])
    (hcheckpoints : operations.filterMap checkpointWrite = []) :
    StorageWrites model proposal blockHash state db
      (db.dataTransaction (storage ++ operations)) := by
  obtain ⟨stored, hstored, hvalid, rfl⟩ := collectBlockStorageOps_eq_ok h
  refine ⟨⟨stored, hstored, ?_⟩, ?_, hvalid⟩
  · simp [hblocks, filterMap_map, Function.comp_def, applyTo]
  · simp [hcheckpoints, filterMap_cons, filterMap_map, Function.comp_def]

/-- A table other than that of the address histories. -/
structure NotHistory {α : Type} (write : DBOperation τ → Option α) : Prop where
  history : ∀ key entry, write (.putHistory key entry) = none
  deletedHistory : ∀ key, write (.deleteHistory key) = none

/-- A table that describes the main chain: blocks, checkpoints, certificates and histories are
kept elsewhere. -/
structure MainChainTable {α : Type} (write : DBOperation τ → Option α) : Prop
    extends NotHistory write where
  block : ∀ hash block, write (.putBlock hash block) = none
  checkpoint : ∀ hash address account, write (.putCheckpoint hash address account) = none
  qc : ∀ hash qc, write (.putQC hash qc) = none
  blockQC : ∀ hash qc, write (.putBlockQC hash qc) = none

section

theorem mainChain_height : MainChainTable (heightWrite (τ := τ)) := by
  refine ⟨⟨?_, ?_⟩, ?_, ?_, ?_, ?_⟩ <;> intros <;> rfl

theorem mainChain_transaction : MainChainTable (transactionWrite (τ := τ)) := by
  refine ⟨⟨?_, ?_⟩, ?_, ?_, ?_, ?_⟩ <;> intros <;> rfl

theorem mainChain_reward : MainChainTable (rewardWrite (τ := τ)) := by
  refine ⟨⟨?_, ?_⟩, ?_, ?_, ?_, ?_⟩ <;> intros <;> rfl

theorem mainChain_account : MainChainTable (accountWrite (τ := τ)) := by
  refine ⟨⟨?_, ?_⟩, ?_, ?_, ?_, ?_⟩ <;> intros <;> rfl

theorem mainChain_head : MainChainTable (headWrite (τ := τ)) := by
  refine ⟨⟨?_, ?_⟩, ?_, ?_, ?_, ?_⟩ <;> intros <;> rfl

end

variable {α : Type} {write : DBOperation τ → Option α}

theorem MainChainTable.storage (htable : MainChainTable write) {storage : List (DBOperation τ)}
    (h : collectBlockStorageOps model proposal blockHash state = .ok storage) :
    storage.filterMap write = [] := by
  obtain ⟨stored, -, -, rfl⟩ := collectBlockStorageOps_eq_ok h
  simp [filterMap_map, htable.block, htable.checkpoint]

theorem MainChainTable.certificates (htable : MainChainTable write) (h : OnlyQCs operations) :
    operations.filterMap write = [] :=
  h.filterMap_eq_nil htable.qc htable.blockQC

theorem NotHistory.histories (htable : NotHistory write)
    (h : addressHistoryIndexOps model proposal blockHash = .ok operations) :
    operations.filterMap write = [] := by
  obtain ⟨entries, rfl⟩ := addressHistoryIndexOps_eq_ok h
  simp [filterMap_map, htable.history]

theorem MainChainTable.skips {storage history : List (DBOperation τ)}
    (htable : MainChainTable write)
    (hstorage : collectBlockStorageOps model proposal blockHash state = .ok storage)
    (hhistory : addressHistoryIndexOps model proposal blockHash = .ok history)
    (h : OnlyQCs operations) :
    storage.filterMap write = [] ∧ history.filterMap write = [] ∧ operations.filterMap write = [] :=
  ⟨htable.storage hstorage, htable.histories hhistory, htable.certificates h⟩

end

/-! ### Commits -/

namespace Ledger

/-- What a commit asks for and what it leaves in memory. -/
structure Commits (crypto : Crypto) (model : LedgerTransactionModel τ) (ledger : Ledger τ)
    (request : CommitBlockRequest τ) (blockHash : Hash) (transactionIDs : List TransactionID)
    (next : Ledger τ) : Prop where
  height : request.proposal.header.height = wrapUint64 (ledger.head.height + 1)
  parent : request.proposal.header.parentHash = ledger.head.blockHash
  hash : request.proposal.hash crypto = .ok blockHash
  root : request.nextState.rootHash crypto = .ok request.proposal.header.stateRoot
  transactions : transactionIDsForProposal model request.proposal = .ok transactionIDs
  fresh : ∀ id ∈ transactionIDs, ledger.committedTransactions.lookup id = none
  head : next.head.Names request.proposal.header blockHash
  finalizedHeight : next.head.finalizedHeight =
    ledger.nextFinalizedHeight request.proposal.header.height
  finalizedHash : ledger.finalizedHashForCommittedHeight
    (ledger.nextFinalizedHeight request.proposal.header.height) = .ok next.head.finalizedHash
  state : next.state = request.nextState
  committed : next.committedTransactions =
    addCommittedTransactionIDs ledger.committedTransactions transactionIDs blockHash

structure CommitWrites (model : LedgerTransactionModel τ) (request : CommitBlockRequest τ)
    (blockHash : Hash) (transactionIDs : List TransactionID) (head : Head)
    (db nextDB : Database τ) : Prop extends
    StorageWrites model request.proposal blockHash request.nextState db nextDB where
  heights : nextDB.heightToHash = db.heightToHash.insert head.height blockHash
  transactions : nextDB.txToBlock = applyAll db.txToBlock
    (transactionIDs.map fun id => .put id blockHash)
  rewards : ∃ slots, rewardQCSlots request.proposal = .ok slots ∧
    nextDB.rewardedQCSlots = applyAll db.rewardedQCSlots
      (slots.map fun slot => .put slot blockHash)
  history : ∃ operations, addressHistoryIndexOps model request.proposal blockHash = .ok operations
  accounts : nextDB.accounts = applyAll db.accounts
    (request.nextState.accounts.map fun entry => .put entry.address entry.account)
  dbHead : nextDB.head = some (marshalHead head)

variable {head : Head} {operations : List (DBOperation τ)} {db : Database τ}
  {request : CommitBlockRequest τ} {blockHash : Hash} {transactionIDs : List TransactionID}
  {ledger next : Ledger τ}

theorem collectCommitQCOps_onlyQCs {qc : Option QuorumCertificate}
    (h : collectCommitQCOps crypto qc head = .ok operations) : OnlyQCs operations := by
  cases qc with
  | none =>
    cases h
    exact fun operation hmem => absurd hmem not_mem_nil
  | some qc =>
    simp only [collectCommitQCOps, eq_ok] at h
    obtain ⟨fullQCHash, -, rfl⟩ := h
    intro operation hmem
    simp only [cons_append, nil_append, mem_cons] at hmem
    rcases hmem with rfl | rfl | hmem
    · exact .inl ⟨_, _, rfl⟩
    · exact .inr ⟨_, _, rfl⟩
    · split at hmem
      · rw [mem_singleton.mp hmem]
        exact .inl ⟨_, _, rfl⟩
      · cases hmem

theorem persistCommit_eq_ok {nextDB : Database τ}
    (h : persistCommit crypto model db request blockHash head transactionIDs = .ok nextDB) :
    CommitWrites model request blockHash transactionIDs head db nextDB := by
  simp only [persistCommit, eq_ok, rewardQCIndexOps_eq_ok, accountOps_eq_ok] at h
  obtain ⟨storage, hstorage, history, hhistory, rewards, ⟨slots, hslots, rfl⟩, certificates,
    hcertificates, accounts, ⟨-, rfl⟩, rfl⟩ := h
  have honly := collectCommitQCOps_onlyQCs hcertificates
  -- what the tables of the main chain do not see
  have hskip {α : Type} {write : DBOperation τ → Option α} (htable : MainChainTable write) :=
    htable.skips hstorage hhistory honly
  constructor
  · simp only [append_assoc]
    obtain ⟨entries, rfl⟩ := addressHistoryIndexOps_eq_ok hhistory
    refine storageWrites_dataTransaction hstorage ?_ ?_
    all_goals
      simp only [filterMap_append, filterMap_map]
      rw [honly.filterMap_eq_nil (fun _ _ => rfl) (fun _ _ => rfl)]
      simp [Function.comp_def]
  · simp [filterMap_cons, hskip mainChain_height, Function.comp_def, applyTo]
  · simp [filterMap_cons, hskip mainChain_transaction, Function.comp_def]
  · refine ⟨slots, hslots, ?_⟩
    simp [filterMap_cons, hskip mainChain_reward, Function.comp_def]
  · exact ⟨_, hhistory⟩
  · simp [filterMap_cons, hskip mainChain_account, Function.comp_def]
  · simp [filterMap_cons, hskip mainChain_head]

/-- What a commit leaves of a database, where there is one. -/
def PersistsCommit (model : LedgerTransactionModel τ) (request : CommitBlockRequest τ)
    (blockHash : Hash) (transactionIDs : List TransactionID) (ledger next : Ledger τ) : Prop :=
  (ledger.db = none ∧ next.db = none) ∨
    ∃ db nextDB, ledger.db = some db ∧ next.db = some nextDB ∧
      CommitWrites model request blockHash transactionIDs next.head db nextDB

theorem commitDatabase_eq_ok {db : Option (Database τ)} {persisted : Option (Database τ) × Head}
    (h : commitDatabase crypto model db request blockHash head transactionIDs = .ok persisted) :
    (∃ qcHash, persisted.2 = { head with qcHash := qcHash }) ∧
      ((db = none ∧ persisted.1 = none) ∨
        ∃ before nextDB, db = some before ∧ persisted.1 = some nextDB ∧
          CommitWrites model request blockHash transactionIDs persisted.2 before nextDB) := by
  cases db with
  | none =>
    cases h
    exact ⟨⟨head.qcHash, rfl⟩, .inl ⟨rfl, rfl⟩⟩
  | some db =>
    simp only [commitDatabase, eq_ok] at h
    obtain ⟨nextHead, hattach, nextDB, hpersist, rfl⟩ := h
    exact ⟨attachBestQCForHead_eq_ok hattach,
      .inr ⟨db, nextDB, rfl, rfl, persistCommit_eq_ok hpersist⟩⟩

theorem committedHead_eq_ok {stateRoot finalizedHash : Hash} {finalizedHeight : ℕ}
    (h : ledger.committedHead crypto request blockHash stateRoot finalizedHeight finalizedHash =
      .ok head) :
    head.chainID = request.proposal.header.chainID ∧
      head.height = request.proposal.header.height ∧ head.blockHash = blockHash ∧
      head.stateRoot = stateRoot ∧ head.finalizedHeight = finalizedHeight ∧
      head.finalizedHash = finalizedHash := by
  unfold committedHead at h
  split at h
  all_goals
    simp only [eq_ok] at h
    obtain ⟨qcHash, -, rfl⟩ := h
    exact ⟨rfl, rfl, rfl, rfl, rfl, rfl⟩

theorem rejectCommittedTransactionIDs_eq_ok :
    ledger.rejectCommittedTransactionIDs transactionIDs = .ok () ↔
      ∀ id ∈ transactionIDs, ledger.committedTransactions.lookup id = none := by
  rw [rejectCommittedTransactionIDs, forM_eq_ok]
  simp only [failIf_eq_ok, Option.not_isSome_iff_eq_none]

theorem commitBlock_eq_ok (h : ledger.commitBlock crypto model request = .ok next) :
    ∃ blockHash transactionIDs,
      Commits crypto model ledger request blockHash transactionIDs next ∧
      PersistsCommit model request blockHash transactionIDs ledger next := by
  simp only [commitBlock, CommitBlockRequest.validate, eq_ok, ne_eq, not_not] at h
  obtain ⟨⟨-, hheight, hparent, -⟩, transactionIDs, hids, hfresh, blockHash, hhash, stateRoot,
    hroot, rfl, finalizedHash, hfinalized, head, hhead, persisted, hpersisted, rfl⟩ := h
  obtain ⟨hheadChain, hheadHeight, hheadHash, hheadRoot, hheadFinal, rfl⟩ :=
    committedHead_eq_ok hhead
  obtain ⟨⟨bestQCHash, hbest⟩, hdb⟩ := commitDatabase_eq_ok hpersisted
  refine ⟨blockHash, transactionIDs, ?_, hdb⟩
  constructor
  · exact hheight
  · exact hparent
  · exact hhash
  · exact hroot
  · exact hids
  · exact rejectCommittedTransactionIDs_eq_ok.mp hfresh
  · rw [hbest]
    exact ⟨hheadChain, hheadHeight, hheadHash, hheadRoot⟩
  · rw [hbest]
    exact hheadFinal
  · rw [hbest]
    exact hfinalized
  · rfl
  · rfl

/-! ### Candidates -/

theorem saveBlockCandidate_eq_ok
    (h : ledger.saveBlockCandidate crypto model request = .ok (next, blockHash)) :
    request.proposal.hash crypto = .ok blockHash ∧
      request.nextState.rootHash crypto = .ok request.proposal.header.stateRoot ∧
      (∃ ids, transactionIDsForProposal model request.proposal = .ok ids) ∧
      next = { ledger with db := next.db } ∧
      ((ledger.db = none ∧ next.db = none) ∨
        ∃ db nextDB, ledger.db = some db ∧ next.db = some nextDB ∧
          StorageWrites model request.proposal blockHash request.nextState db nextDB ∧
          SameIndexes db nextDB ∧ nextDB.head = db.head) := by
  simp only [saveBlockCandidate, eq_ok, ne_eq, not_not] at h
  obtain ⟨hash, hhash, stateRoot, hroot, rfl, ids, hids, hsave⟩ := h
  cases hdb : ledger.db with
  | none =>
    simp only [hdb, pure_eq_ok, Prod.mk.injEq] at hsave
    obtain ⟨rfl, rfl⟩ := hsave
    exact ⟨hhash, hroot, ⟨ids, hids⟩, rfl, .inl ⟨rfl, hdb⟩⟩
  | some db =>
    simp only [hdb, eq_ok, Prod.mk.injEq] at hsave
    obtain ⟨operations, hstorage, rfl, rfl⟩ := hsave
    have hwrites : StorageWrites model request.proposal hash request.nextState db
        (db.dataTransaction (operations ++ [])) := storageWrites_dataTransaction hstorage rfl rfl
    rw [append_nil] at hwrites
    refine ⟨hhash, hroot, ⟨ids, hids⟩, rfl, .inr ⟨db, _, rfl, rfl, hwrites, ⟨?_, ?_, ?_, ?_⟩, ?_⟩⟩
    · simp [mainChain_height.storage hstorage]
    · simp [mainChain_transaction.storage hstorage]
    · simp [mainChain_reward.storage hstorage]
    · simp [mainChain_account.storage hstorage]
    · simp [mainChain_head.storage hstorage]

/-! ### Certificates -/

/-- The head is written, or neither it nor what is stored of it changes. -/
def SavesHead (head nextHead : Head) (db nextDB : Database τ) : Prop :=
  nextDB.head = some (marshalHead nextHead) ∨ (nextDB.head = db.head ∧ nextHead = head)

/-- A certificate changes nothing but the certificate of the head. -/
structure SavesQC (ledger next : Ledger τ) : Prop where
  head : ∃ qcHash, next.head = { ledger.head with qcHash := qcHash }
  rest : next = { ledger with db := next.db, head := next.head }
  db : (ledger.db = none ∧ next.db = none) ∨
    ∃ db nextDB, ledger.db = some db ∧ next.db = some nextDB ∧ SameStorage db nextDB ∧
      SameIndexes db nextDB ∧ SavesHead ledger.head next.head db nextDB

private def OnlyQCsAndHead (operations : List (DBOperation τ)) : Prop :=
  ∀ operation ∈ operations, (∃ hash qc, operation = .putQC hash qc) ∨
    (∃ hash qc, operation = .putBlockQC hash qc) ∨ ∃ head, operation = .putHead head

theorem sameTables_dataTransaction (h : OnlyQCsAndHead operations) :
    SameStorage db (db.dataTransaction operations) ∧
      SameIndexes db (db.dataTransaction operations) := by
  have hnone {α : Type} {write : DBOperation τ → Option α} (hqc : ∀ hash qc,
      write (.putQC hash qc) = none) (hblock : ∀ hash qc, write (.putBlockQC hash qc) = none)
      (hhead : ∀ head, write (.putHead head) = none) : operations.filterMap write = [] := by
    refine filterMap_eq_nil_iff.mpr fun operation hmem => ?_
    rcases h operation hmem with ⟨hash, qc, rfl⟩ | ⟨hash, qc, rfl⟩ | ⟨head, rfl⟩
    · exact hqc hash qc
    · exact hblock hash qc
    · exact hhead head
  constructor <;> constructor
  all_goals
    simp only [blocks_dataTransaction, checkpoints_dataTransaction,
      heights_dataTransaction, transactions_dataTransaction,
      rewards_dataTransaction, accounts_dataTransaction]
    rw [hnone (fun _ _ => rfl) (fun _ _ => rfl) fun _ => rfl]
    rfl

/-- Certificates, and then perhaps the head with its certificate. -/
theorem promoteHeadQC_eq_ok {nextHead : Head} {best : QuorumCertificate}
    {written : List (DBOperation τ)} (hwritten : OnlyQCs written)
    (h : (if shouldPromoteHeadQC db head best then do
        let bestQCHash ← hashCanonicalQC crypto best
        let _ ← withContext "blockchain: marshal best qc" best.marshalBinary
        let nextHead := { head with qcHash := bestQCHash }
        pure (written ++ [.putQC bestQCHash best, .putHead nextHead], nextHead)
      else pure (written, head)) = Except.ok (operations, nextHead)) :
    (∃ best, nextHead = { head with qcHash := best }) ∧ OnlyQCsAndHead operations ∧
      SavesHead head nextHead db (db.dataTransaction operations) := by
  have hcertificate : OnlyQCsAndHead written :=
    fun operation hmem => (hwritten operation hmem).imp_right .inl
  split at h
  · simp only [eq_ok, Prod.mk.injEq] at h
    obtain ⟨bestHash, -, -, -, rfl, rfl⟩ := h
    refine ⟨⟨bestHash, rfl⟩, ?_, .inl ?_⟩
    · intro operation hmem
      rcases mem_append.mp hmem with hmem | hmem
      · exact hcertificate operation hmem
      · simp only [mem_cons, not_mem_nil, or_false] at hmem
        rcases hmem with rfl | rfl
        · exact .inl ⟨_, _, rfl⟩
        · exact .inr (.inr ⟨_, rfl⟩)
    · rw [head_dataTransaction, filterMap_append, mainChain_head.certificates hwritten]
      rfl
  · obtain ⟨rfl, rfl⟩ := h
    refine ⟨⟨head.qcHash, rfl⟩, hcertificate, .inr ⟨?_, rfl⟩⟩
    rw [head_dataTransaction, mainChain_head.certificates hwritten]
    rfl

theorem collectQCOps_eq_ok {nextHead : Head} {qc : QuorumCertificate} {qcHash fullQCHash : Hash}
    (h : collectQCOps crypto db head qc qcHash fullQCHash = .ok (operations, nextHead)) :
    (∃ best, nextHead = { head with qcHash := best }) ∧ OnlyQCsAndHead operations ∧
      SavesHead head nextHead db (db.dataTransaction operations) := by
  obtain ⟨-, -, h⟩ := bind_eq_ok.mp h
  refine promoteHeadQC_eq_ok ?_ h
  intro operation hmem
  rcases mem_cons.mp hmem with rfl | hmem
  · exact .inl ⟨_, _, rfl⟩
  · split at hmem
    · simp only [mem_cons, not_mem_nil, or_false] at hmem
      rcases hmem with rfl | rfl
      · exact .inr ⟨_, _, rfl⟩
      · exact .inl ⟨_, _, rfl⟩
    · cases hmem

theorem saveQC_eq_ok {qc : QuorumCertificate} (h : ledger.saveQC crypto qc = .ok next) :
    SavesQC ledger next := by
  simp only [saveQC, eq_ok] at h
  obtain ⟨-, -, qcHash, -, fullQCHash, -, h⟩ := h
  cases hdb : ledger.db with
  | none =>
    simp only [hdb, pure_eq_ok] at h
    subst h
    exact ⟨⟨qcHash, rfl⟩, rfl, .inl ⟨hdb, rfl⟩⟩
  | some db =>
    simp only [hdb, eq_ok] at h
    obtain ⟨⟨operations, nextHead⟩, hcollect, rfl⟩ := h
    obtain ⟨hhead, honly, hdbHead⟩ := collectQCOps_eq_ok hcollect
    obtain ⟨hstorage, hindexes⟩ := @sameTables_dataTransaction _ _ db honly
    exact ⟨hhead, rfl, .inr ⟨db, _, hdb, rfl, hstorage, hindexes, hdbHead⟩⟩

/-! ### Checkpoints -/

/-- A checkpoint on the main chain becomes the finalized block. -/
structure Advances (ledger : Ledger τ) (height : ℕ) (blockHash : Hash) (next : Ledger τ) :
    Prop where
  le_head : height ≤ ledger.head.height
  mainChain : ledger.mainChainHashAtHeight height = some blockHash
  eq : next = { ledger with
    db := ledger.db.map fun db => db.apply (.putHead
      { ledger.head with finalizedHeight := height, finalizedHash := blockHash })
    head := { ledger.head with finalizedHeight := height, finalizedHash := blockHash } }

theorem tryAdvanceFinalizedCheckpoint_eq_some {height : ℕ}
    (h : ledger.tryAdvanceFinalizedCheckpoint height blockHash = some next) :
    Advances ledger height blockHash next := by
  unfold tryAdvanceFinalizedCheckpoint at h
  split at h
  · next hchain => exact ⟨hchain.1, hchain.2, (Option.some.inj h).symm⟩
  · cases h

/-! ### Genesis -/

structure GenesisWrites (state : ChainState) (head : Head) (db nextDB : Database τ) : Prop where
  blocks : nextDB.blocks = db.blocks
  checkpoints : nextDB.checkpoints = applyAll db.checkpoints
    (state.accounts.map fun entry => .put (head.blockHash, entry.address) entry.account)
  heights : nextDB.heightToHash = db.heightToHash.insert head.height head.blockHash
  transactions : nextDB.txToBlock = db.txToBlock
  rewards : nextDB.rewardedQCSlots = db.rewardedQCSlots
  accounts : nextDB.accounts = applyAll db.accounts
    (state.accounts.map fun entry => .put entry.address entry.account)
  valid : ∀ entry ∈ state.accounts, ∃ data, entry.account.marshalBinary = .ok data
  dbHead : nextDB.head = some (marshalHead head)

/-- A new ledger: its head and its finalized block are the genesis block. -/
structure Begins (crypto : Crypto) (ledger : Ledger τ) : Prop where
  height : ledger.head.height = 0
  finalizedHeight : ledger.head.finalizedHeight = 0
  finalizedHash : ledger.head.finalizedHash = ledger.head.blockHash
  root : ledger.state.rootHash crypto = .ok ledger.head.stateRoot
  distinct : ledger.state.addresses.Nodup
  committed : ledger.committedTransactions = ∅

theorem persistGenesis_eq_ok {nextDB : Database τ} {state : ChainState}
    (h : persistGenesis db state head = .ok nextDB) : GenesisWrites state head db nextDB := by
  simp only [persistGenesis, eq_ok, accountOps_eq_ok] at h
  obtain ⟨_, ⟨hvalid, rfl⟩, _, ⟨-, rfl⟩, rfl⟩ := h
  constructor
  case valid => exact hvalid
  all_goals simp [filterMap_cons, filterMap_map, Function.comp_def, applyTo]

theorem newLedgerFromGenesisWithConfig_eq_ok {program : Shielded.Program} {db : Option (Database τ)}
    {genesis : GenesisConfig} {config : LedgerConfig}
    (h : newLedgerFromGenesisWithConfig crypto program db genesis config = .ok ledger) :
    Begins crypto ledger ∧
      ((db = none ∧ ledger.db = none) ∨ ∃ before after, db = some before ∧
        ledger.db = some after ∧ GenesisWrites ledger.state ledger.head before after) := by
  simp only [newLedgerFromGenesisWithConfig, buildGenesisState, eq_ok] at h
  obtain ⟨_, ⟨-, -, accounts, -, stateRoot, hroot, rfl⟩, h⟩ := h
  cases db with
  | none =>
    obtain ⟨_, rfl, rfl⟩ := h
    exact ⟨⟨rfl, rfl, rfl, hroot, mergeGenesisAccounts_nodup accounts, rfl⟩, .inl ⟨rfl, rfl⟩⟩
  | some db =>
    simp only [eq_ok] at h
    obtain ⟨nextDB, hpersist, _, rfl, rfl⟩ := h
    exact ⟨⟨rfl, rfl, rfl, hroot, mergeGenesisAccounts_nodup accounts, rfl⟩,
      .inr ⟨db, nextDB, rfl, rfl, persistGenesis_eq_ok hpersist⟩⟩

/-- A ledger that begins on an empty database. -/
theorem newLedgerFromGenesisWithConfig_persistent {program : Shielded.Program}
    {genesis : GenesisConfig} {config : LedgerConfig}
    (h : newLedgerFromGenesisWithConfig crypto program (some .empty) genesis config = .ok ledger) :
    Begins crypto ledger ∧ ∃ db, ledger.db = some db ∧
      GenesisWrites ledger.state ledger.head .empty db := by
  obtain ⟨hbegins, ⟨hnone, -⟩ | ⟨before, db, hbefore, hdb, hwrites⟩⟩ :=
    newLedgerFromGenesisWithConfig_eq_ok h
  · cases hnone
  · exact ⟨hbegins, db, hdb, Option.some.inj hbefore ▸ hwrites⟩

end Ledger

end Ordexus.Blockchain
