import Ordexus.Blockchain.IndexRuns

/-!
# What a restart gives back

The database of a ledger holds its head, its accounts and its index of transactions as they are
in memory, if its texts are valid, and every block of the main chain can be read. The account
table only grows on a commit and on a reorganization: what it holds is the state of the head as
long as no account of the state before is missing from the next one.
-/

namespace Ordexus.Blockchain

open Checked Ancestry Transition TableWrite List

variable {τ : Type} {crypto : Crypto} {model : LedgerTransactionModel τ}

/-! ### Accounts in the order of their addresses -/

/-- Distinct addresses have one order. -/
theorem insertionSort_eq_of_perm {first second : List AddressedAccount} (h : first.Perm second)
    (hdistinct : (first.map AddressedAccount.address).Nodup) :
    (first.insertionSort fun left right => left.address ≤ right.address) =
      second.insertionSort fun left right => left.address ≤ right.address := by
  have hsorted := pairwise_insertionSort
    fun left right : AddressedAccount => left.address ≤ right.address
  have hfirst := perm_insertionSort
    (fun left right : AddressedAccount => left.address ≤ right.address) first
  have hsecond := perm_insertionSort
    (fun left right : AddressedAccount => left.address ≤ right.address) second
  refine Perm.eq_of_pairwise ?_ (hsorted first) (hsorted second)
    (hfirst.trans (h.trans hsecond.symm))
  intro left right hleft hright hle hge
  exact inj_on_of_nodup_map hdistinct (hfirst.mem_iff.mp hleft)
    (h.mem_iff.mpr (hsecond.mem_iff.mp hright)) (Nat.le_antisymm hle hge)

theorem rootHash_eq_of_perm {first second : ChainState} (h : first.accounts.Perm second.accounts)
    (hdistinct : first.addresses.Nodup) : first.rootHash crypto = second.rootHash crypto := by
  rw [ChainState.rootHash, ChainState.rootHash, insertionSort_eq_of_perm h hdistinct]

def Database.accountRows (db : Database τ) : List AddressedAccount :=
  db.accounts.entries.map fun row => ⟨row.1, row.2⟩

/-- The account table holds the accounts of a state, and each of them can be encoded. -/
structure Database.Holds (db : Database τ) (state : ChainState) : Prop where
  distinct : state.addresses.Nodup
  accounts : ∀ address account, db.accounts.lookup address = some account ↔
    ⟨address, account⟩ ∈ state.accounts
  valid : ∀ entry ∈ state.accounts, ∃ data, entry.account.marshalBinary = .ok data

namespace Database

variable {db nextDB : Database τ} {state nextState : ChainState}

theorem mem_accountRows {entry : AddressedAccount} :
    entry ∈ db.accountRows ↔ db.accounts.lookup entry.address = some entry.account := by
  rw [← Option.mem_def, AList.mem_lookup_iff, accountRows, mem_map]
  constructor
  · rintro ⟨row, hrow, rfl⟩
    exact hrow
  · intro hrow
    exact ⟨_, hrow, rfl⟩

theorem Holds.perm (h : db.Holds state) : db.accountRows.Perm state.accounts := by
  have hrows : db.accountRows.Nodup := by
    refine Nodup.map ?_ db.accounts.nodupKeys.nodup
    rintro ⟨address, account⟩ ⟨other, otherAccount⟩ hsame
    obtain ⟨rfl, rfl⟩ := AddressedAccount.mk.inj hsame
    rfl
  rw [perm_ext_iff_of_nodup hrows (Nodup.of_map _ h.distinct)]
  intro entry
  rw [mem_accountRows, h.accounts]

section

variable (hdistinct : nextState.addresses.Nodup)
  (hvalid : ∀ entry ∈ nextState.accounts, ∃ data, entry.account.marshalBinary = .ok data)
include hdistinct hvalid

/-- All accounts of a state are put into a table that has no others. -/
theorem holds_puts {kept : Table PublicKey Account}
    (hcovers : ∀ address account, kept.lookup address = some account →
      address ∈ nextState.addresses)
    (haccounts : nextDB.accounts = applyAll kept
      (nextState.accounts.map fun entry => .put entry.address entry.account)) :
    nextDB.Holds nextState := by
  refine ⟨hdistinct, fun address account => ?_, hvalid⟩
  rw [haccounts, lookup_applyAll_puts hdistinct]
  constructor
  · rintro (⟨entry, hentry, rfl, rfl⟩ | ⟨hnot, hold⟩)
    · exact hentry
    · exact absurd (hcovers address account hold) hnot
  · intro hentry
    exact .inl ⟨_, hentry, rfl, rfl⟩

theorem Holds.put (h : db.Holds state)
    (hcovers : ∀ address ∈ state.addresses, address ∈ nextState.addresses)
    (haccounts : nextDB.accounts = applyAll db.accounts
      (nextState.accounts.map fun entry => .put entry.address entry.account)) :
    nextDB.Holds nextState :=
  holds_puts hdistinct hvalid (fun address account hold => hcovers address
    (mem_map.mpr ⟨_, (h.accounts address account).mp hold, rfl⟩)) haccounts

/-- The others were deleted before. -/
theorem holds_import (haccounts : nextDB.accounts = applyAll db.accounts
      ((db.accounts.keys.filter fun address => decide (address ∉ nextState.addresses)).map
        .delete ++ nextState.accounts.map fun entry => .put entry.address entry.account)) :
    nextDB.Holds nextState := by
  rw [applyAll_append] at haccounts
  refine holds_puts hdistinct hvalid (fun address account hold => ?_) haccounts
  rw [lookup_applyAll_delete] at hold
  split at hold
  · cases hold
  · next hkept =>
    have hkey : address ∈ db.accounts.keys := by
      rw [← AList.mem_keys, ← AList.lookup_isSome, hold]
      rfl
    by_contra hnot
    exact hkept (mem_filter.mpr ⟨hkey, decide_eq_true hnot⟩)

end

theorem Holds.same (h : db.Holds state) (haccounts : nextDB.accounts = db.accounts) :
    nextDB.Holds state :=
  ⟨h.distinct, haccounts ▸ h.accounts, h.valid⟩

theorem holds_genesis (hdistinct : state.addresses.Nodup) {head : Head}
    (hwrites : Ledger.GenesisWrites state head .empty db) : db.Holds state := by
  have hempty : (empty : Database τ).Holds ⟨[]⟩ := by
    refine ⟨nodup_nil, fun address account => ?_, by simp⟩
    simp [empty]
  exact hempty.put hdistinct hwrites.valid (by simp [ChainState.addresses]) hwrites.accounts

end Database

/-! ### Loading the state -/

namespace Ledger

variable {db : Database τ} {state : ChainState} {head : Head}

theorem loadState_of_holds (h : db.Holds state) :
    ∃ loaded, loadState db = .ok loaded ∧ loaded.accounts.Perm state.accounts := by
  have hsorted := perm_insertionSort
    (fun left right : AddressedAccount => left.address ≤ right.address) db.accountRows
  refine ⟨⟨_⟩, ?_, hsorted.trans h.perm⟩
  simp only [loadState, eq_ok]
  refine ⟨?_, rfl⟩
  rw [forIn_eq_ok]
  intro entry hentry
  obtain ⟨data, hdata⟩ := h.valid entry (h.perm.mem_iff.mp (hsorted.mem_iff.mp hentry))
  obtain ⟨_, hvalid, -⟩ := bind_eq_ok.mp hdata
  exact withContext_eq_ok.mpr hvalid

theorem loadHeadState_of_holds (h : db.Holds state)
    (hroot : state.rootHash crypto = .ok head.stateRoot) (config : LedgerConfig) :
    ∃ loaded, loadHeadState crypto db head config = .ok (loaded, db) ∧
      loaded.accounts.Perm state.accounts := by
  obtain ⟨loaded, hload, hperm⟩ := loadState_of_holds h
  have hmatches : validateStateRootMatchesHead crypto loaded head = .ok () := by
    have hsame : loaded.rootHash crypto = .ok head.stateRoot :=
      (rootHash_eq_of_perm hperm.symm h.distinct).symm.trans hroot
    simp only [validateStateRootMatchesHead, eq_ok]
    exact ⟨_, hsame, not_not.mpr rfl⟩
  refine ⟨loaded, ?_, hperm⟩
  rw [loadHeadState, hload]
  change (if config.disableStateRecovery then _ else _) = _
  split
  · rw [hmatches]
    rfl
  · rw [recoverLoadedStateFromSnapshot, if_pos (succeeds_iff.mpr ⟨(), hmatches⟩)]
    rfl

end Ledger

/-! ### Readable blocks -/

section

variable {header : BlockHeader} {hash : Hash}

theorem transactionHistoryEntries_stored {transaction readBack : τ} {index : ℕ}
    (hstored : model.stored transaction = .ok readBack)
    (hok : ∃ entries, transactionHistoryEntries model header hash transaction index = .ok entries) :
    ∃ entries, transactionHistoryEntries model header hash readBack index = .ok entries := by
  obtain ⟨entries, hentries⟩ := hok
  simp only [transactionHistoryEntries, eq_ok] at hentries ⊢
  obtain ⟨id, hid, effects, heffects, hcount, -⟩ := hentries
  refine ⟨_, id, ?_, effects, ?_, hcount, rfl⟩
  · rw [model.txIDString_stored hstored, hid]
  · rw [model.extractAddressHistoryEffects_stored hstored, heffects]

theorem mapM_transactionHistoryEntries_stored {transactions readBack : List τ}
    (hstored : Forall₂ (fun transaction readBack => model.stored transaction = .ok readBack)
      transactions readBack) (start : ℕ)
    (hok : ∃ entries, (transactions.zipIdx start).mapM (fun entry =>
      transactionHistoryEntries model header hash entry.1 entry.2) = .ok entries) :
    ∃ entries, (readBack.zipIdx start).mapM (fun entry =>
      transactionHistoryEntries model header hash entry.1 entry.2) = .ok entries := by
  induction hstored generalizing start with
  | nil => exact ⟨[], rfl⟩
  | cons hfirst _ ih =>
    obtain ⟨entries, hok⟩ := hok
    simp only [zipIdx_cons, mapM_cons, eq_ok] at hok ⊢
    obtain ⟨first, hfirstOk, rest, hrest, -⟩ := hok
    obtain ⟨first, hfirst⟩ := transactionHistoryEntries_stored hfirst ⟨first, hfirstOk⟩
    obtain ⟨rest, hrest⟩ := ih _ ⟨rest, hrest⟩
    exact ⟨_, first, hfirst, rest, hrest, rfl⟩

/-- Storing the bytes of the transactions does not keep the address history from being built. -/
theorem StoredAs.history {proposal stored : BlockProposal τ} (h : StoredAs model proposal stored)
    (htext : proposal.header.IsText)
    (hentries : ∃ entries, buildAddressHistoryEntries model proposal hash = .ok entries) :
    ∃ entries, buildAddressHistoryEntries model stored hash = .ok entries := by
  obtain ⟨entries, hentries⟩ := hentries
  simp only [buildAddressHistoryEntries, eq_ok] at hentries ⊢
  obtain ⟨hcount, built, hbuilt, -⟩ := hentries
  obtain ⟨built, hbuilt⟩ := mapM_transactionHistoryEntries_stored h.transactions 0 ⟨built, hbuilt⟩
  rw [h.transactions.length_eq] at hcount
  rw [h.header_eq htext]
  exact ⟨_, hcount, built, hbuilt, rfl⟩

end

section

variable {proposal : BlockProposal τ} {genesis hash : Hash} {state : ChainState}
  {db nextDB : Database τ}

/-- A block is readable once it is stored, where its contents are in order. -/
theorem readable_of_storageWrites (h : StorageWrites model proposal hash state db nextDB)
    (hadmits : db.Admits model genesis hash proposal) {ids : List TransactionID} {slots : List ℕ}
    (hids : transactionIDsForProposal model proposal = .ok ids)
    (hslots : rewardQCSlots proposal = .ok slots)
    (hhistory : ∃ entries, buildAddressHistoryEntries model proposal hash = .ok entries) :
    ∃ block, nextDB.Readable model hash block := by
  obtain ⟨stored, hstored, hblocks⟩ := h.blocks
  have hlookup : nextDB.blocks.lookup hash = some stored := by
    rw [hblocks]
    exact AList.lookup_insert _
  have hstoredIDs := hstored.transactionIDs.trans hids
  have hstoredSlots := (hstored.slots hadmits.voters).trans hslots
  exact ⟨stored, (Database.Readable.of_stored hlookup hstoredIDs hstoredSlots
    (hstored.history hadmits.fits.text hhistory)).1⟩

/-- A block is as readable as one under the same hash with the same entries. -/
theorem Database.Readable.of_lookup {other : Database τ} {block : BlockProposal τ}
    (h : db.Readable model hash block) (hsame : other.blocks.lookup hash = db.blocks.lookup hash) :
    other.Readable model hash block := by
  have hids : other.transactionIDsOf model hash = db.transactionIDsOf model hash := by
    rw [transactionIDsOf, transactionIDsOf, hsame]
  have hslots : other.slotsOf hash = db.slotsOf hash := by
    rw [slotsOf, slotsOf, hsame]
  exact ⟨hsame.trans h.lookup, by rw [hids]; exact h.transactions, by rw [hslots]; exact h.slots,
    h.history⟩

/-- The blocks that the height index names can be read, but for the genesis block. -/
def Database.ReadableChain (model : LedgerTransactionModel τ) (db : Database τ) : Prop :=
  ∀ height hash, 0 < height → db.heightToHash.lookup height = some hash →
    ∃ block, db.Readable model hash block

/-- The texts of what is stored are valid. -/
theorem texts_of_storageWrites (h : StorageWrites model proposal hash state db nextDB)
    (hadmits : db.Admits model genesis hash proposal)
    (htexts : ∀ hash block, db.blocks.lookup hash = some block → block.header.IsText)
    (other : Hash) (block : BlockProposal τ) (hblock : nextDB.blocks.lookup other = some block) :
    block.header.IsText := by
  obtain ⟨stored, hstored, hblocks⟩ := h.blocks
  rw [hblocks, Table.lookup_insert] at hblock
  split at hblock
  · obtain rfl := Option.some.inj hblock
    rw [hstored.header_eq hadmits.fits.text]
    exact hadmits.fits.text
  · exact htexts other block hblock

/-- A block is stored and other entries of the index are from before. -/
theorem Database.ReadableChain.store (h : db.ReadableChain model)
    (hwrites : StorageWrites model proposal hash state db nextDB)
    (hindex : ∀ height other, nextDB.heightToHash.lookup height = some other →
      other = hash ∨ db.heightToHash.lookup height = some other)
    (hnew : (∃ height, 0 < height ∧ nextDB.heightToHash.lookup height = some hash) →
      ∃ block, nextDB.Readable model hash block) : nextDB.ReadableChain model := by
  obtain ⟨stored, -, hblocks⟩ := hwrites.blocks
  intro height other hpositive hlookup
  by_cases hother : other = hash
  · rw [hother] at hlookup ⊢
    exact hnew ⟨height, hpositive, hlookup⟩
  · obtain ⟨block, hblock⟩ := h height other hpositive
      ((hindex height other hlookup).resolve_left hother)
    refine ⟨block, hblock.of_lookup ?_⟩
    rw [hblocks, Table.lookup_insert, if_neg hother]

end

/-! ### Durable ledgers -/

namespace Ledger

variable {genesis : Hash} {ledger next : Ledger τ} {db nextDB : Database τ}

/-- The index that is read back or built from the blocks is the one on disk. -/
theorem Indexed.loaded_index (h : ledger.Indexed crypto model genesis db)
    {index : Table TransactionID Hash}
    (hload : loadCommittedTransactionIndex model db ledger.head = .ok index) (id : TransactionID) :
    index.lookup id = db.txToBlock.lookup id := by
  unfold loadCommittedTransactionIndex at hload
  split at hload
  · rw [pure_eq_ok.mp hload]
  next hempty =>
  have hnone (id : TransactionID) : db.txToBlock.lookup id = none := by
    rw [AList.lookup_eq_none, AList.mem_keys, AList.keys, not_not.mp hempty]
    exact not_mem_nil
  -- no block of the main chain has a transaction
  have hindex : index = ∅ := by
    have hkeep : ∀ current, ∀ height ∈ range' 1 ledger.head.height, ∀ built, current = ∅ →
        indexTransactionsAtHeight model db current height = .ok built → built = ∅ := ?_
    · exact @foldlM_invariant _ _ _ _ _ _ _ (· = ∅) hload rfl hkeep
    rintro _ height - built rfl hbuilt
    unfold indexTransactionsAtHeight at hbuilt
    split at hbuilt
    · exact (pure_eq_ok.mp hbuilt).symm
    · next blockHash hlookup =>
      simp only [eq_ok, loadProposalByHash_eq_ok] at hbuilt
      obtain ⟨proposal, hproposal, ids, hids, rfl⟩ := hbuilt
      obtain rfl : ids = [] := by
        refine eq_nil_iff_forall_not_mem.mpr fun id hid => ?_
        have hmem : id ∈ db.transactionIDsOf model blockHash := by
          rwa [transactionIDsOf_eq hproposal hids]
        have hfound := (h.describes.transactions id blockHash).mpr ⟨⟨_, hlookup⟩, hmem⟩
        rw [hnone] at hfound
        cases hfound
      rfl
  rw [hindex, hnone]
  rfl

/-- The database holds what the ledger has in memory. -/
structure Durable (crypto : Crypto) (model : LedgerTransactionModel τ) (genesis : Hash)
    (ledger : Ledger τ) (db : Database τ) : Prop where
  indexed : ledger.Indexed crypto model genesis db
  holds : db.Holds ledger.state
  root : ledger.state.rootHash crypto = .ok ledger.head.stateRoot
  readable : db.ReadableChain model
  texts : ∀ hash block, db.blocks.lookup hash = some block → block.header.IsText
  text : Borsh.validUTF8 ledger.head.chainID = true
  saved : db.head = some ledger.head

section

variable (h : ledger.Durable crypto model genesis db)
include h

theorem Durable.loaded_index :
    ∃ index, loadCommittedTransactionIndex model db ledger.head = .ok index := by
  unfold loadCommittedTransactionIndex
  split
  · exact ⟨_, rfl⟩
  refine exists_foldlM_eq_ok fun index height hheight => ?_
  unfold indexTransactionsAtHeight
  split
  · exact ⟨index, rfl⟩
  · next hash hlookup =>
    obtain ⟨block, hblock⟩ := h.readable height hash (mem_range'_1.mp hheight).1 hlookup
    simp only [eq_ok, loadProposalByHash_eq_ok]
    exact ⟨_, block, hblock.lookup, _, hblock.transactions, rfl⟩

theorem Durable.loaded_history :
    ∃ nextDB, ensureAddressHistoryIndex model db ledger.head = .ok nextDB := by
  unfold ensureAddressHistoryIndex
  split
  · exact ⟨db, rfl⟩
  have hall : ∀ height ∈ range' 1 ledger.head.height,
      ∃ operations, historyOpsAtHeight model db height = .ok operations := by
    intro height hheight
    unfold historyOpsAtHeight
    split
    · exact ⟨[], rfl⟩
    · next hash hlookup =>
      obtain ⟨block, hblock⟩ := h.readable height hash (mem_range'_1.mp hheight).1 hlookup
      obtain ⟨entries, hentries⟩ := hblock.history
      simp only [eq_ok, loadProposalByHash_eq_ok, addressHistoryIndexOps]
      exact ⟨_, block, hblock.lookup, entries, hentries, rfl⟩
  obtain ⟨operations, hoperations⟩ := exists_mapM_eq_ok hall
  exact ⟨_, bind_eq_ok.mpr ⟨operations, hoperations, rfl⟩⟩

/-- A restart gives back the head, the accounts and the index of transactions. -/
theorem Durable.restart (program : Shielded.Program) (genesisConfig : GenesisConfig)
    (config : LedgerConfig) :
    ∃ restarted,
      loadOrCreateLedgerWithConfig crypto model program ledger.db genesisConfig config =
        .ok restarted ∧
      restarted.head = ledger.head ∧ restarted.state.accounts.Perm ledger.state.accounts ∧
      ∀ id, restarted.committedTransactions.lookup id =
        ledger.committedTransactions.lookup id := by
  obtain ⟨loaded, hloaded, hperm⟩ := loadHeadState_of_holds h.holds h.root config
  obtain ⟨index, hindex⟩ := h.loaded_index
  obtain ⟨nextDB, hhistory⟩ := h.loaded_history
  refine ⟨⟨some nextDB, ledger.head, loaded, index, (normalizeLedgerConfig config).finalityDepth,
    false⟩, ?_, rfl, hperm, fun id => (h.indexed.loaded_index hindex id).trans
    (h.indexed.committed id).symm⟩
  rw [loadOrCreateLedgerWithConfig, h.indexed.before, Option.bind_some, h.saved,
    Option.map_some]
  simp only [eq_ok]
  exact ⟨_, hloaded, index, hindex, nextDB, hhistory, rfl⟩

end

/-! ### Operations -/

/-- The conditions on states under which an operation keeps a ledger durable: no account of the
present state may be missing from the next one, and an address is listed once. A candidate for a
block that is stored already must not hide its address history. -/
def KeepsState (crypto : Crypto) (model : LedgerTransactionModel τ) (ledger : Ledger τ) :
    LedgerOperation τ → Prop
  | .commitBlock request => request.nextState.addresses.Nodup ∧
      ∀ address ∈ ledger.state.addresses, address ∈ request.nextState.addresses
  | .saveBlockCandidate request => ∀ db, ledger.db = some db → ∀ hash,
      request.proposal.hash crypto = .ok hash → (db.blocks.lookup hash).isSome = true →
        ∃ entries, buildAddressHistoryEntries model request.proposal hash = .ok entries
  | .reorganizeTo newTipHash => ∀ db, ledger.db = some db → ∀ address ∈ ledger.state.addresses,
      (db.checkpoints.lookup (newTipHash, address)).isSome = true
  | .importFinalizedSnapshot request => request.state.addresses.Nodup
  | .saveQC _ => True
  | .setFinalitySuspended _ => True
  | .advanceFinalizedCheckpoint _ _ => True

/-- The conditions under which an operation keeps a ledger durable. -/
def KeepsDurable (crypto : Crypto) (model : LedgerTransactionModel τ) (genesis : Hash)
    (ledger : Ledger τ) (operation : LedgerOperation τ) : Prop :=
  KeepsIndexes crypto model genesis ledger operation ∧ KeepsState crypto model ledger operation

namespace Durable

section

variable (h : ledger.Durable crypto model genesis db)
  (hindexed : next.Indexed crypto model genesis nextDB)
include h hindexed

/-- The accounts, the blocks and the height index have not changed. -/
theorem same (hstate : next.state = ledger.state)
    (hroot : next.head.stateRoot = ledger.head.stateRoot)
    (hchain : next.head.chainID = ledger.head.chainID)
    (haccounts : nextDB.accounts = db.accounts) (hblocks : nextDB.blocks = db.blocks)
    (hheights : nextDB.heightToHash = db.heightToHash) (hsaved : nextDB.head = some next.head) :
    next.Durable crypto model genesis nextDB := by
  refine ⟨hindexed, ?_, ?_, fun height hash hpositive hlookup => ?_, hblocks ▸ h.texts,
    hchain ▸ h.text, hsaved⟩
  · rw [hstate]
    exact h.holds.same haccounts
  · rw [hstate, hroot]
    exact h.root
  · rw [hheights] at hlookup
    obtain ⟨block, hblock⟩ := h.readable height hash hpositive hlookup
    exact ⟨block, hblock.of_lookup (by rw [hblocks])⟩

theorem commit {request : CommitBlockRequest τ}
    (hadmits : ∀ hash, request.proposal.hash crypto = .ok hash →
      db.Admits model genesis hash request.proposal)
    (hok : KeepsState crypto model ledger (.commitBlock request))
    (hstep : ledger.commitBlock crypto model request = .ok next) :
    next.Durable crypto model genesis nextDB := by
  obtain ⟨blockHash, transactionIDs, hcommits, hpersists⟩ := commitBlock_eq_ok hstep
  have hwrites := takes_of_stored hpersists h.indexed.before hindexed.before
  have hadmits := hadmits blockHash hcommits.hash
  have htext := hcommits.head.chainID ▸ hadmits.fits.text.chainID
  obtain ⟨slots, hslots, -⟩ := hwrites.rewards
  obtain ⟨operations, hoperations⟩ := hwrites.history
  obtain ⟨entries, hentries, -⟩ := bind_eq_ok.mp hoperations
  refine ⟨hindexed, ?_, ?_, ?_, texts_of_storageWrites hwrites.toStorageWrites hadmits h.texts,
    htext, hwrites.dbHead.trans (by rw [marshalHead_eq htext])⟩
  · rw [hcommits.state]
    exact h.holds.put hok.1 hwrites.valid hok.2 hwrites.accounts
  · rw [hcommits.state, hcommits.head.stateRoot]
    exact hcommits.root
  · refine h.readable.store hwrites.toStorageWrites (fun height other hlookup => ?_)
      fun _ => readable_of_storageWrites hwrites.toStorageWrites hadmits hcommits.transactions
        hslots ⟨entries, hentries⟩
    rw [hwrites.heights, Table.lookup_insert] at hlookup
    split at hlookup
    · exact .inl (Option.some.inj hlookup).symm
    · exact .inr hlookup

theorem candidate {request : CommitBlockRequest τ} {blockHash : Hash}
    (hadmits : db.Admits model genesis blockHash request.proposal)
    (hok : KeepsState crypto model ledger (.saveBlockCandidate request))
    (hstep : ledger.saveBlockCandidate crypto model request = .ok (next, blockHash)) :
    next.Durable crypto model genesis nextDB := by
  obtain ⟨hhash, -, ⟨ids, hids⟩, hnext, hdb⟩ := saveBlockCandidate_eq_ok hstep
  obtain ⟨hwrites, hindexes, hsaved⟩ := takes_of_stored hdb h.indexed.before hindexed.before
  have hstate : next.state = ledger.state := by rw [hnext]
  have hhead : next.head = ledger.head := by rw [hnext]
  refine ⟨hindexed, ?_, ?_, ?_, texts_of_storageWrites hwrites hadmits h.texts, hhead ▸ h.text, by
    rw [hsaved, hhead, h.saved]⟩
  · rw [hstate]
    exact h.holds.same hindexes.accounts
  · rw [hstate, hhead]
    exact h.root
  · refine h.readable.store hwrites (fun height other hlookup => .inr ?_) ?_
    · rwa [hindexes.heights] at hlookup
    -- a block of the main chain is stored again
    · rintro ⟨height, hpositive, hlookup⟩
      rw [hindexes.heights] at hlookup
      obtain ⟨block, hblock⟩ := h.readable height blockHash hpositive hlookup
      have hslots := (hadmits.same block hblock.lookup).2.symm.trans hblock.slots
      refine readable_of_storageWrites hwrites hadmits hids hslots
        (hok db h.indexed.before blockHash hhash ?_)
      rw [hblock.lookup]
      rfl

end

/-- The state that is read back for a block lists an address once. -/
theorem distinct_of_loadStateSnapshot {hash : Hash} {state : ChainState}
    (hload : db.loadStateSnapshot hash = .ok state) : state.addresses.Nodup ∧
      ∀ address, (db.checkpoints.lookup (hash, address)).isSome = true →
        address ∈ state.addresses := by
  simp only [Database.loadStateSnapshot, eq_ok] at hload
  obtain ⟨-, rfl⟩ := hload
  have hsorted := perm_insertionSort
    (fun left right : AddressedAccount => left.address ≤ right.address)
    ((db.checkpoints.entries.filter fun row => row.1.1 = hash).map fun row => ⟨row.1.2, row.2⟩)
  have haddresses := hsorted.map AddressedAccount.address
  rw [map_map] at haddresses
  constructor
  · refine haddresses.nodup_iff.mpr
      (Nodup.map_on ?_ (db.checkpoints.nodupKeys.nodup.filter _))
    intro first hfirst second hsecond hsame
    obtain ⟨hfirst, hfirstHash⟩ := mem_filter.mp hfirst
    obtain ⟨hsecond, hsecondHash⟩ := mem_filter.mp hsecond
    have hhash := (of_decide_eq_true hfirstHash).trans (of_decide_eq_true hsecondHash).symm
    exact db.checkpoints.nodupKeys.eq_of_fst_eq hfirst hsecond (Prod.ext hhash hsame)
  · intro address hsome
    obtain ⟨account, haccount⟩ := Option.isSome_iff_exists.mp hsome
    refine haddresses.mem_iff.mpr (mem_map.mpr ⟨⟨(hash, address), account⟩, ?_, rfl⟩)
    exact mem_filter.mpr ⟨AList.mem_lookup_iff.mp haccount, decide_eq_true rfl⟩

section

variable (h : ledger.Durable crypto model genesis db)
  (hindexed : next.Indexed crypto model genesis nextDB)
include h hindexed

theorem reorganize {newTipHash : Hash} {decision : ForkDecision}
    (hok : KeepsState crypto model ledger (.reorganizeTo newTipHash))
    (hstep : ledger.reorganizeTo crypto model newTipHash = .ok (next, decision)) :
    next.Durable crypto model genesis nextDB := by
  rcases reorganizeTo_eq_ok hstep with rfl | ⟨before, newTip, plan, operations, delta, hreorg⟩
  · obtain rfl := Option.mem_unique h.indexed.before hindexed.before
    exact h
  obtain rfl := Option.mem_unique h.indexed.before hreorg.before
  obtain rfl := Option.mem_unique hindexed.before hreorg.after
  have hwrites := collectReorgOps_eq_ok hreorg.collected
  obtain ⟨hdistinct, hcovers⟩ := distinct_of_loadStateSnapshot hreorg.state
  have htext := hreorg.head.chainID ▸ (h.texts _ _ hreorg.tip).chainID
  refine ⟨hindexed, ?_, ?_, fun height hash hpositive hlookup => ?_, hwrites.blocks ▸ h.texts,
    htext, hwrites.dbHead.trans (by rw [marshalHead_eq htext])⟩
  · exact h.holds.put hdistinct hwrites.valid
      (fun address hmem => hcovers address (hok db hreorg.before address hmem)) hwrites.accounts
  · rw [hreorg.head.stateRoot]
    exact hreorg.root
  · have hreadable : ∃ block, db.Readable model hash block := by
      rw [hwrites.heights] at hlookup
      rcases mem_of_lookup_applyAll hlookup with hput | hold
      · rcases mem_append.mp hput with hdelete | hnew
        · obtain ⟨old, -, hmem⟩ := mem_flatMap.mp hdelete
          obtain ⟨_, -, hne⟩ := mem_map.mp hmem
          cases hne
        · obtain ⟨new, hnew, hmem⟩ := mem_flatMap.mp hnew
          obtain ⟨_, -, heq⟩ := mem_map.mp hmem
          cases heq
          exact hwrites.readableNew _ hnew
      · exact h.readable height hash hpositive hold
    obtain ⟨block, hblock⟩ := hreadable
    exact ⟨block, hblock.of_lookup (by rw [hwrites.blocks])⟩

theorem certificate {qc : QuorumCertificate} (hstep : ledger.saveQC crypto qc = .ok next) :
    next.Durable crypto model genesis nextDB := by
  have hsaves := saveQC_eq_ok hstep
  obtain ⟨hstorage, hindexes, hsaved⟩ := takes_of_stored hsaves.db h.indexed.before hindexed.before
  obtain ⟨qcHash, hhead⟩ := hsaves.head
  have hchain : next.head.chainID = ledger.head.chainID := by rw [hhead]
  refine h.same hindexed ?_ ?_ hchain hindexes.accounts hstorage.blocks hindexes.heights ?_
  · rw [hsaves.rest]
  · rw [hhead]
  · rcases hsaved with hwritten | ⟨hkept, hsame⟩
    · rw [hwritten, marshalHead_eq (hchain ▸ h.text)]
    · rw [hkept, hsame, h.saved]

theorem advance {height : ℕ} {blockHash : Hash}
    (hadvances : Advances ledger height blockHash next) :
    next.Durable crypto model genesis nextDB := by
  have heq := hadvances.eq
  rw [h.indexed.before] at heq
  subst heq
  obtain rfl := Option.mem_unique hindexed.before rfl
  refine h.same hindexed rfl rfl rfl rfl rfl rfl (congrArg some (marshalHead_eq ?_))
  exact h.text

theorem snapshot {request : ImportSnapshotRequest τ}
    (hok : KeepsIndexes crypto model genesis ledger (.importFinalizedSnapshot request))
    (hdistinct : request.state.addresses.Nodup)
    (hstep : ledger.importFinalizedSnapshot crypto model request = .ok next) :
    next.Durable crypto model genesis nextDB := by
  rcases importFinalizedSnapshot_eq_ok hstep with rfl | ⟨blockHash, -, -, hadvances⟩ |
    ⟨blockHash, transactionIDs, removed, hreplaces, hdb⟩
  · obtain rfl := Option.mem_unique h.indexed.before hindexed.before
    exact h
  · exact h.advance hindexed hadvances
  have hwrites := takes_of_stored hdb h.indexed.before hindexed.before
  have hadmits := (h.indexed.continues hok hreplaces).admits
  have htext := hreplaces.head.chainID ▸ hadmits.fits.text.chainID
  obtain ⟨slots, hslots, -⟩ := hwrites.rewards
  obtain ⟨operations, hoperations⟩ := hwrites.history
  obtain ⟨entries, hentries, -⟩ := bind_eq_ok.mp hoperations
  refine ⟨hindexed, ?_, ?_, ?_, texts_of_storageWrites hwrites.toStorageWrites hadmits h.texts,
    htext, hwrites.dbHead.trans (by rw [marshalHead_eq htext])⟩
  · rw [hreplaces.state]
    exact Database.holds_import hdistinct hwrites.valid hwrites.accounts
  · rw [hreplaces.state, hreplaces.head.stateRoot]
    exact hreplaces.root
  · refine h.readable.store hwrites.toStorageWrites (fun height other hlookup => ?_)
      fun _ => readable_of_storageWrites hwrites.toStorageWrites hadmits hreplaces.transactions
        hslots ⟨entries, hentries⟩
    rw [hwrites.heights, rolledBack_height] at hlookup
    rcases mem_of_lookup_applyAll hlookup with hput | hold
    · rcases mem_append.mp hput with hdelete | hnew
      · obtain ⟨_, -, hne⟩ := mem_map.mp hdelete
        cases hne
      · cases mem_singleton.mp hnew
        exact .inl rfl
    · exact .inr hold

omit hindexed

theorem step {operation : LedgerOperation τ}
    (hok : KeepsDurable crypto model genesis ledger operation)
    (hstep : ledger.step crypto model operation = some next) :
    ∃ nextDB, next.Durable crypto model genesis nextDB := by
  obtain ⟨nextDB, hindexed⟩ := h.indexed.step hok.1 hstep
  have hperform := toOption_eq_some.mp hstep
  refine ⟨nextDB, ?_⟩
  cases operation with
  | commitBlock request =>
    exact h.commit hindexed (hok.1 db h.indexed.before).1 hok.2 hperform
  | saveBlockCandidate request =>
    obtain ⟨⟨saved, blockHash⟩, hsave, hnext⟩ := bind_eq_ok.mp hperform
    cases hnext
    have hadmits := hok.1 db h.indexed.before blockHash (saveBlockCandidate_eq_ok hsave).1
    exact h.candidate hindexed hadmits hok.2 hsave
  | reorganizeTo newTipHash =>
    obtain ⟨⟨moved, decision⟩, hreorg, hnext⟩ := bind_eq_ok.mp hperform
    cases hnext
    exact h.reorganize hindexed hok.2 hreorg
  | saveQC qc => exact h.certificate hindexed hperform
  | setFinalitySuspended suspended =>
    cases hperform
    obtain rfl := Option.mem_unique h.indexed.before hindexed.before
    exact h.same hindexed rfl rfl rfl rfl rfl rfl h.saved
  | importFinalizedSnapshot request => exact h.snapshot hindexed hok.1 hok.2 hperform
  | advanceFinalizedCheckpoint height blockHash =>
    exact h.advance hindexed (tryAdvanceFinalizedCheckpoint_eq_some (orFail_eq_ok.mp hperform))

theorem reaches
    (hreach : Reaches (Ledger.step crypto model) (KeepsDurable crypto model genesis) ledger next) :
    ∃ nextDB, next.Durable crypto model genesis nextDB := by
  induction hreach with
  | start => exact ⟨db, h⟩
  | next _ hok hstep ih =>
    obtain ⟨middleDB, hmiddle⟩ := ih
    exact hmiddle.step hok hstep

end

end Durable

theorem Begins.durable (h : Begins crypto ledger)
    (hwrites : GenesisWrites ledger.state ledger.head .empty db) (hdb : ledger.db = some db)
    (htext : Borsh.validUTF8 ledger.head.chainID = true) :
    ledger.Durable crypto model ledger.head.blockHash db := by
  refine ⟨h.indexed hwrites hdb, Database.holds_genesis h.distinct hwrites, h.root, ?_,
    fun hash block hblock => ?_, htext, hwrites.dbHead.trans (by rw [marshalHead_eq htext])⟩
  rotate_left
  · rw [hwrites.blocks] at hblock
    cases hblock
  -- the index names the genesis block only
  intro height hash hpositive hlookup
  rw [hwrites.heights, h.height, Table.lookup_insert, if_neg (Nat.pos_iff_ne_zero.mp hpositive)]
    at hlookup
  cases hlookup

end Ledger

end Ordexus.Blockchain
