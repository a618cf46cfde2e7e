import Ordexus.Blockchain.Indexes

/-!
# The indexes over whole runs

The indexes of a persistent ledger describe the main chain after every sequence of operations on
admissible blocks. An imported snapshot that replaces the head can lie far above the old head,
with no history of its own. It has to be without transactions, since the import does not index
them, and must not replace a block with transactions or settled slots, since the import does not
take that block out of the indexes.
-/

namespace Ordexus.Blockchain

open Checked Ancestry Transition TableWrite List Database

variable {τ : Type} {crypto : Crypto} {model : LedgerTransactionModel τ}

/-! ### Imports -/

/-- What is asked of a snapshot that replaces the head. The blocks right below it can be missing;
what the index names there is its parent. -/
structure Database.Continues (model : LedgerTransactionModel τ) (genesis : Hash)
    (db : Database τ) (hash : Hash) (proposal : BlockProposal τ) : Prop where
  admits : db.Admits model genesis hash proposal
  empty : proposal.transactions = []
  parent : ∀ level above, proposal.header.height = level + 1 →
    db.heightToHash.lookup level = some above → proposal.header.parentHash = above
  replaced : ∀ other, db.heightToHash.lookup proposal.header.height = some other →
    db.transactionIDsOf model other = [] ∧ db.slotsOf other = []
  fresh : ∀ slots, rewardQCSlots proposal = .ok slots → ∀ slot ∈ slots, ∀ height other,
    height < proposal.header.height → db.heightToHash.lookup height = some other →
      slot ∉ db.slotsOf other

namespace Ledger

variable {genesis : Hash} {ledger next : Ledger τ} {db nextDB : Database τ}
  {request : ImportSnapshotRequest τ} {blockHash : Hash}
  {transactionIDs removed : List TransactionID}

/-- What the blocks above a height hold, as the height index lists them. -/
def rolledKeys {κ : Type} (db : Database τ) (head : Head) (height : ℕ) (keysOf : Hash → List κ) :
    List κ :=
  (heightsAbove head height).flatMap fun high => (db.heightToHash.lookup high).toList.flatMap keysOf

theorem rolledBack_transaction (head : Head) (height : ℕ) :
    (heightsAbove head height).flatMap (rolledBack model db DBOperation.transactionWrite) =
      (rolledKeys db head height (db.transactionIDsOf model)).map .delete := by
  rw [rolledKeys, map_flatMap]
  congr 1
  funext high
  simp [rolledBack, map_flatMap, filterMap_cons]

theorem rolledBack_reward (head : Head) (height : ℕ) :
    (heightsAbove head height).flatMap (rolledBack model db DBOperation.rewardWrite) =
      (rolledKeys db head height db.slotsOf).map .delete := by
  rw [rolledKeys, map_flatMap]
  congr 1
  funext high
  simp [rolledBack, map_flatMap, filterMap_cons]

theorem rolledBack_height (head : Head) (height : ℕ) :
    (heightsAbove head height).flatMap (rolledBack model db DBOperation.heightWrite) =
      ((heightsAbove head height).filter fun high =>
        (db.heightToHash.lookup high).isSome).map .delete := by
  induction heightsAbove head height with
  | nil => rfl
  | cons high heights ih =>
    rw [flatMap_cons, ih]
    cases hindex : db.heightToHash.lookup high with
    | none => simp [rolledBack, hindex]
    | some hash => simp [rolledBack, hindex]

theorem mem_heightsAbove {head : Head} {height high : ℕ} :
    high ∈ heightsAbove head height ↔ height < high ∧ high ≤ head.height := by
  rw [heightsAbove, mem_range'_1]
  omega

/-- What the height index names from a height on. -/
def namedFrom (db : Database τ) (head : Head) (height : ℕ) : List Hash :=
  (range' height (head.height + 1 - height)).filterMap db.heightToHash.lookup

namespace Indexed

variable (h : ledger.Indexed crypto model genesis db)
include h

theorem mem_namedFrom {height : ℕ} {hash : Hash} :
    hash ∈ namedFrom db ledger.head height ↔
      ∃ high, height ≤ high ∧ db.heightToHash.lookup high = some hash := by
  simp only [namedFrom, mem_filterMap, mem_range'_1]
  refine exists_congr fun high => ⟨fun hmem => ⟨hmem.1.1, hmem.2⟩, fun hmem => ⟨?_, hmem.2⟩⟩
  have := h.highest high hash hmem.2
  omega

/-- What is named above the genesis block is stored. -/
theorem lookup_of_named {height : ℕ} {hash : Hash}
    (hlookup : db.heightToHash.lookup height = some hash) (hpos : 0 < height) :
    ∃ block, db.blocks.lookup hash = some block := by
  have hlevel := h.describes.levels height hash hlookup
  refine (lookup_of_level hlevel).resolve_left ?_
  rintro rfl
  rw [Headers.level_genesis] at hlevel
  exact absurd (Option.some.inj hlevel) (by omega)

/-- The keys that are rolled back are those of the blocks from a height on, if the block at this
height has none. -/
theorem mem_rolledKeys_iff {κ : Type} {keysOf nextKeysOf : Hash → List κ} {height : ℕ} {key : κ}
    (hsame : ∀ hash ∈ namedFrom db ledger.head height, nextKeysOf hash = keysOf hash)
    (hlowest : ∀ other, db.heightToHash.lookup height = some other → keysOf other = []) :
    key ∈ rolledKeys db ledger.head height keysOf ↔
      ∃ hash ∈ namedFrom db ledger.head height, key ∈ nextKeysOf hash := by
  simp only [rolledKeys, mem_flatMap, mem_heightsAbove, Option.mem_toList]
  constructor
  · rintro ⟨high, ⟨hlow, -⟩, hash, hlookup, hkey⟩
    have hmem := h.mem_namedFrom.mpr ⟨high, hlow.le, hlookup⟩
    exact ⟨hash, hmem, hsame hash hmem ▸ hkey⟩
  · rintro ⟨hash, hmem, hkey⟩
    rw [hsame hash hmem] at hkey
    obtain ⟨high, hle, hlookup⟩ := h.mem_namedFrom.mp hmem
    refine ⟨high, ⟨lt_of_le_of_ne hle ?_, h.highest high hash hlookup⟩, hash, hlookup, hkey⟩
    rintro rfl
    rw [hlowest hash hlookup] at hkey
    cases hkey

/-- The height index after an import. -/
theorem import_lookup
    (hwrites : ImportWrites model request blockHash removed ledger.head next.head db nextDB)
    (height : ℕ) :
    nextDB.heightToHash.lookup height =
      if height = next.head.height then some blockHash
      else if next.head.height < height then none else db.heightToHash.lookup height := by
  rw [hwrites.heights, rolledBack_height, applyAll_append]
  refine (Table.lookup_insert ..).trans ?_
  simp only [lookup_applyAll_delete, mem_filter, mem_heightsAbove]
  split
  · rfl
  · split
    · next hdeleted => rw [if_pos hdeleted.1.1]
    · next hkept =>
      split
      · next hhigh =>
        -- above the head nothing is named
        rw [← Option.not_isSome_iff_eq_none]
        intro hsome
        obtain ⟨hash, hlookup⟩ := Option.isSome_iff_exists.mp hsome
        exact hkept ⟨⟨hhigh, h.highest height hash hlookup⟩, hsome⟩
      · rfl

theorem import_renames
    (hreplaces : Replaces crypto model ledger request blockHash transactionIDs removed next)
    (hanchored : next.Anchored crypto genesis nextDB)
    (hwrites : ImportWrites model request blockHash removed ledger.head next.head db nextDB)
    (hcontinues : db.Continues model genesis blockHash request.proposal) :
    Renames genesis nextDB next.head.height (namedFrom db ledger.head next.head.height)
      [blockHash] db.heightToHash nextDB.heightToHash := by
  have hheight := hreplaces.head.height
  have habove := hreplaces.above
  have hlookup := h.import_lookup hwrites
  have hlevel : nextDB.headers.level genesis blockHash = some next.head.height := by
    rw [← hreplaces.head.blockHash]
    exact hanchored.anchored.head_level
  refine ⟨by omega, fun height hlow => ?_, fun hash => h.mem_namedFrom, fun hash hmem => ?_,
    fun height hash hhigh => ?_, fun hash hmem height above hhash habove => ?_⟩
  · rw [hlookup, if_neg hlow.ne, if_neg hlow.not_gt]
  · exact ⟨_, le_rfl, mem_singleton.mp hmem ▸ hlevel⟩
  · rw [hlookup, mem_singleton]
    split
    · next heq =>
      subst heq
      refine ⟨fun hsame => ?_, fun hsame => by rw [hsame.1]⟩
      obtain rfl := Option.some.inj hsame
      exact ⟨rfl, hlevel⟩
    · rw [if_pos (by omega)]
      refine ⟨fun hnone => absurd hnone (Option.some_ne_none _).symm, ?_⟩
      rintro ⟨rfl, hhash⟩
      exact absurd (Option.mem_unique hhash hlevel) (by omega)
  · obtain rfl := mem_singleton.mp hmem
    have hnext := Option.mem_unique hhash hlevel
    rw [hlookup, if_neg (by omega), if_neg (by omega)] at habove
    rw [hwrites.headers_eq hcontinues.admits.fits.text, Headers.parent_store_self,
      hcontinues.parent height above (by omega) habove]

theorem replace
    (hreplaces : Replaces crypto model ledger request blockHash transactionIDs removed next)
    (hanchored : next.Anchored crypto genesis nextDB)
    (hwrites : ImportWrites model request blockHash removed ledger.head next.head db nextDB)
    (hcontinues : db.Continues model genesis blockHash request.proposal) :
    next.Indexed crypto model genesis nextDB := by
  have hadmits := hcontinues.admits
  have hheight := hreplaces.head.height
  have habove := hreplaces.above
  have hlookup := h.import_lookup hwrites
  obtain rfl : transactionIDs = [] := by
    have hnone := hreplaces.transactions
    rw [transactionIDsForProposal, hcontinues.empty] at hnone
    exact (pure_eq_ok.mp hnone).symm
  obtain ⟨slots, hslots, hrewards⟩ := hwrites.rewards
  obtain ⟨hnextIDs, hnextSlots⟩ := hwrites.own_eq hadmits.voters hreplaces.transactions hslots
  have hnames := h.import_renames hreplaces hanchored hwrites hcontinues
  have hsettled (hash : Hash) (hmem : hash ∈ namedFrom db ledger.head next.head.height) :
      nextDB.transactionIDsOf model hash = db.transactionIDsOf model hash ∧
        nextDB.slotsOf hash = db.slotsOf hash := by
    obtain ⟨height, hle, hnamed⟩ := h.mem_namedFrom.mp hmem
    obtain ⟨block, hbefore⟩ := h.lookup_of_named hnamed (by omega)
    exact hwrites.settled_eq hadmits hbefore
  have hdescribes := h.describes.store h.keyed hwrites.toStorageWrites hadmits hanchored.keyed
  refine ⟨hanchored, hdescribes.move hnames ?_ ?_ ?_ ?_, fun height hash hnamed => ?_, fun id => ?_,
    ⟨_, hwrites.dbHead⟩⟩
  · have hreplaced := @replaced_of_deleted _ _ (nextDB.transactionIDsOf model) db.txToBlock
      blockHash _ _ fun id _ => h.mem_rolledKeys_iff (fun hash hmem => (hsettled hash hmem).1)
        fun other hother => (hcontinues.replaced other (hheight ▸ hother)).1
    rw [hnextIDs, map_nil, append_nil] at hreplaced
    rw [hwrites.transactions, rolledBack_transaction]
    exact hreplaced
  · rw [hrewards, rolledBack_reward, ← hnextSlots]
    exact replaced_of_deleted fun slot _ =>
      h.mem_rolledKeys_iff (fun hash hmem => (hsettled hash hmem).2)
        fun other hother => (hcontinues.replaced other (hheight ▸ hother)).2
  · intro hash hmem id hid
    rw [mem_singleton.mp hmem, hnextIDs] at hid
    cases hid
  · intro hash hmem slot hslot block hfiled
    rw [mem_singleton.mp hmem, hnextSlots] at hslot
    obtain ⟨⟨height, hnamed⟩, hblockSlot⟩ := (h.describes.rewards slot block).mp hfiled
    refine h.mem_namedFrom.mpr ⟨height, ?_, hnamed⟩
    by_contra hlow
    exact hcontinues.fresh slots hslots slot hslot height block (by omega) hnamed hblockSlot
  · rw [hlookup] at hnamed
    split at hnamed
    · omega
    · split at hnamed
      · cases hnamed
      · omega
  · have herase (index : Table TransactionID Hash) :
        removed.foldl (fun index id => index.erase id) index =
          applyAll index (removed.map .delete) := by
      rw [applyAll, foldl_map]
      rfl
    rw [hreplaces.committed, addCommittedTransactionIDs_eq, map_nil, herase,
      hwrites.transactions, rolledBack_transaction, hwrites.removed]
    exact lookup_applyAll_congr h.committed _ id

end Indexed

/-! ### Runs -/

/-- The conditions under which an operation keeps the indexes. A snapshot at or below the
finalized height or on the main chain is no matter of the indexes. -/
def KeepsIndexes (crypto : Crypto) (model : LedgerTransactionModel τ) (genesis : Hash)
    (ledger : Ledger τ) : LedgerOperation τ → Prop
  | .commitBlock request => ∀ db, ledger.db = some db →
      (∀ hash, request.proposal.hash crypto = .ok hash →
        db.Admits model genesis hash request.proposal) ∧
      ∀ slots, rewardQCSlots request.proposal = .ok slots → ∀ slot ∈ slots,
        db.rewardedQCSlots.lookup slot = none
  | .saveBlockCandidate request => ∀ db, ledger.db = some db → ∀ hash,
      request.proposal.hash crypto = .ok hash → db.Admits model genesis hash request.proposal
  | .importFinalizedSnapshot request => ∀ db, ledger.db = some db → ∀ hash,
      request.proposal.hash crypto = .ok hash →
        request.proposal.header.height ≤ ledger.head.finalizedHeight ∨
        db.heightToHash.lookup request.proposal.header.height = some hash ∨
        db.Continues model genesis hash request.proposal
  | .reorganizeTo newTipHash => ∀ db, ledger.db = some db →
      BranchSettlesOnce genesis db ledger.head.finalizedHeight newTipHash
  | .saveQC _ => True
  | .setFinalitySuspended _ => True
  | .advanceFinalizedCheckpoint height _ => ∀ db, ledger.db = some db → ∀ other,
      height ≤ other → other < ledger.head.finalizedHeight →
        (db.heightToHash.lookup other).isSome = true

/-- A snapshot that replaces the head continues the main chain: one that is on the main chain
would have been finalized where it is. -/
theorem Indexed.continues (h : ledger.Indexed crypto model genesis db)
    (hok : KeepsIndexes crypto model genesis ledger (.importFinalizedSnapshot request))
    (hreplaces : Replaces crypto model ledger request blockHash transactionIDs removed next) :
    db.Continues model genesis blockHash request.proposal := by
  have habove := hreplaces.above
  rcases hok db h.before blockHash hreplaces.hash with hlow | hmain | hcontinues
  · omega
  · refine absurd ⟨h.highest _ _ hmain, ?_⟩ hreplaces.apart
    rw [mainChainHashAtHeight, h.before]
    exact hmain
  · exact hcontinues

theorem Indexed.snapshot (h : ledger.Indexed crypto model genesis db)
    (hok : KeepsIndexes crypto model genesis ledger (.importFinalizedSnapshot request))
    (hstep : ledger.importFinalizedSnapshot crypto model request = .ok next) :
    ∃ nextDB, next.Indexed crypto model genesis nextDB := by
  rcases importFinalizedSnapshot_eq_ok hstep with rfl | ⟨blockHash, -, habove, hadvances⟩ |
    ⟨blockHash, transactionIDs, removed, hreplaces, hdb⟩
  · exact ⟨db, h⟩
  · exact h.advance (fun other hfrom hto => absurd hfrom (by omega)) hadvances
  obtain ⟨nextDB, hafter, hwrites⟩ := exists_stored hdb h.before
  have hcontinues := h.continues hok hreplaces
  obtain ⟨_, hextends⟩ := h.toAnchored.snapshot (fun hash hhash => by
    obtain rfl := Except.ok.inj (hreplaces.hash.symm.trans hhash)
    exact hcontinues.admits.fits) hstep
  obtain rfl := Option.mem_unique hafter hextends.before
  exact ⟨nextDB, h.replace hreplaces hextends.toAnchored hwrites hcontinues⟩

theorem Indexed.step (h : ledger.Indexed crypto model genesis db) {operation : LedgerOperation τ}
    (hok : KeepsIndexes crypto model genesis ledger operation)
    (hstep : ledger.step crypto model operation = some next) :
    ∃ nextDB, next.Indexed crypto model genesis nextDB := by
  have hperform := toOption_eq_some.mp hstep
  cases operation with
  | commitBlock request =>
    obtain ⟨hadmits, hfresh⟩ := hok db h.before
    exact h.commit hadmits hfresh hperform
  | saveBlockCandidate request =>
    obtain ⟨⟨saved, blockHash⟩, hsave, hnext⟩ := bind_eq_ok.mp hperform
    cases hnext
    exact h.candidate (hok db h.before blockHash (saveBlockCandidate_eq_ok hsave).1) hsave
  | reorganizeTo newTipHash =>
    obtain ⟨⟨moved, decision⟩, hreorg, hnext⟩ := bind_eq_ok.mp hperform
    cases hnext
    exact h.reorganize (hok db h.before) hreorg
  | saveQC qc => exact h.certificate hperform
  | setFinalitySuspended suspended =>
    cases hperform
    exact ⟨db, .of_blocks (h.suspend suspended).toAnchored rfl h.describes h.highest h.committed
      h.saved⟩
  | importFinalizedSnapshot request => exact h.snapshot hok hperform
  | advanceFinalizedCheckpoint height blockHash =>
    exact h.advance (hok db h.before)
      (tryAdvanceFinalizedCheckpoint_eq_some (orFail_eq_ok.mp hperform))

theorem Begins.indexed (h : Begins crypto ledger)
    (hwrites : GenesisWrites ledger.state ledger.head .empty db) (hdb : ledger.db = some db) :
    ledger.Indexed crypto model ledger.head.blockHash db := by
  have hlookup (hash : Hash) : db.blocks.lookup hash = none := by
    rw [hwrites.blocks]
    exact AList.lookup_empty hash
  have hids (hash : Hash) : db.transactionIDsOf model hash = [] := by
    rw [transactionIDsOf, hlookup]
    rfl
  have hslots (hash : Hash) : db.slotsOf hash = [] := by
    rw [slotsOf, hlookup]
    rfl
  have hnamed {height : ℕ} {hash : Hash} (hindex : db.heightToHash.lookup height = some hash) :
      height = 0 ∧ hash = ledger.head.blockHash := by
    rw [hwrites.heights, h.height, Table.lookup_insert] at hindex
    split at hindex
    · next hzero => exact ⟨hzero, (Option.some.inj hindex).symm⟩
    · cases hindex
  refine ⟨h.anchored_db hwrites hdb, ⟨?_, fun height hash hindex => ?_,
    fun height hash above hindex _ => ?_, fun id hash => ?_, fun slot hash => ?_⟩,
    fun height hash hindex => ?_, fun id => ?_, ⟨_, hwrites.dbHead⟩⟩
  · rw [hwrites.heights, h.height]
    exact AList.lookup_insert _
  · obtain ⟨rfl, rfl⟩ := hnamed hindex
    exact Headers.level_genesis
  · exact absurd (hnamed hindex).1 (Nat.succ_ne_zero _)
  · rw [hwrites.transactions, hids]
    simp [empty]
  · rw [hwrites.rewards, hslots]
    simp [empty]
  · rw [(hnamed hindex).1]
    exact Nat.zero_le _
  · rw [h.committed, hwrites.transactions]
    rfl

theorem Indexed.reaches (h : ledger.Indexed crypto model genesis db)
    (hreach : Reaches (Ledger.step crypto model) (KeepsIndexes crypto model genesis) ledger next) :
    ∃ nextDB, next.Indexed crypto model genesis nextDB := by
  induction hreach with
  | start => exact ⟨db, h⟩
  | next _ hok hstep ih =>
    obtain ⟨middleDB, hmiddle⟩ := ih
    exact hmiddle.step hok hstep

end Ledger

/-! ### What the indexes say -/

/-- The stored indexes describe the main chain: the height index is linked by parents and ends
at the head, the transaction index holds the transactions of the indexed blocks, and a slot is
rewarded if one of these blocks settles it. -/
structure Database.DescribesMainChain (model : LedgerTransactionModel τ) (db : Database τ)
    (head : Head) : Prop where
  linked : ∀ height hash above, db.heightToHash.lookup (height + 1) = some hash →
    db.heightToHash.lookup height = some above → db.headers.parent hash = some above
  ends : db.heightToHash.lookup head.height = some head.blockHash
  highest : ∀ height hash, db.heightToHash.lookup height = some hash → height ≤ head.height
  transactions : ∀ id hash, db.txToBlock.lookup id = some hash ↔
    (∃ height, db.heightToHash.lookup height = some hash) ∧ id ∈ db.transactionIDsOf model hash
  rewards : ∀ slot, (db.rewardedQCSlots.lookup slot).isSome = true ↔
    ∃ height hash, db.heightToHash.lookup height = some hash ∧ slot ∈ db.slotsOf hash

theorem Ledger.Indexed.describesMainChain {genesis : Hash} {ledger : Ledger τ} {db : Database τ}
    (h : ledger.Indexed crypto model genesis db) : db.DescribesMainChain model ledger.head := by
  refine ⟨h.describes.linked, h.ends, h.highest, h.describes.transactions, fun slot => ?_⟩
  rw [Option.isSome_iff_exists]
  constructor
  · rintro ⟨hash, hlookup⟩
    obtain ⟨⟨height, hnamed⟩, hslot⟩ := (h.describes.rewards slot hash).mp hlookup
    exact ⟨height, hash, hnamed, hslot⟩
  · rintro ⟨height, hash, hnamed, hslot⟩
    exact ⟨hash, (h.describes.rewards slot hash).mpr ⟨⟨height, hnamed⟩, hslot⟩⟩

/-- In every run of a persistent ledger whose operations keep the indexes, the stored indexes
describe the main chain. -/
theorem indexes_describe_mainChain {program : Shielded.Program} {genesis : GenesisConfig}
    {config : LedgerConfig} {created ledger : Ledger τ} {db : Database τ}
    (hcreated : Ledger.newLedgerFromGenesisWithConfig crypto program (some .empty) genesis config =
      .ok created)
    (hreach : Reaches (Ledger.step crypto model)
      (Ledger.KeepsIndexes crypto model created.head.blockHash) created ledger)
    (hdb : ledger.db = some db) : db.DescribesMainChain model ledger.head := by
  obtain ⟨hbegins, startDB, hstartDB, hwrites⟩ :=
    Ledger.newLedgerFromGenesisWithConfig_persistent hcreated
  obtain ⟨lastDB, hindexed⟩ := (hbegins.indexed hwrites hstartDB).reaches hreach
  obtain rfl := Option.mem_unique hindexed.before hdb
  exact hindexed.describesMainChain

/-- A certificate for a block of the small chain. -/
def chainQC (height : ℕ) (hash : Hash) : QuorumCertificate where
  type := .confirm
  slot := height
  blockHeight := height
  blockHash := hash
  thresholdStake := 1
  confirmedStake := 1
  voters := [[1]]
  createdAtUnixMilli := 1
  signatureScheme := .none
  aggregateSignature := []
  voterBitmap := []

/-- A certified block with the state of the ledger; its hash is one more than its time. -/
def chainSnapshot (ledger : Ledger ℕ) (header : BlockHeader) (transactions : List ℕ) :
    ImportSnapshotRequest ℕ where
  proposal := chainBlock header transactions
  state := ledger.state
  qc := some (chainQC header.height (header.timestampUnixMilli.toNat + 1))

/-! ### A test for the conditions -/

section

variable {genesis : Hash} {db : Database τ} {proposal : BlockProposal τ}

/-- A test for blocks that fit and were not stored before. -/
def Database.checkAdmits (crypto : Crypto) (genesis : Hash) (db : Database τ)
    (proposal : BlockProposal τ) : Bool :=
  db.checkFits crypto genesis proposal && proposal.rewardQCs.all (fun qc =>
    qc.voters.all Borsh.validUTF8) &&
    (proposal.hash crypto).toOption.all fun hash => (db.blocks.lookup hash).isNone

theorem admits_of_check (h : db.checkAdmits crypto genesis proposal = true) {hash : Hash}
    (hhash : proposal.hash crypto = .ok hash) : db.Admits model genesis hash proposal := by
  simp only [checkAdmits, hhash, Except.toOption, Option.all_some, Bool.and_eq_true,
    Option.isNone_iff_eq_none] at h
  obtain ⟨⟨hfits, hvoters⟩, hnone⟩ := h
  refine ⟨fitsBlock_of_checkFits hfits hash hhash, fun qc hqc voter hvoter => ?_,
    fun stored hstored => ?_⟩
  · exact all_eq_true.mp (all_eq_true.mp hvoters qc hqc) voter hvoter
  · rw [hnone] at hstored
    cases hstored

/-- Do no two stored blocks settle the same slot? -/
def Database.checkSettles (db : Database τ) : Bool :=
  db.blocks.keys.all fun first => db.blocks.keys.all fun second =>
    first = second || (db.slotsOf first).all fun slot => slot ∉ db.slotsOf second

theorem settlesOnce_of_check (h : db.checkSettles = true) (finalizedHeight : ℕ) (tip : Hash) :
    Ledger.BranchSettlesOnce genesis db finalizedHeight tip := by
  have hkeys {hash : Hash} {slot : ℕ} (hslot : slot ∈ db.slotsOf hash) : hash ∈ db.blocks.keys := by
    by_contra hmem
    rw [slotsOf, AList.lookup_eq_none.mpr hmem] at hslot
    cases hslot
  intro first second _ _ slot hfirst hsecond
  have hpair := all_eq_true.mp (all_eq_true.mp h first (hkeys hfirst)) second (hkeys hsecond)
  rw [Bool.or_eq_true, decide_eq_true_eq, all_eq_true] at hpair
  exact hpair.resolve_right fun hall => of_decide_eq_true (hall slot hfirst) hsecond

def Database.checkContinues (crypto : Crypto) (model : LedgerTransactionModel τ) (genesis : Hash)
    (db : Database τ) (proposal : BlockProposal τ) : Bool :=
  db.checkAdmits crypto genesis proposal && proposal.transactions.isEmpty &&
    db.heightToHash.entries.all fun entry =>
      (entry.1 + 1 ≠ proposal.header.height || proposal.header.parentHash = entry.2) &&
      (entry.1 ≠ proposal.header.height ||
        (db.transactionIDsOf model entry.2).isEmpty && (db.slotsOf entry.2).isEmpty) &&
      (rewardQCSlots proposal).toOption.all fun slots =>
        slots.all fun slot => slot ∉ db.slotsOf entry.2

theorem continues_of_check (h : db.checkContinues crypto model genesis proposal = true)
    {hash : Hash} (hhash : proposal.hash crypto = .ok hash) :
    db.Continues model genesis hash proposal := by
  simp only [checkContinues, Bool.and_eq_true, all_eq_true, List.isEmpty_iff, Bool.or_eq_true,
    decide_eq_true_eq] at h
  obtain ⟨⟨hadmits, hempty⟩, hentries⟩ := h
  have hentry {height : ℕ} {other : Hash} (hother : db.heightToHash.lookup height = some other) :=
    hentries _ (AList.mem_lookup_iff.mp hother)
  refine ⟨admits_of_check hadmits hhash, hempty, fun level above hlevel habove => ?_,
    fun other hother => ?_, fun slots hslots slot hslot height other _ hother => ?_⟩
  · exact (hentry habove).1.1.resolve_left (not_not.mpr hlevel.symm)
  · exact (hentry hother).1.2.resolve_left (not_not.mpr rfl)
  · have hall := (hentry hother).2
    rw [hslots] at hall
    exact of_decide_eq_true (all_eq_true.mp hall slot hslot)

/-- A test for the operations that keep the indexes. -/
def Ledger.checkKeepsIndexes (crypto : Crypto) (model : LedgerTransactionModel τ) (genesis : Hash)
    (ledger : Ledger τ) : LedgerOperation τ → Bool
  | .commitBlock request => ledger.db.all fun db =>
      db.checkAdmits crypto genesis request.proposal &&
        (rewardQCSlots request.proposal).toOption.all fun slots =>
          slots.all fun slot => (db.rewardedQCSlots.lookup slot).isNone
  | .saveBlockCandidate request =>
    ledger.db.all fun db => db.checkAdmits crypto genesis request.proposal
  | .reorganizeTo _ => ledger.db.all checkSettles
  | .importFinalizedSnapshot request => ledger.db.all fun db =>
      db.checkContinues crypto model genesis request.proposal
  | .advanceFinalizedCheckpoint height _ => ledger.head.finalizedHeight ≤ height
  | _ => true

theorem keepsIndexes_of_check (genesis : Hash) (ledger : Ledger τ) (operation : LedgerOperation τ)
    (h : ledger.checkKeepsIndexes crypto model genesis operation = true) :
    ledger.KeepsIndexes crypto model genesis operation := by
  have hall {check : Database τ → Bool} (hcheck : ledger.db.all check = true) {db : Database τ}
      (hdb : ledger.db = some db) : check db = true := by
    rwa [hdb] at hcheck
  cases operation with
  | commitBlock request =>
    intro db hdb
    obtain ⟨hadmits, hslots⟩ := (Bool.and_eq_true ..).mp (hall h hdb)
    refine ⟨fun hash hhash => admits_of_check hadmits hhash, fun slots hsome slot hslot => ?_⟩
    rw [hsome] at hslots
    exact Option.isNone_iff_eq_none.mp (all_eq_true.mp hslots slot hslot)
  | saveBlockCandidate request => exact fun db hdb hash hhash => admits_of_check (hall h hdb) hhash
  | reorganizeTo newTipHash => exact fun db hdb => settlesOnce_of_check (hall h hdb) _ _
  | importFinalizedSnapshot request =>
    exact fun db hdb hash hhash => .inr (.inr (continues_of_check (hall h hdb) hhash))
  | advanceFinalizedCheckpoint height blockHash =>
    intro db _ other hfrom hto
    have hle : ledger.head.finalizedHeight ≤ height := of_decide_eq_true (p := _ ≤ _) h
    omega
  | _ => trivial

end

/-- A block that settles the slot of a certificate. -/
def chainSettling (ledger : Ledger ℕ) : CommitBlockRequest ℕ :=
  let request := chainRequest ledger (chainHeader 5 42 chainRoot 50) [8]
  { request with proposal := { request.proposal with rewardQCs := [chainQC 4 42] } }

/-- A fork, a block that settles a slot, and a snapshot without history. -/
def chainIndexRun (ledger : Ledger ℕ) : List (LedgerOperation ℕ) :=
  chainCommits ledger ++ chainTakeover ledger ++
    [.commitBlock (chainSettling ledger),
      .importFinalizedSnapshot (chainSnapshot ledger (chainHeader 10 91 chainRoot 100) []),
      .commitBlock (chainRequest ledger (chainHeader 11 101 chainRoot 110) [9])]

theorem indexes_describe_mainChain_fork :
    ∃ (created last : Ledger ℕ) (db : Database ℕ), chainStart true 2 = .ok created ∧
      Reaches (Ledger.step chainCrypto chainModel)
        (Ledger.KeepsIndexes chainCrypto chainModel created.head.blockHash) created last ∧
      last.db = some db ∧ last.head.blockHash = 111 ∧ db.heightToHash.lookup 9 = none ∧
      db.txToBlock.lookup [6] = some 32 ∧ db.rewardedQCSlots.lookup 4 = some 51 ∧
      db.DescribesMainChain chainModel last.head := by
  have hrun : (chainStart true 2).toOption.any (fun created =>
      (run (fun ledger operation =>
          if ledger.checkKeepsIndexes chainCrypto chainModel created.head.blockHash operation then
            ledger.step chainCrypto chainModel operation else none) created
        (chainIndexRun created)).any fun last =>
      last.db.any fun db => last.head.blockHash = 111 && db.heightToHash.lookup 9 = none &&
        db.txToBlock.lookup [6] = some 32 && db.rewardedQCSlots.lookup 4 = some 51) = true := by
    decide +kernel
  obtain ⟨created, hcreated, hrun⟩ := exists_of_any hrun
  obtain ⟨last, hreach, htest⟩ := exists_of_checked_run _ (keepsIndexes_of_check _) hrun
  obtain ⟨db, hdb, htest⟩ := (Option.any_eq_true ..).mp htest
  simp only [Bool.and_eq_true, decide_eq_true_eq] at htest
  obtain ⟨⟨⟨hhead, hmissing⟩, hmoved⟩, hsettled⟩ := htest
  exact ⟨created, last, db, hcreated, hreach, hdb, hhead, hmissing, hmoved, hsettled,
    indexes_describe_mainChain hcreated hreach hdb⟩

/-- The transaction of an imported block is not indexed; one of the block it replaces at its
height still is. -/
theorem imported_block_not_indexed :
    ∃ (created imported : Ledger ℕ) (db : Database ℕ), chainStart true 2 = .ok created ∧
      Reaches (Ledger.step chainCrypto chainModel) anyStep created imported ∧
      imported.db = some db ∧ db.heightToHash.lookup 1 = some 12 ∧
      db.transactionIDsOf chainModel 12 = [[7]] ∧ db.txToBlock.lookup [7] = none ∧
      db.txToBlock.lookup [5] = some 11 ∧ (∀ height, db.heightToHash.lookup height ≠ some 11) ∧
      ¬db.DescribesMainChain chainModel imported.head := by
  have hrun : (chainStart true 2).toOption.any (fun created =>
      (run (Ledger.step chainCrypto chainModel) created
        [.commitBlock (chainRequest created (chainHeader 1 chainRoot chainRoot 10) [5]),
          .importFinalizedSnapshot
            (chainSnapshot created (chainHeader 1 chainRoot chainRoot 11) [7])]).any fun imported =>
      imported.db.any fun db => db.heightToHash.lookup 1 = some 12 &&
        db.transactionIDsOf chainModel 12 = [[7]] && db.txToBlock.lookup [7] = none &&
        db.txToBlock.lookup [5] = some 11 &&
        db.heightToHash.entries.all fun entry => entry.2 ≠ 11) = true := by decide +kernel
  obtain ⟨created, hcreated, hrun⟩ := exists_of_any hrun
  obtain ⟨imported, hreach, htest⟩ := exists_of_run hrun
  obtain ⟨db, hdb, htest⟩ := (Option.any_eq_true ..).mp htest
  simp only [Bool.and_eq_true, decide_eq_true_eq, all_eq_true] at htest
  obtain ⟨⟨⟨⟨hindexed, hids⟩, hmissing⟩, hstale⟩, hunindexed⟩ := htest
  have hgone (height : ℕ) : db.heightToHash.lookup height ≠ some 11 := fun hlookup =>
    hunindexed _ (AList.mem_lookup_iff.mp hlookup) rfl
  refine ⟨created, imported, db, hcreated, hreach, hdb, hindexed, hids, hmissing, hstale, hgone,
    fun h => ?_⟩
  obtain ⟨⟨height, hheight⟩, -⟩ := (h.transactions _ _).mp hstale
  exact hgone height hheight

end Ordexus.Blockchain
