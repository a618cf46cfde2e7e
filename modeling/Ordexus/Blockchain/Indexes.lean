import Ordexus.Blockchain.Bookkeeping

/-!
# The indexes of the main chain

The height index names the blocks of the main chain. From the finalized block to the head it
names all of them; below an imported snapshot it can have gaps, since the history of the snapshot
is missing. The transaction index and the index of rewarded slots file the named blocks under
their transactions and under the slots they settle. A commit, a reorganization and the import of
a snapshot replace the blocks from some height on by others, and the indexes follow if the keys
of the old blocks are cleared and those of the new ones are written.
-/

namespace Ordexus.Blockchain

open Checked Ancestry Transition TableWrite List Database

variable {τ : Type} {crypto : Crypto} {model : LedgerTransactionModel τ}

/-- The heights of a block: one, if it is stored. -/
def Database.heightsOf (db : Database τ) (hash : Hash) : List ℕ :=
  (db.heightOf hash).toList

/-- Does the height index name a block? -/
def IsNamed (heights : Table ℕ Hash) (hash : Hash) : Prop :=
  ∃ height, heights.lookup height = some hash

/-- Three tables describe a chain: the blocks are named at their heights, neighbours are linked,
and the other tables file the named blocks. -/
structure Describes (model : LedgerTransactionModel τ) (genesis : Hash) (db : Database τ)
    (heights : Table ℕ Hash) (transactions : Table TransactionID Hash) (rewards : Table ℕ Hash) :
    Prop where
  first : heights.lookup 0 = some genesis
  levels : ∀ height hash, heights.lookup height = some hash →
    db.headers.level genesis hash = some height
  linked : ∀ height hash above, heights.lookup (height + 1) = some hash →
    heights.lookup height = some above → db.headers.parent hash = some above
  transactions : Files (db.transactionIDsOf model) (IsNamed heights) transactions
  rewards : Files db.slotsOf (IsNamed heights) rewards

/-! ### Replacing the top of a chain -/

section

variable {db : Database τ} {genesis ancestor : Hash} {old new : List Hash} {bound : ℕ}
  {heights nextHeights rewards nextRewards : Table ℕ Hash}
  {transactions nextTransactions : Table TransactionID Hash}

theorem heightsOf_mem_iff {hash first : Hash} {nodes : List Hash} {height : ℕ}
    (hkeyed : db.Keyed crypto genesis) (hpath : Path db.headers.parent first nodes ancestor)
    (hmem : hash ∈ nodes) :
    height ∈ db.heightsOf hash ↔ db.headers.level genesis hash = some height := by
  rw [heightsOf, Option.mem_toList, heightOf_of_mem_path hkeyed hpath hmem]

/-- The height index after the blocks from a height on were replaced: `dropped` has been named
there and `added` is named now. -/
structure Renames (genesis : Hash) (db : Database τ) (bound : ℕ) (dropped added : List Hash)
    (heights nextHeights : Table ℕ Hash) : Prop where
  pos : 0 < bound
  low : ∀ height < bound, nextHeights.lookup height = heights.lookup height
  old : ∀ hash, hash ∈ dropped ↔ ∃ height, bound ≤ height ∧ heights.lookup height = some hash
  new : ∀ hash ∈ added, ∃ height, bound ≤ height ∧ db.headers.level genesis hash = some height
  high : ∀ height hash, bound ≤ height → (nextHeights.lookup height = some hash ↔
    hash ∈ added ∧ db.headers.level genesis hash = some height)
  linked : ∀ hash ∈ added, ∀ height above, db.headers.level genesis hash = some (height + 1) →
    nextHeights.lookup height = some above → db.headers.parent hash = some above

/-- The indexes follow, if no transaction and no slot of a new block is filed under a block that
stays. -/
theorem Describes.move (h : Describes model genesis db heights transactions rewards)
    (hnames : Renames genesis db bound old new heights nextHeights)
    (htransactions : Replaced (db.transactionIDsOf model) old new transactions nextTransactions)
    (hrewards : Replaced db.slotsOf old new rewards nextRewards)
    (hids : ∀ hash ∈ new, ∀ id ∈ db.transactionIDsOf model hash, ∀ block,
      transactions.lookup id = some block → block ∈ old)
    (hslots : ∀ hash ∈ new, ∀ slot ∈ db.slotsOf hash, ∀ block,
      rewards.lookup slot = some block → block ∈ old) :
    Describes model genesis db nextHeights nextTransactions nextRewards := by
  have hheld (hash : Hash) : IsNamed heights hash ↔
      (∃ height < bound, heights.lookup height = some hash) ∨ hash ∈ old := by
    rw [hnames.old]
    constructor
    · rintro ⟨height, hlookup⟩
      rcases Nat.lt_or_ge height bound with hlow | hhigh
      · exact .inl ⟨height, hlow, hlookup⟩
      · exact .inr ⟨height, hhigh, hlookup⟩
    · rintro (⟨height, -, hlookup⟩ | ⟨height, -, hlookup⟩) <;> exact ⟨height, hlookup⟩
  have hapart : ∀ hash ∈ old, ¬∃ height < bound, heights.lookup height = some hash := by
    rintro hash hmem ⟨height, hlow, hlookup⟩
    obtain ⟨other, hhigh, hother⟩ := (hnames.old hash).mp hmem
    have hsame := Option.mem_unique (h.levels _ _ hlookup) (h.levels _ _ hother)
    omega
  have hnext (hash : Hash) : IsNamed nextHeights hash ↔
      (∃ height < bound, heights.lookup height = some hash) ∨ hash ∈ new := by
    constructor
    · rintro ⟨height, hlookup⟩
      rcases Nat.lt_or_ge height bound with hlow | hhigh
      · exact .inl ⟨height, hlow, (hnames.low height hlow).symm.trans hlookup⟩
      · exact .inr ((hnames.high height hash hhigh).mp hlookup).1
    · rintro (⟨height, hlow, hlookup⟩ | hmem)
      · exact ⟨height, (hnames.low height hlow).trans hlookup⟩
      · obtain ⟨height, hhigh, hlevel⟩ := hnames.new hash hmem
        exact ⟨height, (hnames.high height hash hhigh).mpr ⟨hmem, hlevel⟩⟩
  refine ⟨(hnames.low 0 hnames.pos).trans h.first, fun height hash hlookup => ?_,
    fun height hash above hlookup habove => ?_,
    h.transactions.replace htransactions hheld hapart hnext hids,
    h.rewards.replace hrewards hheld hapart hnext hslots⟩
  · rcases Nat.lt_or_ge height bound with hlow | hhigh
    · exact h.levels height hash ((hnames.low height hlow).symm.trans hlookup)
    · exact ((hnames.high height hash hhigh).mp hlookup).2
  · rcases Nat.lt_or_ge (height + 1) bound with hlow | hhigh
    · rw [hnames.low _ hlow] at hlookup
      rw [hnames.low _ (Nat.lt_of_succ_lt hlow)] at habove
      exact h.linked height hash above hlookup habove
    · obtain ⟨hmem, hlevel⟩ := (hnames.high _ hash hhigh).mp hlookup
      exact hnames.linked hash hmem height above hlevel habove

end

/-! ### Storing blocks -/

section

variable {proposal stored : BlockProposal τ} {genesis hash : Hash} {state : ChainState}
  {db nextDB : Database τ}

theorem foldlM_addTransactionID_stored {transactions readBack : List τ}
    (h : Forall₂ (fun transaction readBack => model.stored transaction = .ok readBack)
      transactions readBack) (seen : List TransactionID) :
    readBack.foldlM (addTransactionID model) seen =
      transactions.foldlM (addTransactionID model) seen := by
  induction h generalizing seen with
  | nil => rfl
  | @cons transaction stored _ _ hfirst _ ih =>
    have hadd : addTransactionID model seen stored = addTransactionID model seen transaction := by
      rw [addTransactionID, addTransactionID, model.txIDString_stored hfirst]
    rw [foldlM_cons, hadd]
    exact congrArg _ (funext ih)

/-- What is read back has the same transactions. -/
theorem StoredAs.transactionIDs (h : StoredAs model proposal stored) :
    transactionIDsForProposal model stored = transactionIDsForProposal model proposal :=
  foldlM_addTransactionID_stored h.transactions []

theorem StoredAs.slots (h : StoredAs model proposal stored) (htext : proposal.VotersText) :
    rewardQCSlots stored = rewardQCSlots proposal := by
  rw [rewardQCSlots, rewardQCSlots, h.rewardQCs_eq htext]

/-- What is asked of a block before it is stored: it fits, the names of its voters are texts, and
a block that is stored under its hash has the same transactions and reward certificates. -/
structure Database.Admits (model : LedgerTransactionModel τ) (genesis : Hash) (db : Database τ)
    (hash : Hash) (proposal : BlockProposal τ) : Prop where
  fits : db.headers.Fits genesis hash proposal.header
  voters : proposal.VotersText
  same : ∀ stored, db.blocks.lookup hash = some stored →
    transactionIDsForProposal model stored = transactionIDsForProposal model proposal ∧
      rewardQCSlots stored = rewardQCSlots proposal

/-- Blocks that were stored before keep their transactions and what they settle. -/
theorem StorageWrites.settled_eq (h : StorageWrites model proposal hash state db nextDB)
    (hadmits : db.Admits model genesis hash proposal) {other : Hash} {block : BlockProposal τ}
    (hblock : db.blocks.lookup other = some block) :
    nextDB.transactionIDsOf model other = db.transactionIDsOf model other ∧
      nextDB.slotsOf other = db.slotsOf other := by
  obtain ⟨stored, hstored, hblocks⟩ := h.blocks
  rw [transactionIDsOf, slotsOf, hblocks, Table.lookup_insert]
  split
  · next heq =>
    subst heq
    obtain ⟨hids, hslots⟩ := hadmits.same block hblock
    simp only [transactionIDsOf, slotsOf, hblock, Option.bind_some,
      hstored.transactionIDs, hstored.slots hadmits.voters, hids, hslots, and_self]
  · exact ⟨rfl, rfl⟩

/-- The new block is read back with its own. -/
theorem StorageWrites.own_eq (h : StorageWrites model proposal hash state db nextDB)
    (htext : proposal.VotersText) {ids : List TransactionID} {slots : List ℕ}
    (hids : transactionIDsForProposal model proposal = .ok ids)
    (hslots : rewardQCSlots proposal = .ok slots) :
    nextDB.transactionIDsOf model hash = ids ∧ nextDB.slotsOf hash = slots := by
  obtain ⟨stored, hstored, hblocks⟩ := h.blocks
  have hblock : nextDB.blocks.lookup hash = some stored := by
    rw [hblocks]
    exact AList.lookup_insert _
  exact ⟨transactionIDsOf_eq hblock (hstored.transactionIDs.trans hids),
    slotsOf_eq hblock ((hstored.slots htext).trans hslots)⟩

/-- A block with a level is stored, or it is the genesis block. -/
theorem Database.lookup_of_level {height : ℕ} (h : db.headers.level genesis hash = some height) :
    hash = genesis ∨ ∃ block, db.blocks.lookup hash = some block := by
  unfold Headers.level at h
  split at h
  · next heq => exact .inl heq
  · obtain ⟨header, hheader, -⟩ := Option.map_eq_some_iff.mp h
    obtain ⟨block, hblock, -⟩ := Option.map_eq_some_iff.mp hheader
    exact .inr ⟨block, hblock⟩

/-- A chain is described by the same tables when another block is stored. -/
theorem Describes.store {heights rewards : Table ℕ Hash} {transactions : Table TransactionID Hash}
    (h : Describes model genesis db heights transactions rewards)
    (hkeyed : db.Keyed crypto genesis)
    (hwrites : StorageWrites model proposal hash state db nextDB)
    (hadmits : db.Admits model genesis hash proposal) (hnext : nextDB.Keyed crypto genesis) :
    Describes model genesis nextDB heights transactions rewards := by
  have hheaders := hwrites.headers_eq hadmits.fits.text
  have hsame (other : Hash) (hnamed : IsNamed heights other) :
      nextDB.transactionIDsOf model other = db.transactionIDsOf model other ∧
        nextDB.slotsOf other = db.slotsOf other := by
    obtain ⟨height, hlookup⟩ := hnamed
    rcases lookup_of_level (h.levels height other hlookup) with rfl | ⟨block, hblock⟩
    · simp only [transactionIDsOf, slotsOf, hkeyed.genesis, hnext.genesis, and_self]
    · exact hwrites.settled_eq hadmits hblock
  refine ⟨h.first, fun height other hlookup => ?_, fun height other above hlookup habove => ?_,
    h.transactions.congr fun other hnamed => (hsame other hnamed).1,
    h.rewards.congr fun other hnamed => (hsame other hnamed).2⟩
  · rw [hheaders]
    exact hadmits.fits.level_mono (h.levels height other hlookup)
  · rw [hheaders]
    exact hadmits.fits.parent_mono (h.linked height other above hlookup habove)

end

/-! ### The index in memory -/

theorem addCommittedTransactionIDs_eq (index : Table TransactionID Hash)
    (transactionIDs : List TransactionID) (blockHash : Hash) :
    Ledger.addCommittedTransactionIDs index transactionIDs blockHash =
      applyAll index (transactionIDs.map fun id => .put id blockHash) := by
  rw [applyAll, foldl_map]
  rfl

theorem applyTransactionIndexDelta_eq (index : Table TransactionID Hash)
    (delta : TransactionIndexDelta) :
    applyTransactionIndexDelta index delta =
      applyAll index (delta.removeIDs.map .delete ++
        delta.add.map fun entry => .put entry.1 entry.2) := by
  rw [applyAll, foldl_append, foldl_map, foldl_map]
  rfl

/-- A reorganization writes the same in memory and on disk. -/
theorem ReorgWrites.delta_eq {old new : List Hash} {state : ChainState} {head : Head}
    {delta : TransactionIndexDelta} {db nextDB : Database τ}
    (h : ReorgWrites model old new state head delta db nextDB) :
    nextDB.txToBlock = applyAll db.txToBlock (delta.removeIDs.map .delete ++
      delta.add.map fun entry => .put entry.1 entry.2) := by
  rw [h.transactions, h.removed, h.added, map_flatMap, map_flatMap]
  simp only [map_map, Function.comp_def]

/-! ### Persistent ledgers -/

namespace Ledger

/-- The head is anchored, and the indexes on disk and in memory describe the main chain, of
which the head is the highest block. Of what is stored of the head only the chain id can
differ. -/
structure Indexed (crypto : Crypto) (model : LedgerTransactionModel τ) (genesis : Hash)
    (ledger : Ledger τ) (db : Database τ) : Prop extends ledger.Anchored crypto genesis db where
  describes : Describes model genesis db db.heightToHash db.txToBlock db.rewardedQCSlots
  highest : ∀ height hash, db.heightToHash.lookup height = some hash → height ≤ ledger.head.height
  committed : ∀ id, ledger.committedTransactions.lookup id = db.txToBlock.lookup id
  saved : ∃ chainID, db.head = some { ledger.head with chainID := chainID }

namespace Indexed

variable {genesis : Hash} {ledger next : Ledger τ} {db nextDB : Database τ}

/-- An operation that stores no block. -/
theorem of_blocks (hanchored : next.Anchored crypto genesis nextDB)
    (hblocks : nextDB.blocks = db.blocks)
    (hdescribes : Describes model genesis db nextDB.heightToHash nextDB.txToBlock
      nextDB.rewardedQCSlots)
    (hhighest : ∀ height hash, nextDB.heightToHash.lookup height = some hash →
      height ≤ next.head.height)
    (hcommitted : ∀ id, next.committedTransactions.lookup id = nextDB.txToBlock.lookup id)
    (hsaved : ∃ chainID, nextDB.head = some { next.head with chainID := chainID }) :
    next.Indexed crypto model genesis nextDB := by
  have hheaders : nextDB.headers = db.headers := by
    unfold Database.headers
    rw [hblocks]
  refine ⟨hanchored, ⟨hdescribes.first, ?_, ?_, hdescribes.transactions.congr fun hash _ => ?_,
    hdescribes.rewards.congr fun hash _ => ?_⟩, hhighest, hcommitted, hsaved⟩
  · rw [hheaders]
    exact hdescribes.levels
  · rw [hheaders]
    exact hdescribes.linked
  · rw [transactionIDsOf, transactionIDsOf, hblocks]
  · rw [slotsOf, slotsOf, hblocks]

section

variable (h : ledger.Indexed crypto model genesis db)
include h

/-- From the finalized height on the index names the ancestors of the head. -/
theorem lookup_iff {height : ℕ} {hash : Hash} (hlow : ledger.head.finalizedHeight ≤ height) :
    db.heightToHash.lookup height = some hash ↔
      IsAncestor db.headers.parent hash ledger.head.blockHash ∧
        db.headers.level genesis hash = some height := by
  constructor
  · intro hlookup
    obtain ⟨found, hfound, hancestor, hlevel⟩ :=
      h.follows height hlow (h.highest height hash hlookup)
    obtain rfl := Option.mem_unique hlookup hfound
    exact ⟨hancestor, hlevel⟩
  · rintro ⟨hancestor, hlevel⟩
    exact h.anchored.index_eq h.follows hancestor hlevel hlow

theorem ends : db.heightToHash.lookup ledger.head.height = some ledger.head.blockHash :=
  (h.lookup_iff h.anchored.finalizedHeight_le).mpr ⟨.refl _, h.anchored.head_level⟩

theorem candidate {request : CommitBlockRequest τ} {blockHash : Hash}
    (hadmits : db.Admits model genesis blockHash request.proposal)
    (hstep : ledger.saveBlockCandidate crypto model request = .ok (next, blockHash)) :
    ∃ nextDB, next.Indexed crypto model genesis nextDB := by
  obtain ⟨hhash, -, -, hnext, hdb⟩ := saveBlockCandidate_eq_ok hstep
  obtain ⟨nextDB, hafter, hwrites, hindexes, hsaved⟩ := exists_stored hdb h.before
  obtain ⟨_, hkeeps⟩ := h.toAnchored.candidate (fun other hother => by
    obtain rfl := Except.ok.inj (hhash.symm.trans hother)
    exact hadmits.fits) hstep
  obtain rfl := Option.mem_unique hafter hkeeps.before
  have hhead : next.head = ledger.head := by rw [hnext]
  refine ⟨nextDB, hkeeps.toAnchored, ?_, ?_, ?_, ?_⟩
  · rw [hindexes.heights, hindexes.transactions, hindexes.rewards]
    exact h.describes.store h.keyed hwrites hadmits hkeeps.keyed
  · rw [hindexes.heights, hhead]
    exact h.highest
  · rw [hindexes.transactions, hnext]
    exact h.committed
  · rw [hsaved, hhead]
    exact h.saved

end

end Indexed

/-! ### Commits -/

section

variable {κ : Type} [DecidableEq κ] {keysOf : Hash → List κ} {table : Table κ Hash} {hash : Hash}

/-- A block without keys, or with its keys written last, takes the place of others. -/
theorem replaced_of_deleted {old : List Hash} {deleted : List κ}
    (hdeleted : ∀ key, key ∉ keysOf hash → (key ∈ deleted ↔ ∃ item ∈ old, key ∈ keysOf item)) :
    Replaced keysOf old [hash] table (applyAll table
      (deleted.map .delete ++ (keysOf hash).map fun key => .put key hash)) := by
  have hreplaced := @replaced_applyAll _ _ _ table keysOf old [hash] deleted
    (by simpa using hdeleted) (by simp)
  simpa using hreplaced

/-- One block is filed under its keys. -/
theorem replaced_single :
    Replaced keysOf [] [hash] table
      (applyAll table ((keysOf hash).map fun key => .put key hash)) :=
  @replaced_of_deleted _ _ keysOf table hash [] [] (by simp)

end

namespace Indexed

variable {genesis : Hash} {ledger next : Ledger τ} {db nextDB : Database τ}

/-- The height index after a commit. -/
theorem commit_renames (h : ledger.Indexed crypto model genesis db)
    {request : CommitBlockRequest τ} {blockHash : Hash} {transactionIDs : List TransactionID}
    (hcommits : Commits crypto model ledger request blockHash transactionIDs next)
    (hwrites : CommitWrites model request blockHash transactionIDs next.head db nextDB)
    (hfits : db.headers.Fits genesis blockHash request.proposal.header)
    (hanchored : next.Anchored crypto genesis nextDB) :
    next.head.height = ledger.head.height + 1 ∧
      nextDB.headers.parent blockHash = some ledger.head.blockHash ∧
      Renames genesis nextDB (ledger.head.height + 1) [] [blockHash] db.heightToHash
        nextDB.heightToHash := by
  have hheight : next.head.height = ledger.head.height + 1 :=
    hcommits.head.height.trans (hcommits.height_eq h.anchored hfits)
  have hlevel : nextDB.headers.level genesis blockHash = some (ledger.head.height + 1) := by
    rw [← hheight, ← hcommits.head.blockHash]
    exact hanchored.anchored.head_level
  have hparent : nextDB.headers.parent blockHash = some ledger.head.blockHash := by
    rw [hwrites.headers_eq hfits.text, Headers.parent_store_self, hcommits.parent]
  refine ⟨hheight, hparent, ?_⟩
  rw [hwrites.heights, hheight]
  refine ⟨Nat.succ_pos _, fun height hlow => ?_, fun hash => ?_, fun hash hmem => ?_,
    fun height hash hhigh => ?_, fun hash hmem height above hhash habove => ?_⟩
  · rw [Table.lookup_insert, if_neg (by omega)]
  · refine ⟨fun hmem => absurd hmem not_mem_nil, ?_⟩
    rintro ⟨height, hhigh, hlookup⟩
    exact absurd (h.highest height hash hlookup) (by omega)
  · exact ⟨_, le_rfl, mem_singleton.mp hmem ▸ hlevel⟩
  · rw [Table.lookup_insert, mem_singleton]
    constructor
    · intro hlookup
      split at hlookup
      · next heq => exact ⟨(Option.some.inj hlookup).symm, by
          rw [← Option.some.inj hlookup, heq]; exact hlevel⟩
      · exact absurd (h.highest height hash hlookup) (by omega)
    · rintro ⟨rfl, hhash⟩
      rw [if_pos (Option.mem_unique hhash hlevel)]
  · obtain rfl := mem_singleton.mp hmem
    obtain rfl : height = ledger.head.height := by
      have := Option.mem_unique hhash hlevel
      omega
    rw [Table.lookup_insert, if_neg (by omega), h.ends] at habove
    rw [hparent, habove]

theorem commit (h : ledger.Indexed crypto model genesis db) {request : CommitBlockRequest τ}
    (hadmits : ∀ hash, request.proposal.hash crypto = .ok hash →
      db.Admits model genesis hash request.proposal)
    (hfresh : ∀ slots, rewardQCSlots request.proposal = .ok slots → ∀ slot ∈ slots,
      db.rewardedQCSlots.lookup slot = none)
    (hstep : ledger.commitBlock crypto model request = .ok next) :
    ∃ nextDB, next.Indexed crypto model genesis nextDB := by
  obtain ⟨blockHash, transactionIDs, hcommits, hpersists⟩ := commitBlock_eq_ok hstep
  obtain ⟨nextDB, hafter, hwrites⟩ := exists_stored hpersists h.before
  obtain ⟨_, hkeeps⟩ := h.toAnchored.commit (fun hash hhash => (hadmits hash hhash).fits) hstep
  obtain rfl := Option.mem_unique hafter hkeeps.before
  have hadmits := hadmits blockHash hcommits.hash
  obtain ⟨hheight, -, hnames⟩ :=
    h.commit_renames hcommits hwrites hadmits.fits hkeeps.toAnchored
  obtain ⟨slots, hslots, hrewards⟩ := hwrites.rewards
  obtain ⟨hids, hblockSlots⟩ := hwrites.own_eq hadmits.voters hcommits.transactions hslots
  have hdescribes := h.describes.store h.keyed hwrites.toStorageWrites hadmits hkeeps.keyed
  refine ⟨nextDB, hkeeps.toAnchored, hdescribes.move hnames ?_ ?_ ?_ ?_, ?_, ?_,
    ⟨_, hwrites.dbHead⟩⟩
  · rw [hwrites.transactions, ← hids]
    exact replaced_single
  · rw [hrewards, ← hblockSlots]
    exact replaced_single
  · intro hash hmem id hid block hlookup
    rw [mem_singleton.mp hmem, hids] at hid
    rw [← h.committed, hcommits.fresh id hid] at hlookup
    cases hlookup
  · intro hash hmem slot hslot block hlookup
    rw [mem_singleton.mp hmem, hblockSlots] at hslot
    rw [hfresh slots hslots slot hslot] at hlookup
    cases hlookup
  · intro height hash hlookup
    rw [hwrites.heights, Table.lookup_insert] at hlookup
    split at hlookup
    · next heq => exact heq.le
    · exact (h.highest height hash hlookup).trans (by omega)
  · intro id
    rw [hcommits.committed, addCommittedTransactionIDs_eq, hwrites.transactions]
    exact lookup_applyAll_congr h.committed _ id

end Indexed

/-! ### Reorganizations and certificates -/

theorem eq_of_nodup_flatMap {α β : Type} {f : α → List β} {xs : List α} {x : β}
    {first second : α} (h : (xs.flatMap f).Nodup) (hfirst : first ∈ xs) (hsecond : second ∈ xs)
    (hx : x ∈ f first) (hsame : x ∈ f second) : first = second := by
  by_contra hne
  have : Std.Symm (Function.onFun Disjoint f) := ⟨fun _ _ hapart => hapart.symm⟩
  exact (nodup_flatMap.mp h).2.forall hfirst hsecond hne hx hsame

/-- The blocks of a plan take the place of others in a table. -/
theorem replaced_plan {κ : Type} [DecidableEq κ] {keysOf : Hash → List κ} {table : Table κ Hash}
    {plan : ReorgPlan} {new : List Hash} (hnew : plan.newBlocks = new.reverse)
    (hdistinct : ∀ first ∈ new, ∀ second ∈ new, ∀ key ∈ keysOf first, key ∈ keysOf second →
      first = second) :
    TableWrite.Replaced keysOf plan.oldBlocks new table (applyAll table
      ((plan.oldBlocks.flatMap fun hash => (keysOf hash).map .delete) ++
        plan.newBlocks.flatMap fun hash => (keysOf hash).map fun key => .put key hash)) := by
  have hreplaced := @replaced_applyAll κ Hash _ table keysOf plan.oldBlocks
    plan.newBlocks (plan.oldBlocks.flatMap keysOf) (fun key _ => mem_flatMap)
    (by simpa only [hnew, mem_reverse] using hdistinct)
  intro key value
  rw [map_flatMap] at hreplaced
  rw [hreplaced key value]
  simp only [hnew, mem_reverse]

/-- The blocks of the chain that a reorganization to `tip` leaves: what the index names up to the
finalized height, and the branch of the tip above it. -/
def OnBranch (genesis : Hash) (db : Database τ) (finalizedHeight : ℕ) (tip hash : Hash) :
    Prop :=
  (∃ height ≤ finalizedHeight, db.heightToHash.lookup height = some hash) ∨
    IsAncestor db.headers.parent hash tip ∧
      ∃ height > finalizedHeight, db.headers.level genesis hash = some height

/-- No two of them settle the same slot. -/
def BranchSettlesOnce (genesis : Hash) (db : Database τ) (finalizedHeight : ℕ) (tip : Hash) :
    Prop :=
  ∀ first second, OnBranch genesis db finalizedHeight tip first →
    OnBranch genesis db finalizedHeight tip second →
    ∀ slot ∈ db.slotsOf first, slot ∈ db.slotsOf second → first = second

namespace Indexed

variable {genesis : Hash} {ledger next : Ledger τ} {db : Database τ}

section

variable (h : ledger.Indexed crypto model genesis db)
  {newTipHash hash : Hash} {plan : ReorgPlan} {new : List Hash}
include h

/-- The height index after a reorganization. -/
theorem renames {state : ChainState} {nextHead : Head} {delta : TransactionIndexDelta}
    {nextDB : Database τ}
    (hwrites : ReorgWrites model plan.oldBlocks plan.newBlocks state nextHead delta db nextDB)
    (hlinks : plan.Links genesis db ledger.head.blockHash newTipHash new)
    (hnotBelow : ledger.head.finalizedHeight ≤ plan.commonAncestor.height) :
    Renames genesis db (plan.commonAncestor.height + 1) plan.oldBlocks new db.heightToHash
      nextDB.heightToHash := by
  have hleveled := h.anchored.leveled
  have hbranch {hash : Hash} (hmem : hash ∈ new) :=
    hlinks.branch.level_of_mem hleveled hlinks.level hmem
  have hheights : Replaced db.heightsOf plan.oldBlocks new db.heightToHash
      nextDB.heightToHash := by
    rw [hwrites.heights]
    refine replaced_plan hlinks.newBlocks fun first hfirst second hsecond height hheight hsame => ?_
    rw [heightsOf_mem_iff h.keyed hlinks.branch hfirst] at hheight
    rw [heightsOf_mem_iff h.keyed hlinks.branch hsecond] at hsame
    exact (hbranch hfirst).1.eq_of_level hleveled (hbranch hsecond).1 hheight hsame
  have hold (hash : Hash) : hash ∈ plan.oldBlocks ↔ ∃ height, plan.commonAncestor.height + 1 ≤
      height ∧ db.heightToHash.lookup height = some hash := by
    constructor
    · intro hmem
      obtain ⟨hancestor, height, hlevel, hlt⟩ :=
        hlinks.old.level_of_mem hleveled hlinks.level hmem
      exact ⟨height, hlt, (h.lookup_iff (by omega)).mpr ⟨hancestor, hlevel⟩⟩
    · rintro ⟨height, hlt, hlookup⟩
      obtain ⟨hancestor, hlevel⟩ := (h.lookup_iff (by omega)).mp hlookup
      exact hlinks.old.mem_of_level hleveled hancestor hlinks.level hlevel hlt
  have hkept {height : ℕ} (hle : height ≤ plan.commonAncestor.height) :
      nextDB.heightToHash.lookup height = db.heightToHash.lookup height :=
    hwrites.height_kept h.keyed hleveled hlinks hle
  have hhigh {height : ℕ} {hash : Hash} (hlt : plan.commonAncestor.height < height) :
      nextDB.heightToHash.lookup height = some hash ↔
        hash ∈ new ∧ db.headers.level genesis hash = some height := by
    constructor
    · intro hlookup
      rcases (hheights height hash).mp hlookup with ⟨hmem, hheight⟩ | ⟨-, hgone, hlookup⟩
      · exact ⟨hmem, (heightsOf_mem_iff h.keyed hlinks.branch hmem).mp hheight⟩
      · have hmem := (hold hash).mpr ⟨height, hlt, hlookup⟩
        exact absurd ((heightsOf_mem_iff h.keyed hlinks.old hmem).mpr
          (h.describes.levels height hash hlookup)) (hgone hash hmem)
    · rintro ⟨hmem, hlevel⟩
      exact hwrites.height_written h.keyed hleveled hlinks (hbranch hmem).1 hlevel hlt
  refine ⟨Nat.succ_pos _, fun height hlow => hkept (Nat.le_of_lt_succ hlow), hold,
    fun hash hmem => ?_, fun height hash hle => hhigh hle,
    fun hash hmem height above hlevel habove => ?_⟩
  · obtain ⟨-, height, hlevel, hlt⟩ := hbranch hmem
    exact ⟨height, hlt, hlevel⟩
  · obtain ⟨hancestor, other, hother, hlt⟩ := hbranch hmem
    obtain rfl := Option.mem_unique hother hlevel
    -- below the lowest of the new blocks is the common ancestor, which is on both branches
    obtain ⟨habove, haboveLevel⟩ : IsAncestor db.headers.parent above newTipHash ∧
        db.headers.level genesis above = some height := by
      rcases Nat.lt_or_ge plan.commonAncestor.height height with hlt | hle
      · obtain ⟨hmem, hlevel⟩ := (hhigh hlt).mp habove
        exact ⟨(hbranch hmem).1, hlevel⟩
      · obtain rfl : height = plan.commonAncestor.height := by omega
        rw [hkept le_rfl, h.lookup_iff hnotBelow] at habove
        rw [habove.1.eq_of_level hleveled ⟨_, hlinks.old⟩ habove.2 hlinks.level]
        exact ⟨⟨_, hlinks.branch⟩, hlinks.level⟩
    exact (hancestor.of_level_le hleveled habove hlevel haboveLevel (Nat.le_succ _)).parent_eq
      hleveled hlevel haboveLevel

/-- The new blocks are on the branch. -/
theorem onBranch_of_mem
    (hlinks : plan.Links genesis db ledger.head.blockHash newTipHash new)
    (hnotBelow : ledger.head.finalizedHeight ≤ plan.commonAncestor.height) (hmem : hash ∈ new) :
    OnBranch genesis db ledger.head.finalizedHeight newTipHash hash := by
  obtain ⟨hancestor, height, hlevel, hlt⟩ :=
    hlinks.branch.level_of_mem h.anchored.leveled hlinks.level hmem
  exact .inr ⟨hancestor, height, by omega, hlevel⟩

/-- What is named up to the common ancestor stays on the branch. -/
theorem onBranch_of_lookup
    (hlinks : plan.Links genesis db ledger.head.blockHash newTipHash new) {height : ℕ}
    (hle : height ≤ plan.commonAncestor.height)
    (hlookup : db.heightToHash.lookup height = some hash) :
    OnBranch genesis db ledger.head.finalizedHeight newTipHash hash := by
  rcases Nat.lt_or_ge ledger.head.finalizedHeight height with hlt | hlow
  · obtain ⟨hancestor, hlevel⟩ := (h.lookup_iff hlt.le).mp hlookup
    have hbelow := IsAncestor.of_level_le h.anchored.leveled ⟨_, hlinks.old⟩ hancestor hlinks.level
      hlevel hle
    exact .inr ⟨IsAncestor.trans ⟨_, hlinks.branch⟩ hbelow, height, hlt, hlevel⟩
  · exact .inl ⟨height, hlow, hlookup⟩

theorem reorganize {decision : ForkDecision}
    (hsettles : BranchSettlesOnce genesis db ledger.head.finalizedHeight newTipHash)
    (hstep : ledger.reorganizeTo crypto model newTipHash = .ok (next, decision)) :
    ∃ nextDB, next.Indexed crypto model genesis nextDB := by
  rcases reorganizeTo_eq_ok hstep with rfl | ⟨before, newTip, plan, operations, delta, hreorg⟩
  · exact ⟨db, h⟩
  obtain rfl := Option.mem_unique h.before hreorg.before
  obtain ⟨_, hkeeps⟩ := h.toAnchored.reorganize hstep
  obtain rfl := Option.mem_unique hreorg.after hkeeps.before
  have hwrites := collectReorgOps_eq_ok hreorg.collected
  obtain ⟨new, hlinks⟩ := collectReorgPlan_eq_ok h.keyed hreorg.tip h.anchored.root hreorg.planned
  have hleveled := h.anchored.leveled
  have hnotBelow := hreorg.notBelow
  have hnames := h.renames hwrites hlinks hnotBelow
  have hnewBranch {hash : Hash} (hmem : hash ∈ new) := h.onBranch_of_mem hlinks hnotBelow hmem
  have hdescribes : Describes model genesis db (db.dataTransaction operations).heightToHash
      (db.dataTransaction operations).txToBlock
      (db.dataTransaction operations).rewardedQCSlots := by
    refine h.describes.move hnames ?_ ?_ ?_ ?_
    · rw [hwrites.transactions]
      refine replaced_plan hlinks.newBlocks fun first hfirst second hsecond id hid hsame => ?_
      have hdistinct := hwrites.distinct
      rw [hwrites.added, map_flatMap, hlinks.newBlocks] at hdistinct
      exact eq_of_nodup_flatMap hdistinct (mem_reverse.mpr hfirst)
        (mem_reverse.mpr hsecond) (by simpa using hid) (by simpa using hsame)
    · rw [hwrites.rewards]
      exact replaced_plan hlinks.newBlocks fun first hfirst second hsecond =>
        hsettles first second (hnewBranch hfirst) (hnewBranch hsecond)
    · intro hash hmem
      exact hwrites.indexed hash (by rw [hlinks.newBlocks]; exact mem_reverse.mpr hmem)
    · intro hash hmem slot hslot block hlookup
      obtain ⟨⟨height, hblock⟩, hblockSlot⟩ := (h.describes.rewards slot block).mp hlookup
      rcases Nat.lt_or_ge plan.commonAncestor.height height with hlt | hle
      · exact (hnames.old block).mpr ⟨height, hlt, hblock⟩
      · obtain rfl := hsettles hash block (hnewBranch hmem)
          (h.onBranch_of_lookup hlinks hle hblock) slot hslot hblockSlot
        obtain ⟨other, hlt, hother⟩ := hnames.new hash hmem
        have hsame := Option.mem_unique hother (h.describes.levels height hash hblock)
        omega
  refine ⟨_, of_blocks hkeeps.toAnchored hwrites.blocks hdescribes ?_ ?_ ⟨_, hwrites.dbHead⟩⟩
  · intro height hash hlookup
    have htip := h.keyed.level_of_lookup hreorg.tip
    rw [hreorg.head.height]
    rcases Nat.lt_or_ge plan.commonAncestor.height height with hlt | hle
    · obtain ⟨hmem, hlevel⟩ := (hnames.high height hash hlt).mp hlookup
      exact (hlinks.branch.level_of_mem hleveled hlinks.level hmem).1.level_le hleveled hlevel htip
    · exact hle.trans (IsAncestor.level_le hleveled ⟨_, hlinks.branch⟩ hlinks.level htip)
  · intro id
    rw [hreorg.committed, applyTransactionIndexDelta_eq, hwrites.delta_eq]
    exact lookup_applyAll_congr h.committed _ id

theorem certificate {qc : QuorumCertificate} (hstep : ledger.saveQC crypto qc = .ok next) :
    ∃ nextDB, next.Indexed crypto model genesis nextDB := by
  have hsaves := saveQC_eq_ok hstep
  obtain ⟨nextDB, hafter, hstorage, hindexes, hsaved⟩ := exists_stored hsaves.db h.before
  obtain ⟨qcHash, hhead⟩ := hsaves.head
  have hkeeps := h.toAnchored.same hafter hstorage.blocks hindexes.heights hsaves.head
  refine ⟨nextDB, of_blocks hkeeps.toAnchored hstorage.blocks ?_ ?_ ?_ ?_⟩
  · rw [hindexes.heights, hindexes.transactions, hindexes.rewards]
    exact h.describes
  · rw [hhead, hindexes.heights]
    exact h.highest
  · rw [hsaves.rest, hindexes.transactions]
    exact h.committed
  · rcases hsaved with hwritten | ⟨hkept, hsame⟩
    · exact ⟨_, hwritten⟩
    · rw [hkept, hsame]
      exact h.saved

/-- If the index names a block at every height from some height on, these are the ancestors of
the head. -/
theorem follows_from {height : ℕ}
    (hfilled : ∀ other, height ≤ other → other < ledger.head.finalizedHeight →
      (db.heightToHash.lookup other).isSome = true) {other : ℕ} (hfrom : height ≤ other)
    (hto : other ≤ ledger.head.height) :
    ∃ hash, db.heightToHash.lookup other = some hash ∧
      IsAncestor db.headers.parent hash ledger.head.blockHash ∧
      db.headers.level genesis hash = some other := by
  rcases Nat.lt_or_ge other ledger.head.finalizedHeight with hlt | hlow
  · -- the block one height above is a descendant of the finalized block or has been found before
    obtain ⟨hash, hlookup⟩ := Option.isSome_iff_exists.mp (hfilled other hfrom hlt)
    have hfinal := h.anchored.finalizedHeight_le
    obtain ⟨child, hchild, hancestor, -⟩ :=
      follows_from hfilled (Nat.le_succ_of_le hfrom) (by omega : other + 1 ≤ ledger.head.height)
    have hparent := h.describes.linked other child hash hchild hlookup
    exact ⟨hash, hlookup, hancestor.trans (.of_parent hparent),
      h.describes.levels other hash hlookup⟩
  · exact h.follows other hlow hto
termination_by ledger.head.finalizedHeight - other

/-- The checkpoint can go down too, to a height from which on nothing is missing. -/
theorem advance {height : ℕ} {blockHash : Hash}
    (hfilled : ∀ other, height ≤ other → other < ledger.head.finalizedHeight →
      (db.heightToHash.lookup other).isSome = true)
    (hadvances : Advances ledger height blockHash next) :
    ∃ nextDB, next.Indexed crypto model genesis nextDB := by
  have hmain := hadvances.mainChain
  rw [mainChainHashAtHeight, h.before] at hmain
  obtain ⟨found, hfound, hancestor, hlevel⟩ :=
    h.follows_from hfilled le_rfl hadvances.le_head
  obtain rfl := Option.mem_unique hmain hfound
  have hnext := hadvances.eq
  rw [h.before] at hnext
  subst hnext
  refine ⟨_, of_blocks ⟨rfl, ⟨h.keyed.hash_eq, h.keyed.genesis⟩,
    ⟨h.anchored.leveled, h.anchored.head_level, hlevel, fun hzero => ?_, hancestor⟩,
    fun other hfrom hto => h.follows_from hfilled hfrom hto⟩ (rfl : _ = db.blocks) h.describes
    h.highest h.committed ⟨_, rfl⟩⟩
  obtain rfl := hzero
  exact Option.mem_unique hmain h.describes.first

end

end Indexed

end Ledger

end Ordexus.Blockchain
