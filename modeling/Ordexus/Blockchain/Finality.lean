import Ordexus.Blockchain.BranchEffects
import Ordexus.Runtime.ConfirmedTransaction

/-!
# Finality

The finalized block is an ancestor of the head, at the finalized height, and the height index
follows the main chain from there to the head. A commit or a reorganization moves the head to
a descendant of a block at or above the finalized one, so that what was finalized once stays
below every later head. All of this is about blocks that fit the ones before them.
-/

namespace Ordexus.Blockchain

open Checked Ancestry Transition TableWrite List Database Headers

variable {τ : Type} {crypto : Crypto} {model : LedgerTransactionModel τ}

/-! ### Heads over known headers -/

/-- The head and the finalized block are known, with their heights, and the first is a
descendant of the second. -/
structure Head.Anchored (genesis : Hash) (headers : Headers) (head : Head) : Prop where
  leveled : Leveled headers.parent (headers.level genesis)
  head_level : headers.level genesis head.blockHash = some head.height
  final_level : headers.level genesis head.finalizedHash = some head.finalizedHeight
  root : head.finalizedHeight = 0 → head.finalizedHash = genesis
  final : IsAncestor headers.parent head.finalizedHash head.blockHash

/-- The index names the blocks of the main chain, from the finalized one to the head. -/
def Head.Follows (genesis : Hash) (headers : Headers) (head : Head) (index : ℕ → Option Hash) :
    Prop :=
  ∀ height, head.finalizedHeight ≤ height → height ≤ head.height →
    ∃ hash, index height = some hash ∧ IsAncestor headers.parent hash head.blockHash ∧
      headers.level genesis hash = some height

namespace Head.Anchored

variable {genesis ancestor : Hash} {headers : Headers} {head next : Head} {height : ℕ}
  {index nextIndex : ℕ → Option Hash}

section

variable (h : head.Anchored genesis headers)
include h

theorem finalizedHeight_le : head.finalizedHeight ≤ head.height :=
  h.final.level_le h.leveled h.final_level h.head_level

/-- A block more changes nothing for a head. -/
theorem store {hash : Hash} {header : BlockHeader} (hfits : headers.Fits genesis hash header) :
    head.Anchored genesis (headers.store hash header) :=
  ⟨hfits.leveled, hfits.level_mono h.head_level, hfits.level_mono h.final_level, h.root,
    h.final.mono fun _ _ => hfits.parent_mono⟩

section

variable (hold : IsAncestor headers.parent ancestor head.blockHash)
  (hnew : IsAncestor headers.parent ancestor next.blockHash)
  (hancestor : headers.level genesis ancestor = some height)
  (hlevel : headers.level genesis next.blockHash = some next.height)
  (hlow : head.finalizedHeight ≤ next.finalizedHeight)
include hold hnew hancestor hlevel hlow

/-- The head moves to a descendant of one of its ancestors that is not below the finalized
block, and finality moves up its new branch. -/
theorem move (hnotBelow : head.finalizedHeight ≤ height)
    (hhigh : next.finalizedHeight ≤ next.height)
    (hfinal : ∀ hash, IsAncestor headers.parent hash next.blockHash →
      IsAncestor headers.parent head.finalizedHash hash →
      headers.level genesis hash = some next.finalizedHeight → next.finalizedHash = hash) :
    next.Anchored genesis headers ∧
      IsAncestor headers.parent head.finalizedHash next.finalizedHash := by
  have hbelow : IsAncestor headers.parent head.finalizedHash ancestor :=
    hold.of_level_le h.leveled h.final hancestor h.final_level hnotBelow
  obtain ⟨hash, hhash, hkept, hhashLevel⟩ :=
    (hnew.trans hbelow).at_level h.leveled h.final_level hlevel hlow hhigh
  obtain rfl := hfinal hash hhash hkept hhashLevel
  refine ⟨⟨h.leveled, hlevel, hhashLevel, fun hzero => ?_, hhash⟩, hkept⟩
  have hsame : head.finalizedHeight = next.finalizedHeight := by omega
  rw [← h.root (by omega)]
  exact (hhash.eq_of_level h.leveled (hhash.trans hkept) hhashLevel
    (hsame ▸ h.final_level))

/-- The index after such a move: unchanged up to the common ancestor and rewritten above. -/
theorem follows_move (hfollows : head.Follows genesis headers index)
    (hkept : ∀ low, low ≤ height → nextIndex low = index low)
    (hwritten : ∀ hash high, IsAncestor headers.parent hash next.blockHash →
      headers.level genesis hash = some high → height < high → nextIndex high = some hash) :
    next.Follows genesis headers nextIndex := by
  intro level hfrom hto
  by_cases hle : level ≤ height
  · have hheight := hold.level_le h.leveled hancestor h.head_level
    obtain ⟨hash, hindex, hhash, hhashLevel⟩ := hfollows level (by omega) (by omega)
    refine ⟨hash, (hkept level hle).trans hindex, hnew.trans ?_, hhashLevel⟩
    exact hold.of_level_le h.leveled hhash hancestor hhashLevel hle
  · obtain ⟨hash, hhash, -, hhashLevel⟩ := hnew.at_level h.leveled hancestor hlevel (by omega) hto
    exact ⟨hash, hwritten hash level hhash hhashLevel (by omega), hhash, hhashLevel⟩

end

/-- An ancestor of the head becomes the finalized block. -/
theorem advance (hancestor : IsAncestor headers.parent ancestor head.blockHash)
    (hlevel : headers.level genesis ancestor = some height) (hlow : head.finalizedHeight ≤ height) :
    ({ head with finalizedHeight := height, finalizedHash := ancestor } : Head).Anchored
        genesis headers ∧
      IsAncestor headers.parent head.finalizedHash ancestor := by
  have hkept := hancestor.of_level_le h.leveled h.final hlevel h.final_level hlow
  refine ⟨⟨h.leveled, h.head_level, hlevel, fun hzero => ?_, hancestor⟩, hkept⟩
  obtain rfl := hzero
  have hfinal := h.final_level
  rw [Nat.le_zero.mp hlow] at hfinal
  rw [← h.root (Nat.le_zero.mp hlow)]
  exact hancestor.eq_of_level h.leveled h.final hlevel hfinal

/-- What the index names is the block of the main chain. -/
theorem index_eq (hfollows : head.Follows genesis headers index) {hash : Hash}
    (hancestor : IsAncestor headers.parent hash head.blockHash)
    (hlevel : headers.level genesis hash = some height) (hlow : head.finalizedHeight ≤ height) :
    index height = some hash := by
  obtain ⟨found, hfound, hmain, hfoundLevel⟩ :=
    hfollows height hlow (hancestor.level_le h.leveled hlevel h.head_level)
  rw [hfound, hmain.eq_of_level h.leveled hancestor hfoundLevel hlevel]

end

end Head.Anchored

/-! ### Finalized heights -/

section

variable (ledger : Ledger τ)

/-- The depth that is used where none is configured. -/
def Ledger.effectiveDepth : ℕ :=
  if ledger.finalityDepth = 0 then defaultFinalityDepth else ledger.finalityDepth

theorem Ledger.effectiveDepth_pos : 0 < ledger.effectiveDepth := by
  unfold effectiveDepth
  split
  · decide
  · omega

theorem Ledger.nextFinalizedHeight_eq (height : ℕ) :
    ledger.nextFinalizedHeight height =
      if ledger.finalitySuspended then ledger.head.finalizedHeight
      else max ledger.head.finalizedHeight (height - ledger.effectiveDepth) := by
  change (if _ then _ else if height ≤ ledger.effectiveDepth then _
    else if height - ledger.effectiveDepth < _ then _ else height - ledger.effectiveDepth) = _
  split
  · rfl
  · split
    · omega
    · split <;> omega

theorem Ledger.le_nextFinalizedHeight (height : ℕ) :
    ledger.head.finalizedHeight ≤ ledger.nextFinalizedHeight height := by
  rw [nextFinalizedHeight_eq]
  split <;> omega

theorem Ledger.nextFinalizedHeight_lt {height : ℕ}
    (hheight : ledger.head.finalizedHeight < height) :
    ledger.nextFinalizedHeight height < height := by
  have hdepth := ledger.effectiveDepth_pos
  rw [nextFinalizedHeight_eq]
  split <;> omega

end

/-! ### Blocks that are stored -/

namespace StorageWrites

variable {proposal : BlockProposal τ} {blockHash genesis : Hash} {state : ChainState}
  {db nextDB : Database τ}

theorem headers_eq (h : StorageWrites model proposal blockHash state db nextDB)
    (htext : proposal.header.IsText) :
    nextDB.headers = db.headers.store blockHash proposal.header := by
  obtain ⟨stored, hstored, hblocks⟩ := h.blocks
  funext hash
  rw [headers, store, hblocks, Table.lookup_insert]
  split
  · rw [Option.map_some, hstored.header_eq htext]
  · rfl

theorem keyed (h : StorageWrites model proposal blockHash state db nextDB)
    (hkeyed : db.Keyed crypto genesis) (hhash : proposal.hash crypto = .ok blockHash)
    {headers : Headers} (hfits : headers.Fits genesis blockHash proposal.header) :
    nextDB.Keyed crypto genesis := by
  obtain ⟨stored, hstored, hblocks⟩ := h.blocks
  constructor
  · intro hash block hlookup
    rw [hblocks, Table.lookup_insert] at hlookup
    split at hlookup
    · next heq =>
      cases hlookup
      rw [heq, ← hhash, BlockProposal.hash, BlockProposal.hash, SignedHeader.hash,
        SignedHeader.hash, BlockProposal.signedHeader, BlockProposal.signedHeader,
        hstored.header_eq hfits.text]
    · exact hkeyed.hash_eq hash block hlookup
  · rw [hblocks, Table.lookup_insert, if_neg hfits.ne_genesis.symm]
    exact hkeyed.genesis

end StorageWrites

/-! ### Commits -/

section

variable {genesis blockHash : Hash} {headers : Headers} {ledger next : Ledger τ}
  {request : CommitBlockRequest τ} {transactionIDs : List TransactionID}
  {index : ℕ → Option Hash}

theorem Head.Follows.store {head : Head} (h : head.Follows genesis headers index) {hash : Hash}
    {header : BlockHeader} (hfits : headers.Fits genesis hash header) :
    head.Follows genesis (headers.store hash header) index := by
  intro height hlow hhigh
  obtain ⟨found, hindex, hancestor, hlevel⟩ := h height hlow hhigh
  exact ⟨found, hindex, hancestor.mono fun _ _ => hfits.parent_mono, hfits.level_mono hlevel⟩

section

variable (h : Ledger.Commits crypto model ledger request blockHash transactionIDs next)
include h

theorem Ledger.Commits.finalizedHeight_le :
    ledger.head.finalizedHeight ≤ next.head.finalizedHeight := by
  rw [h.finalizedHeight]
  exact ledger.le_nextFinalizedHeight _

variable (hanchored : ledger.head.Anchored genesis headers)
  (hfits : headers.Fits genesis blockHash request.proposal.header)
include hanchored hfits

/-- A committed block that fits is one above the head. -/
theorem Ledger.Commits.height_eq : request.proposal.header.height = ledger.head.height + 1 := by
  have hlevel := hfits.leveled blockHash ledger.head.blockHash
    (by rw [parent_store_self, h.parent]) _ (hfits.level_mono hanchored.head_level)
  rw [hfits.level_self] at hlevel
  exact Option.some.inj hlevel

/-- A commit keeps the head anchored if it finds the block at the new finalized height. -/
theorem Ledger.Commits.anchored {stored : Headers}
    (heq : stored = headers.store blockHash request.proposal.header)
    (hfinal : ∀ hash, IsAncestor stored.parent hash ledger.head.blockHash →
      stored.level genesis hash = some next.head.finalizedHeight →
        next.head.finalizedHash = hash) :
    next.head.Anchored genesis stored ∧
      IsAncestor stored.parent ledger.head.finalizedHash next.head.finalizedHash := by
  subst heq
  have hheight := h.height_eq hanchored hfits
  have hfinalizedHeight := hanchored.finalizedHeight_le
  have hparent : (headers.store blockHash request.proposal.header).parent blockHash =
      some ledger.head.blockHash := by
    rw [parent_store_self, h.parent]
  have hlt : ledger.nextFinalizedHeight request.proposal.header.height <
      request.proposal.header.height := ledger.nextFinalizedHeight_lt (by omega)
  have hstored := hanchored.store hfits
  refine hstored.move (.refl _) ?_ hstored.head_level ?_ h.finalizedHeight_le hfinalizedHeight ?_ ?_
  · rw [h.head.blockHash]
    exact .of_parent hparent
  · rw [h.head.blockHash, h.head.height]
    exact hfits.level_self
  · rw [h.finalizedHeight, h.head.height]
    omega
  · intro hash hancestor _ hlevel
    refine hfinal hash ?_ hlevel
    rw [h.head.blockHash] at hancestor
    refine hancestor.of_ne ?_ hparent
    rintro rfl
    rw [hfits.level_self, h.finalizedHeight] at hlevel
    exact absurd (Option.some.inj hlevel) (by omega)

end

/-- With a database the finalized block of a commit is looked up in the index. -/
theorem finalizedHashForCommittedHeight_eq {db : Database τ} {height : ℕ} {found hash : Hash}
    (hdb : ledger.db = some db) (hanchored : ledger.head.Anchored genesis headers)
    (hfollows : ledger.head.Follows genesis headers db.heightToHash.lookup)
    (h : ledger.finalizedHashForCommittedHeight height = .ok found)
    (hlow : ledger.head.finalizedHeight ≤ height)
    (hancestor : IsAncestor headers.parent hash ledger.head.blockHash)
    (hlevel : headers.level genesis hash = some height) : found = hash := by
  unfold Ledger.finalizedHashForCommittedHeight at h
  split at h
  · next hzero =>
    cases h
    have hfinal := hanchored.final_level
    rw [show ledger.head.finalizedHeight = height by omega] at hfinal
    exact hanchored.final.eq_of_level hanchored.leveled hancestor hfinal hlevel
  · split at h
    · next hhead =>
      cases h
      exact IsAncestor.eq_of_level hanchored.leveled (.refl _) hancestor
        (hhead ▸ hanchored.head_level) hlevel
    · simp only [hdb, orFail_eq_ok] at h
      rw [hanchored.index_eq hfollows hancestor hlevel hlow] at h
      exact (Option.some.inj h).symm

end

/-! ### Reorganizations -/

section

variable {genesis newTipHash : Hash} {db nextDB : Database τ} {plan : ReorgPlan}
  {new : List Hash} {state : ChainState} {head nextHead : Head} {delta : TransactionIndexDelta}

theorem Database.heightOf_of_mem_path {first last hash : Hash} {nodes : List Hash}
    (hkeyed : db.Keyed crypto genesis) (hpath : Path db.headers.parent first nodes last)
    (hmem : hash ∈ nodes) : db.heightOf hash = db.headers.level genesis hash := by
  obtain ⟨block, hblock⟩ := lookup_of_mem_path hpath hmem
  rw [hkeyed.level_of_lookup hblock, heightOf, hblock]
  rfl

theorem newBlockAtHeight_eq_ok {height : ℕ} {hashes : List Hash} {found : Option Hash}
    (h : newBlockAtHeight db height hashes = .ok found) :
    (∀ hash, found = some hash → hash ∈ hashes ∧ db.heightOf hash = some height) ∧
      (found = none → ∀ hash ∈ hashes, db.heightOf hash ≠ some height) := by
  induction hashes with
  | nil =>
    cases h
    exact ⟨(fun hash hfound => by cases hfound), fun _ hash hmem => by cases hmem⟩
  | cons first hashes ih =>
    obtain ⟨block, hload, hrest⟩ := bind_eq_ok.mp h
    have hheight : db.heightOf first = some block.header.height := by
      rw [heightOf, loadProposalByHash_eq_ok.mp hload]
      rfl
    split at hrest
    · next heq =>
      cases hrest
      refine ⟨?_, fun hnone => by cases hnone⟩
      rintro hash hfound
      cases hfound
      exact ⟨mem_cons_self, by rw [hheight, heq]⟩
    · next hne =>
      obtain ⟨hsome, hnone⟩ := ih hrest
      refine ⟨fun hash hfound => ?_, fun hfound hash hmem => ?_⟩
      · exact ⟨mem_cons_of_mem _ (hsome hash hfound).1, (hsome hash hfound).2⟩
      · rcases mem_cons.mp hmem with rfl | hlater
        · rw [hheight]
          exact fun heq => hne (Option.some.inj heq)
        · exact hnone hfound hash hlater

/-- A reorganization finds the block of the new branch at the new finalized height. -/
theorem finalizedHashFromReorgPlan_eq {height : ℕ} {found hash : Hash}
    (hkeyed : db.Keyed crypto genesis) (hanchored : head.Anchored genesis db.headers)
    (hfollows : head.Follows genesis db.headers db.heightToHash.lookup)
    (hlinks : plan.Links genesis db head.blockHash newTipHash new)
    (h : finalizedHashFromReorgPlan db height plan.commonAncestor plan.newBlocks
      head.finalizedHash = .ok found)
    (hlow : head.finalizedHeight ≤ height)
    (hancestor : IsAncestor db.headers.parent hash newTipHash)
    (hfinal : IsAncestor db.headers.parent head.finalizedHash hash)
    (hlevel : db.headers.level genesis hash = some height) : found = hash := by
  have hleveled := hanchored.leveled
  have hbranch : IsAncestor db.headers.parent plan.commonAncestor.blockHash newTipHash :=
    ⟨new, hlinks.branch⟩
  unfold finalizedHashFromReorgPlan at h
  split at h
  · next hzero =>
    cases h
    have hfinalLevel := hanchored.final_level
    rw [show head.finalizedHeight = height by omega] at hfinalLevel
    exact (hancestor.trans hfinal).eq_of_level hleveled hancestor hfinalLevel hlevel
  split at h
  · next heq =>
    cases h
    exact hbranch.eq_of_level hleveled hancestor (heq ▸ hlinks.level) hlevel
  next hne =>
  obtain ⟨inBranch, hsearch, h⟩ := bind_eq_ok.mp h
  obtain ⟨hsome, hnone⟩ := newBlockAtHeight_eq_ok hsearch
  rw [hlinks.newBlocks] at hsome hnone
  cases inBranch with
  | some newHash =>
    obtain rfl := pure_eq_ok.mp h
    obtain ⟨hmem, hheight⟩ := hsome newHash rfl
    rw [mem_reverse] at hmem
    rw [heightOf_of_mem_path hkeyed hlinks.branch hmem] at hheight
    exact ((hlinks.branch.level_of_mem hleveled hlinks.level hmem).1).eq_of_level hleveled
      hancestor hheight hlevel
  | none =>
    -- no block of the branch has the height, so that it lies below the common ancestor
    have hbelow : height ≤ plan.commonAncestor.height := by
      by_contra hnot
      have hmem := hlinks.branch.mem_of_level hleveled hancestor hlinks.level hlevel (by omega)
      refine hnone rfl hash (mem_reverse.mpr hmem) ?_
      rw [heightOf_of_mem_path hkeyed hlinks.branch hmem, hlevel]
    have hmain : IsAncestor db.headers.parent hash head.blockHash := by
      have hold : IsAncestor db.headers.parent plan.commonAncestor.blockHash head.blockHash :=
        ⟨_, hlinks.old⟩
      exact hold.trans (hbranch.of_level_le hleveled hancestor hlinks.level hlevel hbelow)
    simp only [orFail_eq_ok] at h
    rw [hanchored.index_eq hfollows hmain hlevel hlow] at h
    exact (Option.some.inj h).symm

section

variable (h : ReorgWrites model plan.oldBlocks plan.newBlocks state nextHead delta db nextDB)
  (hkeyed : db.Keyed crypto genesis)
  (hleveled : Leveled db.headers.parent (db.headers.level genesis))
  (hlinks : plan.Links genesis db head.blockHash newTipHash new)
include h hkeyed hleveled hlinks

/-- Up to the common ancestor the index stays as it is. -/
theorem ReorgWrites.height_kept {height : ℕ} (hle : height ≤ plan.commonAncestor.height) :
    nextDB.heightToHash.lookup height = db.heightToHash.lookup height := by
  have habove {first : Hash} {nodes : List Hash} {hash : Hash}
      (hpath : Path db.headers.parent first nodes plan.commonAncestor.blockHash)
      (hmem : hash ∈ nodes) : db.heightOf hash ≠ some height := by
    obtain ⟨-, level, hlevel, hlt⟩ := hpath.level_of_mem hleveled hlinks.level hmem
    rw [heightOf_of_mem_path hkeyed hpath hmem, hlevel]
    exact fun heq => absurd (Option.some.inj heq) (by omega)
  rw [h.heights]
  refine lookup_applyAll_of_not_mem fun hkey => ?_
  simp only [map_append, mem_append, map_flatMap, mem_flatMap, map_map,
    mem_map, Option.mem_toList, Function.comp_apply, key,
    exists_eq_right] at hkey
  rcases hkey with ⟨hash, hmem, hheight⟩ | ⟨hash, hmem, hheight⟩
  · exact habove hlinks.old hmem hheight
  · rw [hlinks.newBlocks, mem_reverse] at hmem
    exact habove hlinks.branch hmem hheight

/-- Above the common ancestor the index names the new branch. -/
theorem ReorgWrites.height_written {height : ℕ} {hash : Hash}
    (hancestor : IsAncestor db.headers.parent hash newTipHash)
    (hlevel : db.headers.level genesis hash = some height)
    (hlt : plan.commonAncestor.height < height) :
    nextDB.heightToHash.lookup height = some hash := by
  have hmem := hlinks.branch.mem_of_level hleveled hancestor hlinks.level hlevel hlt
  rw [h.heights, applyAll_append]
  refine lookup_applyAll_of_agree ?_ ?_
  · rw [mem_flatMap]
    refine ⟨hash, ?_, ?_⟩
    · rw [hlinks.newBlocks, mem_reverse]
      exact hmem
    · rw [heightOf_of_mem_path hkeyed hlinks.branch hmem, hlevel]
      exact mem_singleton_self _
  · intro write hwrite hkey
    simp only [mem_flatMap, mem_map, Option.mem_toList] at hwrite
    obtain ⟨other, hother, level, hotherHeight, rfl⟩ := hwrite
    obtain rfl : level = height := hkey
    rw [hlinks.newBlocks, mem_reverse] at hother
    rw [heightOf_of_mem_path hkeyed hlinks.branch hother] at hotherHeight
    rw [((hlinks.branch.level_of_mem hleveled hlinks.level hother).1).eq_of_level hleveled
      hancestor hotherHeight hlevel]

end

end

/-! ### Persistent ledgers -/

namespace Ledger

section

variable (crypto : Crypto) (genesis : Hash) (ledger : Ledger τ) (db : Database τ)

/-- The head of a persistent ledger is anchored in its stored blocks, and the height index
follows it. -/
structure Anchored :
    Prop where
  before : ledger.db = some db
  keyed : db.Keyed crypto genesis
  anchored : ledger.head.Anchored genesis db.headers
  follows : ledger.head.Follows genesis db.headers db.heightToHash.lookup

/-- What an operation does to an anchored ledger. -/
structure Extends (next : Ledger τ) (nextDB : Database τ) : Prop extends
    next.Anchored crypto genesis nextDB where
  grows : ∀ hash above, db.headers.parent hash = some above →
    nextDB.headers.parent hash = some above
  finalized : ledger.head.finalizedHeight ≤ next.head.finalizedHeight

/-- What was finalized stays finalized. -/
structure Keeps (next : Ledger τ) (nextDB : Database τ) : Prop extends
    Extends crypto genesis ledger db next nextDB where
  kept : IsAncestor nextDB.headers.parent ledger.head.finalizedHash next.head.finalizedHash

end

variable {genesis : Hash} {ledger next : Ledger τ} {db : Database τ}

section

variable (h : ledger.Anchored crypto genesis db)
include h

/-- Nothing that matters for finality has changed. -/
theorem Anchored.same {nextDB : Database τ} (hdb : next.db = some nextDB)
    (hblocks : nextDB.blocks = db.blocks) (hheights : nextDB.heightToHash = db.heightToHash)
    (hhead : ∃ qcHash, next.head = { ledger.head with qcHash := qcHash }) :
    Keeps crypto genesis ledger db next nextDB := by
  obtain ⟨qcHash, hhead⟩ := hhead
  have hheaders : nextDB.headers = db.headers := by
    unfold headers
    rw [hblocks]
  have hkeyed : nextDB.Keyed crypto genesis :=
    ⟨hblocks ▸ h.keyed.hash_eq, hblocks ▸ h.keyed.genesis⟩
  refine ⟨⟨⟨hdb, hkeyed, ?_, ?_⟩, ?_, ?_⟩, ?_⟩
  · rw [hhead, hheaders]
    exact { h.anchored with }
  · rw [hhead, hheaders, hheights]
    exact h.follows
  · rw [hheaders]
    exact fun _ _ hparent => hparent
  · rw [hhead]
  · rw [hhead]
    exact .refl _

theorem Anchored.commit {request : CommitBlockRequest τ}
    (hfits : db.headers.FitsBlock crypto genesis request.proposal)
    (hstep : ledger.commitBlock crypto model request = .ok next) :
    ∃ nextDB, Keeps crypto genesis ledger db next nextDB := by
  obtain ⟨blockHash, transactionIDs, hcommits, hpersists⟩ := commitBlock_eq_ok hstep
  obtain ⟨nextDB, hafter, hwrites⟩ := exists_stored hpersists h.before
  have hfits := hfits blockHash hcommits.hash
  have hheaders := hwrites.headers_eq hfits.text
  have hheight := hcommits.height_eq h.anchored hfits
  have hstored := hheaders ▸ h.anchored.store hfits
  have hfollows := hheaders ▸ h.follows.store hfits
  have hparent : nextDB.headers.parent blockHash = some ledger.head.blockHash := by
    rw [hheaders, parent_store_self, hcommits.parent]
  have hanchored := hcommits.anchored h.anchored hfits hheaders fun hash hancestor hlevel =>
    finalizedHashForCommittedHeight_eq h.before hstored hfollows
      (hcommits.finalizedHeight ▸ hcommits.finalizedHash) hcommits.finalizedHeight_le hancestor
      hlevel
  refine ⟨nextDB, ⟨⟨hafter, hwrites.keyed h.keyed hcommits.hash hfits, hanchored.1, ?_⟩,
    ?_, hcommits.finalizedHeight_le⟩, hanchored.2⟩
  · refine hstored.follows_move (.refl _) ?_ hstored.head_level hanchored.1.head_level
      hcommits.finalizedHeight_le hfollows ?_ ?_
    · rw [hcommits.head.blockHash]
      exact .of_parent hparent
    · intro low hlow
      rw [hwrites.heights, Table.lookup_insert, if_neg]
      rw [hcommits.head.height]
      omega
    · intro hash high hancestor hlevel hhigh
      have hhead := hanchored.1.head_level
      have hle := hancestor.level_le hstored.leveled hlevel hhead
      have hheadHeight := hcommits.head.height
      obtain rfl : high = next.head.height := by omega
      rw [hwrites.heights, Table.lookup_insert, if_pos rfl, ← hcommits.head.blockHash]
      exact congrArg some (IsAncestor.eq_of_level hstored.leveled (.refl _) hancestor hhead hlevel)
  · intro hash above habove
    rw [hheaders]
    exact hfits.parent_mono habove

theorem Anchored.candidate {request : CommitBlockRequest τ} {blockHash : Hash}
    (hfits : db.headers.FitsBlock crypto genesis request.proposal)
    (hstep : ledger.saveBlockCandidate crypto model request = .ok (next, blockHash)) :
    ∃ nextDB, Keeps crypto genesis ledger db next nextDB := by
  obtain ⟨hhash, -, -, hnext, hdb⟩ := saveBlockCandidate_eq_ok hstep
  obtain ⟨nextDB, hafter, hwrites, hindexes, -⟩ := exists_stored hdb h.before
  have hfits := hfits blockHash hhash
  have hhead : next.head = ledger.head := by rw [hnext]
  refine ⟨nextDB, ⟨⟨hafter, hwrites.keyed h.keyed hhash hfits, ?_, ?_⟩, ?_, ?_⟩, ?_⟩
  · rw [hhead, hwrites.headers_eq hfits.text]
    exact h.anchored.store hfits
  · rw [hhead, hwrites.headers_eq hfits.text, hindexes.heights]
    exact h.follows.store hfits
  · intro hash above habove
    rw [hwrites.headers_eq hfits.text]
    exact hfits.parent_mono habove
  · rw [hhead]
  · rw [hhead]
    exact .refl _

theorem Anchored.reorganize {newTipHash : Hash} {decision : ForkDecision}
    (hstep : ledger.reorganizeTo crypto model newTipHash = .ok (next, decision)) :
    ∃ nextDB, Keeps crypto genesis ledger db next nextDB := by
  rcases reorganizeTo_eq_ok hstep with rfl | ⟨before, newTip, plan, operations, delta, hreorg⟩
  · exact ⟨db, h.same h.before rfl rfl ⟨next.head.qcHash, rfl⟩⟩
  obtain rfl := Option.mem_unique h.before hreorg.before
  have hwrites := collectReorgOps_eq_ok hreorg.collected
  obtain ⟨new, hlinks⟩ := collectReorgPlan_eq_ok h.keyed hreorg.tip h.anchored.root hreorg.planned
  have hheaders : (db.dataTransaction operations).headers = db.headers := by
    unfold headers
    rw [hwrites.blocks]
  have hbranch : IsAncestor db.headers.parent plan.commonAncestor.blockHash
      next.head.blockHash := by
    rw [hreorg.head.blockHash]
    exact ⟨new, hlinks.branch⟩
  have hlevel : db.headers.level genesis next.head.blockHash = some next.head.height := by
    rw [hreorg.head.blockHash, hreorg.head.height]
    exact h.keyed.level_of_lookup hreorg.tip
  have hlow : ledger.head.finalizedHeight ≤ next.head.finalizedHeight := by
    rw [hreorg.finalizedHeight]
    exact ledger.le_nextFinalizedHeight _
  have hhigh : next.head.finalizedHeight ≤ next.head.height := by
    have hle := hbranch.level_le h.anchored.leveled hlinks.level hlevel
    have hnotBelow := hreorg.notBelow
    have hheight := hreorg.head.height
    rw [hreorg.finalizedHeight, ledger.nextFinalizedHeight_eq]
    split <;> omega
  obtain ⟨hanchored, hkept⟩ := h.anchored.move ⟨_, hlinks.old⟩ hbranch hlinks.level
    hlevel hlow hreorg.notBelow hhigh fun hash hancestor hfinal hhashLevel =>
      finalizedHashFromReorgPlan_eq h.keyed h.anchored h.follows hlinks
        (hreorg.finalizedHeight ▸ hreorg.finalizedHash) hlow
        (hreorg.head.blockHash ▸ hancestor) hfinal hhashLevel
  refine ⟨_, ⟨⟨hreorg.after, ⟨hwrites.blocks ▸ h.keyed.hash_eq, hwrites.blocks ▸ h.keyed.genesis⟩,
    ?_, ?_⟩, ?_, hlow⟩, ?_⟩
  · rw [hheaders]
    exact hanchored
  · rw [hheaders]
    refine h.anchored.follows_move ⟨_, hlinks.old⟩ hbranch hlinks.level hlevel hlow h.follows
      (fun low hle => hwrites.height_kept h.keyed h.anchored.leveled hlinks hle) ?_
    intro hash high hancestor hhashLevel hlt
    exact hwrites.height_written h.keyed h.anchored.leveled hlinks
      (hreorg.head.blockHash ▸ hancestor) hhashLevel hlt
  · rw [hheaders]
    exact fun _ _ hparent => hparent
  · rw [hheaders]
    exact hkept

theorem Anchored.certificate {qc : QuorumCertificate} (hstep : ledger.saveQC crypto qc = .ok next) :
    ∃ nextDB, Keeps crypto genesis ledger db next nextDB := by
  have hsaves := saveQC_eq_ok hstep
  obtain ⟨nextDB, hafter, hstorage, hindexes, -⟩ := exists_stored hsaves.db h.before
  exact ⟨nextDB, h.same hafter hstorage.blocks hindexes.heights hsaves.head⟩

theorem Anchored.suspend (suspended : Bool) :
    Keeps crypto genesis ledger db (ledger.setFinalitySuspended suspended) db :=
  h.same h.before rfl rfl ⟨ledger.head.qcHash, rfl⟩

theorem Anchored.advance {height : ℕ} {blockHash : Hash}
    (hadvances : Advances ledger height blockHash next)
    (hlow : ledger.head.finalizedHeight ≤ height) :
    ∃ nextDB, Keeps crypto genesis ledger db next nextDB := by
  have hindex : db.heightToHash.lookup height = some blockHash := by
    have hmain := hadvances.mainChain
    rwa [mainChainHashAtHeight, h.before] at hmain
  obtain ⟨found, hfound, hancestor, hlevel⟩ := h.follows height hlow hadvances.le_head
  obtain rfl := Option.mem_unique hindex hfound
  obtain ⟨hanchored, hkept⟩ := h.anchored.advance hancestor hlevel hlow
  have hnext := hadvances.eq
  rw [h.before] at hnext
  subst hnext
  exact ⟨_, ⟨⟨rfl, ⟨h.keyed.hash_eq, h.keyed.genesis⟩, hanchored,
    fun other hfrom hto => h.follows other (Nat.le_trans hlow hfrom) hto⟩,
    fun _ _ hparent => hparent, hlow⟩, hkept⟩

end

/-- A snapshot that fits is its own anchor. -/
theorem Replaces.anchored {request : ImportSnapshotRequest τ} {blockHash : Hash}
    {transactionIDs removed : List TransactionID} {headers : Headers}
    (h : Replaces crypto model ledger request blockHash transactionIDs removed next)
    (hfits : headers.Fits genesis blockHash request.proposal.header) :
    next.head.Anchored genesis (headers.store blockHash request.proposal.header) := by
  have habove := h.above
  refine ⟨hfits.leveled, ?_, ?_, fun hzero => ?_, ?_⟩
  · rw [h.head.blockHash, h.head.height]
    exact hfits.level_self
  · rw [h.finalizedHash, h.finalizedHeight]
    exact hfits.level_self
  · rw [h.finalizedHeight] at hzero
    omega
  · rw [h.head.blockHash, h.finalizedHash]
    exact .refl _

theorem Anchored.snapshot (h : ledger.Anchored crypto genesis db)
    {request : ImportSnapshotRequest τ}
    (hfits : db.headers.FitsBlock crypto genesis request.proposal)
    (hstep : ledger.importFinalizedSnapshot crypto model request = .ok next) :
    ∃ nextDB, Extends crypto genesis ledger db next nextDB := by
  rcases importFinalizedSnapshot_eq_ok hstep with rfl | ⟨blockHash, -, habove, hadvances⟩ |
    ⟨blockHash, transactionIDs, removed, hreplaces, hdb⟩
  · exact ⟨db, (h.same h.before rfl rfl ⟨next.head.qcHash, rfl⟩).toExtends⟩
  · obtain ⟨nextDB, hkeeps⟩ := h.advance hadvances habove.le
    exact ⟨nextDB, hkeeps.toExtends⟩
  obtain ⟨nextDB, hafter, hwrites⟩ := exists_stored hdb h.before
  have hfits := hfits blockHash hreplaces.hash
  have hheaders := hwrites.headers_eq hfits.text
  have hanchored := hreplaces.anchored hfits
  rw [← hheaders] at hanchored
  refine ⟨nextDB, ⟨hafter, hwrites.keyed h.keyed hreplaces.hash hfits, hanchored, ?_⟩,
    ?_, ?_⟩
  · intro height hfrom hto
    rw [hreplaces.finalizedHeight, ← hreplaces.head.height] at hfrom
    obtain rfl : height = next.head.height := by omega
    refine ⟨blockHash, ?_, ?_, ?_⟩
    · rw [hwrites.heights, applyAll_append]
      exact AList.lookup_insert _
    · rw [hreplaces.head.blockHash]
      exact .refl _
    · rw [← hreplaces.head.blockHash]
      exact hanchored.head_level
  · intro hash above habove
    rw [hheaders]
    exact hfits.parent_mono habove
  · rw [hreplaces.finalizedHeight]
    exact hreplaces.above.le

theorem Begins.anchored (h : Begins crypto ledger) (headers : Headers)
    (hempty : ∀ hash, headers hash = none) :
    ledger.head.Anchored ledger.head.blockHash headers := by
  refine ⟨fun hash above habove => ?_, ?_, ?_, fun _ => h.finalizedHash, ?_⟩
  · rw [parent, hempty] at habove
    cases habove
  · rw [h.height]
    exact level_genesis
  · rw [h.finalizedHash, h.finalizedHeight]
    exact level_genesis
  · rw [h.finalizedHash]
    exact .refl _

theorem Begins.anchored_db (h : Begins crypto ledger)
    (hwrites : GenesisWrites ledger.state ledger.head .empty db) (hdb : ledger.db = some db) :
    ledger.Anchored crypto ledger.head.blockHash db := by
  have hlookup : ∀ hash, db.blocks.lookup hash = none := fun hash => by
    rw [hwrites.blocks]
    exact AList.lookup_empty hash
  have hempty : ∀ hash, db.headers hash = none := fun hash => by
    rw [headers, hlookup]
    rfl
  refine ⟨hdb, ⟨fun hash block hblock => ?_, hlookup _⟩, h.anchored _ hempty, ?_⟩
  · rw [hlookup] at hblock
    cases hblock
  · intro height _ hto
    rw [h.height] at hto
    obtain rfl := Nat.le_zero.mp hto
    refine ⟨ledger.head.blockHash, ?_, .refl _, level_genesis⟩
    rw [hwrites.heights, h.height]
    exact AList.lookup_insert _

/-! ### Irrevocable finality -/

/-- The headers of the stored blocks; none are stored in memory. -/
def headers (ledger : Ledger τ) : Headers :=
  match ledger.db with
  | some db => db.headers
  | none => fun _ => none

/-- The operations that leave checkpoints alone, with blocks that fit. -/
def KeepsFinality (crypto : Crypto) (genesis : Hash) (ledger : Ledger τ) :
    LedgerOperation τ → Prop
  | .commitBlock request => ledger.headers.FitsBlock crypto genesis request.proposal
  | .saveBlockCandidate request => ledger.headers.FitsBlock crypto genesis request.proposal
  | .reorganizeTo _ => True
  | .saveQC _ => True
  | .setFinalitySuspended _ => True
  | .importFinalizedSnapshot _ => False
  | .advanceFinalizedCheckpoint _ _ => False

section

variable (h : ledger.Anchored crypto genesis db)
include h

theorem Anchored.headers_eq : ledger.headers = db.headers := by
  rw [headers, h.before]

theorem Anchored.step {operation : LedgerOperation τ}
    (hok : KeepsFinality crypto genesis ledger operation)
    (hstep : ledger.step crypto model operation = some next) :
    ∃ nextDB, Keeps crypto genesis ledger db next nextDB := by
  have hperform := toOption_eq_some.mp hstep
  cases operation with
  | commitBlock request => exact h.commit (h.headers_eq ▸ hok) hperform
  | saveBlockCandidate request =>
    obtain ⟨⟨saved, blockHash⟩, hsave, hnext⟩ := bind_eq_ok.mp hperform
    cases hnext
    exact h.candidate (h.headers_eq ▸ hok) hsave
  | reorganizeTo newTipHash =>
    obtain ⟨⟨moved, decision⟩, hreorg, hnext⟩ := bind_eq_ok.mp hperform
    cases hnext
    exact h.reorganize hreorg
  | saveQC qc => exact h.certificate hperform
  | setFinalitySuspended suspended =>
    cases hperform
    exact ⟨db, h.suspend suspended⟩
  | importFinalizedSnapshot request | advanceFinalizedCheckpoint height blockHash => exact hok.elim

/-- What is finalized at some point of a run stays finalized to its end. -/
theorem Anchored.reaches
    (hreach : Reaches (Ledger.step crypto model) (KeepsFinality crypto genesis) ledger next) :
    ∃ nextDB, next.Anchored crypto genesis nextDB ∧
      IsAncestor nextDB.headers.parent ledger.head.finalizedHash next.head.finalizedHash := by
  induction hreach with
  | start => exact ⟨db, h, .refl _⟩
  | next _ hok hstep ih =>
    obtain ⟨middleDB, hmiddle, hancestor⟩ := ih
    obtain ⟨lastDB, hkeeps⟩ := hmiddle.step hok hstep
    exact ⟨lastDB, hkeeps.toAnchored, hkeeps.kept.trans (hancestor.mono hkeeps.grows)⟩

end

end Ledger

/-- In every run of a persistent ledger whose blocks fit, a block that is finalized at some
point is an ancestor of every later head. -/
theorem finalized_isAncestor_of_later_head {program : Shielded.Program} {genesis : GenesisConfig}
    {config : LedgerConfig} {created first second : Ledger τ}
    (hcreated : Ledger.newLedgerFromGenesisWithConfig crypto program (some .empty) genesis config =
      .ok created)
    (hfirst : Reaches (Ledger.step crypto model)
      (Ledger.KeepsFinality crypto created.head.blockHash) created first)
    (hsecond : Reaches (Ledger.step crypto model)
      (Ledger.KeepsFinality crypto created.head.blockHash) first second) :
    IsAncestor second.headers.parent first.head.finalizedHash second.head.blockHash := by
  obtain ⟨hbegins, db, hdb, hwrites⟩ := Ledger.newLedgerFromGenesisWithConfig_persistent hcreated
  obtain ⟨firstDB, hfirstAnchored, -⟩ := (hbegins.anchored_db hwrites hdb).reaches hfirst
  obtain ⟨secondDB, hsecondAnchored, hkept⟩ := hfirstAnchored.reaches hsecond
  rw [hsecondAnchored.headers_eq]
  exact hsecondAnchored.anchored.final.trans hkept

/-! ### A small chain

Transactions are numbers, the state never changes and the hash of a block is one more than its
time. -/

def chainCrypto : Crypto where
  sha256 := fun bytes => Borsh.ofLittleEndian (bytes.drop (bytes.length - 8)) + 1
  newValidatorID := fun _ => []
  decodesAsBLSKey := fun _ => true
  verifyMessageSignature := fun _ _ _ => true

def chainGenesis : GenesisConfig where
  chainID := [99]
  initialSupplyLamports := 0
  treasuryAddress := 77
  fundedAccounts := []
  initialValidators := []

def chainModel : LedgerTransactionModel ℕ where
  txIDString := fun number => .ok [UInt8.ofNat number]
  transactionLockAccounts := fun _ => .ok ([], [])
  markTransactionConfirmed := fun number _ => number
  hash := fun number => .ok number
  estimateTransactionResourceDemand := fun _ => .ok 0
  txIDString_mark := fun _ _ => rfl
  transactionLockAccounts_mark := fun _ _ => rfl
  estimateTransactionResourceDemand_mark := fun _ _ => rfl
  stored := .ok
  submitTime := fun _ => 0
  extractAddressHistoryEffects := fun _ => .ok []
  txIDString_stored := fun h => by rw [Except.ok.inj h]
  extractAddressHistoryEffects_stored := fun _ => rfl

def chainStart (persistent : Bool) (finalityDepth : ℕ) : Except String (Ledger ℕ) :=
  Ledger.newLedgerFromGenesisWithConfig chainCrypto sampleShielded
    (if persistent then some .empty else none) chainGenesis
    { finalityDepth := finalityDepth, disableStateRecovery := true }

def chainHeader (height : ℕ) (parentHash stateRoot : Hash) (time : ℕ) : BlockHeader where
  chainID := [99]
  slot := height
  height := height
  parentHash := parentHash
  previousQCHash := 0
  timeoutQCHash := 0
  leaderID := []
  epochID := 0
  epochSnapshotRoot := 0
  txRoot := 0
  receiptRoot := 0
  rewardQCRoot := 0
  evidenceRoot := 0
  rewardRoot := 0
  stateRoot := stateRoot
  accountRoot := 0
  timestampUnixMilli := time

def chainBlock (header : BlockHeader) (transactions : List ℕ) : BlockProposal ℕ where
  header := header
  transactions := transactions
  rewardQCs := []
  timeoutQC := none
  evidence := []
  rewards := []
  leaderSignature := 0

/-- A block with the state of the ledger. -/
def chainRequest (ledger : Ledger ℕ) (header : BlockHeader) (transactions : List ℕ) :
    CommitBlockRequest ℕ where
  proposal := chainBlock header transactions
  nextState := ledger.state
  qc := none

/-- The root of the state of the small chain, which is also the hash of its genesis block. -/
def chainRoot : Hash := 72057594037927937

/-- Three blocks on top of each other; with a finality depth of two the first becomes final. -/
def chainCommits (ledger : Ledger ℕ) : List (LedgerOperation ℕ) :=
  [.commitBlock (chainRequest ledger (chainHeader 1 chainRoot chainRoot 10) [5]),
    .commitBlock (chainRequest ledger (chainHeader 2 11 chainRoot 20) [6]),
    .commitBlock (chainRequest ledger (chainHeader 3 21 chainRoot 30) [])]

/-- A longer branch from the first block takes over, with a transaction of the old one. -/
def chainTakeover (ledger : Ledger ℕ) : List (LedgerOperation ℕ) :=
  [.saveBlockCandidate (chainRequest ledger (chainHeader 2 11 chainRoot 21) [7]),
    .saveBlockCandidate (chainRequest ledger (chainHeader 3 22 chainRoot 31) [6]),
    .saveBlockCandidate (chainRequest ledger (chainHeader 4 32 chainRoot 41) []),
    .reorganizeTo 42]

/-- A test for the operations that keep finality. -/
def Ledger.checkKeepsFinality (crypto : Crypto) (genesis : Hash) (ledger : Ledger τ) :
    LedgerOperation τ → Bool
  | .commitBlock request => ledger.db.any fun db => db.checkFits crypto genesis request.proposal
  | .saveBlockCandidate request =>
    ledger.db.any fun db => db.checkFits crypto genesis request.proposal
  | .importFinalizedSnapshot _ => false
  | .advanceFinalizedCheckpoint _ _ => false
  | _ => true

theorem fitsBlock_of_any {ledger : Ledger τ} {genesis : Hash} {proposal : BlockProposal τ}
    (h : (ledger.db.any fun db => db.checkFits crypto genesis proposal) = true) :
    ledger.headers.FitsBlock crypto genesis proposal := by
  obtain ⟨db, hdb, hfits⟩ := (Option.any_eq_true ..).mp h
  rw [Ledger.headers, hdb]
  exact fitsBlock_of_checkFits hfits

theorem keepsFinality_of_check (genesis : Hash) (ledger : Ledger τ)
    (operation : LedgerOperation τ)
    (h : ledger.checkKeepsFinality crypto genesis operation = true) :
    ledger.KeepsFinality crypto genesis operation := by
  cases operation with
  | commitBlock request => exact fitsBlock_of_any h
  | saveBlockCandidate request => exact fitsBlock_of_any h
  | importFinalizedSnapshot request => cases h
  | advanceFinalizedCheckpoint height blockHash => cases h
  | _ => trivial

/-- The first block becomes final, and a fork replaces the two blocks above it. -/
theorem finalized_isAncestor_of_later_head_fork :
    ∃ created first second : Ledger ℕ, chainStart true 2 = .ok created ∧
      Reaches (Ledger.step chainCrypto chainModel)
        (Ledger.KeepsFinality chainCrypto created.head.blockHash) created first ∧
      Reaches (Ledger.step chainCrypto chainModel)
        (Ledger.KeepsFinality chainCrypto created.head.blockHash) first second ∧
      first.head.finalizedHash = 11 ∧ first.head.blockHash = 31 ∧ second.head.blockHash = 42 ∧
      IsAncestor second.headers.parent first.head.finalizedHash second.head.blockHash := by
  have hrun : (chainStart true 2).toOption.any (fun created =>
      (run (fun ledger operation =>
          if ledger.checkKeepsFinality chainCrypto created.head.blockHash operation then
            ledger.step chainCrypto chainModel operation else none) created
        (chainCommits created)).any fun first =>
      (run (fun ledger operation =>
          if ledger.checkKeepsFinality chainCrypto created.head.blockHash operation then
            ledger.step chainCrypto chainModel operation else none) first
        (chainTakeover created)).any fun second =>
      decide (first.head.finalizedHash = 11 ∧ first.head.blockHash = 31 ∧
        second.head.blockHash = 42)) = true := by decide +kernel
  obtain ⟨created, hcreated, hrun⟩ := exists_of_any hrun
  obtain ⟨first, hfirst, hrun⟩ := exists_of_checked_run _ (keepsFinality_of_check _) hrun
  obtain ⟨second, hsecond, htest⟩ := exists_of_checked_run _ (keepsFinality_of_check _) hrun
  obtain ⟨hfinal, hhead, htip⟩ := of_decide_eq_true htest
  exact ⟨created, first, second, hcreated, hfirst, hsecond, hfinal, hhead, htip,
    finalized_isAncestor_of_later_head hcreated hfirst hsecond⟩

/-! The bytes that are hashed give the lengths neither of the chain id nor of the name of the
leader. A block that is committed under one parent can be handed in again under another. -/

/-- A header of height two with another parent in the hashes of its certificates. -/
def hidingHeader (parentHash hiddenParent : Hash) : BlockHeader :=
  { chainHeader 2 parentHash chainRoot 20 with
    previousQCHash :=
      Borsh.ofBigEndian (uint64ForHash 2 ++ (Borsh.bigEndian 32 hiddenParent).take 24)
    timeoutQCHash :=
      Borsh.ofBigEndian ((Borsh.bigEndian 32 hiddenParent).drop 24 ++ List.replicate 24 0)
    leaderID := List.replicate 40 1 }

/-- The same bytes with the fields forty bytes later. -/
def hiddenHeader (parentHash hiddenParent : Hash) : BlockHeader :=
  { hidingHeader parentHash hiddenParent with
    chainID := [99] ++ uint64ForHash 2 ++ uint64ForHash 2 ++
      (Borsh.bigEndian 32 parentHash).take 24
    slot := Borsh.ofLittleEndian ((Borsh.bigEndian 32 parentHash).drop 24)
    height := 2
    parentHash := hiddenParent
    previousQCHash := Borsh.ofBigEndian (List.replicate 24 0 ++ List.replicate 8 1)
    timeoutQCHash := Borsh.ofBigEndian (List.replicate 32 1)
    leaderID := [] }

/-- Is a block that is handed in one higher than its parent? -/
def Ledger.oneAboveParent (genesis : Hash) (ledger : Ledger τ) : LedgerOperation τ → Bool
  | .commitBlock request =>
    (ledger.headers.level genesis request.proposal.header.parentHash).any fun height =>
      request.proposal.header.height = height + 1
  | .saveBlockCandidate request =>
    (ledger.headers.level genesis request.proposal.header.parentHash).any fun height =>
      request.proposal.header.height = height + 1
  | _ => true

/-- Three blocks, of which the first becomes final. -/
def finalizingRun (ledger : Ledger ℕ) : List (LedgerOperation ℕ) :=
  [.commitBlock (chainRequest ledger (chainHeader 1 chainRoot chainRoot 10) []),
    .commitBlock (chainRequest ledger (hidingHeader 11 12) []),
    .commitBlock (chainRequest ledger (chainHeader 3 21 chainRoot 30) [])]

/-- A branch from the genesis block; the second block of the main chain is handed in again. -/
def abandoningRun (ledger : Ledger ℕ) : List (LedgerOperation ℕ) :=
  [.saveBlockCandidate (chainRequest ledger (chainHeader 1 chainRoot chainRoot 11) []),
    .saveBlockCandidate (chainRequest ledger (hiddenHeader 11 12) []),
    .saveBlockCandidate (chainRequest ledger (chainHeader 2 12 chainRoot 21) []),
    .saveBlockCandidate (chainRequest ledger (chainHeader 3 22 chainRoot 31) []),
    .saveBlockCandidate (chainRequest ledger (chainHeader 4 32 chainRoot 41) []),
    .reorganizeTo 42]

/-- Two headers with the same bytes, and a run whose blocks are all one higher than their
parents that leaves a finalized block behind. -/
theorem finalized_block_abandoned :
    (hidingHeader 11 12).signBytes = (hiddenHeader 11 12).signBytes ∧
    ∃ created first second : Ledger ℕ, chainStart true 2 = .ok created ∧
      Reaches (Ledger.step chainCrypto chainModel)
        (fun ledger operation => ledger.oneAboveParent chainRoot operation = true)
        created first ∧
      Reaches (Ledger.step chainCrypto chainModel)
        (fun ledger operation => ledger.oneAboveParent chainRoot operation = true)
        first second ∧
      first.head.finalizedHeight = 1 ∧
      ¬IsAncestor second.headers.parent first.head.finalizedHash second.head.blockHash := by
  refine ⟨by decide +kernel, ?_⟩
  have hrun : (chainStart true 2).toOption.any (fun created =>
      (run (fun ledger operation => if ledger.oneAboveParent chainRoot operation then
          ledger.step chainCrypto chainModel operation else none) created
        (finalizingRun created)).any fun first =>
      (run (fun ledger operation => if ledger.oneAboveParent chainRoot operation then
          ledger.step chainCrypto chainModel operation else none) first
        (abandoningRun created)).any fun second =>
      first.head.finalizedHeight = 1 &&
      (ancestors second.headers.parent 6 second.head.blockHash).any fun nodes =>
        decide (first.head.finalizedHash ∉ nodes)) = true := by decide +kernel
  obtain ⟨created, hcreated, hrun⟩ := exists_of_any hrun
  obtain ⟨first, hfirst, hrun⟩ := exists_of_guarded_run hrun
  obtain ⟨second, hsecond, htest⟩ := exists_of_guarded_run hrun
  rw [Bool.and_eq_true, decide_eq_true_eq] at htest
  obtain ⟨nodes, hnodes, hnot⟩ := (Option.any_eq_true ..).mp htest.2
  exact ⟨created, first, second, hcreated, hfirst, hsecond, htest.1,
    fun hancestor => of_decide_eq_true hnot (mem_ancestors hnodes hancestor)⟩

end Ordexus.Blockchain
