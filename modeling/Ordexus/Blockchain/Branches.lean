import Ordexus.Blockchain.Writes
import Ordexus.Library.Ancestry

/-!
# Branches of stored blocks

The headers a ledger knows form a forest under the genesis block, which has no header of its
own. A block that is handed in fits if its hash names no other block and heights still go up
by one from every block to its children. The walks of `collectReorgPlan` are then paths of the
forest: one from the head and one from the new tip to the same ancestor.
-/

namespace Ordexus.Blockchain

open Checked Ancestry List

variable {τ : Type}

/-- The known headers, by the hashes of their blocks. -/
abbrev Headers := Hash → Option BlockHeader

namespace Headers

variable {headers : Headers} {genesis hash : Hash} {header : BlockHeader}

def parent (headers : Headers) (hash : Hash) : Option Hash :=
  (headers hash).map BlockHeader.parentHash

/-- The height of a block; the genesis block has height zero. -/
def level (genesis : Hash) (headers : Headers) (hash : Hash) : Option ℕ :=
  if hash = genesis then some 0 else (headers hash).map BlockHeader.height

def store (headers : Headers) (hash : Hash) (header : BlockHeader) : Headers :=
  fun other => if other = hash then some header else headers other

/-- What is asked of a block that is handed in: its texts are valid, its hash is that of no other
block, and every block is one higher than its parent. -/
structure Fits (genesis : Hash) (headers : Headers) (hash : Hash) (header : BlockHeader) :
    Prop where
  text : header.IsText
  ne_genesis : hash ≠ genesis
  same : ∀ stored, headers hash = some stored → stored = header
  leveled : Leveled (headers.store hash header).parent ((headers.store hash header).level genesis)

/-- The same for a block with its own hash. -/
def FitsBlock (crypto : Crypto) (genesis : Hash) (headers : Headers)
    (proposal : BlockProposal τ) : Prop :=
  ∀ hash, proposal.hash crypto = .ok hash → headers.Fits genesis hash proposal.header

theorem store_self : headers.store hash header hash = some header :=
  if_pos rfl

theorem parent_store_self : (headers.store hash header).parent hash = some header.parentHash := by
  rw [parent, store_self]
  rfl

section

variable (hfits : Fits genesis headers hash header)
include hfits

theorem Fits.mono {other : Hash} {stored : BlockHeader} (hstored : headers other = some stored) :
    headers.store hash header other = some stored := by
  unfold store
  split
  · next heq =>
    subst heq
    rw [hfits.same stored hstored]
  · exact hstored

theorem Fits.parent_mono {other above : Hash} (hparent : headers.parent other = some above) :
    (headers.store hash header).parent other = some above := by
  obtain ⟨stored, hstored, rfl⟩ := Option.map_eq_some_iff.mp hparent
  rw [parent, hfits.mono hstored]
  rfl

theorem Fits.level_mono {other : Hash} {height : ℕ}
    (hlevel : headers.level genesis other = some height) :
    (headers.store hash header).level genesis other = some height := by
  unfold level at hlevel ⊢
  split
  · next heq => rwa [if_pos heq] at hlevel
  · next hne =>
    rw [if_neg hne] at hlevel
    obtain ⟨stored, hstored, rfl⟩ := Option.map_eq_some_iff.mp hlevel
    rw [hfits.mono hstored]
    rfl

theorem Fits.level_self : (headers.store hash header).level genesis hash = some header.height := by
  rw [level, if_neg hfits.ne_genesis, store_self]
  rfl

end

theorem level_genesis : headers.level genesis genesis = some 0 :=
  if_pos rfl

end Headers

/-! ### Stored blocks -/

namespace Database

def headers (db : Database τ) : Headers :=
  fun hash => (db.blocks.lookup hash).map BlockProposal.header

/-- Every block is stored under its own hash, and none under that of the genesis block. -/
structure Keyed (crypto : Crypto) (genesis : Hash) (db : Database τ) : Prop where
  hash_eq : ∀ hash block, db.blocks.lookup hash = some block → block.hash crypto = .ok hash
  genesis : db.blocks.lookup genesis = none

variable {db : Database τ} {hash genesis : Hash} {block : BlockProposal τ} {crypto : Crypto}

theorem headers_of_lookup (h : db.blocks.lookup hash = some block) :
    db.headers hash = some block.header := by
  rw [headers, h]
  rfl

theorem parent_of_lookup (h : db.blocks.lookup hash = some block) :
    db.headers.parent hash = some block.header.parentHash := by
  rw [Headers.parent, headers_of_lookup h]
  rfl

section

variable (hkeyed : db.Keyed crypto genesis) (h : db.blocks.lookup hash = some block)
include hkeyed h

theorem Keyed.ne_genesis : hash ≠ genesis := by
  rintro rfl
  rw [hkeyed.genesis] at h
  cases h

theorem Keyed.level_of_lookup : db.headers.level genesis hash = some block.header.height := by
  rw [Headers.level, if_neg (hkeyed.ne_genesis h), headers_of_lookup h]
  rfl

theorem Keyed.hashOrParent_eq : block.hashOrParent crypto = hash := by
  rw [BlockProposal.hashOrParent, hkeyed.hash_eq hash block h]

end

theorem lookup_of_parent {above : Hash} (h : db.headers.parent hash = some above) :
    ∃ block, db.blocks.lookup hash = some block ∧ block.header.parentHash = above := by
  obtain ⟨header, hheader, rfl⟩ := Option.map_eq_some_iff.mp h
  obtain ⟨block, hblock, rfl⟩ := Option.map_eq_some_iff.mp hheader
  exact ⟨block, hblock, rfl⟩

def withBlock (db : Database τ) (hash : Hash) (proposal : BlockProposal τ) : Database τ :=
  { db with blocks := db.blocks.insert hash proposal }

theorem headers_withBlock (db : Database τ) (hash : Hash) (proposal : BlockProposal τ) :
    (db.withBlock hash proposal).headers = db.headers.store hash proposal.header := by
  funext other
  rw [headers, Headers.store, withBlock, Table.lookup_insert]
  split <;> rfl

/-- Is every stored block one higher than its parent, where that is known? -/
def checkLevels (genesis : Hash) (db : Database τ) : Bool :=
  db.blocks.entries.all fun entry =>
    (db.headers.level genesis entry.2.header.parentHash).all fun level =>
      db.headers.level genesis entry.1 = some (level + 1)

theorem leveled_of_checkLevels (h : db.checkLevels genesis = true) :
    Leveled db.headers.parent (db.headers.level genesis) := by
  intro child above habove level hlevel
  obtain ⟨block, hblock, rfl⟩ := lookup_of_parent habove
  have hentry := all_eq_true.mp h _ (AList.mem_lookup_iff.mp hblock)
  rw [hlevel] at hentry
  exact of_decide_eq_true hentry

/-- A test for blocks that fit the stored ones. -/
def checkFits (crypto : Crypto) (genesis : Hash) (db : Database τ) (proposal : BlockProposal τ) :
    Bool :=
  (proposal.hash crypto).toOption.all fun hash =>
    Borsh.validUTF8 proposal.header.chainID && Borsh.validUTF8 proposal.header.leaderID &&
      hash ≠ genesis && ((db.headers hash).all fun stored => stored = proposal.header) &&
      (db.withBlock hash proposal).checkLevels genesis

theorem fitsBlock_of_checkFits {proposal : BlockProposal τ}
    (h : db.checkFits crypto genesis proposal = true) :
    db.headers.FitsBlock crypto genesis proposal := by
  intro hash hhash
  simp only [checkFits, hhash, Except.toOption, Option.all_some, Bool.and_eq_true,
    decide_eq_true_eq] at h
  obtain ⟨⟨⟨⟨hchain, hleader⟩, hne⟩, hsame⟩, hlevels⟩ := h
  refine ⟨⟨hchain, hleader⟩, hne, fun stored hstored => ?_, ?_⟩
  · rw [hstored] at hsame
    exact of_decide_eq_true hsame
  · rw [← headers_withBlock]
    exact leveled_of_checkLevels hlevels

theorem lookup_of_mem_path {first last : Hash} {nodes : List Hash}
    (hpath : Path db.headers.parent first nodes last) (hmem : hash ∈ nodes) :
    ∃ block, db.blocks.lookup hash = some block := by
  induction hpath with
  | here => cases hmem
  | up hparent _ ih =>
    rcases mem_cons.mp hmem with rfl | hlater
    · obtain ⟨block, hblock, -⟩ := lookup_of_parent hparent
      exact ⟨block, hblock⟩
    · exact ih hlater

end Database

/-! ### The walks of a reorganization -/

section

variable {crypto : Crypto} {db : Database τ} {genesis : Hash} {head : Head}
  {newTip cursor : BlockProposal τ} {newTipHash cursorHash ancestorHash : Hash} {steps : ℕ}

/-- What the first walk collects is stored. -/
theorem collectNewAncestors_eq_ok {start found : Table Hash (BlockProposal τ)}
    (hkeyed : db.Keyed crypto genesis) (hcursor : db.blocks.lookup cursorHash = some cursor)
    (hstart : start.All fun hash block => db.blocks.lookup hash = some block)
    (h : collectNewAncestors crypto db head steps cursor cursorHash start = .ok found) :
    found.All fun hash block => db.blocks.lookup hash = some block := by
  induction steps generalizing cursor cursorHash start with
  | zero => cases h
  | succ steps ih =>
    have hnext : Table.All (fun hash block => db.blocks.lookup hash = some block)
        (start.insert cursorHash cursor) := hstart.insert hcursor
    unfold collectNewAncestors at h
    split at h
    · cases h
      exact hnext
    · cases hload : db.loadProposalByHash cursor.header.parentHash with
      | error message =>
        simp only [hload] at h
        split at h
        · cases h
          exact hnext
        · cases h
      | ok parent =>
        simp only [hload] at h
        have hparent := loadProposalByHash_eq_ok.mp hload
        rw [hkeyed.hashOrParent_eq hparent] at h
        exact ih hparent hnext h

/-- The blocks above an ancestor are a path down to it. -/
theorem collectNewBlocks_eq_ok {collected newBlocks : List Hash}
    (hkeyed : db.Keyed crypto genesis) (hcursor : db.blocks.lookup cursorHash = some cursor)
    (h : collectNewBlocks crypto db ancestorHash steps cursor cursorHash collected =
      .ok newBlocks) :
    ∃ nodes, Path db.headers.parent cursorHash nodes ancestorHash ∧
      newBlocks = nodes.reverse ++ collected := by
  induction steps generalizing cursor cursorHash collected with
  | zero => cases h
  | succ steps ih =>
    unfold collectNewBlocks at h
    split at h
    · next heq =>
      subst heq
      cases h
      exact ⟨[], .here _, rfl⟩
    · split at h
      · next hparent =>
        cases h
        refine ⟨[cursorHash], .single ?_, rfl⟩
        rw [Database.parent_of_lookup hcursor, hparent]
      · obtain ⟨parent, hload, hrest⟩ := bind_eq_ok.mp h
        have hparent := loadProposalByHash_eq_ok.mp hload
        rw [hkeyed.hashOrParent_eq hparent] at hrest
        obtain ⟨nodes, hpath, rfl⟩ := ih hparent hrest
        refine ⟨cursorHash :: nodes, .up (Database.parent_of_lookup hcursor) hpath, ?_⟩
        rw [reverse_cons, append_assoc, singleton_append]

/-- A plan names an ancestor of the head and of the new tip, with its height, and the blocks
above it on both sides. -/
structure ReorgPlan.Links (genesis : Hash) (db : Database τ) (headHash newTipHash : Hash)
    (plan : ReorgPlan) (new : List Hash) : Prop where
  old : Path db.headers.parent headHash plan.oldBlocks plan.commonAncestor.blockHash
  branch : Path db.headers.parent newTipHash new plan.commonAncestor.blockHash
  newBlocks : plan.newBlocks = new.reverse
  level : db.headers.level genesis plan.commonAncestor.blockHash =
    some plan.commonAncestor.height

section

variable (hkeyed : db.Keyed crypto genesis) (htip : db.blocks.lookup newTipHash = some newTip)
  (hgenesis : head.finalizedHeight = 0 → head.finalizedHash = genesis)
include hkeyed htip hgenesis

theorem findCommonAncestor_eq_ok {newAncestors : Table Hash (BlockProposal τ)}
    {oldCursorHash : Hash} {oldBlocks : List Hash} {plan : ReorgPlan}
    (hancestors : newAncestors.All fun hash block => db.blocks.lookup hash = some block)
    (hold : Path db.headers.parent head.blockHash oldBlocks oldCursorHash)
    (h : findCommonAncestor crypto db head newTip newTipHash newAncestors steps oldCursorHash
      oldBlocks = .ok plan) : ∃ new, plan.Links genesis db head.blockHash newTipHash new := by
  induction steps generalizing oldCursorHash oldBlocks with
  | zero => cases h
  | succ steps ih =>
    unfold findCommonAncestor at h
    split at h
    · next hroot =>
      obtain ⟨newBlocks, hnew, hplan⟩ := bind_eq_ok.mp h
      cases hplan
      obtain ⟨new, hpath, hblocks⟩ := collectNewBlocks_eq_ok hkeyed htip hnew
      rw [append_nil] at hblocks
      refine ⟨new, hold, hpath, hblocks, ?_⟩
      rw [hroot.1, hgenesis hroot.2]
      exact Headers.level_genesis
    · cases hfound : newAncestors.lookup oldCursorHash with
      | some ancestor =>
        simp only [hfound] at h
        obtain ⟨newBlocks, hnew, hplan⟩ := bind_eq_ok.mp h
        cases hplan
        obtain ⟨new, hpath, hblocks⟩ := collectNewBlocks_eq_ok hkeyed htip hnew
        rw [append_nil] at hblocks
        exact ⟨new, hold, hpath, hblocks, hkeyed.level_of_lookup (hancestors _ _ hfound)⟩
      | none =>
        simp only [hfound] at h
        obtain ⟨oldBlock, hload, hrest⟩ := bind_eq_ok.mp h
        have hstored := loadProposalByHash_eq_ok.mp hload
        exact ih (hold.trans (.single (Database.parent_of_lookup hstored))) hrest

theorem collectReorgPlan_eq_ok {plan : ReorgPlan}
    (h : collectReorgPlan crypto db head newTip newTipHash = .ok plan) :
    ∃ new, plan.Links genesis db head.blockHash newTipHash new := by
  obtain ⟨newAncestors, hancestors, hplan⟩ := bind_eq_ok.mp h
  have hempty : Table.All (fun hash block => db.blocks.lookup hash = some block)
      (∅ : Table Hash (BlockProposal τ)) := by
    intro hash block hlookup
    cases hlookup
  exact findCommonAncestor_eq_ok hkeyed htip hgenesis
    (collectNewAncestors_eq_ok hkeyed htip hempty hancestors) (.here _) hplan

end

end

end Ordexus.Blockchain
