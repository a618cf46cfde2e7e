import Ordexus.Blockchain.Ledger

/-!
# Moving to another branch

`ReorganizeTo` of `blockchain/ledger.go`: the branch of a stored block is followed back to
the main chain, the blocks above the common ancestor are taken out of the indexes and those
of the branch are put in. The walks follow parent hashes without a bound; here each has one
more step than there are stored blocks, since a longer walk meets a block twice and never
ends.
-/

namespace Ordexus

/-- The hash of a block on a walk; a header that cannot be hashed counts as its parent. -/
def BlockProposal.hashOrParent {τ : Type} (crypto : Crypto) (proposal : BlockProposal τ) : Hash :=
  match proposal.hash crypto with
  | .ok hash => hash
  | .error _ => proposal.header.parentHash

namespace Blockchain

open Checked

variable {τ : Type}

def isBetterTip (header : BlockHeader) (hash : Hash) (head : Head) : Bool :=
  if head.height < header.height then true
  else if header.height < head.height then false
  else decide (hash.text < head.blockHash.text)

/-! ### The plan -/

structure ReorgPlan where
  commonAncestor : Head
  oldBlocks : List Hash
  newBlocks : List Hash

def endlessWalk : String := "blockchain: parent hashes form a cycle"

/-- The most steps a walk over stored blocks can take. -/
def Database.walkLength (db : Database τ) : ℕ := db.blocks.entries.length + 2

section

variable (crypto : Crypto) (db : Database τ)

/-- The first loop of `collectReorgPlan`: the blocks of the new branch. -/
def collectNewAncestors (head : Head) :
    ℕ → BlockProposal τ → Hash → Table Hash (BlockProposal τ) →
      Except String (Table Hash (BlockProposal τ))
  | 0, _, _, _ => .error endlessWalk
  | steps + 1, cursor, cursorHash, newAncestors =>
    let newAncestors := newAncestors.insert cursorHash cursor
    if cursorHash = head.blockHash ∨ cursorHash = head.finalizedHash ∨
        cursor.header.height = 0 then pure newAncestors
    else match db.loadProposalByHash cursor.header.parentHash with
      | .error message =>
        if cursor.header.parentHash = head.finalizedHash ∨ cursor.header.height = 1 then
          pure newAncestors
        else .error message
      | .ok parent =>
        collectNewAncestors head steps parent (parent.hashOrParent crypto) newAncestors

/-- The blocks from a common ancestor to the new tip, the oldest first. -/
def collectNewBlocks (ancestorHash : Hash) :
    ℕ → BlockProposal τ → Hash → List Hash → Except String (List Hash)
  | 0, _, _, _ => .error endlessWalk
  | steps + 1, cursor, cursorHash, newBlocks =>
    if cursorHash = ancestorHash then pure newBlocks
    else if cursor.header.parentHash = ancestorHash then pure (cursorHash :: newBlocks)
    else do
      let parent ← db.loadProposalByHash cursor.header.parentHash
      collectNewBlocks ancestorHash steps parent (parent.hashOrParent crypto)
        (cursorHash :: newBlocks)

/-- The genesis block is not stored: its head is made up from that of the ledger. -/
def genesisAncestor (head : Head) (hash : Hash) : Head where
  chainID := head.chainID
  height := 0
  slot := 0
  blockHash := hash
  qcHash := 0
  stateRoot := head.finalizedHash
  epochID := 0
  finalizedHeight := 0
  finalizedHash := 0

def storedAncestor (header : BlockHeader) (hash : Hash) : Head where
  chainID := header.chainID
  height := header.height
  slot := header.slot
  blockHash := hash
  qcHash := 0
  stateRoot := header.stateRoot
  epochID := header.epochID
  finalizedHeight := 0
  finalizedHash := 0

/-- The second loop of `collectReorgPlan`: down the main chain to a block of the branch. -/
def findCommonAncestor (head : Head) (newTip : BlockProposal τ) (newTipHash : Hash)
    (newAncestors : Table Hash (BlockProposal τ)) :
    ℕ → Hash → List Hash → Except String ReorgPlan
  | 0, _, _ => .error endlessWalk
  | steps + 1, oldCursorHash, oldBlocks =>
    if oldCursorHash = head.finalizedHash ∧ head.finalizedHeight = 0 then do
      let newBlocks ← collectNewBlocks crypto db oldCursorHash db.walkLength newTip newTipHash []
      pure ⟨genesisAncestor head oldCursorHash, oldBlocks, newBlocks⟩
    else match newAncestors.lookup oldCursorHash with
      | some ancestor => do
        let newBlocks ← collectNewBlocks crypto db oldCursorHash db.walkLength newTip newTipHash []
        pure ⟨storedAncestor ancestor.header oldCursorHash, oldBlocks, newBlocks⟩
      | none => do
        let oldBlock ← db.loadProposalByHash oldCursorHash
        findCommonAncestor head newTip newTipHash newAncestors steps oldBlock.header.parentHash
          (oldBlocks ++ [oldCursorHash])

def collectReorgPlan (head : Head) (newTip : BlockProposal τ) (newTipHash : Hash) :
    Except String ReorgPlan := do
  let newAncestors ← collectNewAncestors crypto db head db.walkLength newTip newTipHash ∅
  findCommonAncestor crypto db head newTip newTipHash newAncestors db.walkLength head.blockHash []

end

/-! ### The writes -/

section

variable (model : LedgerTransactionModel τ) (db : Database τ)

/-- What leaves the indexes with a block: its transactions and the deletions. -/
def oldBlockOps (oldHash : Hash) :
    Except String (List TransactionID × List (DBOperation τ)) := do
  let oldBlock ← db.loadProposalByHash oldHash
  let transactionIDs ← transactionIDsForProposal model oldBlock
  let history ← addressHistoryDeleteOps model oldBlock oldHash
  let rewards ← rewardQCDeleteOps oldBlock
  pure (transactionIDs, transactionIDs.map .deleteTransaction ++ history ++ rewards ++
    [.deleteHeight oldBlock.header.height])

/-- A transaction of the branch is new, or its block leaves the main chain. -/
def addNewTransaction (oldBlocks : List Hash) (newHash : Hash)
    (added : List (TransactionID × Hash)) (transactionID : TransactionID) :
    Except String (List (TransactionID × Hash)) := do
  failIf (transactionID ∈ added.map Prod.fst) ("blockchain: invalid commit: duplicate transaction "
    ++ transactionText transactionID ++ " in new fork")
  failIf (∃ indexedBlockHash ∈ db.txToBlock.lookup transactionID, indexedBlockHash ∉ oldBlocks)
    ("blockchain: invalid commit: transaction " ++ transactionText transactionID ++
      " already committed")
  pure (added ++ [(transactionID, newHash)])

/-- The transactions added so far and the writes so far. -/
structure NewBlockProgress (τ : Type) where
  added : List (TransactionID × Hash)
  operations : List (DBOperation τ)

def newBlockOps (oldBlocks : List Hash) (progress : NewBlockProgress τ) (newHash : Hash) :
    Except String (NewBlockProgress τ) := do
  let newBlock ← db.loadProposalByHash newHash
  let transactionIDs ← transactionIDsForProposal model newBlock
  let added ← transactionIDs.foldlM (addNewTransaction db oldBlocks newHash) progress.added
  let history ← addressHistoryIndexOps model newBlock newHash
  let rewards ← rewardQCIndexOps newBlock newHash
  pure
    { added := added
      operations := progress.operations ++
        transactionIDs.map (fun transactionID => .putTransaction transactionID newHash) ++
        history ++ rewards ++ [.putHeight newBlock.header.height newHash] }

/-- What a reorganization does to the index of committed transactions. -/
structure TransactionIndexDelta where
  removeIDs : List TransactionID
  add : List (TransactionID × Hash)

def collectReorgOps (head : Head) (oldBlocks newBlocks : List Hash) (state : ChainState) :
    Except String (List (DBOperation τ) × TransactionIndexDelta) := do
  let old ← oldBlocks.mapM (oldBlockOps model db)
  let progress ← newBlocks.foldlM (newBlockOps model db oldBlocks) ⟨[], []⟩
  let accounts ← accountOps "blockchain: marshal reorg account" .putAccount state
  pure (old.flatMap Prod.snd ++ progress.operations ++ accounts ++ [.putHead head],
    { removeIDs := old.flatMap Prod.fst, add := progress.added })

def applyTransactionIndexDelta (index : Table TransactionID Hash)
    (delta : TransactionIndexDelta) : Table TransactionID Hash :=
  delta.add.foldl (fun index entry => index.insert entry.1 entry.2)
    (delta.removeIDs.foldl (fun index transactionID => index.erase transactionID) index)

end

namespace Ledger

variable (crypto : Crypto) (model : LedgerTransactionModel τ)

/-- The head after a reorganization, before a stored certificate is attached. -/
def reorganizedHead (ledger : Ledger τ) (newTip : BlockProposal τ) (newTipHash stateRoot : Hash)
    (finalizedHeight : ℕ) (finalizedHash : Hash) : Head where
  chainID := newTip.header.chainID
  height := newTip.header.height
  slot := newTip.header.slot
  blockHash := newTipHash
  qcHash := ledger.head.qcHash
  stateRoot := stateRoot
  epochID := newTip.header.epochID
  finalizedHeight := finalizedHeight
  finalizedHash := finalizedHash

/-- A tip that is not better is turned down without an error. -/
def reorganizeTo (ledger : Ledger τ) (newTipHash : Hash) :
    Except String (Ledger τ × ForkDecision) := do
  let db ← orFail ledger.db "blockchain: invalid commit: reorg requires persistent database"
  let newTip ← db.loadProposalByHash newTipHash
  if isBetterTip newTip.header newTipHash ledger.head = false then
    pure (ledger,
      { accepted := false
        reorganized := false
        commonAncestor := none
        oldBlocks := []
        newBlocks := []
        reason := "candidate is not better than current head" })
  else do
    let plan ← collectReorgPlan crypto db ledger.head newTip newTipHash
    failIf (plan.commonAncestor.height < ledger.head.finalizedHeight)
      "blockchain: invalid commit: common ancestor is below finalized height"
    let nextState ← db.loadStateSnapshot newTipHash
    let stateRoot ← nextState.rootHash crypto
    failIf (stateRoot ≠ newTip.header.stateRoot)
      "blockchain: invalid commit: new tip state snapshot mismatch"
    let finalizedHeight := ledger.nextFinalizedHeight newTip.header.height
    let finalizedHash ← finalizedHashFromReorgPlan db finalizedHeight plan.commonAncestor
      plan.newBlocks ledger.head.finalizedHash
    let nextHead ← attachBestQCForHead crypto db newTipHash
      (ledger.reorganizedHead newTip newTipHash stateRoot finalizedHeight finalizedHash)
    let (ops, delta) ← collectReorgOps model db nextHead plan.oldBlocks plan.newBlocks nextState
    pure ({ ledger with
        db := some (db.dataTransaction ops)
        head := nextHead
        state := nextState
        committedTransactions := applyTransactionIndexDelta ledger.committedTransactions delta },
      { accepted := true
        reorganized := decide (0 < plan.oldBlocks.length)
        commonAncestor := some plan.commonAncestor
        oldBlocks := plan.oldBlocks
        newBlocks := plan.newBlocks
        reason := "candidate selected by fork choice" })

end Ledger

end Blockchain

end Ordexus
