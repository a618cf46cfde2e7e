import Ordexus.Blockchain.Checkpoints
import Ordexus.Library.WriteBatch

/-!
# What the ledger writes

The operations of a database transaction, table by table, and the lists of operations that
the ledger collects. Each collector is described once, by the list it returns; what a
transaction leaves in a table then follows from the rules for batches of writes.
-/

namespace Ordexus.Blockchain

open Checked TableWrite List DBOperation

variable {τ : Type}

/-! ### Tables -/

namespace DBOperation

@[simp] def blockWrite : DBOperation τ → Option (TableWrite Hash (BlockProposal τ))
  | .putBlock hash proposal => some (.put hash proposal)
  | _ => none

@[simp] def heightWrite : DBOperation τ → Option (TableWrite ℕ Hash)
  | .putHeight height hash => some (.put height hash)
  | .deleteHeight height => some (.delete height)
  | _ => none

@[simp] def transactionWrite : DBOperation τ → Option (TableWrite TransactionID Hash)
  | .putTransaction id blockHash => some (.put id blockHash)
  | .deleteTransaction id => some (.delete id)
  | _ => none

@[simp] def rewardWrite : DBOperation τ → Option (TableWrite ℕ Hash)
  | .putRewardedQCSlot slot blockHash => some (.put slot blockHash)
  | .deleteRewardedQCSlot slot => some (.delete slot)
  | _ => none

@[simp] def accountWrite : DBOperation τ → Option (TableWrite PublicKey Account)
  | .putAccount address account => some (.put address account)
  | .deleteAccount address => some (.delete address)
  | _ => none

@[simp] def checkpointWrite : DBOperation τ → Option (TableWrite (Hash × PublicKey) Account)
  | .putCheckpoint hash address account => some (.put (hash, address) account)
  | _ => none

@[simp] def headWrite : DBOperation τ → Option Head
  | .putHead head => some (marshalHead head)
  | _ => none

end DBOperation

namespace Database

/-- A table follows the writes to it. -/
theorem table_dataTransaction {κ α : Type} [DecidableEq κ] {get : Database τ → Table κ α}
    {write : DBOperation τ → Option (TableWrite κ α)}
    (happly : ∀ db operation, get (db.apply operation) =
      applyAll (get db) (write operation).toList)
    (db : Database τ) (operations : List (DBOperation τ)) :
    get (db.dataTransaction operations) =
      applyAll (get db) (operations.filterMap write) := by
  induction operations generalizing db with
  | nil => rfl
  | cons operation operations ih =>
    have hstep : get (db.dataTransaction (operation :: operations)) =
        applyAll (get (db.apply operation)) (operations.filterMap write) :=
      ih (db.apply operation)
    rw [hstep, happly, filterMap_cons]
    cases write operation with
    | none => rfl
    | some entry => rfl

variable (db : Database τ) (operations : List (DBOperation τ))

@[simp] theorem blocks_dataTransaction : (db.dataTransaction operations).blocks =
    applyAll db.blocks (operations.filterMap blockWrite) :=
  table_dataTransaction (fun _ operation => by cases operation <;> rfl) db operations

@[simp] theorem heights_dataTransaction : (db.dataTransaction operations).heightToHash =
    applyAll db.heightToHash (operations.filterMap heightWrite) :=
  table_dataTransaction (fun _ operation => by cases operation <;> rfl) db operations

@[simp] theorem transactions_dataTransaction : (db.dataTransaction operations).txToBlock =
    applyAll db.txToBlock (operations.filterMap transactionWrite) :=
  table_dataTransaction (fun _ operation => by cases operation <;> rfl) db operations

@[simp] theorem rewards_dataTransaction : (db.dataTransaction operations).rewardedQCSlots =
    applyAll db.rewardedQCSlots (operations.filterMap rewardWrite) :=
  table_dataTransaction (fun _ operation => by cases operation <;> rfl) db operations

@[simp] theorem accounts_dataTransaction : (db.dataTransaction operations).accounts =
    applyAll db.accounts (operations.filterMap accountWrite) :=
  table_dataTransaction (fun _ operation => by cases operation <;> rfl) db operations

@[simp] theorem checkpoints_dataTransaction : (db.dataTransaction operations).checkpoints =
    applyAll db.checkpoints (operations.filterMap checkpointWrite) :=
  table_dataTransaction (fun _ operation => by cases operation <;> rfl) db operations

/-- The last head that is written stays. -/
@[simp] theorem head_dataTransaction : (db.dataTransaction operations).head =
    (operations.filterMap headWrite).getLast?.or db.head := by
  induction operations generalizing db with
  | nil => rfl
  | cons operation operations ih =>
    have hstep : (db.dataTransaction (operation :: operations)).head =
        (operations.filterMap headWrite).getLast?.or (db.apply operation).head :=
      ih (db.apply operation)
    rw [hstep]
    cases operation with
    | putHead head =>
      have hcons : (putHead head :: operations).filterMap headWrite =
          marshalHead head :: operations.filterMap headWrite := rfl
      rw [hcons]
      cases operations.filterMap headWrite with
      | nil => rfl
      | cons first rest =>
        rfl
    | _ => rfl

end Database

/-! ### Collected operations -/

section

variable {model : LedgerTransactionModel τ} {proposal stored : BlockProposal τ}
  {blockHash : Hash} {state : ChainState} {operations : List (DBOperation τ)}

theorem accountOps_eq_ok {context : String} {operation : PublicKey → Account → DBOperation τ} :
    accountOps context operation state = .ok operations ↔
      (∀ entry ∈ state.accounts, ∃ data, entry.account.marshalBinary = .ok data) ∧
        operations = state.accounts.map fun entry => operation entry.address entry.account := by
  unfold accountOps
  induction state.accounts generalizing operations with
  | nil =>
    rw [mapM_nil, pure_eq_ok]
    constructor
    · rintro rfl
      exact ⟨by simp, rfl⟩
    · rintro ⟨-, rfl⟩
      rfl
  | cons entry entries ih =>
    simp only [mapM_cons, eq_ok, ih, forall_mem_cons, map_cons]
    constructor
    · rintro ⟨_, ⟨data, hdata, rfl⟩, rest, ⟨hrest, rfl⟩, rfl⟩
      exact ⟨⟨⟨data, hdata⟩, hrest⟩, rfl⟩
    · rintro ⟨⟨⟨data, hdata⟩, hrest⟩, rfl⟩
      exact ⟨_, ⟨data, hdata, rfl⟩, _, ⟨hrest, rfl⟩, rfl⟩

/-- A stored block has lost the marks of its transactions, and its texts are those of JSON. -/
structure StoredAs (model : LedgerTransactionModel τ) (proposal stored : BlockProposal τ) :
    Prop where
  header : stored.header = proposal.readBack.header
  rewardQCs : stored.rewardQCs = proposal.readBack.rewardQCs
  transactions : List.Forall₂ (fun transaction readBack => model.stored transaction = .ok readBack)
    proposal.transactions stored.transactions

theorem marshalProposal_eq_ok (h : marshalProposal model proposal = .ok stored) :
    StoredAs model proposal stored := by
  simp only [marshalProposal, eq_ok] at h
  obtain ⟨transactions, htransactions, rfl⟩ := h
  refine ⟨rfl, rfl, ?_⟩
  have hread := mapM_eq_ok htransactions
  simp only [withContext_eq_ok] at hread
  have hfst : Forall₂ (fun transaction readBack => model.stored transaction = .ok readBack)
      (proposal.transactions.zipIdx.map Prod.fst) transactions := by
    rw [forall₂_map_left_iff]
    exact hread
  rwa [zipIdx_map_fst] at hfst

theorem StoredAs.header_eq (h : StoredAs model proposal stored) (htext : proposal.header.IsText) :
    stored.header = proposal.header := by
  rw [h.header, BlockProposal.readBack, jsonText_eq htext.chainID, jsonText_eq htext.leaderID]

theorem StoredAs.rewardQCs_eq (h : StoredAs model proposal stored) (htext : proposal.VotersText) :
    stored.rewardQCs = proposal.rewardQCs := by
  have hqc : ∀ qc ∈ proposal.rewardQCs, qc.readBack = qc := by
    intro qc hqc
    have hvoters := map_congr_left fun voter hvoter => jsonText_eq (htext qc hqc voter hvoter)
    rw [QuorumCertificate.readBack, hvoters, map_id']
  rw [h.rewardQCs, BlockProposal.readBack, map_congr_left hqc, map_id']

theorem collectBlockStorageOps_eq_ok
    (h : collectBlockStorageOps model proposal blockHash state = .ok operations) :
    ∃ stored, StoredAs model proposal stored ∧
      (∀ entry ∈ state.accounts, ∃ data, entry.account.marshalBinary = .ok data) ∧
      operations = .putBlock blockHash stored ::
        state.accounts.map fun entry => .putCheckpoint blockHash entry.address entry.account := by
  simp only [collectBlockStorageOps, eq_ok, accountOps_eq_ok] at h
  obtain ⟨stored, hstored, snapshot, ⟨hvalid, rfl⟩, rfl⟩ := h
  exact ⟨stored, marshalProposal_eq_ok hstored, hvalid, rfl⟩

theorem addressHistoryIndexOps_eq_ok
    (h : addressHistoryIndexOps model proposal blockHash = .ok operations) :
    ∃ entries : List (AddressHistoryKey × AddressHistoryRecord),
      operations = entries.map fun entry => .putHistory entry.1 entry.2 := by
  simp only [addressHistoryIndexOps, eq_ok] at h
  obtain ⟨entries, -, rfl⟩ := h
  exact ⟨entries, rfl⟩

theorem rewardQCIndexOps_eq_ok :
    rewardQCIndexOps proposal blockHash = .ok operations ↔
      ∃ slots, rewardQCSlots proposal = .ok slots ∧
        operations = slots.map fun slot => .putRewardedQCSlot slot blockHash := by
  simp only [rewardQCIndexOps, eq_ok]
  exact exists_congr fun slots => and_congr_right fun _ => eq_comm

theorem rewardQCDeleteOps_eq_ok :
    rewardQCDeleteOps proposal = .ok operations ↔
      ∃ slots, rewardQCSlots proposal = .ok slots ∧
        operations = slots.map .deleteRewardedQCSlot := by
  simp only [rewardQCDeleteOps, eq_ok]
  exact exists_congr fun slots => and_congr_right fun _ => eq_comm

theorem loadProposalByHash_eq_ok {db : Database τ} {hash : Hash} {block : BlockProposal τ} :
    db.loadProposalByHash hash = .ok block ↔ db.blocks.lookup hash = some block :=
  orFail_eq_ok

/-- Certificates go to tables of their own. -/
def OnlyQCs (operations : List (DBOperation τ)) : Prop :=
  ∀ operation ∈ operations, (∃ hash qc, operation = .putQC hash qc) ∨
    ∃ blockHash qc, operation = .putBlockQC blockHash qc

theorem OnlyQCs.filterMap_eq_nil {α : Type} {write : DBOperation τ → Option α}
    (h : OnlyQCs operations) (hqc : ∀ hash qc, write (.putQC hash qc) = none)
    (hblock : ∀ hash qc, write (.putBlockQC hash qc) = none) : operations.filterMap write = [] := by
  refine filterMap_eq_nil_iff.mpr fun operation hmem => ?_
  rcases h operation hmem with ⟨hash, qc, rfl⟩ | ⟨hash, qc, rfl⟩
  · exact hqc hash qc
  · exact hblock hash qc

end

end Ordexus.Blockchain
