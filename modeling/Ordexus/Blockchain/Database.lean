import Ordexus.Library.Table
import Ordexus.Consensus.Proposal

/-!
# The tables of the chain database

What the ledger keeps on disk (`blockchain/ledger.go`, `blockchain/address_history.go`):
blocks and their state snapshots, the indexes of the main chain, certificates and the
head. A table maps keys to decoded values, and a batch of operations is applied as a
whole, in its order. Blocks and the head are stored as JSON, which keeps numbers, hashes and
valid texts.
-/

namespace Ordexus.Blockchain

open Checked

/-! ### Texts in JSON -/

/-- What is read back of a text that is written by `encoding/json`: each byte that is no part of
a valid rune becomes U+FFFD. -/
def jsonText : Bytes → Bytes
  | [] => []
  | [first] => if first < 0x80 then [first] else [0xEF, 0xBF, 0xBD]
  | first :: second :: rest =>
    if first < 0x80 then first :: jsonText (second :: rest)
    else if 0xC2 ≤ first && first ≤ 0xDF && Borsh.isContinuation second then
      first :: second :: jsonText rest
    else
      match rest with
      | [] => [0xEF, 0xBF, 0xBD] ++ jsonText [second]
      | third :: rest =>
        if Borsh.isThreeByteStart first second && Borsh.isContinuation third then
          first :: second :: third :: jsonText rest
        else
          match rest with
          | [] => [0xEF, 0xBF, 0xBD] ++ jsonText [second, third]
          | fourth :: rest =>
            if Borsh.isFourByteStart first second && Borsh.isContinuation third &&
                Borsh.isContinuation fourth then
              first :: second :: third :: fourth :: jsonText rest
            else [0xEF, 0xBF, 0xBD] ++ jsonText (second :: third :: fourth :: rest)

theorem jsonText_eq {text : Bytes} (h : Borsh.validUTF8 text = true) : jsonText text = text := by
  fun_induction Borsh.validUTF8 text <;> unfold jsonText <;> grind

structure Head where
  chainID : Bytes
  height : ℕ
  slot : ℕ
  blockHash : Hash
  qcHash : Hash
  stateRoot : Hash
  epochID : ℕ
  finalizedHeight : ℕ
  finalizedHash : Hash
deriving DecidableEq

/-- `marshalHead` followed by `unmarshalHead`: what is read back later. -/
def marshalHead (head : Head) : Head :=
  { head with chainID := jsonText head.chainID }

theorem marshalHead_eq {head : Head} (h : Borsh.validUTF8 head.chainID = true) :
    marshalHead head = head := by
  rw [marshalHead, jsonText_eq h]

inductive AddressHistoryDirection where
  | incoming
  | outgoing
deriving DecidableEq

inductive AddressHistoryKind where
  | transfer
  | shieldedDeposit
  | shieldedWithdraw
  | validatorRegister
  | stakeDeposit
  | slash
deriving DecidableEq

/-- The other side of a balance change: an account, or one of two fixed names. -/
inductive Counterparty where
  | account (address : PublicKey)
  | shieldedPool
  | burn
deriving DecidableEq

structure AddressHistoryEffect where
  address : PublicKey
  direction : AddressHistoryDirection
  kind : AddressHistoryKind
  counterparty : Counterparty
  amountLamports : ℕ
deriving DecidableEq

structure AddressHistoryKey where
  address : PublicKey
  blockHeight : ℕ
  transactionIndex : ℕ
  effectIndex : ℕ
  transactionID : TransactionID
deriving DecidableEq

structure AddressHistoryRecord where
  transactionID : TransactionID
  direction : AddressHistoryDirection
  kind : AddressHistoryKind
  counterparty : Counterparty
  amountLamports : ℕ
  blockHeight : ℕ
  slot : ℕ
  blockHash : Hash
  submitTimeUnixMilli : ℤ
deriving DecidableEq

/-- What the ledger asks of a transaction, besides what the block code asks of it. -/
structure LedgerTransactionModel (τ : Type) extends BlockTransactionModel τ where
  /-- What is read back once the bytes of a transaction are stored: its signatures and its
  message, without the status, the fee and the time of submission. -/
  stored : τ → Except String τ
  submitTime : τ → ℤ
  extractAddressHistoryEffects : τ → Except String (List AddressHistoryEffect)
  txIDString_stored {transaction readBack : τ} (h : stored transaction = .ok readBack) :
    txIDString readBack = txIDString transaction
  extractAddressHistoryEffects_stored {transaction readBack : τ}
    (h : stored transaction = .ok readBack) :
    extractAddressHistoryEffects readBack = extractAddressHistoryEffects transaction

/-- The tables; the chain table is split by the prefixes of its keys. -/
structure Database (τ : Type) where
  blocks : Table Hash (BlockProposal τ)
  heightToHash : Table ℕ Hash
  txToBlock : Table TransactionID Hash
  addrToTx : Table AddressHistoryKey AddressHistoryRecord
  accounts : Table PublicKey Account
  checkpoints : Table (Hash × PublicKey) Account
  head : Option Head
  qcs : Table Hash QuorumCertificate
  blockQCs : Table Hash QuorumCertificate
  rewardedQCSlots : Table ℕ Hash

inductive DBOperation (τ : Type) where
  | putBlock (hash : Hash) (proposal : BlockProposal τ)
  | putHeight (height : ℕ) (hash : Hash)
  | deleteHeight (height : ℕ)
  | putTransaction (id : TransactionID) (blockHash : Hash)
  | deleteTransaction (id : TransactionID)
  | putHistory (key : AddressHistoryKey) (entry : AddressHistoryRecord)
  | deleteHistory (key : AddressHistoryKey)
  | putAccount (address : PublicKey) (account : Account)
  | deleteAccount (address : PublicKey)
  | putCheckpoint (hash : Hash) (address : PublicKey) (account : Account)
  | putHead (head : Head)
  | putQC (hash : Hash) (certificate : QuorumCertificate)
  | putBlockQC (blockHash : Hash) (certificate : QuorumCertificate)
  | putRewardedQCSlot (slot : ℕ) (blockHash : Hash)
  | deleteRewardedQCSlot (slot : ℕ)

variable {τ : Type}

namespace Database

def empty : Database τ where
  blocks := ∅
  heightToHash := ∅
  txToBlock := ∅
  addrToTx := ∅
  accounts := ∅
  checkpoints := ∅
  head := none
  qcs := ∅
  blockQCs := ∅
  rewardedQCSlots := ∅

def apply (db : Database τ) : DBOperation τ → Database τ
  | .putBlock hash proposal => { db with blocks := db.blocks.insert hash proposal }
  | .putHeight height hash => { db with heightToHash := db.heightToHash.insert height hash }
  | .deleteHeight height => { db with heightToHash := db.heightToHash.erase height }
  | .putTransaction id blockHash => { db with txToBlock := db.txToBlock.insert id blockHash }
  | .deleteTransaction id => { db with txToBlock := db.txToBlock.erase id }
  | .putHistory key entry => { db with addrToTx := db.addrToTx.insert key entry }
  | .deleteHistory key => { db with addrToTx := db.addrToTx.erase key }
  | .putAccount address account => { db with accounts := db.accounts.insert address account }
  | .deleteAccount address => { db with accounts := db.accounts.erase address }
  | .putCheckpoint hash address account =>
    { db with checkpoints := db.checkpoints.insert (hash, address) account }
  | .putHead head => { db with head := some (marshalHead head) }
  | .putQC hash certificate => { db with qcs := db.qcs.insert hash certificate }
  | .putBlockQC blockHash certificate =>
    { db with blockQCs := db.blockQCs.insert blockHash certificate }
  | .putRewardedQCSlot slot blockHash =>
    { db with rewardedQCSlots := db.rewardedQCSlots.insert slot blockHash }
  | .deleteRewardedQCSlot slot =>
    { db with rewardedQCSlots := db.rewardedQCSlots.erase slot }

def dataTransaction (db : Database τ) (operations : List (DBOperation τ)) : Database τ :=
  operations.foldl apply db

/-! ### Reads -/

def loadProposalByHash (db : Database τ) (hash : Hash) : Except String (BlockProposal τ) :=
  orFail (db.blocks.lookup hash) "blockchain: invalid commit: block not found"

/-- The accounts stored for a block, in the order of their keys; each of them is checked
when it is decoded. -/
def loadStateSnapshot (db : Database τ) (blockHash : Hash) : Except String ChainState := do
  let rows := db.checkpoints.entries.filter fun row => row.1.1 = blockHash
  let accounts := (rows.map fun row => ({ address := row.1.2, account := row.2 } :
    AddressedAccount)).insertionSort fun left right => left.address ≤ right.address
  for entry in accounts do
    withContext "blockchain: decode snapshot account" entry.account.validate
  pure { accounts := accounts }

/-- No certificate is stored under the zero digest. -/
def readStoredQCByHash (db : Database τ) (qcHash : Hash) : Option QuorumCertificate :=
  if qcHash = 0 then none else db.qcs.lookup qcHash

def readStoredQCByBlockHash (db : Database τ) (blockHash : Hash) : Option QuorumCertificate :=
  if blockHash = 0 then none else db.blockQCs.lookup blockHash

end Database

end Ordexus.Blockchain
