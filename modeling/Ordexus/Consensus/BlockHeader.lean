import Ordexus.Consensus.ValidatorSet

/-!
# Block headers and the timeout rule

The header a leader signs (`consensus/proposal.go`) and the rule that ties its
slot to the slot of its parent: consecutive slots carry no timeout certificate,
and a later slot carries a certificate for the slot just before it, bound to the
same parent.
-/

namespace Ordexus

open Checked

structure BlockHeader where
  chainID : Bytes
  slot : ℕ
  height : ℕ
  parentHash : Hash
  previousQCHash : Hash
  timeoutQCHash : Hash
  leaderID : ValidatorID
  epochID : ℕ
  epochSnapshotRoot : Hash
  txRoot : Hash
  receiptRoot : Hash
  rewardQCRoot : Hash
  evidenceRoot : Hash
  rewardRoot : Hash
  stateRoot : Hash
  accountRoot : Hash
  timestampUnixMilli : ℤ
deriving DecidableEq

/-- `stringsTrimmedEmpty`: only blanks, tabs and line ends. -/
def stringsTrimmedEmpty (text : Bytes) : Bool :=
  text.all fun byte => byte = 0x20 || byte = 0x09 || byte = 0x0A || byte = 0x0D

/-- The signed bytes of a header; negative times wrap into 64 bits. -/
def BlockHeader.signBytes (header : BlockHeader) : Except String Bytes := do
  failIf (stringsTrimmedEmpty header.chainID = true) "consensus: chain id is empty"
  pure (header.chainID ++ uint64ForHash header.slot ++ uint64ForHash header.height ++
    bigEndian 32 header.parentHash ++ bigEndian 32 header.previousQCHash ++
    bigEndian 32 header.timeoutQCHash ++ header.leaderID ++ uint64ForHash header.epochID ++
    bigEndian 32 header.epochSnapshotRoot ++ bigEndian 32 header.txRoot ++
    bigEndian 32 header.receiptRoot ++ bigEndian 32 header.rewardQCRoot ++
    bigEndian 32 header.evidenceRoot ++ bigEndian 32 header.rewardRoot ++
    bigEndian 32 header.stateRoot ++ bigEndian 32 header.accountRoot ++
    uint64ForHash (header.timestampUnixMilli % 2 ^ 64).toNat)

def validateTimeoutQC (slot parentSlot height : ℕ) (parentHash : Hash)
    (certificate : Option QuorumCertificate) : Except String Unit :=
  match certificate with
  | none =>
    failIf (0 < slot ∧ parentSlot < slot - 1) "consensus: skipped round requires timeout qc"
  | some certificate => do
    failIf (0 < slot ∧ parentSlot = slot - 1)
      "consensus: consecutive proposal must not carry timeout qc"
    certificate.validate
    failIf (slot = 0 ∨ certificate.type ≠ .skip ∨ certificate.slot ≠ slot - 1)
      "consensus: timeout qc slot mismatch"
    failIf (certificate.blockHeight ≠ height ∨ certificate.blockHash ≠ parentHash)
      "consensus: timeout qc parent mismatch"

/-- A proposal that leaves a gap to its parent carries a skip certificate for the
slot before its own, bound to the parent. -/
theorem validateTimeoutQC_gap {slot parentSlot height : ℕ} {parentHash : Hash}
    {certificate : Option QuorumCertificate}
    (h : validateTimeoutQC slot parentSlot height parentHash certificate = .ok ())
    (hgap : parentSlot + 1 < slot) :
    ∃ qc, certificate = some qc ∧ qc.type = .skip ∧ qc.slot = slot - 1 ∧
      qc.blockHash = parentHash := by
  cases certificate with
  | none =>
    simp only [validateTimeoutQC, failIf_eq_ok] at h
    omega
  | some qc =>
    simp only [validateTimeoutQC, eq_ok, not_or, not_and, ne_eq, not_not] at h
    obtain ⟨-, -, ⟨-, htype, hslot⟩, -, hhash⟩ := h
    exact ⟨qc, rfl, htype, hslot, hhash⟩

end Ordexus
