import Ordexus.Consensus.Evidence

/-!
# The binary form of certificates

`UnmarshalCertificateBinary` (`consensus/slot.go`). Certificates written before aggregate
signatures were added end after the voters. A certificate whose fields fit their types is
read back as it was written.
-/

namespace Ordexus

open Checked Borsh List

def VoteType.ofCode : ℕ → VoteType
  | 1 => .confirm
  | 2 => .skip
  | 3 => .prepare
  | _ => .unknown

def SignatureScheme.ofText (text : Bytes) : SignatureScheme :=
  if text = [] then .none
  else if text = SignatureScheme.blsBasic.text then .blsBasic
  else .other

def readVoters : Reader (List ValidatorID) := do
  let voterCount ← readField 4 "consensus: unmarshal qc voter count"
  require (voterCount = 0 ∨ maxCertificateVoters < voterCount)
    "consensus: invalid certificate: invalid voter count"
  readMany (fun index => s!"consensus: unmarshal qc voter {index}")
    (readString maxConsensusContainerLength) 0 voterCount

def readCertificateFields : Reader QuorumCertificate := do
  let type ← readField 1 "consensus: unmarshal qc type"
  let slot ← readField 8 "consensus: unmarshal qc slot"
  let blockHeight ← readField 8 "consensus: unmarshal qc block height"
  let blockHash ← readKey maxConsensusContainerLength "consensus: unmarshal qc block hash"
  let thresholdStake ← readField 8 "consensus: unmarshal qc threshold"
  let confirmedStake ← readField 8 "consensus: unmarshal qc stake"
  let createdAtUnixMilli ← readField 8 "consensus: unmarshal qc created_at"
  let voters ← readVoters
  pure
    { type := .ofCode type
      slot := slot
      blockHeight := blockHeight
      blockHash := blockHash
      thresholdStake := thresholdStake
      confirmedStake := confirmedStake
      voters := voters
      createdAtUnixMilli := toInt64 createdAtUnixMilli
      signatureScheme := .none
      aggregateSignature := []
      voterBitmap := [] }

/-- The fields that older certificates do not have. -/
def readAggregateFields (certificate : QuorumCertificate) : Reader QuorumCertificate := do
  let signatureScheme ← (readString maxConsensusContainerLength).withContext
    "consensus: unmarshal qc signature scheme"
  let aggregateSignature ← (readBytes maxConsensusContainerLength).withContext
    "consensus: unmarshal qc aggregate signature"
  let voterBitmap ← (readBytes maxConsensusContainerLength).withContext
    "consensus: unmarshal qc voter bitmap"
  pure
    { certificate with
      signatureScheme := .ofText signatureScheme
      aggregateSignature := aggregateSignature
      voterBitmap := voterBitmap }

def readCertificate : Reader QuorumCertificate := do
  let version ← readField 2 "consensus: unmarshal qc version"
  require (version ≠ consensusCodecVersion)
    "consensus: invalid certificate: unsupported qc version"
  let certificate ← readCertificateFields
  unlessEnd certificate (readAggregateFields certificate)

def unmarshalCertificateBinary (data : Bytes) : Except String QuorumCertificate := do
  let certificate ← readAll readCertificate "consensus: unmarshal qc eof" data
  certificate.validate
  pure certificate

/-! ### Reading back -/

/-- The fields fit the types they have in the source. -/
structure QuorumCertificate.InRange (certificate : QuorumCertificate) : Prop where
  slot : certificate.slot < 256 ^ 8
  blockHeight : certificate.blockHeight < 256 ^ 8
  blockHash : certificate.blockHash < 256 ^ 32
  thresholdStake : certificate.thresholdStake < 256 ^ 8
  confirmedStake : certificate.confirmedStake < 256 ^ 8
  createdAtUnixMilli : certificate.createdAtUnixMilli < 2 ^ 63

section

variable {certificate : QuorumCertificate} {data : Bytes}

theorem VoteType.ofCode_code (type : VoteType) : VoteType.ofCode type.code = type := by
  cases type <;> rfl

theorem SignatureScheme.ofText_text {signatureScheme : SignatureScheme}
    (h : signatureScheme ≠ .other) : SignatureScheme.ofText signatureScheme.text =
      signatureScheme := by
  cases signatureScheme with
  | none => rfl
  | blsBasic => decide
  | other => exact absurd rfl h

theorem toInt64_ofInt64 {value : ℤ} (hpositive : 0 < value) (hlimit : value < 2 ^ 63) :
    toInt64 (value % 2 ^ 64).toNat = value := by
  have hsame : value % 2 ^ 64 = value := Int.emod_eq_of_lt hpositive.le (by omega)
  rw [toInt64]
  omega

/-- What `MarshalBinary` has written for the voters. -/
theorem flatten_writeString {voters : List ValidatorID} {written : List Bytes}
    (h : voters.mapM (fun voterID => withContext "consensus: marshal qc voter id"
      (writeString maxConsensusContainerLength voterID)) = .ok written) :
    written.flatten = voters.flatMap (fun voterID => littleEndian 4 voterID.length ++ voterID) ∧
      ∀ voterID ∈ voters, writeString maxConsensusContainerLength voterID =
        .ok (littleEndian 4 voterID.length ++ voterID) := by
  induction mapM_eq_ok h with
  | nil => exact ⟨rfl, by simp⟩
  | @cons voterID bytes voters written hhead hrest ih =>
    rw [withContext_eq_ok] at hhead
    have hbytes : bytes = littleEndian 4 voterID.length ++ voterID := by
      simp only [writeString, writeBytes, eq_ok] at hhead
      obtain ⟨-, -, rfl⟩ := hhead
      rfl
    subst hbytes
    have hlater := ih (by
      simp only [mapM_cons, eq_ok] at h
      obtain ⟨_, -, rest, hlater, hlist⟩ := h
      obtain ⟨-, rfl⟩ := cons.inj hlist
      exact hlater)
    refine ⟨by rw [flatten_cons, flatMap_cons, hlater.1], ?_⟩
    exact forall_mem_cons.mpr ⟨hhead, hlater.2⟩

theorem readVoters_reads {voters : List ValidatorID} {written : List Bytes}
    (hcount : voters ≠ [] ∧ voters.length ≤ maxCertificateVoters)
    (h : voters.mapM (fun voterID => withContext "consensus: marshal qc voter id"
      (writeString maxConsensusContainerLength voterID)) = .ok written) :
    Reads readVoters (littleEndian 4 voters.length ++ written.flatten) voters := by
  obtain ⟨hflatten, hwritten⟩ := flatten_writeString h
  have hlength : ¬(voters.length = 0 ∨ maxCertificateVoters < voters.length) := by
    have hpositive := length_pos_of_ne_nil hcount.1
    omega
  rw [hflatten]
  refine (Reads.field _ ?_).bind ((Reads.require hlength).bind (Reads.many 0 fun voterID hmem =>
    Reads.string (by decide) (hwritten voterID hmem)))
  have hlimit := hcount.2
  unfold maxCertificateVoters at hlimit
  omega

theorem QuorumCertificate.validate_fields (h : certificate.validate = .ok ()) :
    certificate.voters ≠ [] ∧ certificate.voters.length ≤ maxCertificateVoters ∧
      0 < certificate.createdAtUnixMilli ∧ certificate.signatureScheme ≠ .other := by
  simp only [validate, eq_ok, not_or, not_lt, not_le] at h
  obtain ⟨-, -, -, ⟨hvoters, hcount⟩, hcreated, hfields, -⟩ := h
  refine ⟨hvoters, hcount, hcreated, fun hother => ?_⟩
  simp only [validateAggregateFields, hother] at hfields
  cases hfields

/-- A certificate without the fields that older ones do not have. -/
def QuorumCertificate.unsigned (certificate : QuorumCertificate) : QuorumCertificate :=
  { certificate with signatureScheme := .none, aggregateSignature := [], voterBitmap := [] }

theorem readCertificateFields_reads {written : List Bytes} (hrange : certificate.InRange)
    (hvalid : certificate.validate = .ok ())
    (hvoters : certificate.voters.mapM (fun voterID =>
      withContext "consensus: marshal qc voter id"
        (writeString maxConsensusContainerLength voterID)) = .ok written) :
    Reads readCertificateFields (littleEndian 1 certificate.type.code ++
      (littleEndian 8 certificate.slot ++ (littleEndian 8 certificate.blockHeight ++
      (bigEndian 32 certificate.blockHash ++ (littleEndian 8 certificate.thresholdStake ++
      (littleEndian 8 certificate.confirmedStake ++
      (int64Bytes certificate.createdAtUnixMilli ++
      ((littleEndian 4 certificate.voters.length ++ written.flatten) ++ []))))))))
      certificate.unsigned := by
  obtain ⟨hnonempty, hcount, hcreated, -⟩ := QuorumCertificate.validate_fields hvalid
  have htype : certificate.type.code < 256 ^ 1 := by cases certificate.type <;> decide
  have htime : (certificate.createdAtUnixMilli % 2 ^ 64).toNat < 256 ^ 8 := by omega
  have hvalue : certificate.unsigned =
      { certificate.unsigned with
        type := .ofCode certificate.type.code
        createdAtUnixMilli := toInt64 (certificate.createdAtUnixMilli % 2 ^ 64).toNat } := by
    rw [VoteType.ofCode_code, toInt64_ofInt64 hcreated hrange.createdAtUnixMilli]
    rfl
  rw [hvalue]
  refine (Reads.field _ htype).bind ?_
  refine (Reads.field _ hrange.slot).bind ?_
  refine (Reads.field _ hrange.blockHeight).bind ?_
  refine (Reads.key _ (by decide) hrange.blockHash).bind ?_
  refine (Reads.field _ hrange.thresholdStake).bind ?_
  refine (Reads.field _ hrange.confirmedStake).bind ?_
  refine (Reads.field _ htime).bind ?_
  exact (readVoters_reads ⟨hnonempty, hcount⟩ hvoters).bind (Reads.pure _)

theorem readAggregateFields_reads {scheme signature bitmap : Bytes}
    (hvalid : certificate.validate = .ok ())
    (hscheme : writeString maxConsensusContainerLength certificate.signatureScheme.text =
      .ok scheme)
    (hsignature : writeBytes maxConsensusContainerLength certificate.aggregateSignature =
      .ok signature)
    (hbitmap : writeBytes maxConsensusContainerLength certificate.voterBitmap = .ok bitmap) :
    Reads (readAggregateFields certificate.unsigned) (scheme ++ (signature ++ (bitmap ++ [])))
      certificate := by
  obtain ⟨-, -, -, hother⟩ := QuorumCertificate.validate_fields hvalid
  have hvalue : certificate =
      { certificate with signatureScheme := .ofText certificate.signatureScheme.text } := by
    rw [SignatureScheme.ofText_text hother]
  have hlimit : maxConsensusContainerLength < 256 ^ 4 := by decide
  have hread : Reads (readAggregateFields certificate.unsigned)
      (scheme ++ (signature ++ (bitmap ++ [])))
      { certificate with signatureScheme := .ofText certificate.signatureScheme.text } := by
    refine ((Reads.string hlimit hscheme).withContext _).bind ?_
    refine ((Reads.bytes hlimit hsignature).withContext _).bind ?_
    exact ((Reads.bytes hlimit hbitmap).withContext _).bind (Reads.pure _)
  rwa [← hvalue] at hread

theorem readCertificate_reads (hrange : certificate.InRange)
    (h : certificate.marshalBinary = .ok data) : Reads readCertificate data certificate := by
  simp only [QuorumCertificate.marshalBinary, eq_ok] at h
  obtain ⟨hvalid, voters, hvoters, scheme, hscheme, signature, hsignature, bitmap, hbitmap, rfl⟩ :=
    h
  have hfields := readCertificateFields_reads hrange hvalid hvoters
  have haggregate := readAggregateFields_reads hvalid hscheme hsignature hbitmap
  have hnonempty : scheme ++ (signature ++ (bitmap ++ [])) ≠ [] := by
    simp only [writeString, writeBytes, eq_ok] at hscheme
    obtain ⟨-, -, rfl⟩ := hscheme
    simp
  have hversion : ¬consensusCodecVersion ≠ consensusCodecVersion := fun hne => hne rfl
  have hall : Reads readCertificate _ certificate :=
    (Reads.field _ (by decide : consensusCodecVersion < 256 ^ 2)).bind
      ((Reads.require hversion).bind (hfields.bind (haggregate.unlessEnd hnonempty)))
  simpa only [append_assoc, append_nil, nil_append] using hall

theorem unmarshalCertificateBinary_marshal (hrange : certificate.InRange)
    (h : certificate.marshalBinary = .ok data) :
    unmarshalCertificateBinary data = .ok certificate := by
  have hvalid : certificate.validate = .ok () := by
    simp only [QuorumCertificate.marshalBinary, eq_ok] at h
    exact h.1
  rw [unmarshalCertificateBinary, (readCertificate_reads hrange h).all, bind_eq_ok]
  exact ⟨certificate, rfl, bind_eq_ok.mpr ⟨(), hvalid, rfl⟩⟩

/-- Writing succeeds if the texts and byte strings are not too long. -/
theorem QuorumCertificate.marshalBinary_succeeds (hvalid : certificate.validate = .ok ())
    (hvoters : ∀ voterID ∈ certificate.voters, validUTF8 voterID = true ∧
      voterID.length ≤ maxConsensusContainerLength)
    (hsignature : certificate.aggregateSignature.length ≤ maxConsensusContainerLength)
    (hbitmap : certificate.voterBitmap.length ≤ maxConsensusContainerLength) :
    ∃ data, certificate.marshalBinary = .ok data := by
  have hstrings : ∀ voters : List ValidatorID, (∀ voterID ∈ voters, validUTF8 voterID = true ∧
      voterID.length ≤ maxConsensusContainerLength) → ∃ written,
      voters.mapM (fun voterID => withContext "consensus: marshal qc voter id"
        (writeString maxConsensusContainerLength voterID)) = .ok written := by
    intro voters hall
    induction voters with
    | nil => exact ⟨[], rfl⟩
    | cons voterID voters ih =>
      obtain ⟨⟨htext, hlength⟩, hrest⟩ := forall_mem_cons.mp hall
      obtain ⟨written, hwritten⟩ := ih hrest
      refine ⟨(littleEndian 4 voterID.length ++ voterID) :: written, ?_⟩
      simp only [mapM_cons, eq_ok]
      refine ⟨_, ?_, written, hwritten, rfl⟩
      simp [writeString, writeBytes, htext, failIf_of_not (Nat.not_lt.mpr hlength)]
  obtain ⟨written, hwritten⟩ := hstrings certificate.voters hvoters
  have hscheme : ∃ scheme, writeString maxConsensusContainerLength
      certificate.signatureScheme.text = .ok scheme := by
    cases certificate.signatureScheme <;> exact ⟨_, rfl⟩
  obtain ⟨scheme, hscheme⟩ := hscheme
  have hbytes : ∀ content : Bytes, content.length ≤ maxConsensusContainerLength →
      writeBytes maxConsensusContainerLength content =
        .ok (littleEndian 4 content.length ++ content) := by
    intro content hlength
    simp only [writeBytes, failIf_of_not (Nat.not_lt.mpr hlength)]
    rfl
  simp only [marshalBinary, eq_ok]
  exact ⟨_, hvalid, written, hwritten, scheme, hscheme, _, hbytes _ hsignature, _,
    hbytes _ hbitmap, rfl⟩

end

end Ordexus
