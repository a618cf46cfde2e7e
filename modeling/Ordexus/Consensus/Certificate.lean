import Ordexus.Consensus.ValidatorSet
import Ordexus.Library.Weight

/-!
# Verification of quorum certificates

`VerifyQuorumCertificateForSnapshot` and the aggregate checks below it
(`consensus/proofs.go`, `consensus/bls_qc.go`). Aggregation is ideal: the
signatures made so far are a list of messages, and an aggregate verifies when
every message it covers has been signed. The main result is what an accepted
certificate is worth: the validators that signed its message hold more than two
thirds of the stake of the snapshot.
-/

namespace Ordexus

open Checked List

/-- Is the bit of a validator set in a voter bitmap? -/
def bitmapBit (bitmap : Bytes) (index : ℕ) : Bool :=
  (bitmap.getD (index / 8) 0).toNat.testBit (index % 8)

/-- The entries of a list whose bit is set, counting from `index`. -/
def selectByBitmap {α : Type} (bitmap : Bytes) : ℕ → List α → List α
  | _, [] => []
  | index, x :: xs =>
    if bitmapBit bitmap index then x :: selectByBitmap bitmap (index + 1) xs
    else selectByBitmap bitmap (index + 1) xs

def votersFromBitmap (validatorOrder : List ValidatorID) (bitmap : Bytes) :
    Except String (List ValidatorID) := do
  failIf (validatorOrder = [] ∨ bitmap = []) "consensus: invalid certificate: empty voter bitmap"
  failIf (bitmap.length ≠ (validatorOrder.length + 7) / 8)
    "consensus: invalid certificate: voter bitmap length mismatch"
  let voters := selectByBitmap bitmap 0 validatorOrder
  failIf (voters = []) "consensus: invalid certificate: empty voter bitmap"
  pure (voters.insertionSort (· ≤ ·))

/-- The registered stake of a validator; ids are unique where this is read. -/
def EpochSnapshot.stakeOf (snapshot : EpochSnapshot) (id : ValidatorID) : ℕ :=
  ((snapshot.validatorByID id).map ValidatorState.stakeLamports).getD 0

/-- The stake table in validator order: ids read so far and their total. -/
def stakeByValidatorOrder (stakeOf : ValidatorID → ℕ) :
    List ValidatorID → ℕ → List ValidatorID → Except String ℕ
  | _, total, [] => pure total
  | seen, total, id :: ids => do
    failIf (id = []) "consensus: invalid certificate: empty validator id"
    failIf (id ∈ seen) "consensus: invalid certificate: duplicate validator id"
    failIf (stakeOf id = 0) "consensus: invalid certificate: validator stake missing"
    failIf (maxUint64 - total < stakeOf id)
      "consensus: invalid certificate: total stake overflow"
    stakeByValidatorOrder stakeOf (seen ++ [id]) (total + stakeOf id) ids

/-- Every voter of a certificate has signed its message. -/
def verifyAggregate (signed : List VoteMessage) (messages : List VoteMessage) : Bool :=
  messages.all fun message => decide (message ∈ signed)

section

variable (signed : List VoteMessage) (snapshot : EpochSnapshot) (certificate : QuorumCertificate)

def verifyBLSAggregate : Except String Unit := do
  certificate.validate
  let voters ← votersFromBitmap snapshot.validatorOrder certificate.voterBitmap
  failIf (voters.isPerm certificate.voters = false)
    "consensus: invalid certificate: voter bitmap mismatch"
  failIf (∃ voter ∈ voters, ∀ validator ∈ snapshot.validatorByID voter,
      validator.blsPublicKey = [])
    "consensus: invalid certificate: missing bls public key"
  failIf (verifyAggregate signed (voters.map certificate.message) = false)
    "consensus: invalid certificate: invalid bls aggregate signature"

def verifyBLSAggregateWithStake (quorum : Quorum) : Except String Unit := do
  verifyBLSAggregate signed snapshot certificate
  let totalStake ← stakeByValidatorOrder snapshot.stakeOf [] 0 snapshot.validatorOrder
  let requiredStake ← quorum.requiredStake totalStake
  failIf (certificate.thresholdStake ≠ requiredStake)
    "consensus: invalid certificate: threshold stake mismatch"
  let voters ← votersFromBitmap snapshot.validatorOrder certificate.voterBitmap
  let confirmedStake ← checkedSum "consensus: invalid certificate: confirmed stake overflow" 0
    (voters.map snapshot.stakeOf)
  failIf (confirmedStake ≠ certificate.confirmedStake)
    "consensus: invalid certificate: confirmed stake mismatch"
  failIf (confirmedStake < requiredStake)
    "consensus: invalid certificate: insufficient confirmed stake"

end

def verifyQuorumCertificateForSnapshot (crypto : Crypto) (signed : List VoteMessage)
    (certificate : QuorumCertificate) (snapshot : EpochSnapshot) (quorum : Quorum) :
    Except String Unit := do
  failIf (succeeds (snapshot.validate crypto) = false)
    "consensus: invalid certificate: invalid epoch snapshot"
  certificate.validate
  failIf (certificate.slot < snapshot.startSlot ∨ snapshot.endSlot < certificate.slot)
    "consensus: invalid certificate: qc slot is outside epoch snapshot"
  failIf (snapshot.validators = [] ∨
      ((snapshot.validators.filter fun validator => validator.blsPublicKey ≠ []).map
        ValidatorState.validatorID).dedup.length ≠ snapshot.validators.length)
    "consensus: invalid certificate: complete bls validator set is required"
  failIf (certificate.signatureScheme = .none)
    "consensus: invalid certificate: aggregate qc signature is required"
  verifyBLSAggregateWithStake signed snapshot certificate quorum

/-- The stake of a snapshot whose holders have signed a given decision. -/
def EpochSnapshot.signedStake (snapshot : EpochSnapshot) (signed : List VoteMessage)
    (message : ValidatorID → VoteMessage) : ℕ :=
  Weight.of ValidatorState.stakeLamports snapshot.validators
    fun validator => decide (message validator.validatorID ∈ signed)

theorem selectByBitmap_map {α β : Type} (f : α → β) (bitmap : Bytes) (index : ℕ)
    (xs : List α) :
    selectByBitmap bitmap index (xs.map f) = (selectByBitmap bitmap index xs).map f := by
  induction xs generalizing index with
  | nil => rfl
  | cons x xs ih =>
    simp only [map_cons, selectByBitmap, ih]
    split <;> simp

theorem selectByBitmap_sublist {α : Type} (bitmap : Bytes) (index : ℕ) (xs : List α) :
    (selectByBitmap bitmap index xs).Sublist xs := by
  induction xs generalizing index with
  | nil => exact Sublist.slnil
  | cons x xs ih =>
    unfold selectByBitmap
    split
    · exact (ih (index + 1)).cons_cons x
    · exact (ih (index + 1)).cons x

/-- Reading the bitmap is selecting validators and naming them. -/
theorem votersFromBitmap_spec {snapshot : EpochSnapshot} {bitmap : Bytes}
    {voters : List ValidatorID} (h : votersFromBitmap snapshot.validatorOrder bitmap = .ok voters) :
    ∃ chosen : List ValidatorState, chosen.Sublist snapshot.validators ∧
      voters.Perm (chosen.map ValidatorState.validatorID) := by
  simp only [votersFromBitmap, eq_ok] at h
  obtain ⟨-, -, -, hvoters⟩ := h
  refine ⟨selectByBitmap bitmap 0 snapshot.validators, selectByBitmap_sublist _ _ _, ?_⟩
  rw [← hvoters, EpochSnapshot.validatorOrder, selectByBitmap_map]
  exact perm_insertionSort _ _

/-- A complete stake table has no repeated id, and its total is the sum of the
registered stakes. -/
theorem stakeByValidatorOrder_spec {stakeOf : ValidatorID → ℕ} {seen ids : List ValidatorID}
    {start total : ℕ} (h : stakeByValidatorOrder stakeOf seen start ids = .ok total) :
    ids.Nodup ∧ (∀ id ∈ ids, id ∉ seen) ∧ total = start + (ids.map stakeOf).sum := by
  induction ids generalizing seen start with
  | nil =>
    have hstart : start = total := by simpa only [stakeByValidatorOrder, pure_eq_ok] using h
    simp [hstart]
  | cons id ids ih =>
    simp only [stakeByValidatorOrder, eq_ok] at h
    obtain ⟨-, hnew, -, -, htail⟩ := h
    obtain ⟨hnodup, hfresh, htotal⟩ := ih htail
    have hid : id ∉ ids := fun hmem => hfresh id hmem (by simp)
    refine ⟨nodup_cons.mpr ⟨hid, hnodup⟩, ?_, ?_⟩
    · intro other hother hseen
      rcases mem_cons.mp hother with rfl | htailMem
      · exact hnew hseen
      · exact hfresh other htailMem (mem_append_left _ hseen)
    · rw [map_cons, sum_cons]
      omega

/-- With unique ids, the registered stake of a listed validator is its own. -/
theorem EpochSnapshot.stakeOf_mem {snapshot : EpochSnapshot} {validator : ValidatorState}
    (hnodup : snapshot.validatorOrder.Nodup) (hmem : validator ∈ snapshot.validators) :
    snapshot.stakeOf validator.validatorID = validator.stakeLamports := by
  have hfind : snapshot.validatorByID validator.validatorID = some validator := by
    unfold EpochSnapshot.validatorByID
    cases hfound : snapshot.validators.find? fun v => v.validatorID = validator.validatorID with
    | none =>
      have habsent := find?_eq_none.mp hfound validator hmem
      simp at habsent
    | some other =>
      have hother : other.validatorID = validator.validatorID := by
        simpa using find?_some hfound
      have hsame := inj_on_of_nodup_map hnodup (mem_of_find?_eq_some hfound) hmem hother
      rw [hsame]
  rw [EpochSnapshot.stakeOf, hfind]
  rfl

/-- A snapshot against which certificates can be checked: ids are unique and the
total stake is positive. -/
structure EpochSnapshot.Sound (snapshot : EpochSnapshot) : Prop where
  nodup : snapshot.validatorOrder.Nodup
  pos : 0 < snapshot.totalStake

/-- An accepted certificate was signed by the holders of more than two thirds of
the stake. -/
theorem verifyQuorumCertificateForSnapshot_quorum {crypto : Crypto} {signed : List VoteMessage}
    {certificate : QuorumCertificate} {snapshot : EpochSnapshot}
    (h : verifyQuorumCertificateForSnapshot crypto signed certificate snapshot strictTwoThirds =
      .ok ()) :
    snapshot.Sound ∧ snapshot.totalStake * 2 / 3 + 1 ≤
      snapshot.signedStake signed certificate.message := by
  simp only [verifyQuorumCertificateForSnapshot, verifyBLSAggregateWithStake, verifyBLSAggregate,
    eq_ok] at h
  obtain ⟨-, -, -, -, -, ⟨-, signers, hsigners, -, -, hverified⟩, total, htotal, required,
    hrequired, -, voters, hvoters, confirmed, hconfirmed, -, henough⟩ := h
  obtain rfl : signers = voters := by
    rw [hsigners] at hvoters
    exact Except.ok.inj hvoters
  obtain ⟨hnodup, -, htotalSum⟩ := stakeByValidatorOrder_spec htotal
  obtain ⟨hpos, rfl⟩ := requiredStake_strictTwoThirds hrequired
  obtain ⟨chosen, hsub, hperm⟩ := votersFromBitmap_spec hvoters
  have hstakes : ∀ validators : List ValidatorState, validators ⊆ snapshot.validators →
      (validators.map ValidatorState.validatorID).map snapshot.stakeOf =
        validators.map ValidatorState.stakeLamports := by
    intro validators hsubset
    rw [map_map]
    exact map_congr_left fun v hv => EpochSnapshot.stakeOf_mem hnodup (hsubset hv)
  have htotal' : total = snapshot.totalStake := by
    rw [htotalSum, EpochSnapshot.validatorOrder, hstakes _ (Subset.refl _), Nat.zero_add]
    rfl
  have hconfirmed' : confirmed = (chosen.map ValidatorState.stakeLamports).sum := by
    rw [checkedSum_eq hconfirmed, Nat.zero_add, (hperm.map snapshot.stakeOf).sum_nat,
      hstakes chosen hsub.subset]
  have hsigned : ∀ v ∈ chosen, decide (certificate.message v.validatorID ∈ signed) = true := by
    intro v hv
    simp only [verifyAggregate, Bool.not_eq_false, all_eq_true, mem_map,
      forall_exists_index, and_imp, forall_apply_eq_imp_iff₂] at hverified
    exact hverified v.validatorID (hperm.mem_iff.mpr (mem_map_of_mem hv))
  have hle : confirmed ≤ snapshot.signedStake signed certificate.message := by
    rw [hconfirmed']
    exact Weight.sum_le_of_sublist hsub hsigned
  subst htotal'
  exact ⟨⟨hnodup, hpos⟩, by omega⟩

end Ordexus
