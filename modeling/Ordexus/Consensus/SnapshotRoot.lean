import Ordexus.Consensus.CollectorCertificates
import Ordexus.Consensus.LeaderSchedule

/-!
# What the root of a snapshot commits to

`EpochSnapshot.Validate` recomputes the root from the normalized, sorted and filtered validators,
but leaders, bitmaps and stakes are read from the list as it stands in the snapshot. The two agree
exactly for lists in canonical form, and then the root determines everything that is derived from
the snapshot.
-/

namespace Ordexus

open Checked Borsh List

/-- `StakeMap`: a later entry of an id replaces an earlier one. -/
def EpochSnapshot.stakeMap (snapshot : EpochSnapshot) : Table ValidatorID ℕ :=
  snapshot.validators.foldl
    (fun stakes validator => stakes.insert validator.validatorID validator.stakeLamports) ∅

/-- The snapshot that `Validate` computes for the comparison. -/
def EpochSnapshot.recompute (crypto : Crypto) (snapshot : EpochSnapshot) :
    Except String EpochSnapshot := do
  let set ← newValidatorSet crypto snapshot.validators
  newEpochSnapshot crypto snapshot.epochID snapshot.startSlot
    (snapshot.endSlot - snapshot.startSlot + 1) snapshot.randomSeed set

/-- The validators are listed as a snapshot lists them: in the order of their ids, each of them
named, active and out of jail. -/
structure EpochSnapshot.Canonical (snapshot : EpochSnapshot) : Prop where
  sorted : snapshot.validators.Pairwise fun left right => left.validatorID < right.validatorID
  named : ∀ validator ∈ snapshot.validators, validator.validatorID ≠ []
  active : ∀ validator ∈ snapshot.validators,
    validator.status = .active ∧ validator.jailUntilEpoch ≤ snapshot.epochID

/-! ### Normalized validators -/

section

variable {crypto : Crypto} {validators : List ValidatorState}

/-- Normalizing changes nothing about named validators that are not inactive. -/
theorem normalized_eq_self {added : List ValidatorState}
    (h : Forall₂ (fun validator normalized =>
      normalizeValidatorState crypto validator = .ok normalized) validators added)
    (hnamed : ∀ validator ∈ validators, validator.validatorID ≠ [])
    (hactive : ∀ validator ∈ validators, validator.status = .active) : added = validators := by
  induction h with
  | nil => rfl
  | @cons validator normalized validators added hhead _ ih =>
    obtain ⟨hname, hnamed⟩ := forall_mem_cons.mp hnamed
    obtain ⟨hstatus, hactive⟩ := forall_mem_cons.mp hactive
    obtain ⟨-, -, hnormalized, hkept⟩ := normalizeValidatorState_eq_ok hhead
    rw [hkept hname, hstatus, if_neg (by decide), ← hstatus] at hnormalized
    rw [hnormalized, ih hnamed hactive]

end

section

variable {crypto : Crypto} {snapshot recomputed : EpochSnapshot}

theorem newEpochSnapshot_eq_ok {epochID startSlot epochSlots : ℕ} {seed : Hash} {set : ValidatorSet}
    (h : newEpochSnapshot crypto epochID startSlot epochSlots seed set = .ok snapshot) :
    snapshot =
      { epochID := epochID
        startSlot := startSlot
        endSlot := startSlot + epochSlots - 1
        randomSeed := seed
        totalActiveStake :=
          ((set.activeValidators epochID).map ValidatorState.stakeLamports).sum
        validators := set.activeValidators epochID
        snapshotStateRoot := hashEpochSnapshot crypto epochID startSlot epochSlots seed
          (set.activeValidators epochID) } := by
  simp only [newEpochSnapshot, eq_ok] at h
  obtain ⟨-, -, -, totalStake, htotal, rfl⟩ := h
  rw [checkedSum_eq htotal, Nat.zero_add]

/-- What an accepted snapshot has in common with the recomputed one. -/
theorem validate_eq_ok (h : snapshot.validate crypto = .ok ()) :
    snapshot.startSlot ≤ snapshot.endSlot ∧
      snapshot.endSlot - snapshot.startSlot ≠ maxUint64 ∧ ∃ recomputed,
        snapshot.recompute crypto = .ok recomputed ∧
        recomputed.totalActiveStake = snapshot.totalActiveStake ∧
        recomputed.snapshotStateRoot = snapshot.snapshotStateRoot := by
  simp only [EpochSnapshot.validate, eq_ok, not_or, not_not, ne_eq] at h
  obtain ⟨⟨hslots, hall⟩, set, hset, recomputed, hrecomputed, htotal, hroot⟩ := h
  exact ⟨Nat.le_of_not_lt hslots, hall, recomputed, bind_eq_ok.mpr ⟨set, hset, hrecomputed⟩, htotal,
    hroot⟩

/-- The recomputed snapshot lists the normalized validators in canonical form. -/
theorem recompute_eq_ok (h : snapshot.recompute crypto = .ok recomputed) :
    ∃ added, Forall₂ (fun validator normalized =>
        normalizeValidatorState crypto validator = .ok normalized) snapshot.validators added ∧
      (added.map ValidatorState.validatorID).Nodup ∧
      newEpochSnapshot crypto snapshot.epochID snapshot.startSlot
        (snapshot.endSlot - snapshot.startSlot + 1) snapshot.randomSeed ⟨added⟩ =
          .ok recomputed := by
  simp only [EpochSnapshot.recompute, newValidatorSet, eq_ok] at h
  obtain ⟨_, ⟨-, entries, hentries, rfl⟩, hsnapshot⟩ := h
  obtain ⟨hnodup, added, rfl, hnormalized⟩ := addValidators_eq_ok hentries nodup_nil
  exact ⟨entries, hnormalized, hnodup, hsnapshot⟩

/-- The listed validators of a set are in the order of their distinct ids. -/
theorem activeValidators_sorted {entries : List ValidatorState}
    (h : (entries.map ValidatorState.validatorID).Nodup) (epochID : ℕ) :
    (ValidatorSet.activeValidators ⟨entries⟩ epochID).Pairwise
      fun left right => left.validatorID < right.validatorID := by
  have hsorted : (ValidatorSet.validators ⟨entries⟩).Pairwise
      fun left right => left.validatorID ≤ right.validatorID :=
    pairwise_insertionSort (fun left right : ValidatorState =>
      left.validatorID ≤ right.validatorID) entries
  have hnodup : ((ValidatorSet.validators ⟨entries⟩).map ValidatorState.validatorID).Nodup :=
    ((perm_insertionSort _ entries).map _).nodup_iff.mpr h
  have hstrict := hsorted.and (pairwise_map.mp hnodup)
  exact (hstrict.imp fun hboth => Std.lt_of_le_of_ne hboth.1 hboth.2).sublist filter_sublist

/-- Nothing is to be sorted or filtered out of a list in canonical form. -/
theorem EpochSnapshot.Canonical.activeValidators_eq (h : snapshot.Canonical) :
    ValidatorSet.activeValidators ⟨snapshot.validators⟩ snapshot.epochID =
      snapshot.validators := by
  have hsorted : ValidatorSet.validators ⟨snapshot.validators⟩ = snapshot.validators :=
    (h.sorted.imp List.le_of_lt).insertionSort_eq
  rw [ValidatorSet.activeValidators, hsorted, filter_eq_self]
  intro validator hmem
  obtain ⟨hstatus, hjail⟩ := h.active validator hmem
  simp [hstatus, hjail]

/-- An accepted snapshot is the recomputed one exactly if its list is in canonical form. -/
theorem recompute_eq_self_iff (h : snapshot.validate crypto = .ok ()) :
    snapshot.recompute crypto = .ok snapshot ↔ snapshot.Canonical := by
  obtain ⟨hslots, -, recomputed, hrecompute, htotal, hroot⟩ := validate_eq_ok h
  obtain ⟨added, hadded, hnodup, hsnapshot⟩ := recompute_eq_ok hrecompute
  have hrecomputed := newEpochSnapshot_eq_ok hsnapshot
  rw [hrecompute, Except.ok.injEq]
  constructor
  · rintro rfl
    have hlisted : recomputed.validators =
        ValidatorSet.activeValidators ⟨added⟩ recomputed.epochID :=
      congrArg EpochSnapshot.validators hrecomputed
    refine ⟨?_, fun validator hmem => ?_, fun validator hmem => ?_⟩
    · rw [hlisted]
      exact activeValidators_sorted hnodup _
    · rw [hlisted] at hmem
      have hentry := (mem_insertionSort _).mp (mem_of_mem_filter hmem)
      obtain ⟨original, -, hnormalized⟩ := exists_of_mem_forall₂ hadded hentry
      exact (normalizeValidatorState_eq_ok hnormalized).2.1
    · rw [hlisted] at hmem
      simpa using of_mem_filter hmem
  · intro hcanonical
    have hsame := normalized_eq_self hadded hcanonical.named
      fun validator hmem => (hcanonical.active validator hmem).1
    subst hsame
    have hactive := hcanonical.activeValidators_eq
    have hend : snapshot.startSlot + (snapshot.endSlot - snapshot.startSlot + 1) - 1 =
        snapshot.endSlot := by
      omega
    rw [hactive, hend] at hrecomputed
    rw [hrecomputed] at htotal hroot ⊢
    dsimp only at htotal hroot
    rw [htotal, hroot]

end

/-! ### The root -/

theorem Crypto.NamesByDigest.length_eq {crypto : Crypto} (h : crypto.NamesByDigest)
    (key : PublicKey) : (crypto.newValidatorID key).length = 32 := by
  obtain ⟨digest, hlength, hname⟩ := h key
  simp [hname, hexText, hlength]

/-- The fields fit the widths in which they are written. -/
structure ValidatorState.InRange (validator : ValidatorState) : Prop where
  accountAddress : validator.accountAddress < 256 ^ 32
  consensusPublicKey : validator.consensusPublicKey < 256 ^ 32
  blsPublicKey : validator.blsPublicKey.length < 256 ^ 8
  p2pPeerID : validator.p2pPeerID.length < 256 ^ 8
  stakeLamports : validator.stakeLamports < 256 ^ 8
  commissionBps : validator.commissionBps < 256 ^ 8
  jailUntilEpoch : validator.jailUntilEpoch < 256 ^ 8

structure EpochSnapshot.InRange (snapshot : EpochSnapshot) : Prop where
  epochID : snapshot.epochID < 256 ^ 8
  startSlot : snapshot.startSlot < 256 ^ 8
  endSlot : snapshot.endSlot < 256 ^ 8
  randomSeed : snapshot.randomSeed < 256 ^ 32
  validators : ∀ validator ∈ snapshot.validators, validator.InRange

/-- Two validators agree on everything that the root covers. -/
structure ValidatorState.SameCommitment (first second : ValidatorState) : Prop where
  validatorID : first.validatorID = second.validatorID
  accountAddress : first.accountAddress = second.accountAddress
  consensusPublicKey : first.consensusPublicKey = second.consensusPublicKey
  blsPublicKey : first.blsPublicKey = second.blsPublicKey
  p2pPeerID : first.p2pPeerID = second.p2pPeerID
  stakeLamports : first.stakeLamports = second.stakeLamports
  status : first.status = second.status
  commissionBps : first.commissionBps = second.commissionBps
  jailUntilEpoch : first.jailUntilEpoch = second.jailUntilEpoch

theorem ValidatorStatus.code_inj {first second : ValidatorStatus}
    (h : UInt8.ofNat first.code = UInt8.ofNat second.code) : first = second := by
  cases first <;> cases second <;> first | rfl | cases h

/-- The commitment of a validator can be split off, since ids have one length. -/
theorem ValidatorState.encodeForSnapshot_split {first second : ValidatorState}
    {rest others : Bytes} (hid : first.validatorID.length = second.validatorID.length)
    (hfirst : first.InRange) (hsecond : second.InRange)
    (h : first.encodeForSnapshot ++ rest = second.encodeForSnapshot ++ others) :
    first.SameCommitment second ∧ rest = others := by
  simp only [encodeForSnapshot, uint64ForHash, append_assoc, cons_append, nil_append] at h
  obtain ⟨hvalidatorID, h⟩ := append_inj h hid
  obtain ⟨haccount, h⟩ := split_bigEndian hfirst.accountAddress hsecond.accountAddress h
  obtain ⟨hkey, h⟩ := split_bigEndian hfirst.consensusPublicKey hsecond.consensusPublicKey h
  obtain ⟨hbls, h⟩ := split_prefixed hfirst.blsPublicKey hsecond.blsPublicKey h
  obtain ⟨hpeer, h⟩ := split_prefixed hfirst.p2pPeerID hsecond.p2pPeerID h
  obtain ⟨hstake, h⟩ := split_littleEndian hfirst.stakeLamports hsecond.stakeLamports h
  obtain ⟨hstatus, h⟩ := cons.inj h
  obtain ⟨hcommission, h⟩ := split_littleEndian hfirst.commissionBps hsecond.commissionBps h
  obtain ⟨hjail, h⟩ := split_littleEndian hfirst.jailUntilEpoch hsecond.jailUntilEpoch h
  exact ⟨⟨hvalidatorID, haccount, hkey, hbls, hpeer, hstake, ValidatorStatus.code_inj hstatus,
    hcommission, hjail⟩, h⟩

theorem ValidatorState.encodeForSnapshot_ne_nil (validator : ValidatorState) :
    validator.encodeForSnapshot ≠ [] := by
  simp [encodeForSnapshot]

/-- The bytes under the root. -/
def EpochSnapshot.commitment (snapshot : EpochSnapshot) : Bytes :=
  uint64ForHash snapshot.epochID ++ uint64ForHash snapshot.startSlot ++
    uint64ForHash (snapshot.endSlot - snapshot.startSlot + 1) ++
    bigEndian 32 snapshot.randomSeed ++
    snapshot.validators.flatMap ValidatorState.encodeForSnapshot

section

variable {crypto : Crypto} {snapshot first second : EpochSnapshot}

/-- Total stake and root of a canonical snapshot are those of its list. -/
theorem derived_of_canonical (h : snapshot.validate crypto = .ok ())
    (hcanonical : snapshot.Canonical) :
    snapshot.totalActiveStake = (snapshot.validators.map ValidatorState.stakeLamports).sum ∧
      snapshot.snapshotStateRoot = crypto.sha256 snapshot.commitment := by
  obtain ⟨added, hadded, -, hsnapshot⟩ := recompute_eq_ok ((recompute_eq_self_iff h).mpr hcanonical)
  obtain rfl := normalized_eq_self hadded hcanonical.named
    fun validator hmem => (hcanonical.active validator hmem).1
  have hrecomputed := newEpochSnapshot_eq_ok hsnapshot
  rw [hcanonical.activeValidators_eq] at hrecomputed
  exact ⟨congrArg EpochSnapshot.totalActiveStake hrecomputed,
    congrArg EpochSnapshot.snapshotStateRoot hrecomputed⟩

/-- The validators of an accepted snapshot in canonical form have the ids of their keys. -/
theorem EpochSnapshot.Canonical.validatorID_eq (hcanonical : snapshot.Canonical)
    (h : snapshot.validate crypto = .ok ()) :
    ∀ validator ∈ snapshot.validators,
      validator.validatorID = crypto.newValidatorID validator.consensusPublicKey := by
  obtain ⟨added, hadded, -, -⟩ := recompute_eq_ok ((recompute_eq_self_iff h).mpr hcanonical)
  obtain rfl := normalized_eq_self hadded hcanonical.named
    fun validator hmem => (hcanonical.active validator hmem).1
  intro validator hmem
  obtain ⟨original, hmem, hnormalized⟩ := exists_of_mem_forall₂ hadded hmem
  obtain ⟨hid, -, hsame, -⟩ := normalizeValidatorState_eq_ok hnormalized
  rw [hid, hsame]

/-- Snapshots in canonical form with the same bytes under the root. -/
structure EpochSnapshot.SameCommitment (first second : EpochSnapshot) : Prop where
  epochID : first.epochID = second.epochID
  startSlot : first.startSlot = second.startSlot
  endSlot : first.endSlot = second.endSlot
  randomSeed : first.randomSeed = second.randomSeed
  validators : List.Forall₂ ValidatorState.SameCommitment first.validators second.validators

/-- The number of slots fits too, since `Validate` refuses the whole range. -/
theorem slots_lt (h : snapshot.validate crypto = .ok ()) (hrange : snapshot.InRange) :
    snapshot.startSlot ≤ snapshot.endSlot ∧
      snapshot.endSlot - snapshot.startSlot + 1 < 256 ^ 8 := by
  obtain ⟨hslots, hall, -⟩ := validate_eq_ok h
  have hend := hrange.endSlot
  simp only [maxUint64] at hall
  omega

theorem sameCommitment_of_commitment_eq (hnames : crypto.NamesByDigest)
    (hfirst : first.validate crypto = .ok ()) (hsecond : second.validate crypto = .ok ())
    (hfirstForm : first.Canonical) (hsecondForm : second.Canonical) (hfirstRange : first.InRange)
    (hsecondRange : second.InRange) (h : first.commitment = second.commitment) :
    first.SameCommitment second := by
  obtain ⟨hfirstSlots, hfirstCount⟩ := slots_lt hfirst hfirstRange
  obtain ⟨hsecondSlots, hsecondCount⟩ := slots_lt hsecond hsecondRange
  obtain ⟨hepoch, h⟩ := split_littleEndian hfirstRange.epochID hsecondRange.epochID h
  obtain ⟨hstart, h⟩ := split_littleEndian hfirstRange.startSlot hsecondRange.startSlot h
  obtain ⟨hcount, h⟩ := split_littleEndian hfirstCount hsecondCount h
  obtain ⟨hseed, h⟩ := split_bigEndian hfirstRange.randomSeed hsecondRange.randomSeed h
  refine ⟨hepoch, hstart, by omega, hseed,
    forall₂_of_flatMap ValidatorState.encodeForSnapshot_ne_nil ?_ h⟩
  intro validator hmem other hother rest others hbytes
  have hlength : validator.validatorID.length = other.validatorID.length := by
    rw [hfirstForm.validatorID_eq hfirst validator hmem,
      hsecondForm.validatorID_eq hsecond other hother, hnames.length_eq, hnames.length_eq]
  exact ValidatorState.encodeForSnapshot_split hlength (hfirstRange.validators validator hmem)
    (hsecondRange.validators other hother) hbytes

/-! ### What is derived from a snapshot -/

theorem map_eq_of_forall₂ {α β : Type} {relation : α → α → Prop} {f : α → β} {xs ys : List α}
    (h : Forall₂ relation xs ys) (hf : ∀ x y, relation x y → f x = f y) :
    xs.map f = ys.map f := by
  induction h with
  | nil => rfl
  | cons hhead _ ih => rw [map_cons, map_cons, hf _ _ hhead, ih]

/-- Leaders depend on ids and stakes only. -/
theorem leaderAtTarget_eq {validators others : List ValidatorState}
    (h : Forall₂ ValidatorState.SameCommitment validators others) (target accumulated : ℕ) :
    leaderAtTarget target accumulated validators = leaderAtTarget target accumulated others := by
  induction h generalizing accumulated with
  | nil => rfl
  | cons hhead _ ih =>
    rw [leaderAtTarget, leaderAtTarget, hhead.stakeLamports, hhead.validatorID, ih]

theorem EpochSnapshot.SameCommitment.stakeMap_eq (h : first.SameCommitment second) :
    first.stakeMap = second.stakeMap := by
  have hpairs : (first.validators.map fun validator =>
      (validator.validatorID, validator.stakeLamports)) =
      second.validators.map fun validator => (validator.validatorID, validator.stakeLamports) :=
    map_eq_of_forall₂ h.validators
      fun validator other hsame => Prod.ext hsame.validatorID hsame.stakeLamports
  have hfold (snapshot : EpochSnapshot) : snapshot.stakeMap =
      (snapshot.validators.map fun validator =>
        (validator.validatorID, validator.stakeLamports)).foldl
          (fun stakes entry => stakes.insert entry.1 entry.2) ∅ := by
    rw [foldl_map]
    rfl
  rw [hfold, hfold, hpairs]

theorem EpochSnapshot.SameCommitment.validatorOrder_eq (h : first.SameCommitment second) :
    first.validatorOrder = second.validatorOrder :=
  map_eq_of_forall₂ h.validators fun _ _ hsame => hsame.validatorID

theorem EpochSnapshot.SameCommitment.newLeaderSchedule_eq (h : first.SameCommitment second)
    (htotal : first.totalActiveStake = second.totalActiveStake) :
    newLeaderSchedule crypto first = newLeaderSchedule crypto second := by
  have hselect (slot : ℕ) :
      selectLeaderForSlot crypto first slot = selectLeaderForSlot crypto second slot := by
    have hlast : first.validators.getLast?.map ValidatorState.validatorID =
        second.validators.getLast?.map ValidatorState.validatorID := by
      rw [← getLast?_map, ← getLast?_map]
      exact congrArg getLast? h.validatorOrder_eq
    rw [selectLeaderForSlot, selectLeaderForSlot, h.randomSeed, htotal, hlast,
      leaderAtTarget_eq h.validators]
  have hempty : first.validators = [] ↔ second.validators = [] := by
    rw [← length_eq_zero_iff, ← length_eq_zero_iff, h.validators.length_eq]
  simp only [newLeaderSchedule, hselect, hempty, htotal, h.startSlot, h.endSlot]

/-- An accepted snapshot is the one that is computed from its own data exactly if its validators
are listed in canonical form. Two such snapshots with the same root, whose commitments do not
collide, have the same leaders, the same order of validators and the same stakes. -/
theorem accepted_snapshot_authentic (hnames : crypto.NamesByDigest) :
    (∀ snapshot : EpochSnapshot, snapshot.validate crypto = .ok () →
      (snapshot.recompute crypto = .ok snapshot ↔ snapshot.Canonical)) ∧
    ∀ first second : EpochSnapshot, first.InRange → second.InRange →
      first.validate crypto = .ok () → second.validate crypto = .ok () →
      first.Canonical → second.Canonical →
      first.snapshotStateRoot = second.snapshotStateRoot →
      (crypto.sha256 first.commitment = crypto.sha256 second.commitment →
        first.commitment = second.commitment) →
      newLeaderSchedule crypto first = newLeaderSchedule crypto second ∧
        first.validatorOrder = second.validatorOrder ∧ first.stakeMap = second.stakeMap := by
  refine ⟨fun snapshot h => recompute_eq_self_iff h, ?_⟩
  intro first second hfirstRange hsecondRange hfirst hsecond hfirstForm hsecondForm hroot hfree
  obtain ⟨hfirstStake, hfirstRoot⟩ := derived_of_canonical hfirst hfirstForm
  obtain ⟨hsecondStake, hsecondRoot⟩ := derived_of_canonical hsecond hsecondForm
  rw [hfirstRoot, hsecondRoot] at hroot
  have hsame := sameCommitment_of_commitment_eq hnames hfirst hsecond hfirstForm hsecondForm
    hfirstRange hsecondRange (hfree hroot)
  have htotal : first.totalActiveStake = second.totalActiveStake := by
    rw [hfirstStake, hsecondStake,
      map_eq_of_forall₂ hsame.validators fun _ _ hentry => hentry.stakeLamports]
  exact ⟨hsame.newLeaderSchedule_eq htotal, hsame.validatorOrder_eq, hsame.stakeMap_eq⟩

end

/-! ### Two orders under one root -/

/-- Digests that determine what was hashed, and ids of the right length. -/
def openCrypto : Crypto where
  sha256 := fun bytes => Borsh.ofLittleEndian (bytes ++ [1])
  newValidatorID := fun key => hexText (bigEndian 16 key)
  decodesAsBLSKey := fun _ => true
  verifyMessageSignature := fun _ _ _ => true

theorem openCrypto_names : openCrypto.NamesByDigest :=
  fun key => ⟨bigEndian 16 key, by simp, rfl⟩

def stakedValidator (key stakeLamports : ℕ) : ValidatorState :=
  { countedValidator key with
    validatorID := openCrypto.newValidatorID key
    stakeLamports := stakeLamports }

/-- A snapshot of one slot with the root of the two validators in their order. -/
def twoValidatorSnapshot (validators : List ValidatorState) : EpochSnapshot where
  epochID := 1
  startSlot := 5
  endSlot := 5
  randomSeed := 3
  totalActiveStake := 2
  validators := validators
  snapshotStateRoot :=
    hashEpochSnapshot openCrypto 1 5 1 3 [stakedValidator 1 1, stakedValidator 2 1]

/-- The sorted list, and the same list with a later vote of the first validator. -/
theorem accepted_snapshot_authentic_sorted :
    ∃ first second : EpochSnapshot, first ≠ second ∧ first.recompute openCrypto = .ok first ∧
      newLeaderSchedule openCrypto first = newLeaderSchedule openCrypto second ∧
      first.validatorOrder = second.validatorOrder ∧ first.stakeMap = second.stakeMap := by
  let first := twoValidatorSnapshot [stakedValidator 1 1, stakedValidator 2 1]
  let second := twoValidatorSnapshot
    [{ stakedValidator 1 1 with lastVotedSlot := 4 }, stakedValidator 2 1]
  have hfirst : first.validate openCrypto = .ok () := by decide +kernel
  have hsecond : second.validate openCrypto = .ok () := by decide +kernel
  have hfirstForm : first.Canonical := ⟨by decide +kernel, by decide +kernel, by decide +kernel⟩
  have hsecondForm : second.Canonical := ⟨by decide +kernel, by decide +kernel, by decide +kernel⟩
  have hrange (validator : ValidatorState) (hmem : validator ∈ first.validators ++
      second.validators) : validator.InRange := by
    simp only [first, second, twoValidatorSnapshot, cons_append, nil_append,
      mem_cons, not_mem_nil, or_false] at hmem
    rcases hmem with rfl | rfl | rfl | rfl <;> constructor <;> decide +kernel
  have hfirstRange : first.InRange :=
    ⟨by decide, by decide, by decide, by decide, fun validator hmem =>
      hrange validator (mem_append_left _ hmem)⟩
  have hsecondRange : second.InRange :=
    ⟨by decide, by decide, by decide, by decide, fun validator hmem =>
      hrange validator (mem_append_right _ hmem)⟩
  obtain ⟨hself, hderived⟩ := accepted_snapshot_authentic openCrypto_names
  exact ⟨first, second, by decide +kernel, (hself first hfirst).mpr hfirstForm,
    hderived first second hfirstRange hsecondRange hfirst hsecond hfirstForm hsecondForm rfl
      fun _ => rfl⟩

/-- The same root is accepted with the validators in the other order, which another validator
leads and in which the bits of a certificate mean other voters. -/
theorem reversed_snapshot_accepted :
    ∃ first second : EpochSnapshot, first.validate openCrypto = .ok () ∧
      second.validate openCrypto = .ok () ∧
      first.snapshotStateRoot = second.snapshotStateRoot ∧
      second.recompute openCrypto ≠ .ok second ∧
      first.validatorOrder ≠ second.validatorOrder ∧
      newLeaderSchedule openCrypto first ≠ newLeaderSchedule openCrypto second := by
  refine ⟨twoValidatorSnapshot [stakedValidator 1 1, stakedValidator 2 1],
    twoValidatorSnapshot [stakedValidator 2 1, stakedValidator 1 1], ?_⟩
  decide +kernel

end Ordexus
