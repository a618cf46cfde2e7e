import Ordexus.Consensus.CertificateCodec
import Ordexus.Consensus.CollectorFailures
import Ordexus.Library.Fields
import Ordexus.Library.WriteBatch

/-!
# The certificates of a collector

What a certificate says is true: its voters are registered and hold the stake it names. A
bucket emits at most two certificates, one when its threshold is met and one when all stake
has voted. A certificate passes its own checks and survives its binary form exactly if the
collector has no more validators than a certificate may list.
-/

namespace Ordexus

open Checked Borsh List WeightTable ValidatorSet

/-! ### The stake table of a validator set -/

/-- `ActiveStakeMap`. -/
def ValidatorSet.activeStakeMap (set : ValidatorSet) (epochID : ℕ) : Table ValidatorID ℕ :=
  (set.activeValidators epochID).foldl
    (fun stakes validator => stakes.insert validator.validatorID validator.stakeLamports) ∅

def hexDigit (value : UInt8) : UInt8 :=
  if value < 10 then 48 + value else 87 + value

/-- `BytesToHex`. -/
def hexText (bytes : Bytes) : Bytes :=
  bytes.flatMap fun byte => [hexDigit (byte / 16), hexDigit (byte % 16)]

/-- Validators are named as in `NewValidatorID`: by the text of half a digest. -/
def Crypto.NamesByDigest (crypto : Crypto) : Prop :=
  ∀ key, ∃ digest : Bytes, digest.length = 16 ∧ crypto.newValidatorID key = hexText digest

section

theorem validUTF8_of_ascii {text : Bytes} (h : ∀ byte ∈ text, byte < 0x80) :
    validUTF8 text = true := by
  induction text with
  | nil => rfl
  | cons first text ih =>
    obtain ⟨hfirst, hrest⟩ := forall_mem_cons.mp h
    cases text with
    | nil => simpa [validUTF8] using hfirst
    | cons second text =>
      unfold validUTF8
      rw [if_pos hfirst]
      exact ih hrest

theorem byte_div_lt (byte : UInt8) : byte / 16 < 16 := by
  have hbyte := byte.toNat_lt
  rw [UInt8.lt_iff_toNat_lt, UInt8.toNat_div]
  simp only [UInt8.reduceToNat]
  omega

theorem byte_mod_lt (byte : UInt8) : byte % 16 < 16 := by
  rw [UInt8.lt_iff_toNat_lt, UInt8.toNat_mod]
  simp only [UInt8.reduceToNat]
  omega

theorem hexDigit_lt {value : UInt8} (h : value < 16) : hexDigit value < 0x80 := by
  unfold hexDigit
  split
  all_goals
    rw [UInt8.lt_iff_toNat_lt] at *
    simp only [UInt8.toNat_add, UInt8.reduceToNat] at *
    omega

theorem validUTF8_hexText (bytes : Bytes) : validUTF8 (hexText bytes) = true := by
  refine validUTF8_of_ascii fun digit hdigit => ?_
  obtain ⟨byte, -, hmem⟩ := mem_flatMap.mp hdigit
  simp only [mem_cons, not_mem_nil, or_false] at hmem
  rcases hmem with rfl | rfl
  · exact hexDigit_lt (byte_div_lt byte)
  · exact hexDigit_lt (byte_mod_lt byte)

end

section

variable {crypto : Crypto} {set : ValidatorSet} {validators entries all : List ValidatorState}
  {validator normalized : ValidatorState}

theorem normalizeValidatorState_eq_ok
    (h : normalizeValidatorState crypto validator = .ok normalized) :
    normalized.validatorID = crypto.newValidatorID validator.consensusPublicKey ∧
      normalized.validatorID ≠ [] ∧
      normalized = { validator with
        validatorID := normalized.validatorID
        status := if validator.status = .inactive then .active else validator.status } ∧
      (validator.validatorID ≠ [] → normalized.validatorID = validator.validatorID) := by
  simp only [normalizeValidatorState, eq_ok, not_or, not_not, ne_eq] at h
  obtain ⟨-, -, -, hid, ⟨hblank, -⟩, -, -, rfl⟩ := h
  refine ⟨hid, fun hnil => hblank ?_, rfl, fun hne => if_neg hne⟩
  dsimp only at hnil
  rw [hnil]
  rfl

/-- The entries of a set are the normalized validators, with distinct ids. -/
theorem addValidators_eq_ok (h : addValidators crypto entries validators = .ok all)
    (hnodup : (entries.map ValidatorState.validatorID).Nodup) :
    (all.map ValidatorState.validatorID).Nodup ∧ ∃ added, all = entries ++ added ∧
      Forall₂ (fun validator normalized =>
        normalizeValidatorState crypto validator = .ok normalized) validators added := by
  induction validators generalizing entries with
  | nil =>
    cases h
    exact ⟨hnodup, [], (append_nil _).symm, .nil⟩
  | cons validator validators ih =>
    simp only [addValidators, eq_ok] at h
    obtain ⟨normalized, hnormalized, hfresh, hrest⟩ := h
    obtain ⟨hall, added, rfl, hadded⟩ := ih hrest (by simpa using hnodup.concat hfresh)
    exact ⟨hall, normalized :: added, by simp, .cons hnormalized hadded⟩

theorem activeValidators_of_newValidatorSet (h : newValidatorSet crypto validators = .ok set)
    (epochID : ℕ) :
    ((set.activeValidators epochID).map ValidatorState.validatorID).Nodup ∧
      ∀ validator ∈ set.activeValidators epochID,
        ∃ key, validator.validatorID = crypto.newValidatorID key := by
  simp only [newValidatorSet, eq_ok] at h
  obtain ⟨-, entries, hentries, rfl⟩ := h
  obtain ⟨hnodup, added, rfl, hadded⟩ := addValidators_eq_ok hentries nodup_nil
  have hperm := perm_insertionSort
    (fun left right : ValidatorState => left.validatorID ≤ right.validatorID) entries
  have hsub : (activeValidators ⟨entries⟩ epochID).Sublist
      (ValidatorSet.validators ⟨entries⟩) := filter_sublist
  refine ⟨(hsub.map _).nodup ((hperm.map _).nodup_iff.mpr hnodup), fun validator hmem => ?_⟩
  obtain ⟨_, -, hnormalized⟩ := exists_of_mem_forall₂ hadded (hperm.mem_iff.mp (hsub.subset hmem))
  exact ⟨_, (normalizeValidatorState_eq_ok hnormalized).1⟩

/-- The table has the stakes of the active validators. -/
theorem activeStakeMap_lookup (h : newValidatorSet crypto validators = .ok set) {epochID : ℕ}
    {id : ValidatorID} {stake : ℕ} :
    (set.activeStakeMap epochID).lookup id = some stake ↔
      ∃ validator ∈ set.activeValidators epochID,
        validator.validatorID = id ∧ validator.stakeLamports = stake := by
  rw [activeStakeMap, TableWrite.foldl_insert,
    TableWrite.lookup_applyAll_puts (activeValidators_of_newValidatorSet h epochID).1]
  simp

/-- The table has one entry for each active validator. -/
theorem activeStakeMap_keys (h : newValidatorSet crypto validators = .ok set) (epochID : ℕ) :
    (set.activeStakeMap epochID).keys.Perm
      ((set.activeValidators epochID).map ValidatorState.validatorID) := by
  rw [perm_ext_iff_of_nodup (AList.keys_nodup _)
    (activeValidators_of_newValidatorSet h epochID).1]
  intro id
  rw [← AList.mem_keys, ← AList.lookup_isSome, Option.isSome_iff_exists]
  simp [activeStakeMap_lookup h]

end

/-! ### Valid certificates -/

structure Vote.InRange (vote : Vote) : Prop where
  slot : vote.slot < 256 ^ 8
  blockHeight : vote.blockHeight < 256 ^ 8
  blockHash : vote.blockHash < 256 ^ 32
  createdAtUnixMilli : vote.createdAtUnixMilli < 2 ^ 63

/-- A validator order comes with a bitmap that fits into a message. -/
def CollectorCall.InRange : CollectorCall → Prop
  | .plain vote => vote.InRange
  | .withBLS vote _ validatorOrder =>
    vote.InRange ∧ validatorOrder.length ≤ 8 * maxConsensusContainerLength

theorem CollectorCall.InRange.vote {call : CollectorCall} (h : call.InRange) :
    call.vote.InRange := by
  cases call with
  | plain vote => exact h
  | withBLS vote blsSignature validatorOrder => exact h.1

theorem validateVoterListFrom_sorted {previous : Option ValidatorID} {voters : List ValidatorID}
    (hprevious : ∀ last ∈ previous, ∀ voter ∈ voters, last < voter)
    (hsorted : voters.Pairwise (· < ·))
    (hnamed : ∀ voter ∈ voters, isBlank voter = false ∧ voter.length ≤ maxConsensusTextLength) :
    validateVoterListFrom previous voters = .ok () := by
  induction voters generalizing previous with
  | nil => rfl
  | cons voter voters ih =>
    obtain ⟨hfirst, hrest⟩ := pairwise_cons.mp hsorted
    obtain ⟨⟨hblank, hlength⟩, hothers⟩ := forall_mem_cons.mp hnamed
    simp only [validateVoterListFrom, eq_ok]
    refine ⟨by simp [hblank, hlength], ?_, ih ?_ hrest hothers⟩
    · rintro ⟨last, hlast, hle⟩
      exact List.not_lt.mpr hle (hprevious last hlast voter mem_cons_self)
    · rintro last ⟨⟩ other hother
      exact hfirst other hother

namespace VoteCollector

variable {scheme : AggregateScheme} {collector : VoteCollector} {certificate : QuorumCertificate}

theorem Sound.named (h : collector.Sound) {voter : ValidatorID}
    (hvoter : (collector.validatorStake.lookup voter).isSome) :
    isBlank voter = false ∧ voter.length ≤ maxConsensusTextLength := by
  obtain ⟨stake, hstake⟩ := Option.isSome_iff_exists.mp hvoter
  obtain ⟨hblank, hlength, -⟩ := h.registered ⟨voter, stake⟩ (AList.mem_lookup_iff.mp hstake)
  exact ⟨hblank, hlength⟩

/-- What is said about the voters makes a certificate valid, but for their number. -/
theorem Certifies.validate (h : collector.Certifies certificate) (hsound : collector.Sound)
    (hcount : certificate.voters.length ≤ maxCertificateVoters) :
    certificate.validate = .ok () := by
  have hpositive := hsound.threshold_pos certificate.type
  have hstake := h.backs.stake
  have henough := h.enough
  rw [← h.threshold] at hpositive
  have hvoters : certificate.voters ≠ [] := by
    intro hnone
    rw [hnone, heldBy_nil] at hstake
    omega
  simp only [QuorumCertificate.validate, eq_ok]
  refine ⟨h.type, ?_, by omega, ?_, not_le.mpr h.createdAt, h.aggregate, ?_⟩
  · simp [validateTarget, h.blockHash, h.blockHeight]
  · rintro (hnone | hmany)
    · exact hvoters hnone
    · omega
  · exact validateVoterListFrom_sorted (by simp) h.sorted fun voter hmem =>
      hsound.named (h.backs.registered voter hmem)

/-! ### The binary form -/

/-- A certificate whose fields fit into a message. -/
structure Writable (certificate : QuorumCertificate) : Prop where
  inRange : certificate.InRange
  signature : certificate.aggregateSignature.length ≤ maxConsensusContainerLength
  bitmap : certificate.voterBitmap.length ≤ maxConsensusContainerLength

/-- The times of the votes are 64-bit numbers. -/
def Dated (collector : VoteCollector) : Prop :=
  ∀ key, (collector.bucket key).createdAtUnixMilli < 2 ^ 63

section

variable {vote : Vote} {registeredStake : ℕ} {blsSignature : Bytes}
  {validatorOrder : List ValidatorID}

theorem Dated.record (h : collector.Dated) (hvote : vote.InRange) (registeredStake : ℕ)
    (blsSignature : Bytes) : (collector.record vote registeredStake blsSignature).Dated := by
  intro key
  rw [bucket_record]
  split
  · exact max_lt (h vote.key) hvote.createdAtUnixMilli
  · exact h key

theorem Dated.apply (h : collector.Dated) {call : CollectorCall} (hcall : call.InRange) :
    (collector.after scheme [call]).Dated :=
  after_keeps h (forall_mem_singleton.mpr fun _ stake signature hdated _ =>
    hdated.record hcall.vote stake signature)

theorem Sound.writable (h : collector.Sound) (hdated : collector.Dated)
    (haccepts : collector.Accepts vote registeredStake) (hvote : vote.InRange)
    (horder : validatorOrder.length ≤ 8 * maxConsensusContainerLength)
    (hcertificate : collector.certificateFor scheme vote registeredStake blsSignature
      validatorOrder = .ok (some certificate)) : Writable certificate := by
  obtain ⟨hcompletes, -, _, signature, bitmap, hform, rfl⟩ := certificateFor_eq_ok hcertificate
  obtain ⟨hstake, hsum⟩ := h.stake_add haccepts blsSignature
  obtain ⟨hmet, -⟩ := completes_iff.mp hcompletes
  have hlimit := h.total_le
  have hcreated : max (collector.bucket vote.key).createdAtUnixMilli vote.createdAtUnixMilli <
      2 ^ 63 := max_lt (hdated vote.key) hvote.createdAtUnixMilli
  have hconfirmed : ((collector.bucket vote.key).add vote registeredStake blsSignature).stake <
      256 ^ 8 := by
    unfold maxUint64 at hlimit
    omega
  have hlengths : signature.length ≤ 48 ∧ bitmap.length ≤ (validatorOrder.length + 7) / 8 := by
    rcases hform with ⟨rfl, rfl⟩ | ⟨hsignature, voters, rfl⟩
    · exact ⟨Nat.zero_le _, Nat.zero_le _⟩
    · exact ⟨hsignature.le, (voterBitmap_length _ _).le⟩
  exact ⟨⟨hvote.slot, hvote.blockHeight, hvote.blockHash, hmet.trans_lt hconfirmed, hconfirmed,
    hcreated⟩, hlengths.1.trans (by decide), hlengths.2.trans (by omega)⟩

theorem Sound.writable_of_mem (h : collector.Sound) (hdated : collector.Dated)
    {calls : List CollectorCall} (hcalls : ∀ call ∈ calls, call.InRange)
    (hmem : certificate ∈ collector.certificates scheme calls) : Writable certificate := by
  induction calls generalizing collector with
  | nil => simp [certificates, results] at hmem
  | cons call calls ih =>
    obtain ⟨hcall, hrest⟩ := forall_mem_cons.mp hcalls
    rcases mem_certificates_cons.mp hmem with hemitted | hlater
    · cases applies scheme collector call with
      | refused message happly =>
        rw [happly] at hemitted
        cases hemitted
      | recorded registeredStake blsSignature validatorOrder haccepts hform happly =>
        rw [happly] at hemitted
        refine h.writable hdated haccepts hcall.vote ?_ hemitted
        rcases hform with rfl | hform
        · exact Nat.zero_le _
        · rw [hform] at hcall
          exact hcall.2
    · exact ih (h.after [call]) (hdated.apply hcall) hrest hlater

end

/-! ### When certificates are emitted -/

/-- The votes of a bucket meet the threshold for the first time, or all stake has voted. -/
def Completes (before after : VoteCollector) (key : VoteKey) : Prop :=
  before.thresholdStakeForVoteType key.type ≤ (after.bucket key).stake ∧
    ((before.bucket key).stake < before.thresholdStakeForVoteType key.type ∨
      (after.bucket key).stake = before.totalStake)

theorem certificateFor_isSome {vote : Vote} {registeredStake : ℕ} {blsSignature : Bytes}
    {validatorOrder : List ValidatorID} {emitted : Option QuorumCertificate}
    (h : collector.certificateFor scheme vote registeredStake blsSignature validatorOrder =
      .ok emitted) :
    emitted.isSome = collector.completes (collector.thresholdStakeForVoteType vote.type)
      (collector.bucket vote.key).stake
      ((collector.bucket vote.key).add vote registeredStake blsSignature).stake := by
  unfold certificateFor at h
  dsimp only at h
  split at h
  · next hopen =>
    cases h
    rw [hopen]
    rfl
  · next hcompletes =>
    rw [Bool.not_eq_false] at hcompletes
    rw [hcompletes]
    split at h
    · cases h
      rfl
    · simp only [eq_ok] at h
      obtain ⟨_, -, rfl⟩ := h
      rfl

/-- A call that succeeds emits a certificate for its own bucket exactly if it completes it. -/
theorem Sound.emits_iff (h : collector.Sound) {call : CollectorCall}
    {emitted : Option QuorumCertificate} (hcall : (collector.apply scheme call).2 = .ok emitted) :
    (emitted.isSome ↔ collector.Completes (collector.apply scheme call).1 call.vote.key) ∧
      ∀ certificate ∈ emitted, certificate.key = call.vote.key := by
  cases applies scheme collector call with
  | refused message happly =>
    rw [happly] at hcall
    cases hcall
  | recorded registeredStake blsSignature validatorOrder haccepts _ happly =>
    rw [happly] at hcall ⊢
    obtain ⟨hstake, hsum⟩ := h.stake_add haccepts blsSignature
    constructor
    · rw [certificateFor_isSome hcall, completes_iff, Completes, bucket_record, if_pos rfl]
      refine and_congr_right fun _ => or_congr_right ?_
      omega
    · rintro certificate ⟨⟩
      obtain ⟨-, -, _, _, _, -, rfl⟩ := certificateFor_eq_ok hcall
      rfl

/-- How far a bucket has come: its threshold is met, and all stake has voted. -/
def milestones (collector : VoteCollector) (key : VoteKey) : ℕ :=
  (if collector.thresholdStakeForVoteType key.type ≤ (collector.bucket key).stake then 1 else 0) +
    if collector.totalStake ≤ (collector.bucket key).stake then 1 else 0

theorem milestones_le (collector : VoteCollector) (key : VoteKey) :
    collector.milestones key ≤ 2 := by
  unfold milestones
  split <;> split <;> decide

/-- Stake is only ever added, and a vote that is counted adds some. -/
theorem Sound.stake_le (h : collector.Sound) (call : CollectorCall) (key : VoteKey) :
    (collector.bucket key).stake ≤ ((collector.apply scheme call).1.bucket key).stake ∧
      ∀ emitted, (collector.apply scheme call).2 = .ok emitted →
        (collector.bucket call.vote.key).stake <
          ((collector.apply scheme call).1.bucket call.vote.key).stake := by
  cases applies scheme collector call with
  | refused message happly =>
    rw [happly]
    exact ⟨le_rfl, fun emitted hfailed => by cases hfailed⟩
  | recorded registeredStake blsSignature validatorOrder haccepts _ happly =>
    obtain ⟨hstake, -⟩ := h.stake_add haccepts blsSignature
    have hpositive : 0 < registeredStake :=
      (h.registered ⟨_, _⟩ (AList.mem_lookup_iff.mp haccepts.stake)).2.2
    rw [happly]
    rw [bucket_record, bucket_record, if_pos rfl]
    refine ⟨?_, fun _ _ => by omega⟩
    split
    · next hkey =>
      rw [hkey]
      omega
    · exact le_rfl

/-- Every certificate is a milestone of its bucket. -/
theorem Sound.milestones_step (h : collector.Sound) (call : CollectorCall) (key : VoteKey) :
    collector.milestones key + ((collector.apply scheme call).2.toOption.join.toList.filter
        fun certificate => certificate.key = key).length ≤
      (collector.apply scheme call).1.milestones key := by
  obtain ⟨-, htotal, hthreshold⟩ := @after_fixed scheme collector [call]
  rw [VoteCollector.after, foldl_cons, foldl_nil] at htotal hthreshold
  obtain ⟨hstake, hgrows⟩ := @Sound.stake_le scheme collector h call key
  have hmono : collector.milestones key ≤ (collector.apply scheme call).1.milestones key := by
    unfold milestones
    rw [hthreshold]
    refine Nat.add_le_add ?_ ?_
    · split <;> split <;> omega
    · split <;> split <;> omega
  cases hresult : (collector.apply scheme call).2.toOption.join with
  | none => exact hmono
  | some certificate =>
    rw [Option.join_eq_some_iff, toOption_eq_some] at hresult
    by_cases hkey : certificate.key = key
    · obtain ⟨hemits, hown⟩ := h.emits_iff hresult
      obtain rfl := (hown certificate rfl).symm.trans hkey
      obtain ⟨hmet, hfirst⟩ := hemits.mp rfl
      have hlt := hgrows _ hresult
      simp only [Option.toList_some, filter_singleton, hkey, decide_true, cond_true,
        length_singleton]
      unfold milestones
      rw [htotal, hthreshold]
      rcases hfirst with hbelow | hall
      · rw [if_neg (not_le.mpr hbelow)]
        split <;> split <;> omega
      · rw [if_pos hall.ge, if_neg (by omega : ¬collector.totalStake ≤ _)]
        split <;> omega
    · simpa [hkey] using hmono

/-- The certificates that a run emits for one slot, type and block. -/
def emittedFor (scheme : AggregateScheme) (collector : VoteCollector)
    (calls : List CollectorCall) (key : VoteKey) : List QuorumCertificate :=
  (collector.certificates scheme calls).filter fun certificate => certificate.key = key

theorem Sound.emittedFor_length (h : collector.Sound) (calls : List CollectorCall) (key : VoteKey) :
    collector.milestones key + (collector.emittedFor scheme calls key).length ≤
      (collector.after scheme calls).milestones key := by
  induction calls generalizing collector with
  | nil => exact le_rfl
  | cons call calls ih =>
    have hrest := @ih (collector.apply scheme call).1 (h.after [call])
    have hafter : collector.after scheme (call :: calls) =
        (collector.apply scheme call).1.after scheme calls := rfl
    have hnew := @Sound.milestones_step scheme collector h call key
    rw [hafter, emittedFor, certificates_cons, filter_append, length_append]
    unfold emittedFor at hrest
    omega

/-! ### Certificates mean what they say -/

/-- What a certificate promises. -/
structure Meaningful (collector : VoteCollector) (certificate : QuorumCertificate) : Prop where
  sorted : certificate.voters.Pairwise (· < ·)
  registered : ∀ voter ∈ certificate.voters, (collector.validatorStake.lookup voter).isSome
  stake : certificate.confirmedStake =
    (certificate.voters.map (weight collector.validatorStake)).sum
  required : collector.thresholdStakeForVoteType certificate.type ≤ certificate.confirmedStake
  valid : certificate.validate = .ok ()
  survives : ∃ data, certificate.marshalBinary = .ok data ∧
    unmarshalCertificateBinary data = .ok certificate

/-- In every run each certificate is meaningful, each bucket has at most two of them, and a
call that succeeds emits one exactly if the threshold is met for the first time or all stake
has voted. -/
def Truthful (scheme : AggregateScheme) (collector : VoteCollector) : Prop :=
  ∀ calls : List CollectorCall, (∀ call ∈ calls, call.InRange) →
    (∀ certificate ∈ collector.certificates scheme calls, collector.Meaningful certificate) ∧
    (∀ key, (collector.emittedFor scheme calls key).length ≤ 2) ∧
    ∀ call emitted, ((collector.after scheme calls).apply scheme call).2 = .ok emitted →
      (emitted.isSome ↔ (collector.after scheme calls).Completes
        ((collector.after scheme calls).apply scheme call).1 call.vote.key) ∧
      ∀ certificate ∈ emitted, certificate.key = call.vote.key

/-- The validators whose text can be written. -/
def Named (stakes : Table ValidatorID ℕ) : Prop :=
  ∀ id ∈ stakes.keys, Borsh.validUTF8 id = true

theorem Sound.meaningful (h : collector.Sound) (hdated : collector.Dated)
    (hnamed : Named collector.validatorStake)
    (hcount : collector.validatorStake.keys.length ≤ maxCertificateVoters)
    {calls : List CollectorCall} (hcalls : ∀ call ∈ calls, call.InRange)
    (hmem : certificate ∈ collector.certificates scheme calls) :
    collector.Meaningful certificate := by
  have hcertifies := h.certifies_of_mem hmem
  have hwritable := h.writable_of_mem hdated hcalls hmem
  obtain ⟨hstakes, -, hthreshold⟩ := @after_fixed scheme collector calls
  have hregistered := hcertifies.backs.registered
  rw [hstakes] at hregistered
  have hsubset : certificate.voters ⊆ collector.validatorStake.keys := fun voter hvoter =>
    AList.lookup_isSome.mp (hregistered voter hvoter)
  have hlength := (subperm_of_subset hcertifies.backs.nodup hsubset).length_le
  have hvalid := hcertifies.validate (@Sound.after scheme collector h calls) (hlength.trans hcount)
  have henough := hcertifies.enough
  rw [hcertifies.threshold, hthreshold] at henough
  have hstake := hcertifies.backs.stake
  rw [hstakes, ← sum_weight hcertifies.backs.nodup] at hstake
  obtain ⟨data, hdata⟩ := QuorumCertificate.marshalBinary_succeeds hvalid
    (fun voter hvoter => ⟨hnamed voter (hsubset hvoter),
      (h.named (hregistered voter hvoter)).2.trans (by decide)⟩)
    hwritable.signature hwritable.bitmap
  exact ⟨hcertifies.sorted, hregistered, hstake, henough, hvalid, data, hdata,
    unmarshalCertificateBinary_marshal hwritable.inRange hdata⟩

/-- A certificate for which all stake has voted lists every validator. -/
theorem Sound.keys_length_le (h : collector.Sound) (hmeaningful : collector.Meaningful certificate)
    (hall : certificate.confirmedStake = collector.totalStake) :
    collector.validatorStake.keys.length ≤ maxCertificateVoters := by
  have hnodup : certificate.voters.Nodup := hmeaningful.sorted.imp
    fun {left right} (hlt : left < right) (hsame : left = right) =>
      List.lt_irrefl right (hsame ▸ hlt)
  have hheld : heldBy collector.validatorStake certificate.voters =
      WeightTable.total collector.validatorStake := by
    rw [← sum_weight hnodup, ← hmeaningful.stake, hall, h.total]
  have hsubset : collector.validatorStake.keys ⊆ certificate.voters := by
    intro id hid
    obtain ⟨stake, hstake⟩ := Option.isSome_iff_exists.mp (AList.lookup_isSome.mpr hid)
    exact mem_of_heldBy_eq_total (fun entry hmem => (h.registered entry hmem).2.2)
      hheld hstake
  have hlength := (subperm_of_subset (AList.keys_nodup _) hsubset).length_le
  exact hlength.trans (QuorumCertificate.validate_fields hmeaningful.valid).2.1

section

variable {stakes : Table ValidatorID ℕ} {confirmQuorum timeoutQuorum : Quorum}

/-- All validators vote to skip a slot: the certificate lists every one of them. -/
theorem keys_length_le_of_truthful
    (h : newVoteCollectorWithQuorums stakes confirmQuorum timeoutQuorum = .ok collector)
    (htruthful : collector.Truthful scheme) : stakes.keys.length ≤ maxCertificateVoters := by
  obtain ⟨hsound, rfl, -, -, -, -, htimeout, -⟩ := newVoteCollectorWithQuorums_eq_ok h
  let key : VoteKey := ⟨1, .skip, 1⟩
  let calls : List CollectorCall := (collector.ballots fun _ => key).map .plain
  have hrun := collects scheme collector (collector.ballots fun _ => key)
  have hall : ((collector.afterVotes scheme (collector.ballots fun _ => key)).bucket key).stake =
      collector.totalStake := by
    obtain ⟨hend, hstakes⟩ := hsound.afterVotes scheme (collector.ballots fun _ => key)
    rw [hsound.total]
    refine le_antisymm ?_ ?_
    · rw [(hend.backs key).stake, hstakes]
      exact heldBy_le_total _ _
    · rw [← @held_all _ _ (fun _ => true) fun _ _ => rfl]
      exact held_le_ballots h (fun _ => ⟨by simp [key], Nat.one_ne_zero⟩) (fun _ _ => rfl) scheme
  have hlast := (hrun.emits hsound key rfl).2.2.2 htimeout
    ((stake_lt_of_new h key).trans_le htimeout) hall
  have hcalls : ∀ call ∈ calls, call.InRange := by
    intro call hcall
    simp only [calls, ballots, map_map, mem_map] at hcall
    obtain ⟨voterID, -, rfl⟩ := hcall
    exact ⟨(by decide : 1 < 256 ^ 8), (by decide : 1 < 256 ^ 8), (by decide : 1 < 256 ^ 32),
      (by decide : (1 : ℤ) < 2 ^ 63)⟩
  exact hsound.keys_length_le ((htruthful calls hcalls).1 _
    (mem_of_mem_filter (mem_of_getLast? hlast))) hall

theorem truthful_of_keys_length (scheme : AggregateScheme)
    (h : newVoteCollectorWithQuorums stakes confirmQuorum timeoutQuorum = .ok collector)
    (hnamed : Named stakes) (hcount : stakes.keys.length ≤ maxCertificateVoters) :
    collector.Truthful scheme := by
  obtain ⟨hsound, rfl, hbuckets, -⟩ := newVoteCollectorWithQuorums_eq_ok h
  have hdated : collector.Dated := fun key => by simp [bucket, hbuckets, VoteBucket.empty]
  intro calls hcalls
  refine ⟨fun certificate hmem => hsound.meaningful hdated hnamed hcount hcalls hmem,
    fun key => ?_, fun call emitted hcall => (hsound.after calls).emits_iff hcall⟩
  have hlength := @Sound.emittedFor_length scheme collector hsound calls key
  have hlimit := (collector.after scheme calls).milestones_le key
  omega

end

/-- The certificates of a collector mean what they say exactly if the set has no more active
validators than a certificate may list. -/
theorem truthful_iff (scheme : AggregateScheme) {crypto : Crypto}
    (hdigest : crypto.NamesByDigest) {validators : List ValidatorState} {set : ValidatorSet}
    (hset : newValidatorSet crypto validators = .ok set) (epochID : ℕ)
    {confirmQuorum timeoutQuorum : Quorum} {collector : VoteCollector}
    (hcollector : newVoteCollectorWithQuorums (set.activeStakeMap epochID) confirmQuorum
      timeoutQuorum = .ok collector) :
    collector.Truthful scheme ↔
      (set.activeValidators epochID).length ≤ maxCertificateVoters := by
  have hkeys := activeStakeMap_keys hset epochID
  have hlength : (set.activeStakeMap epochID).keys.length =
      (set.activeValidators epochID).length := by
    rw [hkeys.length_eq, length_map]
  have hnamed : Named (set.activeStakeMap epochID) := by
    intro id hid
    obtain ⟨validator, hvalidator, rfl⟩ := mem_map.mp (hkeys.mem_iff.mp hid)
    obtain ⟨key, hkey⟩ := (activeValidators_of_newValidatorSet hset epochID).2 _ hvalidator
    obtain ⟨digest, -, htext⟩ := hdigest key
    rw [hkey, htext]
    exact validUTF8_hexText digest
  rw [← hlength]
  exact ⟨keys_length_le_of_truthful hcollector, truthful_of_keys_length scheme hcollector hnamed⟩

end VoteCollector

/-! ### Sets of counted validators -/

/-- A validator is named by the digits of its key. -/
def countingCrypto : Crypto where
  sha256 := fun _ => 0
  newValidatorID := fun key => hexText (0 :: bigEndian 15 key)
  decodesAsBLSKey := fun _ => true
  verifyMessageSignature := fun _ _ _ => true

/-- The validator with the given key and one unit of stake. -/
def countedValidator (key : PublicKey) : ValidatorState where
  validatorID := countingCrypto.newValidatorID key
  accountAddress := 0
  consensusPublicKey := key
  blsPublicKey := []
  p2pPeerID := []
  stakeLamports := 1
  status := .active
  commissionBps := 0
  lastVotedSlot := 0
  missedProposalCount := 0
  missedVoteCount := 0
  jailUntilEpoch := 0

def countedValidators (count : ℕ) : List ValidatorState :=
  (List.range' 1 count).map countedValidator

theorem countingCrypto_namesByDigest : countingCrypto.NamesByDigest := fun key =>
  ⟨0 :: bigEndian 15 key, by simp, rfl⟩

section

theorem hexDigit_injective {left right : UInt8} (hleft : left < 16) (hright : right < 16)
    (h : hexDigit left = hexDigit right) : left = right := by
  unfold hexDigit at h
  rw [← UInt8.toNat_inj] at *
  split at h <;> split at h <;>
    simp only [UInt8.toNat_add, UInt8.reduceToNat, UInt8.lt_iff_toNat_lt] at * <;> omega

theorem hexText_injective : Function.Injective hexText := by
  intro left right h
  rw [← forall₂_eq_eq_eq]
  refine forall₂_of_flatMap (by simp) (fun byte _ other _ rest others hsplit => ?_) h
  simp only [cons_append, nil_append, cons.injEq] at hsplit
  obtain ⟨hhigh, hlow, hrest⟩ := hsplit
  have hdiv := hexDigit_injective (byte_div_lt byte) (byte_div_lt other) hhigh
  have hmod := hexDigit_injective (byte_mod_lt byte) (byte_mod_lt other) hlow
  refine ⟨?_, hrest⟩
  rw [← UInt8.toNat_inj] at *
  simp only [UInt8.toNat_div, UInt8.toNat_mod, UInt8.reduceToNat] at hdiv hmod
  omega

theorem hexText_length (bytes : Bytes) : (hexText bytes).length = bytes.length * 2 := by
  simp [hexText, length_flatMap]

theorem countingCrypto_injective {left right : PublicKey} (hleft : left < 256 ^ 15)
    (hright : right < 256 ^ 15)
    (h : countingCrypto.newValidatorID left = countingCrypto.newValidatorID right) :
    left = right :=
  bigEndian_inj hleft hright (cons.inj (hexText_injective h)).2

theorem countedValidator_named (key : PublicKey) :
    isBlank (countedValidator key).validatorID = false ∧
      (countedValidator key).validatorID.length ≤ maxConsensusTextLength := by
  refine ⟨rfl, ?_⟩
  rw [countedValidator, countingCrypto, hexText_length, length_cons, bigEndian_length]
  decide

theorem normalize_countedValidator {key : PublicKey} (h : key ≠ 0) :
    normalizeValidatorState countingCrypto (countedValidator key) = .ok (countedValidator key) := by
  obtain ⟨hblank, hlength⟩ := countedValidator_named key
  have hnonempty : (countedValidator key).validatorID ≠ [] := by
    intro hnone
    rw [hnone] at hblank
    cases hblank
  have hid : countingCrypto.newValidatorID (countedValidator key).consensusPublicKey =
      (countedValidator key).validatorID := rfl
  simp only [normalizeValidatorState, eq_ok, if_neg hnonempty]
  refine ⟨h, by simp [countedValidator], ?_, by rw [hid]; simp, by simp [hblank, hlength],
    by simp [countedValidator], by simp [countedValidator], rfl⟩
  rw [Bool.not_eq_false, succeeds_iff]
  exact ⟨(), by simp [validateBLSPublicKey, countedValidator]⟩

theorem addValidators_counted {keys : List PublicKey} {entries : List ValidatorState}
    (hkeys : ∀ key ∈ keys, key ≠ 0)
    (hnodup : ((entries ++ keys.map countedValidator).map ValidatorState.validatorID).Nodup) :
    addValidators countingCrypto entries (keys.map countedValidator) =
      .ok (entries ++ keys.map countedValidator) := by
  induction keys generalizing entries with
  | nil => simp [addValidators, pure, Except.pure]
  | cons key keys ih =>
    obtain ⟨hkey, hrest⟩ := forall_mem_cons.mp hkeys
    rw [map_cons, append_cons] at hnodup ⊢
    simp only [addValidators, eq_ok]
    refine ⟨_, normalize_countedValidator hkey, ?_, ih hrest hnodup⟩
    rw [map_append, map_append] at hnodup
    have hprefix := (nodup_append.mp hnodup).1
    exact fun hmem => (nodup_append.mp hprefix).2.2 _ hmem _ (by simp) rfl

theorem newValidatorSet_counted {count : ℕ} (hpositive : 0 < count)
    (hcount : count ≤ maxValidatorsPerSet) :
    newValidatorSet countingCrypto (countedValidators count) =
      .ok ⟨countedValidators count⟩ := by
  have hnodup : ((countedValidators count).map ValidatorState.validatorID).Nodup := by
    rw [countedValidators, map_map]
    refine Nodup.map_on ?_ (nodup_range' _)
    intro left hleft right hright hsame
    rw [mem_range'_1] at hleft hright
    have hbound : ∀ key : ℕ, key < 1 + count → key < 256 ^ 15 := fun key hkey =>
      (Nat.lt_of_lt_of_le hkey (Nat.add_le_add_left hcount 1)).trans (by decide)
    exact countingCrypto_injective (hbound left hleft.2) (hbound right hright.2) hsame
  have hadd := @addValidators_counted (range' 1 count) [] (fun key hkey => by
    rw [mem_range'_1] at hkey
    exact Nat.ne_of_gt hkey.1) hnodup
  have hlength : (countedValidators count).length = count := by simp [countedValidators]
  simp only [newValidatorSet, eq_ok]
  refine ⟨?_, _, hadd, rfl⟩
  rintro (hnone | hmany)
  · rw [hnone] at hlength
    exact absurd hlength.symm (Nat.ne_of_gt hpositive)
  · omega

theorem activeValidators_counted (count : ℕ) :
    (ValidatorSet.activeValidators ⟨countedValidators count⟩ 0).length = count := by
  have hperm := perm_insertionSort
    (fun left right : ValidatorState => left.validatorID ≤ right.validatorID)
    (countedValidators count)
  have hactive : activeValidators ⟨countedValidators count⟩ 0 =
      validators ⟨countedValidators count⟩ := by
    refine filter_eq_self.mpr fun validator hmem => ?_
    obtain ⟨key, -, rfl⟩ := mem_map.mp (hperm.mem_iff.mp hmem)
    rfl
  rw [hactive, validators]
  simp [countedValidators]

/-- A table whose entries pass the checks is accepted. -/
theorem normalizeValidatorStake_of_entries {stakes : Table ValidatorID ℕ}
    (hentries : stakes.entries ≠ [])
    (hstakes : ∀ entry ∈ stakes.entries, isBlank entry.1 = false ∧
      entry.1.length ≤ maxConsensusTextLength ∧ 0 < entry.2)
    (htotal : WeightTable.total stakes ≤ maxUint64) :
    normalizeValidatorStake stakes = .ok (WeightTable.total stakes) := by
  simp only [normalizeValidatorStake, eq_ok]
  exact ⟨hentries, (foldlM_addValidatorStake (Nat.zero_le _)).mpr ⟨hstakes, (Nat.zero_add _).symm,
    htotal⟩⟩

theorem exists_counted_collector {count : ℕ} (hpositive : 0 < count)
    (hcount : count ≤ maxValidatorsPerSet) :
    ∃ collector, newVoteCollectorWithQuorums
      (activeStakeMap ⟨countedValidators count⟩ 0) strictTwoThirds strictTwoThirds =
        .ok collector := by
  have hset := newValidatorSet_counted hpositive hcount
  let stakes := activeStakeMap ⟨countedValidators count⟩ 0
  have hlength : stakes.entries.length = count := by
    have hkeys := (activeStakeMap_keys hset 0).length_eq
    rw [length_map, activeValidators_counted] at hkeys
    simpa [AList.keys, keys] using hkeys
  have hentries : ∀ entry ∈ stakes.entries, isBlank entry.1 = false ∧
      entry.1.length ≤ maxConsensusTextLength ∧ entry.2 = 1 := by
    intro entry hmem
    obtain ⟨validator, hvalidator, hid, hstake⟩ :=
      (activeStakeMap_lookup hset).mp (AList.mem_lookup_iff.mpr hmem)
    have hsorted := (mem_filter.mp hvalidator).1
    rw [validators, mem_insertionSort] at hsorted
    obtain ⟨key, -, rfl⟩ := mem_map.mp hsorted
    rw [← hid, ← hstake]
    exact ⟨(countedValidator_named key).1, (countedValidator_named key).2, rfl⟩
  have htotal : total stakes = count := by
    have hones : (stakes.entries.map fun entry => entry.2) = stakes.entries.map fun _ => 1 :=
      map_congr_left fun entry hmem => (hentries entry hmem).2.2
    rw [total, hones]
    simp [hlength]
  have hnormalized : normalizeValidatorStake stakes = .ok count := by
    rw [← htotal]
    refine normalizeValidatorStake_of_entries ?_ (fun entry hmem => ?_) ?_
    · exact ne_nil_of_length_pos (by omega)
    · obtain ⟨hblank, hname, hone⟩ := hentries entry hmem
      exact ⟨hblank, hname, by omega⟩
    · exact htotal.le.trans (hcount.trans (by decide))
  have hrequired : strictTwoThirds.requiredStake count = .ok (count * 2 / 3 + 1) := by
    simp only [Quorum.requiredStake, strictTwoThirds, eq_ok, if_true]
    have hlimit : 4096 ≤ (maxUint64 - 3 + 1) / 2 := by decide
    refine ⟨by decide, by decide, by omega, failIf_eq_ok.mpr (not_lt.mpr (hcount.trans hlimit)),
      Nat.mod_eq_of_lt ?_⟩
    have hsmall : count ≤ 4096 := hcount
    omega
  have hnew : newVoteCollectorWithQuorums stakes strictTwoThirds strictTwoThirds =
      .ok ⟨stakes, count * 2 / 3 + 1, count * 2 / 3 + 1, count, ∅, ∅⟩ := by
    simp only [newVoteCollectorWithQuorums, eq_ok]
    refine ⟨count, hnormalized, _, hrequired, _, hrequired, ?_, rfl⟩
    unfold wrapUint64
    omega
  exact ⟨_, hnew⟩

end

namespace VoteCollector

/-- Three validators are few enough. -/
theorem truthful_iff_three :
    ∃ collector, newVoteCollectorWithQuorums
        (activeStakeMap ⟨countedValidators 3⟩ 0) strictTwoThirds strictTwoThirds =
          .ok collector ∧ collector.Truthful sampleScheme := by
  obtain ⟨collector, hcollector⟩ := @exists_counted_collector 3 (by decide) (by decide)
  refine ⟨collector, hcollector, (truthful_iff sampleScheme countingCrypto_namesByDigest
    (newValidatorSet_counted (by decide) (by decide)) 0 hcollector).mpr ?_⟩
  decide

/-- A set of 2049 validators is accepted, and its collector emits a certificate with more
voters than a certificate may have. -/
theorem too_many_voters :
    ∃ set, newValidatorSet countingCrypto (countedValidators 2049) = .ok set ∧
      ∃ collector, newVoteCollectorWithQuorums (set.activeStakeMap 0) strictTwoThirds
        strictTwoThirds = .ok collector ∧ ¬collector.Truthful sampleScheme := by
  have hset := @newValidatorSet_counted 2049 (by decide) (by decide)
  obtain ⟨collector, hcollector⟩ := @exists_counted_collector 2049 (by decide) (by decide)
  refine ⟨_, hset, collector, hcollector, fun htruthful => ?_⟩
  have hlength := keys_length_le_of_truthful hcollector htruthful
  rw [(activeStakeMap_keys hset 0).length_eq, length_map, activeValidators_counted] at hlength
  exact absurd hlength (by decide)

end VoteCollector

end Ordexus
