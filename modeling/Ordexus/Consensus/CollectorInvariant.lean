import Ordexus.Consensus.VoteCollector
import Ordexus.Library.WeightTable

/-!
# What a vote collector keeps

Every bucket holds the stake of its distinct voters, and every voter of a bucket has made
the choice that the bucket stands for. Choices are never taken back, so that whatever an
emitted certificate says about its voters still holds at the end of the run.
-/

namespace Ordexus

open Checked List WeightTable

/-! ### Thresholds -/

theorem Quorum.requiredStake_bounds {quorum : Quorum} {total required : ℕ}
    (h : quorum.requiredStake total = .ok required) :
    0 < total ∧ total ≤ maxUint64 ∧ required ≤ total + 1 ∧ (required = 0 → total = maxUint64) := by
  obtain ⟨hpositive, hfraction, htotal, hfits, hrequired⟩ := requiredStake_eq_ok h
  have hless : total ≤ total * quorum.numerator := Nat.le_mul_of_pos_right total hpositive
  have hpart : total * quorum.numerator ≤ total * quorum.denominator :=
    Nat.mul_le_mul_left total hfraction
  have hlimit : total ≤ maxUint64 := by
    unfold maxUint64 at *
    omega
  refine ⟨htotal, hlimit, ?_⟩
  split at hrequired
  · have hquotient : total * quorum.numerator / quorum.denominator ≤ total :=
      Nat.div_le_of_le_mul (by rwa [Nat.mul_comm quorum.denominator])
    generalize total * quorum.numerator / quorum.denominator = quotient at *
    unfold wrapUint64 at hrequired
    unfold maxUint64 at *
    omega
  · subst hrequired
    constructor
    · refine Nat.div_le_of_le_mul ?_
      rw [Nat.mul_add, Nat.mul_comm quorum.denominator total]
      omega
    · intro hzero
      have hlarge := (Nat.div_eq_zero_iff_lt (hpositive.trans_le hfraction)).mp hzero
      omega

/-- The stakes of valid entries are added up as long as the sum is a 64-bit number. -/
theorem foldlM_addValidatorStake {entries : List (Sigma fun _ : ValidatorID => ℕ)}
    {start total : ℕ} (hstart : start ≤ maxUint64) :
    entries.foldlM addValidatorStake start = .ok total ↔
      (∀ entry ∈ entries, isBlank entry.1 = false ∧
        entry.1.length ≤ maxConsensusTextLength ∧ 0 < entry.2) ∧
      total = start + (entries.map fun entry => entry.2).sum ∧ total ≤ maxUint64 := by
  induction entries generalizing start with
  | nil =>
    rw [foldlM_nil, pure_eq_ok, map_nil]
    constructor
    · rintro rfl
      exact ⟨by simp, rfl, hstart⟩
    · rintro ⟨-, rfl, -⟩
      rfl
  | cons entry entries ih =>
    simp only [foldlM_cons, addValidatorStake, eq_ok, not_or, not_lt, Bool.not_eq_true,
      forall_mem_cons, map_cons, sum_cons]
    constructor
    · rintro ⟨_, ⟨⟨hblank, hlength⟩, hpositive, hfits, rfl⟩, hrest⟩
      obtain ⟨hentries, htotal, hlimit⟩ := (ih (by omega)).mp hrest
      exact ⟨⟨⟨hblank, hlength, Nat.pos_of_ne_zero hpositive⟩, hentries⟩, by omega, hlimit⟩
    · rintro ⟨⟨⟨hblank, hlength, hpositive⟩, hentries⟩, htotal, hlimit⟩
      exact ⟨_, ⟨⟨hblank, hlength⟩, hpositive.ne', by omega, rfl⟩,
        (ih (by omega)).mpr ⟨hentries, by omega, hlimit⟩⟩

/-- The total of a table that is accepted, entry by entry. -/
theorem normalizeValidatorStake_eq_ok {stakes : Table ValidatorID ℕ} {total : ℕ}
    (h : normalizeValidatorStake stakes = .ok total) :
    total = WeightTable.total stakes ∧ ∀ entry ∈ stakes.entries,
      isBlank entry.1 = false ∧ entry.1.length ≤ maxConsensusTextLength ∧ 0 < entry.2 := by
  simp only [normalizeValidatorStake, eq_ok] at h
  obtain ⟨-, h⟩ := h
  obtain ⟨hentries, htotal, -⟩ := (foldlM_addValidatorStake (Nat.zero_le _)).mp h
  exact ⟨htotal.trans (Nat.zero_add _), hentries⟩

theorem Vote.valid_fields {vote : Vote} (h : vote.validate = .ok ()) :
    vote.type ≠ .unknown ∧ vote.blockHash ≠ 0 ∧ vote.blockHeight ≠ 0 ∧
      0 < vote.createdAtUnixMilli := by
  simp only [Vote.validate, validateTarget, eq_ok, not_and, not_or, not_le] at h
  obtain ⟨htype, -, -, hcreated, hhash, hheight, hskipHash, hskipHeight⟩ := h
  cases hkind : vote.type with
  | unknown => exact absurd hkind htype
  | confirm => exact ⟨by simp, hhash (.inr hkind), hheight (.inr hkind), hcreated⟩
  | skip => exact ⟨by simp, hskipHash hkind, hskipHeight hkind, hcreated⟩
  | prepare => exact ⟨by simp, hhash (.inl hkind), hheight (.inl hkind), hcreated⟩

namespace VoteCollector

/-! ### One vote -/

structure Accepts (collector : VoteCollector) (vote : Vote) (registeredStake : ℕ) : Prop where
  valid : vote.validate = .ok ()
  stake : collector.validatorStake.lookup vote.voterID = some registeredStake
  stake_eq : registeredStake = vote.stake
  fresh : collector.voterChoices.lookup vote.choiceKey = none
  height : (collector.bucket vote.key).blockHeight = 0 ∨
    (collector.bucket vote.key).blockHeight = vote.blockHeight

variable {collector : VoteCollector} {registeredStake : ℕ}

theorem checkVote_eq_ok {vote : Vote} :
    collector.checkVote vote = .ok registeredStake ↔
      collector.Accepts vote registeredStake := by
  simp only [checkVote, eq_ok, not_and, not_not, ne_eq, Option.not_isSome_iff_eq_none]
  constructor
  · rintro ⟨hvalid, stake, hstake, hsame, -, hfresh, hheight, rfl⟩
    exact ⟨hvalid, hstake, hsame, hfresh, or_iff_not_imp_left.mpr hheight⟩
  · rintro ⟨hvalid, hstake, hsame, hfresh, hheight⟩
    exact ⟨hvalid, registeredStake, hstake, hsame, by simp [hfresh], hfresh, or_iff_not_imp_left.mp
      hheight, rfl⟩

theorem bucket_record (collector : VoteCollector) (vote : Vote) (registeredStake : ℕ)
    (blsSignature : Bytes) (key : VoteKey) :
    (collector.record vote registeredStake blsSignature).bucket key =
      if key = vote.key then
        (collector.bucket vote.key).add vote registeredStake blsSignature
      else collector.bucket key := by
  unfold bucket record
  rw [Table.lookup_insert]
  split <;> rfl

theorem Accepts.keeps_choice {vote : Vote} (h : collector.Accepts vote registeredStake)
    (blsSignature : Bytes) {key : VoterChoiceKey} {choice : VoteChoice}
    (hchoice : collector.voterChoices.lookup key = some choice) :
    (collector.record vote registeredStake blsSignature).voterChoices.lookup key =
      some choice := by
  have hother : key ≠ vote.choiceKey := by
    rintro rfl
    rw [h.fresh] at hchoice
    cases hchoice
  rw [record, Table.lookup_insert, if_neg hother, hchoice]

/-! ### Buckets -/

/-- The choice that the votes of a bucket stand for. -/
def choiceOf (key : VoteKey) (blockHeight : ℕ) : VoteChoice where
  type := key.type
  blockHeight := blockHeight
  blockHash := key.blockHash

/-- Who has voted, and for what. -/
structure Backs (collector : VoteCollector) (key : VoteKey) (blockHeight stake : ℕ)
    (voters : List ValidatorID) : Prop where
  nodup : voters.Nodup
  stake : stake = heldBy collector.validatorStake voters
  registered : ∀ voter ∈ voters, (collector.validatorStake.lookup voter).isSome
  chosen : ∀ voter ∈ voters, collector.voterChoices.lookup
    ⟨key.slot, votePhaseForChoice key.type, voter⟩ = some (choiceOf key blockHeight)

/-- The fields of a bucket that has votes pass the checks of votes and certificates. -/
structure ValidBucket (key : VoteKey) (bucket : VoteBucket) : Prop where
  type : key.type ≠ .unknown
  blockHash : key.blockHash ≠ 0
  blockHeight : bucket.blockHeight ≠ 0
  createdAt : 0 < bucket.createdAtUnixMilli

structure Sound (collector : VoteCollector) : Prop where
  total : collector.totalStake = WeightTable.total collector.validatorStake
  total_le : collector.totalStake ≤ maxUint64
  confirm_pos : 0 < collector.confirmThresholdStake
  timeout_pos : 0 < collector.timeoutThresholdStake
  registered : ∀ entry ∈ collector.validatorStake.entries,
    isBlank entry.1 = false ∧ entry.1.length ≤ maxConsensusTextLength ∧ 0 < entry.2
  backs : ∀ key, collector.Backs key (collector.bucket key).blockHeight
    (collector.bucket key).stake (collector.bucket key).voters
  valid : ∀ key, (collector.bucket key).voters ≠ [] → ValidBucket key (collector.bucket key)

theorem Sound.threshold_pos (h : collector.Sound) (type : VoteType) :
    0 < collector.thresholdStakeForVoteType type := by
  cases type with
  | skip => exact h.timeout_pos
  | unknown | confirm | prepare => exact h.confirm_pos

section

variable {collector : VoteCollector} {vote : Vote} {registeredStake : ℕ} {key : VoteKey}
  {blockHeight stake : ℕ} {voters : List ValidatorID}

theorem Backs.record (h : collector.Backs key blockHeight stake voters)
    (haccepts : collector.Accepts vote registeredStake) (blsSignature : Bytes) :
    (collector.record vote registeredStake blsSignature).Backs key blockHeight stake voters :=
  { h with
    chosen := fun voter hmem => haccepts.keeps_choice blsSignature (h.chosen voter hmem) }

/-- A voter without a choice is not in the bucket yet. -/
theorem Accepts.not_mem (haccepts : collector.Accepts vote registeredStake)
    (h : collector.Backs vote.key blockHeight stake voters) : vote.voterID ∉ voters := by
  intro hmem
  have hchosen := h.chosen _ hmem
  have hfresh := haccepts.fresh
  rw [show vote.choiceKey = ⟨vote.key.slot, votePhaseForChoice vote.key.type, vote.voterID⟩
    from rfl, hchosen] at hfresh
  cases hfresh

section

variable (h : collector.Sound) (haccepts : collector.Accepts vote registeredStake)
  (blsSignature : Bytes)
include h haccepts

/-- The stake of a bucket never overflows: it is part of the total. -/
theorem Sound.stake_add :
    ((collector.bucket vote.key).add vote registeredStake blsSignature).stake =
        (collector.bucket vote.key).stake + registeredStake ∧
      (collector.bucket vote.key).stake + registeredStake ≤ collector.totalStake := by
  have hbacks := h.backs vote.key
  have hcons := heldBy_cons collector.validatorStake (haccepts.not_mem hbacks)
  rw [weight_of_lookup haccepts.stake] at hcons
  have hle := heldBy_le_total collector.validatorStake
    (vote.voterID :: (collector.bucket vote.key).voters)
  have htotal := h.total
  have hlimit := h.total_le
  have hstake := hbacks.stake
  have hsum : (collector.bucket vote.key).stake + registeredStake ≤ collector.totalStake := by
    omega
  refine ⟨Nat.mod_eq_of_lt ?_, hsum⟩
  unfold maxUint64 at hlimit
  omega

theorem Sound.backs_add :
    (collector.record vote registeredStake blsSignature).Backs vote.key vote.blockHeight
      ((collector.bucket vote.key).add vote registeredStake blsSignature).stake
      ((collector.bucket vote.key).add vote registeredStake blsSignature).voters := by
  have hbacks := h.backs vote.key
  have hnew := haccepts.not_mem hbacks
  have hvoters : ((collector.bucket vote.key).add vote registeredStake blsSignature).voters =
      vote.voterID :: (collector.bucket vote.key).voters := by
    simp [VoteBucket.add, hnew]
  rw [hvoters, (h.stake_add haccepts blsSignature).1]
  refine ⟨nodup_cons.mpr ⟨hnew, hbacks.nodup⟩, ?_, ?_, ?_⟩
  · have hcons := heldBy_cons collector.validatorStake hnew
    rw [weight_of_lookup haccepts.stake, ← hbacks.stake] at hcons
    exact hcons.symm
  · refine forall_mem_cons.mpr ⟨?_, hbacks.registered⟩
    simp [record, haccepts.stake]
  · refine forall_mem_cons.mpr ⟨?_, fun voter hmem => ?_⟩
    · exact AList.lookup_insert _
    · have hvalid := h.valid vote.key (ne_nil_of_mem hmem)
      have hheight := haccepts.height.resolve_left hvalid.blockHeight
      rw [← hheight]
      exact haccepts.keeps_choice blsSignature (hbacks.chosen voter hmem)

theorem Sound.record : (collector.record vote registeredStake blsSignature).Sound where
  total := h.total
  total_le := h.total_le
  confirm_pos := h.confirm_pos
  timeout_pos := h.timeout_pos
  registered := h.registered
  backs := fun key => by
    rw [bucket_record]
    split
    · next hkey =>
      subst hkey
      exact h.backs_add haccepts blsSignature
    · exact (h.backs key).record haccepts blsSignature
  valid := fun key hvoters => by
    rw [bucket_record] at hvoters ⊢
    split
    · next hkey =>
      subst hkey
      obtain ⟨htype, hhash, hheight, hcreated⟩ := Vote.valid_fields haccepts.valid
      exact ⟨htype, hhash, hheight, lt_max_of_lt_right hcreated⟩
    · next hkey =>
      rw [if_neg hkey] at hvoters
      exact h.valid key hvoters

end

end

/-! ### Certificates -/

/-- What a certificate says about the collector that emitted it. -/
structure Certifies (collector : VoteCollector) (certificate : QuorumCertificate) : Prop where
  backs : collector.Backs ⟨certificate.slot, certificate.type, certificate.blockHash⟩
    certificate.blockHeight certificate.confirmedStake certificate.voters
  threshold : certificate.thresholdStake = collector.thresholdStakeForVoteType certificate.type
  enough : certificate.thresholdStake ≤ certificate.confirmedStake
  sorted : certificate.voters.Pairwise (· < ·)
  type : certificate.type ≠ .unknown
  blockHash : certificate.blockHash ≠ 0
  blockHeight : certificate.blockHeight ≠ 0
  createdAt : 0 < certificate.createdAtUnixMilli
  aggregate : validateAggregateFields certificate = .ok ()

theorem Certifies.record {certificate : QuorumCertificate} {vote : Vote}
    (h : collector.Certifies certificate) (haccepts : collector.Accepts vote registeredStake)
    (blsSignature : Bytes) :
    (collector.record vote registeredStake blsSignature).Certifies certificate :=
  { h with
    backs := h.backs.record haccepts blsSignature
    threshold := by
      rw [h.threshold]
      cases certificate.type <;> rfl }

theorem pairwise_lt_insertionSort {ids : List ValidatorID} (h : ids.Nodup) :
    (ids.insertionSort (· ≤ ·)).Pairwise (· < ·) := by
  have hsorted := pairwise_insertionSort (fun left right : ValidatorID => left ≤ right) ids
  have hnodup : (ids.insertionSort (· ≤ ·)).Nodup :=
    (perm_insertionSort (fun left right : ValidatorID => left ≤ right) ids).nodup_iff.mpr h
  exact hsorted.imp₂ (fun _ _ hle hne => Std.lt_of_le_of_ne hle hne) hnodup

/-- A list in another order has the same members. -/
theorem Backs.perm {key : VoteKey} {blockHeight stake : ℕ} {voters others : List ValidatorID}
    (h : collector.Backs key blockHeight stake voters) (hperm : others.Perm voters) :
    collector.Backs key blockHeight stake others where
  nodup := hperm.nodup_iff.mpr h.nodup
  stake := by
    rw [h.stake]
    exact heldBy_congr fun id => hperm.mem_iff.symm
  registered := fun voter hmem => h.registered voter (hperm.mem_iff.mp hmem)
  chosen := fun voter hmem => h.chosen voter (hperm.mem_iff.mp hmem)

section

variable {scheme : AggregateScheme} {collector : VoteCollector} {vote : Vote}
  {registeredStake : ℕ} {blsSignature : Bytes} {validatorOrder : List ValidatorID}
  {certificate aggregated : QuorumCertificate}

/-- Aggregation adds a signature and changes nothing else. -/
theorem attachBLSAggregate_eq_ok {signatures : Table ValidatorID Bytes}
    (h : attachBLSAggregate scheme certificate validatorOrder signatures = .ok aggregated) :
    validateAggregateFields aggregated = .ok () ∧ ∃ signature voters,
      signature.length = 48 ∧ aggregated =
        { certificate with
          signatureScheme := .blsBasic
          aggregateSignature := signature
          voterBitmap := voterBitmap validatorOrder voters } := by
  simp only [attachBLSAggregate, eq_ok] at h
  obtain ⟨-, -, -, signatures, -, signature, -, hvalid, rfl⟩ := h
  simp only [QuorumCertificate.validate, eq_ok] at hvalid
  obtain ⟨-, -, -, -, -, haggregate, -⟩ := hvalid
  exact ⟨haggregate, signature.1, _, signature.2, rfl⟩

/-- The certificate that a vote completes: when, and what it says apart from a signature. -/
theorem certificateFor_eq_ok
    (h : collector.certificateFor scheme vote registeredStake blsSignature validatorOrder =
      .ok (some certificate)) :
    collector.completes (collector.thresholdStakeForVoteType vote.type)
        (collector.bucket vote.key).stake
        ((collector.bucket vote.key).add vote registeredStake blsSignature).stake = true ∧
      validateAggregateFields certificate = .ok () ∧
      ∃ signatureScheme signature bitmap,
        (signature = [] ∧ bitmap = [] ∨
          signature.length = 48 ∧ ∃ voters, bitmap = voterBitmap validatorOrder voters) ∧
        certificate =
          { ((collector.bucket vote.key).add vote registeredStake blsSignature).certificate
              vote.key (collector.thresholdStakeForVoteType vote.type) with
            signatureScheme := signatureScheme
            aggregateSignature := signature
            voterBitmap := bitmap } := by
  unfold certificateFor at h
  dsimp only at h
  split at h
  · cases h
  · next hcompletes =>
    refine ⟨by simpa using hcompletes, ?_⟩
    split at h
    · obtain rfl := Option.some.inj (pure_eq_ok.mp h)
      exact ⟨rfl, _, _, _, .inl ⟨rfl, rfl⟩, rfl⟩
    · simp only [eq_ok, Option.some.injEq] at h
      obtain ⟨_, hattach, rfl⟩ := h
      obtain ⟨hfields, signature, voters, hlength, rfl⟩ := attachBLSAggregate_eq_ok hattach
      exact ⟨hfields, _, _, _, .inr ⟨hlength, voters, rfl⟩, rfl⟩

theorem completes_iff {threshold previous stake : ℕ} :
    collector.completes threshold previous stake = true ↔
      threshold ≤ stake ∧ (previous < threshold ∨ collector.totalStake ≤ stake) := by
  simp only [completes, Bool.and_eq_true, decide_eq_true_eq, Bool.not_eq_true',
    Bool.and_eq_false_iff, decide_eq_false_iff_not, not_le, not_lt]

/-- A certificate is true of the collector after the vote that completes it. -/
theorem Sound.certifies (h : collector.Sound) (haccepts : collector.Accepts vote registeredStake)
    (hcertificate : collector.certificateFor scheme vote registeredStake blsSignature
      validatorOrder = .ok (some certificate)) :
    (collector.record vote registeredStake blsSignature).Certifies certificate := by
  obtain ⟨hcompletes, hfields, _, _, _, -, rfl⟩ := certificateFor_eq_ok hcertificate
  obtain ⟨htype, hhash, hheight, hcreated⟩ := Vote.valid_fields haccepts.valid
  have hbacks := h.backs_add haccepts blsSignature
  have hperm := perm_insertionSort (fun left right : ValidatorID => left ≤ right)
    ((collector.bucket vote.key).add vote registeredStake blsSignature).voters
  have hthreshold : (collector.record vote registeredStake blsSignature).thresholdStakeForVoteType
      vote.type = collector.thresholdStakeForVoteType vote.type := by
    cases vote.type <;> rfl
  exact ⟨hbacks.perm hperm, hthreshold.symm, (completes_iff.mp hcompletes).1,
    pairwise_lt_insertionSort hbacks.nodup, htype, hhash, hheight, lt_max_of_lt_right hcreated,
    hfields⟩

end

/-! ### Runs -/

section

variable {scheme : AggregateScheme} {collector : VoteCollector} {certificate : QuorumCertificate}

/-- A call either fails without a trace or records its vote. -/
inductive Applies (scheme : AggregateScheme) (collector : VoteCollector) (call : CollectorCall) :
    Prop
  | refused (message : String) (h : collector.apply scheme call = (collector, .error message))
  | recorded (registeredStake : ℕ) (blsSignature : Bytes) (validatorOrder : List ValidatorID)
      (haccepts : collector.Accepts call.vote registeredStake)
      (hform : validatorOrder = [] ∨ call = .withBLS call.vote blsSignature validatorOrder)
      (h : collector.apply scheme call =
        (collector.record call.vote registeredStake blsSignature,
          collector.certificateFor scheme call.vote registeredStake blsSignature validatorOrder))

theorem applies_addVote {call : CollectorCall} {blsSignature : Bytes}
    {validatorOrder : List ValidatorID}
    (hform : validatorOrder = [] ∨ call = .withBLS call.vote blsSignature validatorOrder)
    (h : collector.apply scheme call =
      collector.addVote scheme call.vote blsSignature validatorOrder) :
    collector.Applies scheme call := by
  cases hcheck : collector.checkVote call.vote with
  | error message => exact .refused message (by rw [h, addVote, hcheck])
  | ok registeredStake =>
    exact .recorded registeredStake blsSignature validatorOrder (checkVote_eq_ok.mp hcheck) hform
      (by rw [h, addVote, hcheck])

theorem applies (scheme : AggregateScheme) (collector : VoteCollector) (call : CollectorCall) :
    collector.Applies scheme call := by
  cases call with
  | plain vote => exact applies_addVote (.inl rfl) rfl
  | withBLS vote blsSignature validatorOrder =>
    by_cases hsignature : blsSignature = []
    · exact .refused _ (by rw [apply, if_pos hsignature])
    · by_cases horder : validatorOrder = []
      · exact .refused _ (by rw [apply, if_neg hsignature, if_pos horder])
      · exact applies_addVote (.inr rfl)
          (by rw [apply, if_neg hsignature, if_neg horder]; rfl)

/-- What every recorded vote keeps holds at the end of a run. -/
theorem after_keeps {motive : VoteCollector → Prop} {calls : List CollectorCall}
    (h : motive collector)
    (hrecord : ∀ call ∈ calls, ∀ current stake signature, motive current →
      current.Accepts call.vote stake → motive (current.record call.vote stake signature)) :
    motive (collector.after scheme calls) := by
  induction calls generalizing collector with
  | nil => exact h
  | cons call calls ih =>
    obtain ⟨hcall, hrest⟩ := forall_mem_cons.mp hrecord
    refine @ih (collector.apply scheme call).1 ?_ hrest
    cases applies scheme collector call with
    | refused message happly => rwa [happly]
    | recorded stake signature _ haccepts _ happly =>
      rw [happly]
      exact hcall collector stake signature h haccepts

theorem Sound.after (h : collector.Sound) (calls : List CollectorCall) :
    (collector.after scheme calls).Sound :=
  after_keeps h fun _ _ _ _ signature hsound haccepts => hsound.record haccepts signature

theorem Certifies.after (h : collector.Certifies certificate) (calls : List CollectorCall) :
    (collector.after scheme calls).Certifies certificate :=
  after_keeps (motive := fun current => current.Certifies certificate) h
    fun _ _ _ _ signature hcertifies haccepts => hcertifies.record haccepts signature

theorem certificates_cons (call : CollectorCall) (calls : List CollectorCall) :
    collector.certificates scheme (call :: calls) =
      (collector.apply scheme call).2.toOption.join.toList ++
        (collector.apply scheme call).1.certificates scheme calls := by
  rw [certificates, results, filterMap_cons]
  cases (collector.apply scheme call).2.toOption.join with
  | none => rfl
  | some emitted => rfl

theorem mem_certificates_cons {call : CollectorCall} {calls : List CollectorCall} :
    certificate ∈ collector.certificates scheme (call :: calls) ↔
      (collector.apply scheme call).2 = .ok (some certificate) ∨
        certificate ∈ (collector.apply scheme call).1.certificates scheme calls := by
  rw [certificates_cons, mem_append, Option.mem_toList, Option.join_eq_some_iff, toOption_eq_some]

/-- What every certificate of a run says holds at its end. -/
theorem Sound.certifies_of_mem (h : collector.Sound) {calls : List CollectorCall}
    (hmem : certificate ∈ collector.certificates scheme calls) :
    (collector.after scheme calls).Certifies certificate := by
  induction calls generalizing collector with
  | nil => simp [certificates, results] at hmem
  | cons call calls ih =>
    rcases mem_certificates_cons.mp hmem with hemitted | hlater
    · refine @Certifies.after scheme (collector.apply scheme call).1 certificate ?_ calls
      cases applies scheme collector call with
      | refused message hcall =>
        rw [hcall] at hemitted
        cases hemitted
      | recorded registeredStake blsSignature validatorOrder haccepts _ hcall =>
        rw [hcall] at hemitted ⊢
        exact h.certifies haccepts hemitted
    · exact ih (h.after [call]) hlater

theorem after_fixed (calls : List CollectorCall) :
    (collector.after scheme calls).validatorStake = collector.validatorStake ∧
      (collector.after scheme calls).totalStake = collector.totalStake ∧
      ∀ type, (collector.after scheme calls).thresholdStakeForVoteType type =
        collector.thresholdStakeForVoteType type := by
  refine after_keeps (motive := fun current => current.validatorStake = collector.validatorStake ∧
    current.totalStake = collector.totalStake ∧ ∀ type, current.thresholdStakeForVoteType type =
      collector.thresholdStakeForVoteType type)
    ⟨rfl, rfl, fun _ => rfl⟩ fun _ _ current _ _ h _ => ⟨h.1, h.2.1, fun type => ?_⟩
  rw [← h.2.2 type]
  cases type <;> rfl

/-- The voters of a certificate hold what its type requires. -/
theorem Sound.threshold_le_heldBy (h : collector.Sound) {calls : List CollectorCall}
    (hmem : certificate ∈ collector.certificates scheme calls) :
    collector.thresholdStakeForVoteType certificate.type ≤
      heldBy collector.validatorStake certificate.voters := by
  have hcertifies := h.certifies_of_mem hmem
  obtain ⟨hstakes, -, hthreshold⟩ := @after_fixed scheme collector calls
  have henough := hcertifies.enough
  rwa [hcertifies.threshold, hthreshold, hcertifies.backs.stake, hstakes] at henough

end

/-! ### Fresh collectors -/

theorem newVoteCollectorWithQuorums_eq_ok {stakes : Table ValidatorID ℕ}
    {confirmQuorum timeoutQuorum : Quorum}
    (h : newVoteCollectorWithQuorums stakes confirmQuorum timeoutQuorum = .ok collector) :
    collector.Sound ∧ collector.validatorStake = stakes ∧
      collector.buckets = ∅ ∧ collector.voterChoices = ∅ ∧
      confirmQuorum.requiredStake collector.totalStake = .ok collector.confirmThresholdStake ∧
      timeoutQuorum.requiredStake collector.totalStake = .ok collector.timeoutThresholdStake ∧
      collector.timeoutThresholdStake ≤ collector.totalStake ∧
      collector.totalStake + (collector.totalStake - 1) / 3 <
        collector.confirmThresholdStake + collector.timeoutThresholdStake := by
  simp only [newVoteCollectorWithQuorums, eq_ok, not_le] at h
  obtain ⟨total, htotal, confirm, hconfirm, timeout, htimeout, hintersection, rfl⟩ := h
  obtain ⟨htotalEq, hentries⟩ := normalizeValidatorStake_eq_ok htotal
  obtain ⟨hpositive, hlimit, hconfirmLe, -⟩ := Quorum.requiredStake_bounds hconfirm
  obtain ⟨-, -, htimeoutLe, htimeoutZero⟩ := Quorum.requiredStake_bounds htimeout
  -- a timeout threshold that has wrapped to zero leaves no intersection
  have harith : 0 < confirm ∧ 0 < timeout ∧ timeout ≤ total ∧
      total + (total - 1) / 3 < confirm + timeout := by
    unfold wrapUint64 at hintersection
    unfold maxUint64 at hlimit htimeoutZero
    omega
  refine ⟨⟨htotalEq, hlimit, harith.1, harith.2.1, hentries, fun key => ?_, fun key hne => ?_⟩,
    rfl, rfl, rfl, hconfirm, htimeout, harith.2.2⟩
  · refine ⟨nodup_nil, ?_, by simp [bucket, VoteBucket.empty], by simp [bucket, VoteBucket.empty]⟩
    exact (heldBy_nil stakes).symm
  · simp [bucket, VoteBucket.empty] at hne

end VoteCollector

end Ordexus
