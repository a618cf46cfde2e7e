import Ordexus.Consensus.VoteRuns

/-!
# Safety of the vote collector

Two decision certificates of one slot that disagree have no voter in common. The check of
the constructor therefore rules out a confirm and a skip certificate for one slot; two
certificates of the same type are ruled out exactly if the validators cannot be split into
two groups that both meet the threshold. Between two collectors, disagreement costs more
than a third of the stake.
-/

namespace Ordexus

open Checked WeightTable List

namespace VoteCollector

variable {scheme : AggregateScheme} {collector : VoteCollector}

/-! ### Ballots -/

section

variable (collector : VoteCollector) (key : VoteKey) (blockHeight : ℕ)

/-- A vote of a registered validator. -/
def castVote (voterID : ValidatorID) : Vote where
  type := key.type
  slot := key.slot
  blockHeight := blockHeight
  blockHash := key.blockHash
  voterID := voterID
  stake := weight collector.validatorStake voterID
  createdAtUnixMilli := 1

end

/-- Every validator votes for the block of its choice. -/
def ballots (collector : VoteCollector) (choose : ValidatorID → VoteKey) : List Vote :=
  collector.validatorStake.keys.map fun voterID => collector.castVote (choose voterID) 1 voterID

theorem Sound.castVote_countable (h : collector.Sound) {key : VoteKey} {voterID : ValidatorID}
    (htype : key.type ≠ .unknown) (hhash : key.blockHash ≠ 0)
    (hvoter : voterID ∈ collector.validatorStake.keys) :
    Countable collector.validatorStake (collector.castVote key 1 voterID) := by
  obtain ⟨stake, hstake⟩ := Option.isSome_iff_exists.mp (AList.lookup_isSome.mpr hvoter)
  have hweight := weight_of_lookup hstake
  obtain ⟨hblank, hlength, hpositive⟩ :=
    h.registered ⟨voterID, stake⟩ (AList.mem_lookup_iff.mp hstake)
  refine ⟨?_, hstake.trans (congrArg some hweight.symm)⟩
  have hnonzero : weight collector.validatorStake voterID ≠ 0 := by
    rw [hweight]
    exact Nat.ne_of_gt hpositive
  simp [Vote.validate, validateTarget, castVote, htype, hhash, hnonzero, hblank,
    Nat.not_lt.mpr hlength]

section

variable {stakes : Table ValidatorID ℕ} {confirmQuorum timeoutQuorum : Quorum}
  {choose : ValidatorID → VoteKey} {key : VoteKey} {members : ValidatorID → Bool}
  (h : newVoteCollectorWithQuorums stakes confirmQuorum timeoutQuorum = .ok collector)
  (hchoose : ∀ id, (choose id).type ≠ .unknown ∧ (choose id).blockHash ≠ 0)
  (hmembers : ∀ id, members id = true → choose id = key)
include h hchoose hmembers

/-- All ballots are counted. -/
theorem held_le_ballots (scheme : AggregateScheme) : held stakes members ≤
    ((collector.afterVotes scheme (collector.ballots choose)).bucket key).stake := by
  obtain ⟨hsound, rfl, -⟩ := newVoteCollectorWithQuorums_eq_ok h
  have hagree : Agreeing collector.validatorStake (collector.ballots choose) :=
    ⟨by simp [ballots, castVote], by simp [ballots, castVote]⟩
  have hsingle : SingleChoice (collector.ballots choose) := by
    simp only [SingleChoice, ballots, forall_mem_map]
    intro first _ second _ hkey
    obtain rfl := congrArg VoterChoiceKey.voterID hkey
    rfl
  rw [← heldBy_filter]
  obtain ⟨hend, hstakes⟩ := hsound.afterVotes scheme (collector.ballots choose)
  rw [(hend.backs key).stake, hstakes]
  refine heldBy_mono fun id hid => ?_
  obtain ⟨hvoter, hmember⟩ := mem_filter.mp hid
  rw [(holds_afterVotes h scheme _).voters]
  refine ⟨collector.castVote (choose id) 1 id, ?_, hmembers id hmember, rfl⟩
  exact (mem_acceptedVotes h scheme hagree hsingle (fun _ hmem => hmem) _).mpr
    ⟨mem_map_of_mem hvoter,
      hsound.castVote_countable (hchoose id).1 (hchoose id).2 hvoter⟩

theorem exists_ballot_certificate (scheme : AggregateScheme)
    (hmet : collector.thresholdStakeForVoteType key.type ≤ held stakes members) :
    ∃ certificate ∈ collector.certificates scheme ((collector.ballots choose).map .plain),
      certificate.key = key := by
  obtain ⟨-, -, hfirst, -⟩ := (collects scheme collector (collector.ballots choose)).emits
    (newVoteCollectorWithQuorums_eq_ok h).1 key rfl
  obtain ⟨certificate, hmem⟩ := exists_mem_of_ne_nil _ ((hfirst (stake_lt_of_new h key)).mpr
    (hmet.trans (held_le_ballots h hchoose hmembers scheme)))
  rw [mem_filter, decide_eq_true_eq] at hmem
  exact ⟨certificate, hmem⟩

end

/-! ### Disagreement -/

/-- Decision certificates of one slot agree. -/
def Agree (first second : QuorumCertificate) : Prop :=
  first.type = second.type ∧ first.blockHeight = second.blockHeight ∧
    first.blockHash = second.blockHash

instance (first second : QuorumCertificate) : Decidable (Agree first second) :=
  inferInstanceAs (Decidable (_ ∧ _ ∧ _))

/-- No run of calls emits two decision certificates for one slot that disagree. -/
def NeverConflicts (scheme : AggregateScheme) (collector : VoteCollector) : Prop :=
  ∀ calls, ∀ first ∈ collector.certificates scheme calls,
    ∀ second ∈ collector.certificates scheme calls,
      first.type.isDecision = true → second.type.isDecision = true → first.slot = second.slot →
        Agree first second

/-- The validators can be divided so that both parts meet a threshold. -/
def Splits (stakes : Table ValidatorID ℕ) (threshold : ℕ) : Prop :=
  ∃ members : ValidatorID → Bool, threshold ≤ held stakes members ∧
    threshold ≤ held stakes fun id => !members id

theorem eq_of_isDecision {type : VoteType} (h : type.isDecision = true) :
    type = .confirm ∨ type = .skip := by
  cases type with
  | confirm => exact .inl rfl
  | skip => exact .inr rfl
  | unknown | prepare => cases h

theorem phase_of_isDecision {type : VoteType} (h : type.isDecision = true) :
    votePhaseForChoice type = .decision := by
  rcases eq_of_isDecision h with rfl | rfl <;> rfl

theorem Certifies.agree {first second : QuorumCertificate} (hfirst : collector.Certifies first)
    (hsecond : collector.Certifies second) (hfirstType : first.type.isDecision = true)
    (hsecondType : second.type.isDecision = true) (hslot : first.slot = second.slot)
    {voter : ValidatorID} (hvoter : voter ∈ first.voters) (hcommon : voter ∈ second.voters) :
    Agree first second := by
  have hchosen := hfirst.backs.chosen voter hvoter
  have hother := hsecond.backs.chosen voter hcommon
  rw [phase_of_isDecision hfirstType, hslot] at hchosen
  rw [phase_of_isDecision hsecondType, hchosen] at hother
  have hsame := Option.some.inj hother
  exact ⟨congrArg VoteChoice.type hsame, congrArg VoteChoice.blockHeight hsame,
    congrArg VoteChoice.blockHash hsame⟩

theorem Sound.splits_of_disagree (hsound : collector.Sound) {calls : List CollectorCall}
    {first second : QuorumCertificate} (hfirst : first ∈ collector.certificates scheme calls)
    (hsecond : second ∈ collector.certificates scheme calls)
    (hfirstType : first.type.isDecision = true) (hsecondType : second.type.isDecision = true)
    (hslot : first.slot = second.slot) (hdisagree : ¬Agree first second) :
    collector.thresholdStakeForVoteType first.type +
        collector.thresholdStakeForVoteType second.type ≤ collector.totalStake ∧
      (first.type = second.type →
        Splits collector.validatorStake (collector.thresholdStakeForVoteType first.type)) := by
  have hfirstHeld := hsound.threshold_le_heldBy hfirst
  have hsecondHeld := hsound.threshold_le_heldBy hsecond
  have hapart : ∀ voter ∈ first.voters, voter ∉ second.voters := fun voter hvoter hcommon =>
    hdisagree ((hsound.certifies_of_mem hfirst).agree (hsound.certifies_of_mem hsecond)
      hfirstType hsecondType hslot hvoter hcommon)
  have hsum := @heldBy_add_le_total _ collector.validatorStake _ _ _ hapart
  rw [← hsound.total] at hsum
  refine ⟨by omega, fun htype => ⟨_, hfirstHeld, ?_⟩⟩
  rw [htype]
  refine hsecondHeld.trans (Weight.of_mono fun entry _ hmem => ?_)
  have hvoter : entry.1 ∈ second.voters := by simpa using hmem
  simpa using fun hin => hapart _ hin hvoter

/-- Two groups that both meet a threshold vote for different blocks. -/
theorem conflict_of_splits (scheme : AggregateScheme) {stakes : Table ValidatorID ℕ}
    {confirmQuorum timeoutQuorum : Quorum}
    (h : newVoteCollectorWithQuorums stakes confirmQuorum timeoutQuorum = .ok collector)
    {type : VoteType} (hdecision : type.isDecision = true)
    (hsplits : Splits stakes (collector.thresholdStakeForVoteType type)) :
    ¬collector.NeverConflicts scheme := by
  obtain ⟨members, hfirst, hsecond⟩ := hsplits
  have htype : type ≠ .unknown := by
    rintro rfl
    cases hdecision
  let choose (id : ValidatorID) : VoteKey := ⟨1, type, if members id = true then 1 else 2⟩
  have hchoose (id : ValidatorID) : (choose id).type ≠ .unknown ∧ (choose id).blockHash ≠ 0 := by
    refine ⟨htype, ?_⟩
    dsimp only [choose]
    split <;> decide
  obtain ⟨certificate, hcertificate, hkey⟩ := @exists_ballot_certificate _ _ _ _ choose
    ⟨1, type, 1⟩ members h hchoose (fun id hid => by simp [choose, hid]) scheme hfirst
  obtain ⟨conflicting, hconflicting, hotherKey⟩ := @exists_ballot_certificate _ _ _ _ choose
    ⟨1, type, 2⟩ (fun id => !members id) h hchoose
    (fun id hid => by simpa [choose] using hid) scheme hsecond
  intro hnever
  have hagree := hnever _ certificate hcertificate conflicting hconflicting
    ((congrArg (·.type.isDecision) hkey).trans hdecision)
    ((congrArg (·.type.isDecision) hotherKey).trans hdecision)
    ((congrArg VoteKey.slot hkey).trans (congrArg VoteKey.slot hotherKey).symm)
  have hsame : (1 : ℕ) = 2 := (congrArg VoteKey.blockHash hkey).symm.trans
    (hagree.2.2.trans (congrArg VoteKey.blockHash hotherKey))
  cases hsame

/-- A collector never emits conflicting decision certificates exactly if its validators
cannot be divided so that both parts meet the confirm threshold, or both the timeout
threshold. -/
theorem neverConflicts_iff (scheme : AggregateScheme) {stakes : Table ValidatorID ℕ}
    {confirmQuorum timeoutQuorum : Quorum} {collector : VoteCollector}
    (h : newVoteCollectorWithQuorums stakes confirmQuorum timeoutQuorum = .ok collector) :
    collector.NeverConflicts scheme ↔ ¬Splits stakes collector.confirmThresholdStake ∧
      ¬Splits stakes collector.timeoutThresholdStake := by
  constructor
  · intro hnever
    refine ⟨fun hsplits => ?_, fun hsplits => ?_⟩
    · exact @conflict_of_splits _ scheme _ _ _ h .confirm rfl hsplits hnever
    · exact @conflict_of_splits _ scheme _ _ _ h .skip rfl hsplits hnever
  · rintro ⟨hconfirm, htimeout⟩ calls first hfirst second hsecond hfirstType hsecondType hslot
    obtain ⟨hsound, rfl, -, -, -, -, -, hintersection⟩ := newVoteCollectorWithQuorums_eq_ok h
    by_contra hdisagree
    obtain ⟨hsum, hsplits⟩ := hsound.splits_of_disagree hfirst hsecond hfirstType hsecondType hslot
      hdisagree
    -- a confirm and a skip certificate together need more than the total stake
    rcases eq_of_isDecision hfirstType with hkind | hkind
    · rcases eq_of_isDecision hsecondType with hother | hother
      · rw [hkind] at hsplits
        exact hconfirm (hsplits hother.symm)
      · simp only [hkind, hother, thresholdStakeForVoteType] at hsum
        omega
    · rcases eq_of_isDecision hsecondType with hother | hother
      · simp only [hkind, hother, thresholdStakeForVoteType] at hsum
        omega
      · rw [hkind] at hsplits
        exact htimeout (hsplits hother.symm)

/-- Every signature aggregates to the same point. -/
def sampleScheme : AggregateScheme where
  aggregate := fun _ => .ok ⟨List.replicate 48 1, rfl⟩

/-- Three validators with one unit of stake each. -/
def sampleStakes : Table ValidatorID ℕ :=
  AList.insert [97] 1 (AList.insert [98] 1 (AList.insert [99] 1 ∅))

/-- The collector of three validators with the thresholds of the node. -/
def sampleCollector : VoteCollector where
  validatorStake := sampleStakes
  confirmThresholdStake := 3
  timeoutThresholdStake := 3
  totalStake := 3
  buckets := ∅
  voterChoices := ∅

theorem sampleCollector_new :
    newVoteCollectorWithQuorums sampleStakes strictTwoThirds strictTwoThirds =
      .ok sampleCollector :=
  rfl

/-- Three validators cannot be divided so that both parts hold everything. -/
theorem neverConflicts_iff_sample : sampleCollector.NeverConflicts sampleScheme := by
  have hwhole : ¬Splits sampleStakes 3 := by
    rintro ⟨members, hfirst, hsecond⟩
    have hsum := @held_add_le_total _ sampleStakes members (fun id => !members id)
      fun id hid => by simp [hid]
    have htotal : total sampleStakes = 3 := by decide
    omega
  exact (neverConflicts_iff sampleScheme sampleCollector_new).mpr ⟨hwhole, hwhole⟩

/-- Two validators with one unit of stake each. -/
def evenStakes : Table ValidatorID ℕ :=
  AList.insert [97] 1 (AList.insert [98] 1 ∅)

/-- Half of the stake confirms, and all of it has to skip: the thresholds are accepted, and
each of two validators confirms a block of its own. -/
theorem conflicting_confirms :
    ∃ collector, newVoteCollectorWithQuorums evenStakes ⟨1, 2, false⟩ ⟨1, 1, false⟩ =
        .ok collector ∧ ¬collector.NeverConflicts sampleScheme := by
  refine ⟨_, rfl, fun hnever => ?_⟩
  have hagree := hnever [.plain ⟨⟨.confirm, 1, 1, 1, [97]⟩, 1, 1⟩,
    .plain ⟨⟨.confirm, 1, 1, 2, [98]⟩, 1, 1⟩]
    (VoteBucket.certificate ⟨1, 1, [[97]], ∅, 1⟩ ⟨1, .confirm, 1⟩ 1) (by decide)
    (VoteBucket.certificate ⟨1, 1, [[98]], ∅, 1⟩ ⟨1, .confirm, 2⟩ 1) (by decide) rfl rfl rfl
  exact absurd hagree (by decide)

/-! ### Two collectors -/

def commonVoters (first second : QuorumCertificate) : List ValidatorID :=
  first.voters.filter fun voter => decide (voter ∈ second.voters)

/-- Two collectors with the strict two-thirds quorum that emit conflicting decision
certificates for one slot have voters in common that hold more than a third of the stake. -/
theorem common_voters_accountable (scheme other : AggregateScheme)
    {stakes : Table ValidatorID ℕ} {firstCollector secondCollector : VoteCollector}
    (hfirst : newVoteCollectorWithQuorums stakes strictTwoThirds strictTwoThirds =
      .ok firstCollector)
    (hsecond : newVoteCollectorWithQuorums stakes strictTwoThirds strictTwoThirds =
      .ok secondCollector)
    (calls moreCalls : List CollectorCall) :
    ∀ first ∈ firstCollector.certificates scheme calls,
      ∀ second ∈ secondCollector.certificates other moreCalls,
        first.type.isDecision = true → second.type.isDecision = true →
        first.slot = second.slot →
        first.type ≠ second.type ∨ first.blockHash ≠ second.blockHash →
          (total stakes - 1) / 3 <
            ((commonVoters first second).map (weight stakes)).sum := by
  intro first hfirstMem second hsecondMem _ _ _ _
  obtain ⟨hfirstSound, hfirstStakes, -, -, hconfirm, htimeout, -⟩ :=
    newVoteCollectorWithQuorums_eq_ok hfirst
  obtain rfl := Except.ok.inj (hfirst.symm.trans hsecond)
  obtain ⟨hpositive, hconfirmEq⟩ := requiredStake_strictTwoThirds hconfirm
  obtain ⟨-, htimeoutEq⟩ := requiredStake_strictTwoThirds htimeout
  have htotal := hfirstSound.total
  rw [hfirstStakes] at htotal
  -- both thresholds are the same, whatever the type of the certificate
  have hthreshold : ∀ type, firstCollector.thresholdStakeForVoteType type =
      firstCollector.totalStake * 2 / 3 + 1 := by
    intro type
    cases type with
    | skip => exact htimeoutEq
    | unknown | confirm | prepare => exact hconfirmEq
  have hfirstHeld := hfirstSound.threshold_le_heldBy hfirstMem
  have hsecondHeld := hfirstSound.threshold_le_heldBy hsecondMem
  rw [hthreshold, hfirstStakes] at hfirstHeld hsecondHeld
  have hoverlap := @heldBy_add_le _ first.voters _ stakes second.voters
    (commonVoters first second) fun voter hvoter hother => by simp [commonVoters, hvoter, hother]
  have hcommon : (commonVoters first second).Nodup :=
    (hfirstSound.certifies_of_mem hfirstMem).backs.nodup.filter _
  rw [sum_weight hcommon]
  omega

/-- All validators confirm at one collector and skip at the other. -/
theorem common_voters_accountable_double_vote :
    ∃ first second : QuorumCertificate, first.type ≠ second.type ∧
      (total sampleStakes - 1) / 3 <
        ((commonVoters first second).map (weight sampleStakes)).sum := by
  have h := common_voters_accountable sampleScheme sampleScheme sampleCollector_new
    sampleCollector_new
    [.plain ⟨⟨.confirm, 1, 1, 1, [97]⟩, 1, 1⟩, .plain ⟨⟨.confirm, 1, 1, 1, [98]⟩, 1, 1⟩,
      .plain ⟨⟨.confirm, 1, 1, 1, [99]⟩, 1, 1⟩]
    [.plain ⟨⟨.skip, 1, 1, 1, [97]⟩, 1, 1⟩, .plain ⟨⟨.skip, 1, 1, 1, [98]⟩, 1, 1⟩,
      .plain ⟨⟨.skip, 1, 1, 1, [99]⟩, 1, 1⟩]
    (VoteBucket.certificate ⟨1, 3, [[97], [98], [99]], ∅, 1⟩ ⟨1, .confirm, 1⟩ 3) (by decide)
    (VoteBucket.certificate ⟨1, 3, [[97], [98], [99]], ∅, 1⟩ ⟨1, .skip, 1⟩ 3) (by decide)
    rfl rfl rfl (.inl (by decide))
  exact ⟨_, _, by decide, h⟩

end VoteCollector

end Ordexus
