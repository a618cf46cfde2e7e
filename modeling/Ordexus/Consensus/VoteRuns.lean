import Ordexus.Consensus.CollectorInvariant

/-!
# Runs of votes

What `AddVote` makes of a list of votes: which of them it accepts, what the buckets hold
afterwards, and which certificates it emits on the way.
-/

namespace Ordexus

open Checked List

/-- The votes that a certificate counts. -/
def QuorumCertificate.key (certificate : QuorumCertificate) : VoteKey where
  slot := certificate.slot
  type := certificate.type
  blockHash := certificate.blockHash

/-- Does `AddVote` accept the vote where no other vote stands in its way? -/
def Countable (stakes : Table ValidatorID ℕ) (vote : Vote) : Prop :=
  vote.validate = .ok () ∧ stakes.lookup vote.voterID = some vote.stake

/-- No validator votes for two choices of the same slot and phase. -/
def SingleChoice (votes : List Vote) : Prop :=
  ∀ vote ∈ votes, ∀ other ∈ votes, vote.choiceKey = other.choiceKey → vote.choice = other.choice

/-- Countable votes for a block agree on its height, and copies of a vote on its time. -/
structure Agreeing (stakes : Table ValidatorID ℕ) (votes : List Vote) : Prop where
  height : ∀ vote ∈ votes, ∀ other ∈ votes, Countable stakes vote → Countable stakes other →
    vote.key = other.key → vote.blockHeight = other.blockHeight
  time : ∀ vote ∈ votes, ∀ other ∈ votes, Countable stakes vote → Countable stakes other →
    vote.choiceKey = other.choiceKey → vote.createdAtUnixMilli = other.createdAtUnixMilli

theorem Agreeing.eq {stakes : Table ValidatorID ℕ} {votes : List Vote}
    (h : Agreeing stakes votes) (hsingle : SingleChoice votes) {vote other : Vote}
    (hmem : vote ∈ votes) (hother : other ∈ votes) (hcountable : Countable stakes vote)
    (hcountableOther : Countable stakes other) (hkey : vote.choiceKey = other.choiceKey) :
    vote = other := by
  have htime := h.time vote hmem other hother hcountable hcountableOther hkey
  have hchoice := hsingle vote hmem other hother hkey
  obtain ⟨⟨type, slot, blockHeight, blockHash, voterID⟩, stake, createdAt⟩ := vote
  obtain ⟨⟨otherType, otherSlot, otherHeight, otherHash, otherID⟩, otherStake, otherTime⟩ := other
  obtain ⟨rfl, rfl, rfl⟩ := hchoice
  obtain ⟨rfl, -, rfl⟩ := hkey
  obtain rfl := htime
  obtain rfl := Option.mem_unique hcountable.2 hcountableOther.2
  rfl

namespace VoteCollector

def afterVotes (scheme : AggregateScheme) (collector : VoteCollector) (votes : List Vote) :
    VoteCollector :=
  collector.after scheme (votes.map .plain)

/-- The votes of a list that are accepted, in their order. -/
def acceptedVotes (scheme : AggregateScheme) : VoteCollector → List Vote → List Vote
  | _, [] => []
  | collector, vote :: votes =>
    let (next, result) := collector.apply scheme (.plain vote)
    if succeeds result then vote :: acceptedVotes scheme next votes
    else acceptedVotes scheme next votes

/-- The certificate for a block when a vote for it has been recorded. -/
def emission (before after : VoteCollector) (key : VoteKey) : Option QuorumCertificate :=
  let thresholdStake := before.thresholdStakeForVoteType key.type
  if before.completes thresholdStake (before.bucket key).stake (after.bucket key).stake = true then
    some ((after.bucket key).certificate key thresholdStake)
  else none

theorem Accepts.apply_plain {scheme : AggregateScheme} {collector : VoteCollector} {vote : Vote}
    {registeredStake : ℕ} (h : collector.Accepts vote registeredStake) :
    collector.apply scheme (.plain vote) = (collector.record vote registeredStake [],
      .ok (collector.emission (collector.record vote registeredStake []) vote.key)) := by
  rw [apply, addVote, checkVote_eq_ok.mpr h]
  unfold certificateFor emission
  dsimp only
  rw [bucket_record, if_pos rfl, show vote.key.type = vote.type from rfl]
  split
  · next hopen =>
    rw [hopen]
    rfl
  · next hcompletes =>
    rw [if_pos (.inl rfl), if_pos (Bool.not_eq_false _ ▸ hcompletes)]
    rfl

/-- A list of votes one by one: each is refused without a trace, or recorded, and then it may emit a
certificate. -/
inductive Collects : VoteCollector → List Vote → List Vote → List QuorumCertificate →
    VoteCollector → Prop
  | nil {collector} : Collects collector [] [] [] collector
  | refused {collector final vote votes accepted emitted}
      (hrefused : ∀ stake, ¬collector.Accepts vote stake)
      (hrest : Collects collector votes accepted emitted final) :
      Collects collector (vote :: votes) accepted emitted final
  | recorded {collector final vote votes accepted emitted next}
      (haccepts : collector.Accepts vote vote.stake)
      (hnext : collector.record vote vote.stake [] = next)
      (hrest : Collects next votes accepted emitted final) :
      Collects collector (vote :: votes) (vote :: accepted)
        ((collector.emission next vote.key).toList ++ emitted) final

theorem collects (scheme : AggregateScheme) (collector : VoteCollector) (votes : List Vote) :
    Collects collector votes (collector.acceptedVotes scheme votes)
      (collector.certificates scheme (votes.map .plain)) (collector.afterVotes scheme votes) := by
  induction votes generalizing collector with
  | nil => exact .nil
  | cons vote votes ih =>
    have hafter : collector.afterVotes scheme (vote :: votes) =
        (collector.apply scheme (.plain vote)).1.afterVotes scheme votes := rfl
    rw [acceptedVotes, hafter, map_cons, certificates_cons]
    cases hcheck : collector.checkVote vote with
    | error message =>
      have hcall : collector.apply scheme (.plain vote) = (collector, .error message) := by
        rw [apply, addVote, hcheck]
      rw [hcall]
      refine .refused (fun stake haccepts => ?_) (ih collector)
      rw [checkVote_eq_ok.mpr haccepts] at hcheck
      cases hcheck
    | ok stake =>
      have haccepts := checkVote_eq_ok.mp hcheck
      obtain rfl := haccepts.stake_eq
      rw [haccepts.apply_plain]
      exact .recorded haccepts rfl (ih _)

section

variable {collector final : VoteCollector} {votes accepted : List Vote}
  {emitted : List QuorumCertificate} {key : VoteKey}

theorem Collects.sublist (h : Collects collector votes accepted emitted final) :
    accepted.Sublist votes := by
  induction h with
  | nil => exact .slnil
  | refused _ _ ih => exact ih.cons _
  | recorded _ _ _ ih => exact ih.cons_cons _

/-- The votes that a collector has recorded. They determine its buckets, whatever their order. -/
structure Holds (collector : VoteCollector) (held : Set Vote) : Prop where
  countable : ∀ vote ∈ held, Countable collector.validatorStake vote
  single : ∀ vote ∈ held, ∀ other ∈ held, vote.choiceKey = other.choiceKey → vote = other
  choices : ∀ choice, collector.voterChoices.lookup choice = none ↔
    ∀ vote ∈ held, vote.choiceKey ≠ choice
  height : ∀ vote ∈ held, (collector.bucket vote.key).blockHeight = vote.blockHeight
  voters : ∀ key id, id ∈ (collector.bucket key).voters ↔
    ∃ vote ∈ held, vote.key = key ∧ vote.voterID = id
  time : ∀ key bound, (collector.bucket key).createdAtUnixMilli ≤ bound ↔
    0 ≤ bound ∧ ∀ vote ∈ held, vote.key = key → vote.createdAtUnixMilli ≤ bound
  empty : ∀ key, (∀ vote ∈ held, vote.key ≠ key) → collector.bucket key = .empty

variable {held : Set Vote}

theorem Holds.record {vote : Vote} (h : collector.Holds held)
    (haccepts : collector.Accepts vote vote.stake) :
    (collector.record vote vote.stake []).Holds (insert vote held) where
  countable := by
    rintro _ (rfl | hin)
    · exact ⟨haccepts.valid, haccepts.stake⟩
    · exact h.countable _ hin
  single := by
    have hfresh := (h.choices vote.choiceKey).mp haccepts.fresh
    rintro first (rfl | hfirst) second (rfl | hsecond) hkey
    · rfl
    · exact absurd hkey.symm (hfresh second hsecond)
    · exact absurd hkey (hfresh first hfirst)
    · exact h.single first hfirst second hsecond hkey
  choices choice := by
    rw [VoteCollector.record, Table.lookup_insert, Set.forall_mem_insert]
    split
    · next hchoice => simp [hchoice]
    · next hchoice => rw [h.choices, and_iff_right (Ne.symm hchoice)]
  height := by
    rintro other hmem
    rw [bucket_record]
    rcases hmem with rfl | hin
    · rw [if_pos rfl]
      rfl
    split
    · next hkey =>
      have hheight := h.height other hin
      have hne := (Vote.valid_fields (h.countable other hin).1).2.2.1
      rw [hkey] at hheight
      exact (haccepts.height.resolve_left (hheight ▸ hne)).symm.trans hheight
    · exact h.height other hin
  voters key id := by
    rw [bucket_record, Set.exists_mem_insert, ← h.voters]
    split
    · next hkey =>
      subst hkey
      simp [VoteBucket.add, eq_comm]
    · next hkey => simp [Ne.symm hkey]
  time key bound := by
    rw [bucket_record, Set.forall_mem_insert, and_left_comm, ← h.time]
    split
    · next hkey =>
      subst hkey
      simp [VoteBucket.add, and_comm]
    · next hkey => simp [Ne.symm hkey]
  empty key hnone := by
    obtain ⟨hvote, hnone⟩ := Set.forall_mem_insert.mp hnone
    rw [bucket_record, if_neg (Ne.symm hvote), h.empty key hnone]

theorem Collects.holds (h : Collects collector votes accepted emitted final)
    (hheld : collector.Holds held) : final.Holds (held ∪ {vote | vote ∈ accepted}) := by
  induction h generalizing held with
  | nil => simpa using hheld
  | refused _ _ ih => exact ih hheld
  | recorded haccepts hnext _ ih =>
    subst hnext
    convert ih (hheld.record haccepts) using 1
    ext other
    simp [or_left_comm, or_assoc]

/-- Nothing stands in the way of a countable vote but an earlier copy of it. -/
theorem Collects.complete (h : Collects collector votes accepted emitted final)
    (hheld : collector.Holds held) {all : List Vote}
    (hagree : Agreeing collector.validatorStake all) (hsingle : SingleChoice all)
    (hvotes : ∀ vote ∈ votes, vote ∈ all) (hall : ∀ vote ∈ held, vote ∈ all) :
    ∀ vote ∈ votes, Countable collector.validatorStake vote → vote ∈ held ∨ vote ∈ accepted := by
  induction h generalizing held with
  | nil => simp
  | @refused collector _ vote _ _ _ hrefused _ ih =>
    obtain ⟨hvote, hvotes⟩ := forall_mem_cons.mp hvotes
    refine forall_mem_cons.mpr ⟨fun hcountable => .inl ?_, ih hheld hagree hvotes hall⟩
    by_contra hout
    refine hrefused _ ⟨hcountable.1, hcountable.2, rfl, (hheld.choices _).mpr ?_, ?_⟩
    · intro other hother hkey
      have hsame := hagree.eq hsingle (hall other hother) hvote (hheld.countable other hother)
        hcountable hkey
      exact hout (hsame ▸ hother)
    · by_cases hnone : ∀ other ∈ held, other.key ≠ vote.key
      · rw [hheld.empty _ hnone]
        exact .inl rfl
      · push Not at hnone
        obtain ⟨other, hother, hkey⟩ := hnone
        rw [← hkey, hheld.height other hother]
        exact .inr (hagree.height other (hall other hother) vote hvote
          (hheld.countable other hother) hcountable hkey)
  | @recorded collector _ vote _ _ _ _ haccepts hnext _ ih =>
    subst hnext
    obtain ⟨hvote, hvotes⟩ := forall_mem_cons.mp hvotes
    refine forall_mem_cons.mpr ⟨fun _ => .inr mem_cons_self, fun other hmem hother => ?_⟩
    have hrest := ih (hheld.record haccepts) hagree hvotes
      (Set.forall_mem_insert.mpr ⟨hvote, hall⟩) other hmem hother
    simpa [or_left_comm, or_assoc] using hrest

/-! ### When certificates are emitted -/

theorem Sound.afterVotes (h : collector.Sound) (scheme : AggregateScheme) (votes : List Vote) :
    (collector.afterVotes scheme votes).Sound ∧
      (collector.afterVotes scheme votes).validatorStake = collector.validatorStake :=
  ⟨h.after _, (after_fixed _).1⟩

/-- The certificates for a block: the first when the threshold is met, the last when all stake
has voted. -/
theorem Collects.emits (h : Collects collector votes accepted emitted final)
    (hsound : collector.Sound) (key : VoteKey) {threshold : ℕ}
    (hthreshold : collector.thresholdStakeForVoteType key.type = threshold) :
    (collector.bucket key).stake ≤ (final.bucket key).stake ∧
    ((collector.bucket key).stake = collector.totalStake →
      emitted.filter (fun certificate => certificate.key = key) = [] ∧
        final.bucket key = collector.bucket key) ∧
    ((collector.bucket key).stake < threshold →
      (emitted.filter (fun certificate => certificate.key = key) ≠ [] ↔
        threshold ≤ (final.bucket key).stake)) ∧
    (threshold ≤ collector.totalStake → (collector.bucket key).stake < collector.totalStake →
      (final.bucket key).stake = collector.totalStake →
      (emitted.filter fun certificate => certificate.key = key).getLast? =
        some ((final.bucket key).certificate key threshold)) := by
  induction h with
  | nil =>
    exact ⟨le_rfl, fun _ => ⟨rfl, rfl⟩, fun hbelow => by simpa using hbelow,
      fun _ hbelow hall => absurd hall hbelow.ne⟩
  | refused _ _ ih => exact ih hsound hthreshold
  | @recorded collector final vote votes accepted emitted next haccepts hnext _ ih =>
    have hnextThreshold : next.thresholdStakeForVoteType key.type = threshold := by
      rw [← hnext, ← hthreshold]
      cases key.type <;> rfl
    obtain ⟨hgrows, hfull, hfirst, hlast⟩ := ih (hnext ▸ hsound.record haccepts []) hnextThreshold
    have htotal : next.totalStake = collector.totalStake := by rw [← hnext]; rfl
    rw [htotal] at hfull hlast
    have hbucket := collector.bucket_record vote vote.stake [] key
    rw [hnext] at hbucket
    rw [filter_append]
    by_cases hkey : key = vote.key
    · subst hkey
      obtain ⟨hstake, hbound⟩ := hsound.stake_add haccepts []
      have hpositive : 0 < vote.stake :=
        (hsound.registered ⟨_, _⟩ (AList.mem_lookup_iff.mp haccepts.stake)).2.2
      rw [if_pos rfl] at hbucket
      rw [← hbucket] at hstake
      have hemitted : ((collector.emission next vote.key).toList.filter
          fun certificate => certificate.key = vote.key) =
            if threshold ≤ (next.bucket vote.key).stake ∧
                ((collector.bucket vote.key).stake < threshold ∨
                  collector.totalStake ≤ (next.bucket vote.key).stake) then
              [(next.bucket vote.key).certificate vote.key threshold] else [] := by
        simp only [emission, hthreshold, completes_iff]
        split
        · exact filter_cons_of_pos (decide_eq_true rfl)
        · rfl
      rw [hemitted]
      refine ⟨by omega, fun hall => by omega, fun hbelow => ?_, fun hle hbelow hall => ?_⟩
      · by_cases hmet : threshold ≤ (next.bucket vote.key).stake
        · simp [hmet, hbelow, hmet.trans hgrows]
        · rw [if_neg fun hboth => hmet hboth.1]
          exact hfirst (by omega)
      · by_cases hmet : (next.bucket vote.key).stake = collector.totalStake
        · obtain ⟨hnone, hsame⟩ := hfull hmet
          rw [if_pos ⟨by omega, .inr hmet.ge⟩, hnone, hsame]
          rfl
        · rw [getLast?_append, hlast hle (by omega) hall]
          rfl
    · rw [if_neg hkey] at hbucket
      have hhead : (collector.emission next vote.key).toList.filter
          (fun certificate => certificate.key = key) = [] := by
        unfold emission
        dsimp only
        split
        · exact filter_eq_nil_iff.mpr (by simpa using fun heq => hkey heq.symm)
        · rfl
      rw [hhead]
      rw [hbucket] at hgrows hfull hfirst hlast
      exact ⟨hgrows, hfull, hfirst, hlast⟩

end

/-! ### Collectors without votes -/

section

variable {collector : VoteCollector} {stakes : Table ValidatorID ℕ}
  {confirmQuorum timeoutQuorum : Quorum}
  (h : newVoteCollectorWithQuorums stakes confirmQuorum timeoutQuorum = .ok collector)
include h

theorem bucket_of_new (key : VoteKey) : collector.bucket key = .empty := by
  obtain ⟨-, -, hbuckets, -⟩ := newVoteCollectorWithQuorums_eq_ok h
  rw [bucket, hbuckets]
  rfl

theorem stake_lt_of_new (key : VoteKey) :
    (collector.bucket key).stake < collector.thresholdStakeForVoteType key.type := by
  rw [bucket_of_new h]
  exact (newVoteCollectorWithQuorums_eq_ok h).1.threshold_pos _

theorem accepts_of_new {vote : Vote} (hcountable : Countable stakes vote) :
    collector.Accepts vote vote.stake := by
  obtain ⟨-, rfl, -, hchoices, -⟩ := newVoteCollectorWithQuorums_eq_ok h
  refine ⟨hcountable.1, hcountable.2, rfl, by rw [hchoices]; rfl, .inl ?_⟩
  rw [bucket_of_new h]
  rfl

theorem holds_of_new : collector.Holds ∅ := by
  obtain ⟨-, -, -, hchoices, -⟩ := newVoteCollectorWithQuorums_eq_ok h
  constructor <;> simp [hchoices, bucket_of_new h, VoteBucket.empty]

theorem holds_afterVotes (scheme : AggregateScheme) (votes : List Vote) :
    (collector.afterVotes scheme votes).Holds
      {vote | vote ∈ collector.acceptedVotes scheme votes} := by
  simpa using (collects scheme collector votes).holds (holds_of_new h)

/-- Every countable vote is accepted where the votes agree. -/
theorem mem_acceptedVotes (scheme : AggregateScheme) {all : List Vote}
    (hagree : Agreeing stakes all) (hsingle : SingleChoice all) {votes : List Vote}
    (hvotes : ∀ vote ∈ votes, vote ∈ all) (vote : Vote) :
    vote ∈ collector.acceptedVotes scheme votes ↔ vote ∈ votes ∧ Countable stakes vote := by
  obtain ⟨hsound, rfl, -⟩ := newVoteCollectorWithQuorums_eq_ok h
  have hrun := collects scheme collector votes
  have hheld := (holds_afterVotes h scheme votes).countable
  rw [(hsound.afterVotes scheme votes).2] at hheld
  refine ⟨fun hmem => ⟨hrun.sublist.subset hmem, hheld vote hmem⟩, fun ⟨hvote, hcounts⟩ => ?_⟩
  exact (hrun.complete (holds_of_new h) hagree hsingle hvotes (by simp) vote hvote
    hcounts).resolve_left (Set.notMem_empty _)

end

end VoteCollector

end Ordexus
