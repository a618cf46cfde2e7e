import Ordexus.Consensus.CollectorCertificates

/-!
# The order of votes

The first vote fixes the height of a bucket, and the first of two copies of a vote is the one
that counts. The order of the votes therefore does not matter exactly if the countable votes for
a block agree on its height and no copy has another time.
-/

namespace Ordexus

open Checked List

namespace VoteCollector

/-- The certificates that a list of votes emits for one slot, type and block. -/
def emittedByVotes (scheme : AggregateScheme) (collector : VoteCollector) (votes : List Vote)
    (key : VoteKey) : List QuorumCertificate :=
  collector.emittedFor scheme (votes.map .plain) key

/-- Two orders have the same effect. -/
structure SameOutcome (scheme : AggregateScheme) (collector : VoteCollector)
    (first second : List Vote) : Prop where
  accepted : ∀ vote, vote ∈ collector.acceptedVotes scheme first ↔
    vote ∈ collector.acceptedVotes scheme second
  stakes : ∀ key, ((collector.afterVotes scheme first).bucket key).stake =
    ((collector.afterVotes scheme second).bucket key).stake
  emitted : ∀ key, collector.emittedByVotes scheme first key ≠ [] ↔
    collector.emittedByVotes scheme second key ≠ []
  final : ∀ key, ((collector.afterVotes scheme first).bucket key).stake = collector.totalStake →
    (collector.emittedByVotes scheme first key).getLast? =
      (collector.emittedByVotes scheme second key).getLast?

/-- The recorded votes determine the certificate that a bucket stands for. -/
theorem Holds.certificate_eq {first second : VoteCollector} {held : Set Vote}
    (hfirst : first.Holds held) (hsecond : second.Holds held) (hsound : first.Sound)
    (hsoundSecond : second.Sound) (hstakes : first.validatorStake = second.validatorStake)
    (key : VoteKey) (threshold : ℕ) :
    (first.bucket key).certificate key threshold =
      (second.bucket key).certificate key threshold := by
  have hmem (id : ValidatorID) : id ∈ (first.bucket key).voters ↔
      id ∈ (second.bucket key).voters := by
    rw [hfirst.voters, hsecond.voters]
  have hsame : (first.bucket key).voters.Perm (second.bucket key).voters :=
    (perm_ext_iff_of_nodup (hsound.backs key).nodup (hsoundSecond.backs key).nodup).mpr hmem
  have hsorted : (first.bucket key).voters.insertionSort (· ≤ ·) =
      (second.bucket key).voters.insertionSort (· ≤ ·) :=
    ((perm_insertionSort _ _).trans (hsame.trans
      (perm_insertionSort _ _).symm)).eq_of_pairwise (fun _ _ _ _ => List.le_antisymm)
      (pairwise_insertionSort _ _) (pairwise_insertionSort _ _)
  have hstake : (first.bucket key).stake = (second.bucket key).stake := by
    rw [(hsound.backs key).stake, (hsoundSecond.backs key).stake, hstakes,
      WeightTable.heldBy_congr hmem]
  have htime : (first.bucket key).createdAtUnixMilli = (second.bucket key).createdAtUnixMilli :=
    eq_of_forall_ge_iff fun bound => by rw [hfirst.time, hsecond.time]
  have hheight : (first.bucket key).blockHeight = (second.bucket key).blockHeight := by
    by_cases hnone : ∀ vote ∈ held, vote.key ≠ key
    · rw [hfirst.empty key hnone, hsecond.empty key hnone]
    · push Not at hnone
      obtain ⟨vote, hvote, rfl⟩ := hnone
      rw [hfirst.height vote hvote, hsecond.height vote hvote]
  rw [VoteBucket.certificate, VoteBucket.certificate, hheight, hstake, hsorted, htime]

/-- Votes in any order have the same effect exactly if the countable ones agree. -/
theorem vote_order_irrelevant_iff (scheme : AggregateScheme) {stakes : Table ValidatorID ℕ}
    {confirmQuorum timeoutQuorum : Quorum} {collector : VoteCollector}
    (h : newVoteCollectorWithQuorums stakes confirmQuorum timeoutQuorum = .ok collector)
    {votes : List Vote} (hsingle : SingleChoice votes) :
    (∀ others, others.Perm votes → collector.SameOutcome scheme votes others) ↔
      Agreeing stakes votes := by
  obtain ⟨hsound, rfl, -⟩ := newVoteCollectorWithQuorums_eq_ok h
  have hrun (list : List Vote) := collects scheme collector list
  constructor
  · intro hsame
    -- a countable vote is accepted where it is the first one, and so in the given order
    have hall (vote : Vote) (hmem : vote ∈ votes)
        (hcountable : Countable collector.validatorStake vote) :
        vote ∈ collector.acceptedVotes scheme votes := by
      rw [(hsame _ (perm_cons_erase hmem).symm).accepted, acceptedVotes,
        (accepts_of_new h hcountable).apply_plain]
      exact mem_cons_self
    have hheld := holds_afterVotes h scheme votes
    refine ⟨fun vote hmem other hother hcounts hcountsOther hkey => ?_,
      fun vote hmem other hother hcounts hcountsOther hkey => ?_⟩
    · rw [← hheld.height vote (hall vote hmem hcounts), hkey,
        hheld.height other (hall other hother hcountsOther)]
    · rw [hheld.single vote (hall vote hmem hcounts) other (hall other hother hcountsOther) hkey]
  · intro hagree others hperm
    have hsame (vote : Vote) : vote ∈ collector.acceptedVotes scheme votes ↔
        vote ∈ collector.acceptedVotes scheme others := by
      rw [mem_acceptedVotes h scheme hagree hsingle fun _ hmem => hmem,
        mem_acceptedVotes h scheme hagree hsingle fun _ => hperm.mem_iff.mp, hperm.mem_iff]
    have hheld := holds_afterVotes h scheme votes
    simp only [hsame] at hheld
    obtain ⟨hend, hstake⟩ := hsound.afterVotes scheme votes
    obtain ⟨hendOther, hstakeOther⟩ := hsound.afterVotes scheme others
    have hbuckets := hheld.certificate_eq (holds_afterVotes h scheme others) hend hendOther
      (hstake.trans hstakeOther.symm)
    have hstakes (key : VoteKey) : ((collector.afterVotes scheme votes).bucket key).stake =
        ((collector.afterVotes scheme others).bucket key).stake :=
      congrArg QuorumCertificate.confirmedStake (hbuckets key 0)
    have hmet (list : List Vote) (key : VoteKey) : collector.emittedByVotes scheme list key ≠ [] ↔
        collector.thresholdStakeForVoteType key.type ≤
          ((collector.afterVotes scheme list).bucket key).stake :=
      ((hrun list).emits hsound key rfl).2.2.1 (stake_lt_of_new h key)
    refine ⟨hsame, hstakes, fun key => ?_, fun key hfull => ?_⟩
    · rw [hmet, hmet, hstakes]
    · have hfullOther := hstakes key ▸ hfull
      by_cases hle : collector.thresholdStakeForVoteType key.type ≤ collector.totalStake
      · have hlast (list : List Vote) := ((hrun list).emits hsound key rfl).2.2.2 hle
          ((stake_lt_of_new h key).trans_le hle)
        have hlastOther := hlast others hfullOther
        rw [← hbuckets key] at hlastOther
        exact (hlast votes hfull).trans hlastOther.symm
      · have hnone := mt (hmet votes key).mp (hfull ▸ hle)
        have hnoneOther := mt (hmet others key).mp (hfullOther ▸ hle)
        rw [not_not.mp hnone, not_not.mp hnoneOther]

/-- Two validators vote for a block of the given heights. -/
def twoVotes (height other : ℕ) : List Vote :=
  [⟨⟨.confirm, 1, height, 7, [97]⟩, 1, 1⟩, ⟨⟨.confirm, 1, other, 7, [98]⟩, 1, 1⟩]

theorem twoVotes_singleChoice (height other : ℕ) : SingleChoice (twoVotes height other) := by
  simp [SingleChoice, twoVotes, Vote.choiceKey]

/-- Two votes for the same height. -/
theorem vote_order_irrelevant_two :
    sampleCollector.SameOutcome sampleScheme (twoVotes 1 1) (twoVotes 1 1).reverse :=
  (@vote_order_irrelevant_iff sampleScheme sampleStakes strictTwoThirds strictTwoThirds
    sampleCollector rfl _ (twoVotes_singleChoice 1 1)).mpr
    ⟨by simp [twoVotes], by simp [twoVotes]⟩ _ (reverse_perm _)

/-- Each of two votes is refused after the other one. -/
theorem heights_by_first_vote :
    SingleChoice (twoVotes 1 2) ∧
      sampleCollector.acceptedVotes sampleScheme (twoVotes 1 2) = (twoVotes 1 2).take 1 ∧
      sampleCollector.acceptedVotes sampleScheme (twoVotes 1 2).reverse = (twoVotes 1 2).drop 1 :=
  ⟨twoVotes_singleChoice 1 2, by decide +kernel, by decide +kernel⟩

end VoteCollector

end Ordexus
