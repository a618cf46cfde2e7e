import Ordexus.Consensus.CollectorSafety

/-!
# Votes that a collector rejects

A vote is recorded before the aggregate signature of its certificate is built. A call that
fails in its checks leaves the collector as it was; one that fails in the aggregation has
recorded its vote, and the certificate it would have completed is lost: the same vote is a
duplicate from then on.
-/

namespace Ordexus

open Checked List

/-- Everything that the aggregation of a certificate asks for. -/
structure Aggregable (scheme : AggregateScheme) (certificate : QuorumCertificate)
    (validatorOrder : List ValidatorID) (signatures : Table ValidatorID Bytes) : Prop where
  valid : certificate.validate = .ok ()
  named : ∀ validatorID ∈ validatorOrder, validatorID ≠ []
  nodup : validatorOrder.Nodup
  listed : ∀ voterID ∈ certificate.voters, voterID ∈ validatorOrder
  signed : ∀ voterID ∈ certificate.voters, (signatures.lookup voterID).getD [] ≠ []
  aggregates : succeeds (scheme.aggregate ((certificate.voters.insertionSort (· ≤ ·)).map
    fun voterID => (signatures.lookup voterID).getD [])) = true

section

variable {scheme : AggregateScheme} {certificate : QuorumCertificate}
  {validatorOrder voters : List ValidatorID} {signatures : Table ValidatorID Bytes}

theorem validateBitmapOrder_eq_ok {seen : List ValidatorID} {u : Unit} :
    validateBitmapOrder seen validatorOrder = .ok u ↔
      (∀ validatorID ∈ validatorOrder, validatorID ≠ []) ∧ validatorOrder.Nodup ∧
        ∀ validatorID ∈ validatorOrder, validatorID ∉ seen := by
  induction validatorOrder generalizing seen with
  | nil => simp [validateBitmapOrder]
  | cons validatorID validatorOrder ih =>
    simp only [validateBitmapOrder, eq_ok, ih, forall_mem_cons, nodup_cons]
    constructor
    · rintro ⟨hnamed, hfresh, hrest, hnodup, hapart⟩
      refine ⟨⟨hnamed, hrest⟩, ⟨fun hmem => ?_, hnodup⟩, hfresh, fun other hmem hseen => ?_⟩
      · exact hapart _ hmem mem_cons_self
      · exact hapart other hmem (mem_cons_of_mem _ hseen)
    · rintro ⟨⟨hnamed, hrest⟩, ⟨hnew, hnodup⟩, hfresh, hapart⟩
      refine ⟨hnamed, hfresh, hrest, hnodup, fun other hmem hseen => ?_⟩
      rcases mem_cons.mp hseen with rfl | hseen
      · exact hnew hmem
      · exact hapart other hmem hseen

theorem mapM_voterSignature_eq_ok {found : List Bytes} :
    voters.mapM (voterSignature validatorOrder signatures) = .ok found ↔
      (∀ voterID ∈ voters, voterID ∈ validatorOrder ∧ (signatures.lookup voterID).getD [] ≠ []) ∧
        found = voters.map fun voterID => (signatures.lookup voterID).getD [] := by
  induction voters generalizing found with
  | nil =>
    simp only [mapM_nil, pure_eq_ok, map_nil]
    constructor
    · rintro rfl
      exact ⟨by simp, rfl⟩
    · rintro ⟨-, rfl⟩
      rfl
  | cons voterID voters ih =>
    simp only [mapM_cons, eq_ok, ih, voterSignature, not_not, forall_mem_cons, map_cons]
    constructor
    · rintro ⟨_, ⟨hlisted, hsigned, rfl⟩, rest, ⟨hrest, rfl⟩, rfl⟩
      exact ⟨⟨⟨hlisted, hsigned⟩, hrest⟩, rfl⟩
    · rintro ⟨⟨⟨hlisted, hsigned⟩, hrest⟩, rfl⟩
      exact ⟨_, ⟨hlisted, hsigned, rfl⟩, _, ⟨hrest, rfl⟩, rfl⟩

@[simp] theorem voterBitmap_length (validatorOrder voters : List ValidatorID) :
    (voterBitmap validatorOrder voters).length = (validatorOrder.length + 7) / 8 := by
  have hfold : ∀ (voters : List ValidatorID) (bitmap : Bytes),
      (voters.foldl (fun bitmap voterID =>
        setBitmapBit bitmap (validatorOrder.idxOf voterID)) bitmap).length = bitmap.length := by
    intro voters
    induction voters with
    | nil => exact fun _ => rfl
    | cons voterID voters ih =>
      intro bitmap
      rw [foldl_cons, ih, setBitmapBit, length_modify]
  rw [voterBitmap, hfold, length_replicate]

/-- A certificate stays valid when a signature and a bitmap are added. -/
theorem QuorumCertificate.validate_aggregated (h : certificate.validate = .ok ())
    {signature bitmap : Bytes} (hsignature : signature ≠ []) (hbitmap : bitmap ≠ []) :
    { certificate with
      signatureScheme := .blsBasic
      aggregateSignature := signature
      voterBitmap := bitmap }.validate = .ok () := by
  simp only [validate, eq_ok] at h ⊢
  obtain ⟨htype, htarget, hstake, hvoters, hcreated, -, hlist⟩ := h
  refine ⟨htype, htarget, hstake, hvoters, hcreated, ?_, hlist⟩
  simp [validateAggregateFields, hsignature, hbitmap]

theorem attachBLSAggregate_succeeds_iff (horder : validatorOrder ≠ []) :
    succeeds (attachBLSAggregate scheme certificate validatorOrder signatures) = true ↔
      Aggregable scheme certificate validatorOrder signatures := by
  rw [succeeds_iff]
  simp only [attachBLSAggregate, eq_ok, validateBitmapOrder_eq_ok, mapM_voterSignature_eq_ok,
    mem_insertionSort]
  constructor
  · rintro ⟨_, hvalid, -, ⟨hnamed, hnodup, -⟩, found, ⟨hvoters, rfl⟩, signature, hsignature, -⟩
    exact ⟨hvalid, hnamed, hnodup, fun voter hmem => (hvoters voter hmem).1,
      fun voter hmem => (hvoters voter hmem).2, succeeds_iff.mpr ⟨signature, hsignature⟩⟩
  · rintro ⟨hvalid, hnamed, hnodup, hlisted, hsigned, haggregates⟩
    obtain ⟨signature, hsignature⟩ := succeeds_iff.mp haggregates
    refine ⟨_, hvalid, horder, ⟨hnamed, hnodup, by simp⟩, _, ⟨fun voter hmem => ⟨hlisted voter hmem,
      hsigned voter hmem⟩, rfl⟩, signature, hsignature, ?_, rfl⟩
    refine QuorumCertificate.validate_aggregated hvalid ?_ ?_
    · refine ne_nil_of_length_pos ?_
      rw [signature.2]
      decide
    · refine ne_nil_of_length_pos ?_
      have hpositive := length_pos_of_ne_nil horder
      rw [voterBitmap_length]
      omega

end

namespace VoteCollector

section

variable (scheme : AggregateScheme) (collector : VoteCollector)

/-- A vote with a signature that completes a certificate all of whose voters have signed,
where the certificate cannot be aggregated. -/
structure FailsLate (vote : Vote) (blsSignature : Bytes) (validatorOrder : List ValidatorID)
    (registeredStake : ℕ) : Prop where
  signature : blsSignature ≠ []
  order : validatorOrder ≠ []
  accepts : collector.Accepts vote registeredStake
  completes : collector.completes (collector.thresholdStakeForVoteType vote.type)
    (collector.bucket vote.key).stake
    ((collector.bucket vote.key).add vote registeredStake blsSignature).stake = true
  signed : ((collector.bucket vote.key).add vote registeredStake
      blsSignature).blsSignatures.entries.length =
    ((collector.bucket vote.key).add vote registeredStake blsSignature).voters.length
  aggregable : ¬Aggregable scheme (((collector.bucket vote.key).add vote registeredStake
      blsSignature).certificate vote.key (collector.thresholdStakeForVoteType vote.type))
    validatorOrder
    ((collector.bucket vote.key).add vote registeredStake blsSignature).blsSignatures

/-- A call that records its vote and fails afterwards. -/
def AggregationFails :
    CollectorCall → Prop
  | .plain _ => False
  | .withBLS vote blsSignature validatorOrder => ∃ registeredStake,
    collector.FailsLate scheme vote blsSignature validatorOrder registeredStake

/-- After a call that returns an error, every sequence of calls returns what it would have
returned without it. -/
def LeavesNoTrace (call : CollectorCall) : Prop :=
  ∀ message, (collector.apply scheme call).2 = .error message →
    ∀ calls, (collector.apply scheme call).1.results scheme calls =
      collector.results scheme calls

end

section

variable {scheme : AggregateScheme} {collector : VoteCollector} {vote : Vote}
  {blsSignature : Bytes} {validatorOrder : List ValidatorID} {registeredStake : ℕ}
  {call : CollectorCall}

/-- An error after the checks comes from the aggregation. -/
theorem certificateFor_eq_error {message : String}
    (h : collector.certificateFor scheme vote registeredStake blsSignature validatorOrder =
      .error message) (haccepts : collector.Accepts vote registeredStake)
    (hsignature : blsSignature ≠ []) :
    collector.FailsLate scheme vote blsSignature validatorOrder registeredStake := by
  unfold certificateFor at h
  dsimp only at h
  split at h
  · cases h
  next hcompletes =>
  split at h
  · cases h
  next hall =>
  obtain ⟨horder, hsigned⟩ := not_or.mp hall
  refine ⟨hsignature, horder, haccepts, Bool.not_eq_false _ ▸ hcompletes, not_not.mp hsigned, ?_⟩
  rw [← attachBLSAggregate_succeeds_iff horder, succeeds_iff]
  rintro ⟨aggregated, hattach⟩
  rw [hattach] at h
  cases h

/-- A late failure records the vote. -/
theorem FailsLate.apply_eq
    (h : collector.FailsLate scheme vote blsSignature validatorOrder registeredStake) :
    ∃ message, collector.apply scheme (.withBLS vote blsSignature validatorOrder) =
      (collector.record vote registeredStake blsSignature, .error message) := by
  have hattach := mt (attachBLSAggregate_succeeds_iff h.order).mp h.aggregable
  cases hresult : attachBLSAggregate scheme (((collector.bucket vote.key).add vote registeredStake
      blsSignature).certificate vote.key (collector.thresholdStakeForVoteType vote.type))
      validatorOrder ((collector.bucket vote.key).add vote registeredStake
        blsSignature).blsSignatures with
  | ok aggregated =>
    rw [hresult] at hattach
    exact absurd rfl hattach
  | error message =>
    refine ⟨message, ?_⟩
    rw [apply, if_neg h.signature, addVote, checkVote_eq_ok.mpr h.accepts]
    simp only [certificateFor, h.completes, h.order, h.signed, hresult, Bool.true_eq_false,
      if_false, ne_eq, not_true_eq_false, or_self]
    rfl

/-- The certificate that is lost: without the call, the same vote completes it. -/
theorem FailsLate.plain_emits
    (h : collector.FailsLate scheme vote blsSignature validatorOrder registeredStake) :
    ∃ certificate, (collector.apply scheme (.plain vote)).2 = .ok (some certificate) := by
  have hcompletes : collector.completes (collector.thresholdStakeForVoteType vote.type)
      (collector.bucket vote.key).stake
      ((collector.bucket vote.key).add vote registeredStake []).stake = true := h.completes
  refine ⟨((collector.bucket vote.key).add vote registeredStake []).certificate vote.key
    (collector.thresholdStakeForVoteType vote.type), ?_⟩
  rw [apply, addVote, checkVote_eq_ok.mpr h.accepts]
  simp only [certificateFor, hcompletes, Bool.true_eq_false, if_false, true_or, if_true]
  rfl

/-- A vote that is recorded is refused the next time. -/
theorem plain_error_of_record (scheme : AggregateScheme) (collector : VoteCollector)
    (vote : Vote) (registeredStake : ℕ) (blsSignature : Bytes) :
    ∃ message, ((collector.record vote registeredStake blsSignature).apply scheme
      (.plain vote)).2 = .error message := by
  have hchosen : (collector.record vote registeredStake blsSignature).voterChoices.lookup
      vote.choiceKey = some vote.choice := by
    exact AList.lookup_insert _
  cases hcheck : (collector.record vote registeredStake blsSignature).checkVote vote with
  | error message => exact ⟨message, by rw [apply, addVote, hcheck]⟩
  | ok stake =>
    have hfresh := (checkVote_eq_ok.mp hcheck).fresh
    rw [hchosen] at hfresh
    cases hfresh

theorem FailsLate.leaves_trace
    (h : collector.FailsLate scheme vote blsSignature validatorOrder registeredStake) :
    ¬collector.LeavesNoTrace scheme (.withBLS vote blsSignature validatorOrder) := by
  intro hnone
  obtain ⟨message, hcall⟩ := h.apply_eq
  have hsame := hnone message (by rw [hcall]) [.plain vote]
  obtain ⟨certificate, hemits⟩ := h.plain_emits
  obtain ⟨refusal, hrefused⟩ := plain_error_of_record scheme collector vote registeredStake
    blsSignature
  rw [hcall] at hsame
  simp only [results, hemits, hrefused, cons.injEq, reduceCtorEq, false_and] at hsame

end

/-- A rejected vote leaves no trace exactly if it is not rejected by the aggregation of the
certificate it completes. -/
theorem leavesNoTrace_iff (scheme : AggregateScheme) (collector : VoteCollector)
    (call : CollectorCall) :
    collector.LeavesNoTrace scheme call ↔ ¬collector.AggregationFails scheme call := by
  constructor
  · intro hnone hfails
    cases call with
    | plain vote => exact hfails
    | withBLS vote blsSignature validatorOrder =>
      obtain ⟨registeredStake, hlate⟩ := hfails
      exact hlate.leaves_trace hnone
  · intro hfails message herror calls
    cases call with
    | plain vote =>
      -- without an order of the validators nothing is aggregated
      rw [apply, addVote] at herror ⊢
      cases hcheck : collector.checkVote vote with
      | error refusal => rfl
      | ok registeredStake =>
        simp only [hcheck, certificateFor, true_or, if_true] at herror
        split at herror <;> cases herror
    | withBLS vote blsSignature validatorOrder =>
      rw [apply] at herror ⊢
      split
      · rfl
      next hsignature =>
      split
      · rfl
      next horder =>
      rw [if_neg hsignature, if_neg horder] at herror
      rw [addVote] at herror ⊢
      cases hcheck : collector.checkVote vote with
      | error refusal => rfl
      | ok registeredStake =>
        rw [hcheck] at herror
        exact absurd ⟨registeredStake,
          certificateFor_eq_error herror (checkVote_eq_ok.mp hcheck) hsignature⟩ hfails

/-- The third vote completes the certificate, but its list of validators lacks one of them.
The vote fails, and when it is sent again it is a duplicate: no certificate is emitted. -/
theorem lost_certificate :
    ∃ collector, newVoteCollectorWithQuorums sampleStakes strictTwoThirds strictTwoThirds =
        .ok collector ∧
      ¬(collector.after sampleScheme
          [.withBLS ⟨⟨.confirm, 1, 1, 1, [97]⟩, 1, 1⟩ [1] [[97], [98], [99]],
            .withBLS ⟨⟨.confirm, 1, 1, 1, [98]⟩, 1, 1⟩ [1] [[97], [98], [99]]]).LeavesNoTrace
        sampleScheme (.withBLS ⟨⟨.confirm, 1, 1, 1, [99]⟩, 1, 1⟩ [1] [[98], [99]]) := by
  refine ⟨_, rfl, fun hnone => ?_⟩
  have hsame := hnone "consensus: invalid certificate: voter not in validator order" (by decide)
    [.plain ⟨⟨.confirm, 1, 1, 1, [99]⟩, 1, 1⟩]
  cases hsame

end VoteCollector

end Ordexus
