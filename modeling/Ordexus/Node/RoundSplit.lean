import Ordexus.Node.Agreement

/-!
# Rounds that can no longer be decided

Decision votes are irrevocable, so a round is lost once neither outcome can
still collect its threshold. This happens among honest validators: a prepare
certificate that reaches some of them before their clocks run out and the others
after it splits the round for good. The log of this module records which prepare
certificates have been accepted and in which rounds a clock has run out. Rounds stay
open as long as no slot has both.
-/

namespace Ordexus

open Checked Transition List Network

/-- Has a validator signed a message of this slot with the given content? -/
def hasSigned (signed : List VoteMessage) (slot : ℕ) (content : VoteMessage → Bool)
    (validator : ValidatorState) : Bool :=
  signed.any fun message =>
    message.slot = slot && message.voterID = validator.validatorID && content message

section

variable (snapshot : EpochSnapshot) (signed : List VoteMessage) (slot : ℕ)

def confirmedStake (hash : Hash) : ℕ :=
  Weight.of ValidatorState.stakeLamports snapshot.validators
    (hasSigned signed slot fun message => message.type = .confirm && message.blockHash = hash)

def skippedStake : ℕ :=
  Weight.of ValidatorState.stakeLamports snapshot.validators
    (hasSigned signed slot fun message => message.type = .skip)

/-- The stake that has not yet cast a decision vote in a slot. -/
def undecidedStake : ℕ :=
  Weight.of ValidatorState.stakeLamports snapshot.validators
    fun validator => !hasSigned signed slot (fun message => message.type.isDecision) validator

/-- Some block can still be confirmed in the slot, or the slot can still be
skipped. Both thresholds of the vote collector are the strict two thirds. -/
def RoundOpen : Prop :=
  ∀ threshold, strictTwoThirds.requiredStake snapshot.totalStake = .ok threshold →
    (∃ hash, threshold ≤ confirmedStake snapshot signed slot hash +
      undecidedStake snapshot signed slot) ∨
    threshold ≤ skippedStake snapshot signed slot + undecidedStake snapshot signed slot

end

def allHonest : ValidatorID → Bool := fun _ => false

theorem faultBound_allHonest (protocol : Protocol) : protocol.FaultBound allHonest := by
  intro slot snapshot _
  have hnone : Weight.of ValidatorState.stakeLamports snapshot.validators
      (fun validator => allHonest validator.validatorID) = 0 := by
    simp [Weight.of, allHonest]
  omega

section

variable {protocol : Protocol} {network next : Network} {event : Event}
  {snapshot : EpochSnapshot} {signed : List VoteMessage} {slot : ℕ}

/-- Among honest validators, all confirmations of a slot name one block: two
prepared blocks would share a validator that prepared both. -/
theorem confirmed_unique (h : network.Sound protocol allHonest) {first second : VoteMessage}
    (hfirst : first ∈ network.signed) (hsecond : second ∈ network.signed)
    (hfirstType : first.type = .confirm) (hsecondType : second.type = .confirm)
    (hslot : first.slot = second.slot) : first.blockHash = second.blockHash := by
  have hjustified := h.justified first hfirst rfl
  have hjustified' := h.justified second hsecond rfl
  simp only [Justified, hfirstType, hsecondType] at hjustified hjustified'
  obtain ⟨-, -, -, -, -, hprepared⟩ := hjustified
  obtain ⟨-, -, -, -, -, hprepared'⟩ := hjustified'
  rw [← hslot] at hprepared'
  obtain ⟨m, hm, m', hm', hvoter, hhonest, hmSlot, hmSlot', htype, htype', hhash, hhash'⟩ :=
    hprepared.exists_common hprepared' (faultBound_allHonest protocol)
  have hsame := h.one_decision hm hm' hvoter hhonest (hmSlot.trans hmSlot'.symm)
    (by simp [VoteMessage.phase, htype, htype'])
  rw [← hhash, ← hhash', hsame]

theorem hasSigned_iff {content : VoteMessage → Bool} {validator : ValidatorState} :
    hasSigned signed slot content validator = true ↔ ∃ message ∈ signed, message.slot = slot ∧
      message.voterID = validator.validatorID ∧ content message = true := by
  simp [hasSigned, and_assoc]

/-- Confirmations, skip votes and open votes make up the whole stake. -/
theorem exists_confirmed_add (snapshot : EpochSnapshot) (slot : ℕ)
    (h : network.Sound protocol allHonest) :
    ∃ hash, confirmedStake snapshot network.signed slot hash +
      skippedStake snapshot network.signed slot + undecidedStake snapshot network.signed slot =
        snapshot.totalStake := by
  -- the one block that was confirmed in the slot, if any
  obtain ⟨hash, hhash⟩ : ∃ hash, ∀ message ∈ network.signed, message.slot = slot →
      message.type = .confirm → message.blockHash = hash := by
    by_cases hsome : ∃ message ∈ network.signed, message.slot = slot ∧ message.type = .confirm
    · obtain ⟨first, hfirst, hslot, htype⟩ := hsome
      exact ⟨first.blockHash, fun message hmem hmessageSlot hmessageType =>
        confirmed_unique h hmem hfirst hmessageType htype (hmessageSlot.trans hslot.symm)⟩
    · exact ⟨0, fun message hmem hmessageSlot hmessageType =>
        absurd ⟨message, hmem, hmessageSlot, hmessageType⟩ hsome⟩
  refine ⟨hash, Weight.of_add_of_add_of ?_ ?_ ?_ ?_⟩
  · intro validator _
    by_cases hdecided : hasSigned network.signed slot
        (fun message => message.type.isDecision) validator = true
    · obtain ⟨message, hmem, hslot, hvoter, hdecision⟩ := hasSigned_iff.mp hdecided
      cases htype : message.type <;> simp only [htype, VoteType.isDecision,
        Bool.false_eq_true] at hdecision
      · have hblock := hhash message hmem hslot htype
        exact .inl (hasSigned_iff.mpr ⟨message, hmem, hslot, hvoter, by simp [htype, hblock]⟩)
      · exact .inr (.inl (hasSigned_iff.mpr ⟨message, hmem, hslot, hvoter, by simp [htype]⟩))
    · exact .inr (.inr (by simpa using hdecided))
  · intro validator _ hconfirmed
    rw [← Bool.not_eq_true]
    intro hskipped
    obtain ⟨first, hfirst, hslot, hvoter, hcontent⟩ := hasSigned_iff.mp hconfirmed
    obtain ⟨second, hsecond, hslot', hvoter', hcontent'⟩ := hasSigned_iff.mp hskipped
    simp only [Bool.and_eq_true, decide_eq_true_eq] at hcontent hcontent'
    have hsame := h.one_decision hfirst hsecond (hvoter.trans hvoter'.symm) rfl
      (hslot.trans hslot'.symm)
      (by simp [VoteMessage.phase, hcontent.1, hcontent', votePhaseForChoice])
    rw [hsame, hcontent'] at hcontent
    exact absurd hcontent.1 (by decide)
  · intro validator _ hconfirmed
    obtain ⟨message, hmem, hslot, hvoter, hcontent⟩ := hasSigned_iff.mp hconfirmed
    simp only [Bool.and_eq_true, decide_eq_true_eq] at hcontent
    simpa using hasSigned_iff.mpr ⟨message, hmem, hslot, hvoter, by simp [hcontent.1,
      VoteType.isDecision]⟩
  · intro validator _ hskipped
    obtain ⟨message, hmem, hslot, hvoter, hcontent⟩ := hasSigned_iff.mp hskipped
    simp only [decide_eq_true_eq] at hcontent
    simpa using hasSigned_iff.mpr ⟨message, hmem, hslot, hvoter, by simp [hcontent,
      VoteType.isDecision]⟩

theorem weight_eq_zero {content : VoteMessage → Bool}
    (h : ∀ message ∈ signed, message.slot = slot → content message = false) :
    Weight.of ValidatorState.stakeLamports snapshot.validators (hasSigned signed slot content) =
      0 := by
  have hnone : ∀ validator ∈ snapshot.validators, ¬hasSigned signed slot content validator := by
    intro validator _ hsigned
    obtain ⟨message, hmem, hslot, -, hcontent⟩ := hasSigned_iff.mp hsigned
    exact absurd (h message hmem hslot) (by simp [hcontent])
  simp only [Weight.of, filter_eq_nil_iff.mpr hnone, map_nil, sum_nil]

end

/-! ### What the nodes have received -/

/-- The slot of a prepare certificate that the event makes a node accept. -/
def Event.preparedSlot (protocol : Protocol) (network : Network) : Event → Option ℕ
  | .qc _ _ certificate _ =>
    if certificate.type = .prepare ∧
        succeeds (verifyQuorumCertificate protocol network.signed certificate) then
      some certificate.slot
    else none
  | _ => none

/-- Does a clock that has run out make the node ask for a skip vote? -/
def Node.asksToSkip (node : Node) (slot : ℕ) (observedHead : Head) : Bool :=
  !node.replaysConfirmed slot observedHead && observedHead.height ≠ maxUint64 &&
    node.roundUnchanged slot observedHead && node.ownVotes.watermarks.signed < slot

/-- The slot in which the clock of a node has run out, so that it asks for a skip vote. -/
def Event.timedOutSlot (network : Network) : Event → Option ℕ
  | .timeout id _ slot observedHead =>
    if (network.nodes id).asksToSkip slot observedHead then some slot else none
  | _ => none

structure RoundLog where
  network : Network
  /-- The slots of which some node has accepted a prepare certificate. -/
  prepared : List ℕ
  /-- The slots in which the clock of some node has run out. -/
  timedOut : List ℕ

namespace RoundLog

def initial (protocol : Protocol) : RoundLog where
  network := Network.initial protocol
  prepared := []
  timedOut := []

def step (protocol : Protocol) (log : RoundLog) (event : Event) : Option RoundLog :=
  (log.network.step protocol allHonest event).map fun next =>
    { network := next
      prepared := (event.preparedSlot protocol log.network).toList ++ log.prepared
      timedOut := (event.timedOutSlot log.network).toList ++ log.timedOut }

/-- No node accepts a prepare certificate of a slot after a clock has run out in it, and
no clock runs out in a slot after a node has accepted a prepare certificate of it. -/
def InTime (protocol : Protocol) (log : RoundLog) (event : Event) : Prop :=
  (∀ slot ∈ event.preparedSlot protocol log.network, slot ∉ log.timedOut) ∧
    ∀ slot ∈ event.timedOutSlot log.network, slot ∉ log.prepared

instance (protocol : Protocol) (log : RoundLog) (event : Event) :
    Decidable (log.InTime protocol event) :=
  inferInstanceAs (Decidable (_ ∧ _))

end RoundLog

/-- A choice of a slot has the event behind it that the log records. -/
def Traced (prepared timedOut : List ℕ) (type : VoteType) (slot : ℕ) : Prop :=
  (type = .confirm → slot ∈ prepared) ∧ (type = .skip → slot ∈ timedOut)

/-- The certificates and the requested votes of a node are traced. -/
structure Node.Traced (prepared timedOut : List ℕ) (node : Node) : Prop where
  qcs : ∀ qc ∈ node.prepareQCs, qc.slot ∈ prepared
  pending : ∀ vote ∈ node.pendingVotes, Ordexus.Traced prepared timedOut vote.type vote.slot

namespace Node.Traced

variable {protocol : Protocol} {signed : List VoteMessage} {now : ℤ} {node : Node}
  {prepared timedOut : List ℕ} {certificate : QuorumCertificate} {proposal : Proposal}
  (h : node.Traced prepared timedOut)
include h

theorem requestVote {type : VoteType} {slot height : ℕ} {hash : Hash}
    (htraced : Ordexus.Traced prepared timedOut type slot) :
    (node.requestVote protocol now type slot height hash).Traced prepared timedOut := by
  unfold Node.requestVote
  split
  · exact h
  · exact ⟨h.qcs, forall_mem_cons.mpr ⟨htraced, h.pending⟩⟩

theorem voteForPreparedBlock (hslot : certificate.slot ∈ prepared) :
    (node.voteForPreparedBlock protocol now certificate).Traced prepared timedOut := by
  unfold Node.voteForPreparedBlock
  split
  · exact h
  · split_ifs with hbinding
    · exact h
    · exact h
    · exact h
    · push Not at hbinding
      exact h.requestVote ⟨fun _ => hbinding.1 ▸ hslot, nofun⟩

theorem acceptPrepareQC (hslot : certificate.type = .prepare →
      succeeds (verifyQuorumCertificate protocol signed certificate) →
      certificate.slot ∈ prepared) :
    (node.acceptPrepareQC protocol signed now certificate).Traced prepared timedOut := by
  unfold Node.acceptPrepareQC
  split_ifs with htype hverified
  · exact h
  · exact h
  · have hslot := hslot (not_not.mp htype) (by simpa using hverified)
    refine voteForPreparedBlock ?_ hslot
    unfold Node.rememberPrepareQC
    split
    · exact ⟨forall_mem_cons.mpr ⟨hslot, h.qcs⟩, h.pending⟩
    · split
      · exact ⟨forall_mem_cons.mpr ⟨hslot, fun qc hqc => h.qcs qc (mem_of_mem_filter hqc)⟩,
          h.pending⟩
      · exact h

theorem confirmBlockIfPrepared (blockHash : Hash) :
    (node.confirmBlockIfPrepared protocol now blockHash).Traced prepared timedOut := by
  unfold Node.confirmBlockIfPrepared
  split
  · exact h
  · next hfind => exact h.voteForPreparedBlock (h.qcs _ (mem_of_find?_eq_some hfind))

/-- Dropping certificates and changing anything but the requested votes. -/
theorem frame {next : Node} (hqcs : next.prepareQCs ⊆ node.prepareQCs)
    (hpending : next.pendingVotes = node.pendingVotes) : next.Traced prepared timedOut :=
  ⟨fun qc hqc => h.qcs qc (hqcs hqc), hpending ▸ h.pending⟩

theorem acceptTimeoutQC (certificate : QuorumCertificate) :
    (node.acceptTimeoutQC protocol signed certificate).Traced prepared timedOut := by
  unfold Node.acceptTimeoutQC
  split_ifs
  all_goals first | exact h | exact h.frame (filter_subset_self _) rfl

theorem promoteCertifiedBlock (qc : QuorumCertificate) (accepted : Bool) :
    (node.promoteCertifiedBlock protocol signed qc accepted).Traced prepared timedOut := by
  unfold Node.promoteCertifiedBlock
  split
  · exact h
  split
  · exact h
  split
  · exact h
  split_ifs
  all_goals first | exact h | exact h.frame (filter_subset_self _) rfl

theorem promoteBlockIfCertified (blockHash : Hash) (accepted : Bool) :
    (node.promoteBlockIfCertified protocol signed blockHash accepted).Traced prepared timedOut := by
  unfold Node.promoteBlockIfCertified
  split
  · exact h
  · exact h.promoteCertifiedBlock _ accepted

theorem prepareBlock : (node.prepareBlock protocol now proposal).Traced prepared timedOut := by
  unfold Node.prepareBlock
  split
  · exact h
  · exact h.requestVote ⟨nofun, nofun⟩

theorem acceptCarriedQC :
    (node.acceptCarriedQC protocol signed proposal).Traced prepared timedOut := by
  unfold Node.acceptCarriedQC
  split
  · exact h
  · exact h.acceptTimeoutQC _

theorem voteForProposal (accepted : Bool) :
    (node.voteForProposal protocol signed now proposal accepted).Traced prepared timedOut := by
  have hstored : (node.storeBlock proposal).Traced prepared timedOut := ⟨h.qcs, h.pending⟩
  unfold Node.voteForProposal
  dsimp only
  split_ifs
  · exact h
  · exact h
  · exact h
  · split
    · exact h
    · split_ifs
      · exact h
      · exact ((hstored.confirmBlockIfPrepared _).acceptCarriedQC.promoteBlockIfCertified _
          accepted).prepareBlock

theorem produce (accepted : Bool) :
    (node.produce protocol signed now proposal accepted).Traced prepared timedOut := by
  have hstored : (Node.storeBlock { node with lastProducedSlot := proposal.header.slot }
      proposal).Traced prepared timedOut := ⟨h.qcs, h.pending⟩
  exact ((hstored.confirmBlockIfPrepared _).promoteBlockIfCertified _ accepted).prepareBlock

/-- The committed head is voted for once more. Its block was confirmed before. -/
theorem voteForCommittedHead
    (hhead : ∀ proposal, node.blockByHash protocol node.head.blockHash = some proposal →
      proposal.header.slot ∈ prepared) :
    (node.voteForCommittedHead protocol now).Traced prepared timedOut := by
  unfold Node.voteForCommittedHead
  split_ifs
  · exact h
  · split
    · exact h
    · next proposal hfind =>
      split_ifs
      · exact h
      · exact h
      · exact h.requestVote ⟨fun _ => hhead proposal hfind, nofun⟩

theorem actOnTimeout {slot : ℕ} {observedHead : Head}
    (htimeout : node.asksToSkip slot observedHead → slot ∈ timedOut) :
    (node.actOnTimeout protocol now slot observedHead).Traced prepared timedOut := by
  unfold Node.actOnTimeout Node.voteForTimeout
  split_ifs with hconfirmed hheight hround
  · exact h
  · exact h
  · exact h
  · push Not at hround
    have hslot := htimeout (by simp_all [Node.asksToSkip])
    exact h.requestVote ⟨nofun, fun _ => hslot⟩

end Node.Traced

section

variable {protocol : Protocol} {log next : RoundLog} {event : Event}
  {snapshot : EpochSnapshot} {slot : ℕ}

/-- All nodes and all signed votes are traced, and no slot has both kinds of events. -/
structure RoundLog.Consistent (protocol : Protocol) (log : RoundLog) : Prop where
  sound : log.network.Sound protocol allHonest
  nodes : ∀ id, (log.network.nodes id).Traced log.prepared log.timedOut
  signed : ∀ message ∈ log.network.signed,
    Traced log.prepared log.timedOut message.type message.slot
  disjoint : ∀ slot ∈ log.prepared, slot ∉ log.timedOut

theorem Traced.mono {prepared timedOut : List ℕ} {type : VoteType}
    (h : Traced log.prepared log.timedOut type slot) (hprepared : log.prepared ⊆ prepared)
    (htimedOut : log.timedOut ⊆ timedOut) : Traced prepared timedOut type slot :=
  ⟨fun htype => hprepared (h.1 htype), fun htype => htimedOut (h.2 htype)⟩

/-- The head of a node was confirmed in its slot, so a prepare certificate of the slot had
been accepted. -/
theorem RoundLog.Consistent.head_prepared (h : log.Consistent protocol)
    (hfree : protocol.CollisionFree) {id : ValidatorID} {proposal : Proposal}
    (hfind : (log.network.nodes id).blockByHash protocol (log.network.nodes id).head.blockHash =
      some proposal) : proposal.header.slot ∈ log.prepared := by
  have hsound := h.sound.nodes id rfl
  obtain ⟨hoccurs, hhash⟩ := Node.blockByHash_spec hsound hfind
  rcases hsound.headConfirmed with hgenesis | ⟨slot, hquorum⟩
  · exact absurd (hhash.trans hgenesis) (hfree.genesis _ hoccurs)
  · have hfault := faultBound_allHonest protocol
    rw [← hhash] at hquorum
    rw [(h.sound.confirmed_block hfault hfree hoccurs hquorum).1]
    obtain ⟨message, hmem, -, htype, rfl, -⟩ := hquorum.exists_honest hfault
    exact (h.signed message hmem).1 htype

/-- What a node does in an event is traced in the log after it. -/
theorem RoundLog.Consistent.react (h : log.Consistent protocol) (hfree : protocol.CollisionFree)
    {id : ValidatorID} {node : Node} {prepared timedOut : List ℕ}
    (hprepared : log.prepared ⊆ prepared) (htimedOut : log.timedOut ⊆ timedOut)
    (hqc : ∀ slot ∈ event.preparedSlot protocol log.network, slot ∈ prepared)
    (htimeout : ∀ slot ∈ event.timedOutSlot log.network, slot ∈ timedOut)
    (hid : event.node = some id)
    (hreact : Node.react protocol log.network.signed (log.network.nodes id) event = some node) :
    node.Traced prepared timedOut := by
  have hnode : (log.network.nodes id).Traced prepared timedOut :=
    ⟨fun qc hmem => hprepared ((h.nodes id).qcs qc hmem),
      fun vote hmem => ((h.nodes id).pending vote hmem).mono hprepared htimedOut⟩
  cases event <;> simp only [Node.react, Option.ite_none_right_eq_some, Option.some.injEq,
    Option.map_eq_some_iff, reduceCtorEq] at hreact
  case qc now certificate accepted =>
    subst hreact
    unfold Node.handleQC
    split
    · exact hnode.acceptPrepareQC fun htype hverified =>
        hqc _ (by simp [Event.preparedSlot, htype, hverified])
    · apply Node.Traced.promoteCertifiedBlock
      exact hnode.frame (Subset.refl _) rfl
    · exact hnode.acceptTimeoutQC _
    · exact hnode
  case proposal => exact hreact.2 ▸ hnode.voteForProposal _
  case produce => exact hreact.2 ▸ hnode.produce _
  case externalBlock => exact hreact.2 ▸ hnode.frame (Subset.refl _) rfl
  case tick =>
    subst hreact
    unfold Node.onRoundTick
    dsimp only
    split_ifs
    all_goals exact hnode.frame (Subset.refl _) rfl
  case timeout signer now slot observedHead =>
    obtain ⟨-, rfl⟩ := hreact
    obtain rfl : signer = id := Option.some.inj hid
    refine Node.Traced.actOnTimeout ?_ fun hchanged => htimeout slot ?_
    · exact hnode.frame (Subset.refl _) rfl
    · exact Option.mem_def.mpr (if_pos hchanged)
  case committedHead =>
    subst hreact
    exact hnode.voteForCommittedHead fun proposal hfind => hprepared (h.head_prepared hfree hfind)
  case importSnapshot =>
    obtain ⟨-, rfl⟩ := hreact
    unfold Node.importFinalizedSnapshot
    split_ifs
    all_goals exact hnode.frame (Subset.refl _) rfl
  case sign =>
    obtain ⟨-, own, -, rfl⟩ := hreact
    exact ⟨hnode.qcs, fun vote hmem => hnode.pending vote (mem_of_mem_erase hmem)⟩
  case prune => exact hreact ▸ hnode.frame (Subset.refl _) rfl
  case restart =>
    obtain ⟨-, rfl⟩ := hreact
    exact ⟨by simp [Node.restart], by simp [Node.restart]⟩

theorem RoundLog.Consistent.step (h : log.Consistent protocol) (hfree : protocol.CollisionFree)
    (hok : log.InTime protocol event) (hstep : log.step protocol event = some next) :
    next.Consistent protocol := by
  obtain ⟨network, hnetwork, rfl⟩ := Option.map_eq_some_iff.mp hstep
  have hsound := h.sound.step hfree (faultBound_allHonest protocol) hnetwork
  have hprepared := subset_append_right (event.preparedSlot protocol log.network).toList
    log.prepared
  have htimedOut := subset_append_right (event.timedOutSlot log.network).toList
    log.timedOut
  unfold Network.step at hnetwork
  cases hid : event.node with
  | none =>
    cases hsignature : event.signature <;> simp [hid, hsignature, allHonest] at hnetwork
  | some id =>
    simp only [hid, allHonest, Bool.false_eq_true, if_false, Option.map_eq_some_iff] at hnetwork
    obtain ⟨node, hreact, rfl⟩ := hnetwork
    have hnode := h.react hfree hprepared htimedOut (fun slot hmem => by simp_all)
      (fun slot hmem => by simp_all) hid hreact
    refine ⟨hsound, fun other => ?_, fun message hmem => ?_, fun slot hmem hout => ?_⟩
    · by_cases hsame : other = id
      · subst hsame
        simpa using hnode
      · have hother := h.nodes other
        simp only [Function.update_of_ne hsame]
        exact ⟨fun qc hqc => hprepared (hother.qcs qc hqc),
          fun vote hvote => (hother.pending vote hvote).mono hprepared htimedOut⟩
    · rcases mem_append.mp hmem with hnew | hold
      · -- a signature is one of the votes the node had asked for
        cases event <;> simp only [Event.signature, Option.toList_none, not_mem_nil,
          Option.toList_some, mem_singleton] at hnew
        case sign signer vote =>
          simp only [Node.react, Option.ite_none_right_eq_some] at hreact
          exact hnew ▸ ((h.nodes id).pending vote hreact.1).mono hprepared htimedOut
        case byzantine => simp [Event.node] at hid
      · exact (h.signed message hold).mono hprepared htimedOut
    · rcases mem_append.mp hmem with hqc | hold <;> rcases mem_append.mp hout with htimeout | hold'
      · cases event <;> simp_all [Event.preparedSlot, Event.timedOutSlot]
      · exact hok.1 slot (Option.mem_toList.mp hqc) hold'
      · exact hok.2 slot (Option.mem_toList.mp htimeout) hold
      · exact h.disjoint slot hold hold'

/-- Honest validators keep every round open as long as no slot has both an accepted
prepare certificate and a clock that ran out. -/
theorem round_stays_open (hfree : protocol.CollisionFree)
    (hreach : Reaches (RoundLog.step protocol) (RoundLog.InTime protocol)
      (RoundLog.initial protocol) log) (snapshot : EpochSnapshot) (slot : ℕ) :
    RoundOpen snapshot log.network.signed slot := by
  have h : log.Consistent protocol := by
    refine hreach.invariant ⟨Network.initial_sound, ?_, ?_, ?_⟩
      fun _ _ _ hinv hok hstep => hinv.step hfree hok hstep
    · exact fun id => ⟨nofun, nofun⟩
    · exact nofun
    · exact nofun
  intro threshold hthreshold
  obtain ⟨hpos, rfl⟩ := requiredStake_strictTwoThirds hthreshold
  obtain ⟨hash, hsum⟩ := exists_confirmed_add snapshot slot h.sound
  by_cases hslot : slot ∈ log.prepared
  · -- no clock has run out, so nobody skips
    have hnone : skippedStake snapshot log.network.signed slot = 0 := by
      refine weight_eq_zero fun message hmem hmessage => decide_eq_false fun htype => ?_
      exact h.disjoint slot hslot (hmessage ▸ (h.signed message hmem).2 htype)
    exact .inl ⟨hash, by omega⟩
  · have hnone : confirmedStake snapshot log.network.signed slot hash = 0 := by
      refine weight_eq_zero fun message hmem hmessage => ?_
      rw [Bool.and_eq_false_imp]
      intro htype
      exact absurd (hmessage ▸ (h.signed message hmem).1 (of_decide_eq_true htype)) hslot
    exact .inr (by omega)

end

/-- The proposal reaches three of the four validators, and their prepare
certificate reaches the first two. -/
def sampleConfirmations : List Event :=
  [.produce [1] 1 sampleBlock true, .proposal [2] 1 sampleBlock true,
    .proposal [3] 1 sampleBlock true] ++
  [1, 2, 3].map (fun voter => .sign [voter] (sampleVote .prepare voter)) ++
  [1, 2].map (fun voter => .qc [voter] 1 (sampleQC .prepare [1, 2, 3] 7) true) ++
  [1, 2].map (fun voter => .sign [voter] (sampleVote .confirm voter))

/-- The clocks of the other two run out before the certificate arrives. -/
def sampleTimeouts : List Event :=
  [3, 4].map (fun voter => .tick [voter] 0 true) ++
  [3, 4].map (fun voter => .tick [voter] 1 true) ++
  [3, 4].map (fun voter => .timeout [voter] 1 1 (Node.initial sampleProtocol [voter]).head) ++
  [3, 4].map (fun voter => .sign [voter] (sampleVote .skip voter))

/-- The round of the sample block is open after two confirmations. -/
theorem round_stays_open_sample :
    ∃ log, Reaches (RoundLog.step sampleProtocol) (RoundLog.InTime sampleProtocol)
        (RoundLog.initial sampleProtocol) log ∧ log.prepared = [1, 1] ∧
      confirmedStake sampleSnapshot log.network.signed 1 2 = 2 ∧
      RoundOpen sampleSnapshot log.network.signed 1 := by
  have hrun : ∃ log ∈ run (fun log event =>
      if decide (RoundLog.InTime sampleProtocol log event) then
        RoundLog.step sampleProtocol log event
      else none) (RoundLog.initial sampleProtocol) sampleConfirmations,
      log.prepared = [1, 1] ∧ confirmedStake sampleSnapshot log.network.signed 1 2 = 2 :=
    ⟨_, rfl, rfl, rfl⟩
  obtain ⟨log, hlog, hprepared, hstake⟩ := hrun
  have hreach := Reaches.of_checked_run
    (fun log event => decide (RoundLog.InTime sampleProtocol log event))
    (fun log event => @of_decide_eq_true (log.InTime sampleProtocol event) _) hlog
  exact ⟨log, hreach, hprepared, hstake,
    round_stays_open sampleProtocol_collisionFree hreach _ _⟩

/-- Two confirmations and two skip votes by four honest validators: neither
outcome can reach three votes any more. -/
theorem honest_round_split :
    ∃ network, Reaches (step sampleProtocol allHonest) anyStep
        (initial sampleProtocol) network ∧
      sampleProtocol.snapshotForSlot 1 = some sampleSnapshot ∧
      ¬RoundOpen sampleSnapshot network.signed 1 := by
  have hrun : ∃ network ∈ run (step sampleProtocol allHonest)
      (initial sampleProtocol) (sampleConfirmations ++ sampleTimeouts),
      Weight.of ValidatorState.stakeLamports sampleSnapshot.validators
        (hasSigned network.signed 1 fun message => message.type = .confirm) = 2 ∧
      skippedStake sampleSnapshot network.signed 1 = 2 ∧
      undecidedStake sampleSnapshot network.signed 1 = 0 := ⟨_, rfl, rfl, rfl, rfl⟩
  obtain ⟨network, hnetwork, hconfirmed, hskipped, hundecided⟩ := hrun
  refine ⟨network, .of_run_any hnetwork, rfl, fun hopen => ?_⟩
  rcases hopen 3 rfl with ⟨hash, hreached⟩ | hreached
  · have hle : confirmedStake sampleSnapshot network.signed 1 hash ≤ 2 := by
      rw [← hconfirmed]
      refine Weight.of_mono fun validator _ hsigned => ?_
      obtain ⟨message, hmem, hslot, hvoter, hcontent⟩ := hasSigned_iff.mp hsigned
      rw [Bool.and_eq_true] at hcontent
      exact hasSigned_iff.mpr ⟨message, hmem, hslot, hvoter, hcontent.1⟩
    omega
  · omega

end Ordexus
