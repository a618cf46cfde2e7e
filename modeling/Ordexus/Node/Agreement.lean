import Ordexus.Node.Justification

/-!
# Agreement

Every event keeps the state of every honest node within its evidence, and every
honest signature is a justified one. Two confirm certificates for children of
one parent then name the same child: in one slot because no honest validator
decides twice, and in two slots because the later child needs skip quorums for
every slot after the parent, among them the slot of the earlier child.
-/

namespace Ordexus

open Checked Transition List

/-- Every honest message signed so far has its evidence. -/
def AllJustified (protocol : Protocol) (byzantine : ValidatorID → Bool)
    (signed : List VoteMessage) : Prop :=
  ∀ message ∈ signed, byzantine message.voterID = false → Justified protocol signed message

section

variable {protocol : Protocol} {byzantine : ValidatorID → Bool}
  {signed sent : List VoteMessage} {id : ValidatorID} {node : Node} {now : ℤ}

/-- The current round directly follows the head, or a timeout certificate on it. -/
theorem Node.currentConsensusSlot_le (node : Node) :
    node.currentConsensusSlot ≤ node.head.slot + 1 ∨
      ∃ qc ∈ node.latestTimeoutQC, qc.blockHash = node.head.blockHash ∧
        node.currentConsensusSlot ≤ qc.slot + 1 := by
  unfold Node.currentConsensusSlot
  by_cases hmax : node.head.slot = maxUint64
  · rw [if_pos hmax]
    exact .inl (Nat.le_succ _)
  rw [if_neg hmax]
  cases hlatest : node.latestTimeoutQC with
  | none => exact .inl (Nat.le_refl _)
  | some qc =>
    simp only
    split_ifs with hmatch hlast
    · exact .inr ⟨qc, rfl, hmatch.1, Nat.le_succ _⟩
    · exact .inr ⟨qc, rfl, hmatch.1, Nat.le_refl _⟩
    · exact .inl (Nat.le_refl _)

section

variable (hfree : protocol.CollisionFree) (hfault : protocol.FaultBound byzantine)
  (hall : AllJustified protocol byzantine signed) (h : node.Sound protocol signed sent id)
include hfree hfault hall h

theorem Node.Sound.voteForTimeout (slot : ℕ) (observedHead : Head) :
    (node.voteForTimeout protocol now slot observedHead).Sound protocol signed sent id := by
  unfold Node.voteForTimeout
  split_ifs with hheight hround
  · exact h
  · exact h
  push Not at hround
  have hunchanged := hround.1
  simp only [Node.roundUnchanged, ne_eq, Bool.not_eq_false, Bool.and_eq_true,
    decide_eq_true_eq] at hunchanged
  obtain ⟨⟨hhash, -⟩, hslot⟩ := hunchanged
  apply h.requestVote
  rw [← hhash]
  intro parentSlot skipped hparent hlow hhigh
  -- only a timeout certificate on the head leaves room between head and round
  obtain rfl := hparent.unique hfree h.headSlot
  rcases node.currentConsensusSlot_le with hnext | ⟨qc, hqc, hqcHash, hqcSlot⟩
  · simp only at hhigh
    omega
  · have hquorum := h.latest qc hqc
    rw [hqcHash] at hquorum
    refine hquorum.skip_below hfault hall h.headSlot hlow ?_
    simp only at hhigh
    omega

theorem Node.Sound.actOnTimeout (slot : ℕ) (observedHead : Head) :
    (node.actOnTimeout protocol now slot observedHead).Sound protocol signed sent id := by
  unfold Node.actOnTimeout
  split
  · exact h
  · exact h.voteForTimeout hfree hfault hall slot observedHead

/-- The evidence for repeating the confirmation of a head that is already
certified comes from an honest voter of that certificate. -/
theorem Node.Sound.voteForCommittedHead :
    (node.voteForCommittedHead protocol now).Sound protocol signed sent id := by
  unfold Node.voteForCommittedHead
  by_cases hheight : node.head.height = 0
  · rwa [if_pos hheight]
  rw [if_neg hheight]
  cases hfind : node.blockByHash protocol node.head.blockHash with
  | none => exact h
  | some proposal =>
    obtain ⟨hoccurs, hhash⟩ := Node.blockByHash_spec h hfind
    simp only
    split_ifs with hmismatch hdecided
    · exact h
    · exact h
    · rcases h.headConfirmed with hgenesis | ⟨slot, hquorum⟩
      · exact absurd (hhash.trans hgenesis) (hfree.genesis _ hoccurs)
      · obtain ⟨message, hmem, hhonest, htype, -, hmessageHash⟩ := hquorum.exists_honest hfault
        have hevidence := hall message hmem hhonest
        simp only [Justified, htype] at hevidence
        obtain ⟨header, hheader, hheaderHash, hheaderSlot, hparent, hprepared⟩ := hevidence
        obtain rfl := hfree.injective header proposal.header hheader hoccurs
          (hheaderHash.trans (hmessageHash.trans hhash.symm))
        apply h.requestVote
        refine ⟨proposal.header, hoccurs, hhash, rfl, ?_, ?_⟩
        · rwa [← hheaderSlot] at hparent
        · rwa [← hheaderSlot, hmessageHash] at hprepared

end

section

variable (h : node.Sound protocol signed sent id)
include h

theorem Node.Sound.importFinalizedSnapshot {proposal : Proposal}
    (hoccurs : protocol.occurs proposal.header = true) (qc : QuorumCertificate) :
    (node.importFinalizedSnapshot protocol signed proposal qc).Sound protocol signed sent id := by
  unfold Node.importFinalizedSnapshot
  split_ifs with hbinding hverified
  · exact h
  · exact h
  · push Not at hbinding
    have hquorum := HasQuorum.of_verified (by simpa using hverified)
    rw [hbinding.1, hbinding.2.1] at hquorum
    exact { h.storeBlock hoccurs with
      headSlot := Proposal.asHead_slot hoccurs
      headConfirmed := .inr ⟨qc.slot, hquorum⟩ }

theorem Node.Sound.onRoundTick (gateOpen : Bool) :
    (node.onRoundTick protocol now gateOpen).Sound protocol signed sent id := by
  unfold Node.onRoundTick
  simp only
  split
  all_goals exact h.frame rfl rfl rfl rfl rfl rfl rfl rfl

theorem Node.Sound.restart {loaded : List Vote}
    (hloaded : ∀ vote ∈ loaded, vote ∈ node.ownVotes.journal) :
    (node.restart protocol signed loaded).Sound protocol signed sent id := by
  refine { h with
    prepared := by simp [Node.restart]
    latest := ?_
    pending := by simp [Node.restart]
    record := h.record.reload hloaded }
  intro qc hqc
  exact h.persisted qc (Option.mem_def.mpr (Option.filter_eq_some_iff.mp hqc).1)

end

section

variable {proposal : Proposal} (hfree : protocol.CollisionFree)
  (h : node.Sound protocol signed sent id) (hoccurs : protocol.occurs proposal.header = true)
include hfree h hoccurs

theorem Node.Sound.voteForProposal (accepted : Bool) :
    (node.voteForProposal protocol signed now proposal accepted).Sound protocol signed sent id := by
  unfold Node.voteForProposal
  split_ifs with hchose hvoted hcarried
  · exact h
  · exact h
  · exact h
  · cases hslot : node.parentSlotForProposal protocol proposal.header.parentHash with
    | none => exact h
    | some parentSlot =>
      simp only
      split_ifs with hrejected
      · exact h
      · obtain ⟨_, hverified⟩ := succeeds_iff.mp (by simpa using hrejected)
        simp only [verifyProposal, eq_ok] at hverified
        obtain ⟨-, hrule, hproof, -⟩ := hverified
        have hparent := Node.parentSlotForProposal_spec h hslot
        apply Node.Sound.prepareBlock
        · exact (((h.storeBlock hoccurs).confirmBlockIfPrepared _).acceptCarriedQC
            proposal).promoteBlockIfCertified _ accepted
        · exact justified_prepare hfree hoccurs hparent hrule hproof

theorem Node.Sound.produce (hcan : node.canProduce protocol signed proposal = true)
    (accepted : Bool) :
    (node.produce protocol signed now proposal accepted).Sound protocol signed sent id := by
  simp only [Node.canProduce, Bool.and_eq_true, decide_eq_true_eq, succeeds_iff] at hcan
  obtain ⟨⟨⟨⟨-, hhash⟩, -⟩, ⟨⟨⟩, hrule⟩⟩, ⟨⟨⟩, hproof⟩⟩ := hcan
  have hparent : IsSlotOf protocol proposal.header.parentHash node.head.slot := by
    rw [hhash]
    exact h.headSlot
  have hmarked : Node.Sound protocol signed sent id
      { node with lastProducedSlot := proposal.header.slot } :=
    h.frame rfl rfl rfl rfl rfl rfl rfl rfl
  apply Node.Sound.prepareBlock
  · exact ((hmarked.storeBlock hoccurs).confirmBlockIfPrepared _).promoteBlockIfCertified _ accepted
  · exact justified_prepare hfree hoccurs hparent hrule hproof

end

/-- Every event but a signature keeps a node within its evidence. -/
theorem Node.Sound.react (hfree : protocol.CollisionFree) (hfault : protocol.FaultBound byzantine)
    (hall : AllJustified protocol byzantine signed) (h : node.Sound protocol signed sent id)
    {event : Event} {next : Node} (hsignature : event.signature = none)
    (hreact : Node.react protocol signed node event = some next) :
    next.Sound protocol signed sent id := by
  cases event <;> simp only [Node.react, Option.ite_none_right_eq_some, Option.some.injEq,
    Bool.and_eq_true, reduceCtorEq] at hreact
  case qc now certificate accepted => exact hreact ▸ h.handleQC certificate accepted
  case proposal now proposal accepted =>
    exact hreact.2 ▸ h.voteForProposal hfree hreact.1 accepted
  case produce now proposal accepted =>
    exact hreact.2 ▸ h.produce hfree hreact.1.1 hreact.1.2 accepted
  case externalBlock proposal => exact hreact.2 ▸ h.storeBlock hreact.1
  case tick now gateOpen => exact hreact ▸ h.onRoundTick gateOpen
  case timeout now slot observedHead =>
    obtain ⟨-, rfl⟩ := hreact
    apply Node.Sound.actOnTimeout hfree hfault hall
    exact h.frame rfl rfl rfl rfl rfl rfl rfl rfl
  case committedHead now => exact hreact ▸ h.voteForCommittedHead hfree hfault hall
  case importSnapshot proposal qc => exact hreact.2 ▸ h.importFinalizedSnapshot hreact.1 qc
  case sign vote => simp [Event.signature] at hsignature
  case prune finalizedSlot =>
    exact hreact ▸ { h with record := h.record.pruneFinalized finalizedSlot }
  case restart loaded => exact hreact.2 ▸ h.restart hreact.1

/-- A signature is one of the pending votes, hence justified, and the record of
the node covers it. -/
theorem Node.Sound.sign (h : node.Sound protocol signed sent id) {vote : Vote} {next : Node}
    (hreact : Node.react protocol signed node (.sign id vote) = some next) :
    vote.voterID = id ∧ Justified protocol signed vote.toVoteMessage ∧
      next.Sound protocol signed (vote.toVoteMessage :: sent) id := by
  simp only [Node.react, Option.ite_none_right_eq_some, Option.map_eq_some_iff] at hreact
  obtain ⟨hpending, own, hsend, rfl⟩ := hreact
  obtain ⟨hvoter, hjustified⟩ := h.pending vote hpending
  have htyped : verifyVoteEnvelope protocol vote = true → vote.type ≠ .unknown := by
    intro hverified
    simp only [verifyVoteEnvelope, Bool.and_eq_true, succeeds_iff, Vote.validate,
      eq_ok] at hverified
    obtain ⟨⟨hknown, -⟩, -⟩ := hverified
    exact hknown
  exact ⟨hvoter, hjustified, { h with
    pending := fun other hother => h.pending other (mem_of_mem_erase hother)
    record := h.record.sendLocalVote htyped hsend }⟩

end

def sentBy (signed : List VoteMessage) (id : ValidatorID) : List VoteMessage :=
  signed.filter fun message => message.voterID = id

theorem sentBy_cons_self (signed : List VoteMessage) (message : VoteMessage) :
    sentBy (message :: signed) message.voterID = message :: sentBy signed message.voterID := by
  simp [sentBy]

theorem sentBy_cons_of_ne {signed : List VoteMessage} {message : VoteMessage} {id : ValidatorID}
    (hne : message.voterID ≠ id) : sentBy (message :: signed) id = sentBy signed id := by
  simp [sentBy, hne]

structure Network.Sound (protocol : Protocol) (byzantine : ValidatorID → Bool)
    (network : Network) : Prop where
  nodes : ∀ id, byzantine id = false →
    (network.nodes id).Sound protocol network.signed (sentBy network.signed id) id
  justified : AllJustified protocol byzantine network.signed

section

variable {protocol : Protocol} {byzantine : ValidatorID → Bool} {network next : Network}

theorem Network.initial_sound : (Network.initial protocol).Sound protocol byzantine where
  nodes := fun id _ => Node.initial_sound protocol id
  justified := by
    intro message hmem
    exact absurd hmem not_mem_nil

/-- One more signature, by an honest validator that the evidence of the network
supports or by a faulty one. -/
theorem AllJustified.cons {signed : List VoteMessage} {message : VoteMessage}
    (hall : AllJustified protocol byzantine signed)
    (hnew : byzantine message.voterID = false → Justified protocol signed message) :
    AllJustified protocol byzantine (message :: signed) := by
  intro other hother hhonest
  rcases mem_cons.mp hother with rfl | hold
  · exact (hnew hhonest).mono fun _ => mem_cons_of_mem _
  · exact (hall other hold hhonest).mono fun _ => mem_cons_of_mem _

theorem Network.Sound.step (hfree : protocol.CollisionFree)
    (hfault : protocol.FaultBound byzantine) (h : network.Sound protocol byzantine)
    {event : Event} (hstep : network.step protocol byzantine event = some next) :
    next.Sound protocol byzantine := by
  unfold Network.step at hstep
  cases hnode : event.node with
  | none =>
    -- only a faulty signature is taken by no node
    cases event <;> simp only [Event.node, reduceCtorEq] at hnode
    case byzantine message =>
    simp only [Event.node, Event.signature, Option.ite_none_right_eq_some,
      Option.some.injEq] at hstep
    obtain ⟨hfaulty, rfl⟩ := hstep
    refine ⟨fun id hhonest => ?_, h.justified.cons (by simp [hfaulty])⟩
    have hne : message.voterID ≠ id := by
      rintro rfl
      rw [hfaulty] at hhonest
      cases hhonest
    rw [sentBy_cons_of_ne hne]
    exact (h.nodes id hhonest).mono fun _ => mem_cons_of_mem _
  | some id =>
    simp only [hnode, Option.ite_none_left_eq_some, Option.map_eq_some_iff,
      Bool.not_eq_true] at hstep
    obtain ⟨hhonest, node, hreact, rfl⟩ := hstep
    have hsound := h.nodes id hhonest
    cases hsignature : event.signature with
    | none =>
      refine ⟨fun other hother => ?_, h.justified⟩
      by_cases hsame : other = id
      · subst hsame
        simpa using hsound.react hfree hfault h.justified hsignature hreact
      · simpa [Function.update_of_ne hsame] using h.nodes other hother
    | some message =>
      cases event <;> simp only [Event.signature, Option.some.injEq, reduceCtorEq,
        Event.node] at hsignature hnode
      case sign signer vote =>
      subst hnode hsignature
      obtain ⟨hvoter, hjustified, hsigned⟩ := hsound.sign hreact
      refine ⟨fun other hother => ?_, h.justified.cons fun _ => hjustified⟩
      by_cases hsame : other = signer
      · subst hsame
        have hsent := sentBy_cons_self network.signed vote.toVoteMessage
        rw [hvoter] at hsent
        simp only [Option.toList_some, singleton_append, Function.update_self, hsent]
        exact hsigned.mono fun _ => mem_cons_of_mem _
      · have hne : vote.voterID ≠ other := by
          rw [hvoter]
          exact fun heq => hsame heq.symm
        simp only [Option.toList_some, singleton_append, Function.update_of_ne hsame,
          sentBy_cons_of_ne hne]
        exact (h.nodes other hother).mono fun _ => mem_cons_of_mem _

theorem Network.Sound.of_reaches (hfree : protocol.CollisionFree)
    (hfault : protocol.FaultBound byzantine)
    (hreach : Reaches (Network.step protocol byzantine) anyStep (Network.initial protocol)
      network) : network.Sound protocol byzantine :=
  hreach.invariant Network.initial_sound fun _ _ _ h _ hstep => h.step hfree hfault hstep

/-- An honest validator casts one decision in a slot. -/
theorem Network.Sound.one_decision (h : network.Sound protocol byzantine)
    {first second : VoteMessage} (hfirst : first ∈ network.signed)
    (hsecond : second ∈ network.signed) (hvoter : first.voterID = second.voterID)
    (hhonest : byzantine first.voterID = false) (hslot : first.slot = second.slot)
    (hphase : first.phase = second.phase) : first = second := by
  have hrecord := (h.nodes first.voterID hhonest).record
  refine hrecord.unique first ?_ second ?_ hslot hphase
  · exact mem_filter.mpr ⟨hfirst, by simp⟩
  · exact mem_filter.mpr ⟨hsecond, by simp [hvoter]⟩

section

variable (hfault : protocol.FaultBound byzantine) (hfree : protocol.CollisionFree)
  (h : network.Sound protocol byzantine)
include hfault hfree h

/-- What a confirm quorum says about the block it names. -/
theorem Network.Sound.confirmed_block {header : BlockHeader} {slot : ℕ}
    (hoccurs : protocol.occurs header = true)
    (hquorum : HasQuorum protocol network.signed .confirm slot (protocol.blockHash header)) :
    header.slot = slot ∧
      (∃ parentSlot, IsSlotOf protocol header.parentHash parentSlot ∧ parentSlot < slot) ∧
      HasQuorum protocol network.signed .prepare slot (protocol.blockHash header) := by
  obtain ⟨message, hmem, hhonest, htype, rfl, hhash⟩ := hquorum.exists_honest hfault
  have hevidence := h.justified message hmem hhonest
  simp only [Justified, htype] at hevidence
  obtain ⟨other, hother, hotherHash, hotherSlot, hparent, hprepared⟩ := hevidence
  obtain rfl := hfree.injective other header hother hoccurs (hotherHash.trans hhash)
  exact ⟨hotherSlot, hparent, hhash ▸ hprepared⟩

/-- A confirmed block and a later confirmed block do not have the same parent. -/
theorem Network.Sound.no_later_sibling {early late : BlockHeader} {earlySlot lateSlot : ℕ}
    (hlate : protocol.occurs late = true) (hearly : protocol.occurs early = true)
    (hparent : early.parentHash = late.parentHash)
    (hearlyQuorum : HasQuorum protocol network.signed .confirm earlySlot (protocol.blockHash early))
    (hlateQuorum : HasQuorum protocol network.signed .confirm lateSlot (protocol.blockHash late)) :
    ¬earlySlot < lateSlot := by
  intro hlt
  obtain ⟨-, ⟨parentSlot, hparentSlot, hafter⟩, -⟩ :=
    h.confirmed_block hfault hfree hearly hearlyQuorum
  obtain ⟨rfl, -, hprepared⟩ := h.confirmed_block hfault hfree hlate hlateQuorum
  -- an honest prepare vote on the later block shows a skip quorum just before it
  obtain ⟨message, hmem, hhonest, htype, hslot, hhash⟩ := hprepared.exists_honest hfault
  have hevidence := h.justified message hmem hhonest
  simp only [Justified, htype] at hevidence
  obtain ⟨other, hother, hotherHash, -, hgap⟩ := hevidence
  obtain rfl := hfree.injective other late hother hlate (hotherHash.trans hhash)
  rw [hparent] at hparentSlot
  have hskipped := hgap parentSlot hparentSlot (by omega)
  have hskip := hskipped.skip_below hfault h.justified hparentSlot hafter (by omega)
  -- it reaches down to the earlier block's slot, where some honest validator decided twice
  obtain ⟨first, hfirst, second, hsecond, hvoter, hhonest, hfirstSlot, hsecondSlot, hfirstType,
    hsecondType, -⟩ := hskip.exists_common hearlyQuorum hfault
  have hsame := h.one_decision hfirst hsecond hvoter hhonest (hfirstSlot.trans hsecondSlot.symm)
    (by simp [VoteMessage.phase, hfirstType, hsecondType, votePhaseForChoice])
  rw [hsame, hsecondType] at hfirstType
  cases hfirstType

end

/-- Agreement: two accepted confirm certificates never certify two different
blocks with the same parent, whatever the slots of the blocks. -/
theorem confirmed_siblings_agree (hfree : protocol.CollisionFree)
    (hfault : protocol.FaultBound byzantine)
    (hreach : Reaches (Network.step protocol byzantine) anyStep (Network.initial protocol) network)
    {first second : QuorumCertificate} {firstBlock secondBlock : BlockHeader}
    (hfirst : verifyQuorumCertificate protocol network.signed first = .ok ())
    (hsecond : verifyQuorumCertificate protocol network.signed second = .ok ())
    (hfirstType : first.type = .confirm) (hsecondType : second.type = .confirm)
    (hfirstOccurs : protocol.occurs firstBlock = true)
    (hsecondOccurs : protocol.occurs secondBlock = true)
    (hfirstHash : first.blockHash = protocol.blockHash firstBlock)
    (hsecondHash : second.blockHash = protocol.blockHash secondBlock)
    (hparent : firstBlock.parentHash = secondBlock.parentHash) : firstBlock = secondBlock := by
  have h := Network.Sound.of_reaches hfree hfault hreach
  have hfirstQuorum := HasQuorum.of_verified (succeeds_iff.mpr ⟨(), hfirst⟩)
  have hsecondQuorum := HasQuorum.of_verified (succeeds_iff.mpr ⟨(), hsecond⟩)
  rw [hfirstType, hfirstHash] at hfirstQuorum
  rw [hsecondType, hsecondHash] at hsecondQuorum
  rcases Nat.lt_trichotomy first.slot second.slot with hlt | heq | hgt
  · exact absurd hlt (h.no_later_sibling hfault hfree hsecondOccurs hfirstOccurs hparent
      hfirstQuorum hsecondQuorum)
  · rw [heq] at hfirstQuorum
    obtain ⟨m, hm, m', hm', hvoter, hhonest, hslot, hslot', htype, htype', hhash, hhash'⟩ :=
      hfirstQuorum.exists_common hsecondQuorum hfault
    have hsame := h.one_decision hm hm' hvoter hhonest (hslot.trans hslot'.symm)
      (by simp [VoteMessage.phase, htype, htype'])
    rw [hsame] at hhash
    exact hfree.injective _ _ hfirstOccurs hsecondOccurs (hhash.symm.trans hhash')
  · exact absurd hgt (h.no_later_sibling hfault hfree hfirstOccurs hsecondOccurs hparent.symm
      hsecondQuorum hfirstQuorum)

/-- Accepted certificates of one slot and phase agree, so no slot is both confirmed and skipped. -/
theorem certificates_agree (hfree : protocol.CollisionFree)
    (hfault : protocol.FaultBound byzantine)
    (hreach : Reaches (Network.step protocol byzantine) anyStep (Network.initial protocol) network)
    {first second : QuorumCertificate}
    (hfirst : verifyQuorumCertificate protocol network.signed first = .ok ())
    (hsecond : verifyQuorumCertificate protocol network.signed second = .ok ())
    (hslot : first.slot = second.slot)
    (hphase : votePhaseForChoice first.type = votePhaseForChoice second.type) :
    first.type = second.type ∧ first.blockHash = second.blockHash := by
  have hfirst := HasQuorum.of_verified (succeeds_iff.mpr ⟨(), hfirst⟩)
  have hsecond := HasQuorum.of_verified (succeeds_iff.mpr ⟨(), hsecond⟩)
  rw [← hslot] at hsecond
  obtain ⟨m, hm, m', hm', hvoter, hhonest, hslot, hslot', htype, htype', hhash, hhash'⟩ :=
    hfirst.exists_common hsecond hfault
  have hsame := (Network.Sound.of_reaches hfree hfault hreach).one_decision hm hm' hvoter hhonest
    (hslot.trans hslot'.symm) (by rwa [VoteMessage.phase, VoteMessage.phase, htype, htype'])
  subst hsame
  exact ⟨htype.symm.trans htype', hhash.symm.trans hhash'⟩

end

/-- A validator of stake one, named by its key. -/
def sampleValidator (key : UInt8) : ValidatorState where
  validatorID := [key]
  accountAddress := key.toNat
  consensusPublicKey := key.toNat
  blsPublicKey := [key]
  p2pPeerID := []
  stakeLamports := 1
  status := .active
  commissionBps := 0
  lastVotedSlot := 0
  missedProposalCount := 0
  missedVoteCount := 0
  jailUntilEpoch := 0

/-- Four validators; three of them are a quorum. -/
def sampleSnapshot : EpochSnapshot where
  epochID := 0
  startSlot := 0
  endSlot := 9
  randomSeed := 0
  totalActiveStake := 4
  validators := [1, 2, 3, 4].map sampleValidator
  snapshotStateRoot := 0

def sampleHeader (slot height : ℕ) (parentHash : Hash) : BlockHeader where
  chainID := [1]
  slot := slot
  height := height
  parentHash := parentHash
  previousQCHash := 0
  timeoutQCHash := 0
  leaderID := [1]
  epochID := 0
  epochSnapshotRoot := 0
  txRoot := 0
  receiptRoot := 0
  rewardQCRoot := 0
  evidenceRoot := 0
  rewardRoot := 0
  stateRoot := 0
  accountRoot := 0
  timestampUnixMilli := 1

/-- A network in which one block, on genesis, occurs. -/
def sampleProtocol : Protocol where
  crypto := { sha256 := fun _ => 0, newValidatorID := fun key => [UInt8.ofNat key],
              decodesAsBLSKey := fun _ => true
              verifyMessageSignature := fun _ _ _ => true }
  blockHash := fun header => header.slot + 1
  genesisHash := 1
  occurs := fun header => header = sampleHeader 1 1 1
  snapshotForSlot := fun _ => some sampleSnapshot
  acceptsBody := fun _ => true
  leaderTimeout := fun _ _ => 1

def sampleBlock : Proposal := { header := sampleHeader 1 1 1, timeoutQC := none }

def sampleVote (type : VoteType) (voter : UInt8) : Vote where
  type := type
  slot := 1
  blockHeight := 1
  blockHash := if type = .skip then 1 else 2
  voterID := [voter]
  stake := 1
  createdAtUnixMilli := 1

def sampleQC (type : VoteType) (voters : List UInt8) (bitmap : UInt8) : QuorumCertificate where
  type := type
  slot := 1
  blockHeight := 1
  blockHash := 2
  thresholdStake := 3
  confirmedStake := voters.length
  voters := voters.map fun voter => [voter]
  createdAtUnixMilli := 1
  signatureScheme := .blsBasic
  aggregateSignature := [1]
  voterBitmap := [bitmap]

/-- The block is proposed, prepared and confirmed by three validators, and the
faulty fourth one confirms it too. -/
def sampleRun : List Event :=
  [.produce [1] 1 sampleBlock true, .proposal [2] 1 sampleBlock true,
    .proposal [3] 1 sampleBlock true] ++
  [1, 2, 3].map (fun voter => .sign [voter] (sampleVote .prepare voter)) ++
  [1, 2, 3].map (fun voter => .qc [voter] 1 (sampleQC .prepare [1, 2, 3] 7) true) ++
  [1, 2, 3].map (fun voter => .sign [voter] (sampleVote .confirm voter)) ++
  [.byzantine (sampleVote .confirm 4).toVoteMessage]

theorem sampleProtocol_collisionFree : sampleProtocol.CollisionFree where
  injective := by
    intro first second hfirst hsecond _
    simp only [sampleProtocol, decide_eq_true_eq] at hfirst hsecond
    rw [hfirst, hsecond]
  genesis := by
    intro header hheader
    simp only [sampleProtocol, decide_eq_true_eq] at hheader
    subst hheader
    decide

theorem sampleProtocol_faultBound : sampleProtocol.FaultBound (fun id => decide (id = [4])) := by
  rintro slot snapshot ⟨rfl⟩
  decide

/-- Two different certificates for the sample block are accepted after its run. -/
theorem confirmed_siblings_agree_sample :
    ∃ network,
      Reaches (Network.step sampleProtocol fun id => decide (id = [4])) anyStep
        (Network.initial sampleProtocol) network ∧
      verifyQuorumCertificate sampleProtocol network.signed (sampleQC .confirm [1, 2, 3] 7) =
        .ok () ∧
      verifyQuorumCertificate sampleProtocol network.signed
        (sampleQC .confirm [1, 2, 3, 4] 15) = .ok () ∧
      sampleBlock.header = sampleHeader 1 1 1 := by
  have hrun : ∃ network ∈ run (Network.step sampleProtocol fun id => decide (id = [4]))
      (Network.initial sampleProtocol) sampleRun,
      verifyQuorumCertificate sampleProtocol network.signed (sampleQC .confirm [1, 2, 3] 7) =
        .ok () ∧
      verifyQuorumCertificate sampleProtocol network.signed
        (sampleQC .confirm [1, 2, 3, 4] 15) = .ok () :=
    ⟨_, rfl, rfl, rfl⟩
  obtain ⟨network, hnetwork, hfirst, hsecond⟩ := hrun
  have hreach := Reaches.of_run_any hnetwork
  exact ⟨network, hreach, hfirst, hsecond, confirmed_siblings_agree sampleProtocol_collisionFree
    sampleProtocol_faultBound hreach hfirst hsecond rfl rfl (by decide) (by decide) rfl rfl rfl⟩

theorem certificates_agree_sample :
    ∃ network, Reaches (Network.step sampleProtocol fun id => decide (id = [4])) anyStep
        (Network.initial sampleProtocol) network ∧
      (sampleQC .confirm [1, 2, 3] 7).blockHash =
        (sampleQC .confirm [1, 2, 3, 4] 15).blockHash := by
  have hreach := Reaches.of_run_any (rfl : run (Network.step sampleProtocol
    fun id => decide (id = [4])) (Network.initial sampleProtocol) sampleRun = some _)
  exact ⟨_, hreach, (certificates_agree sampleProtocol_collisionFree sampleProtocol_faultBound
    hreach rfl rfl rfl rfl).2⟩

end Ordexus
