import Mathlib.Tactic.Push
import Mathlib.Tactic.SplitIfs
import Ordexus.Node.Network

/-!
# What an honest vote presupposes

An honest validator signs nothing without evidence: a skip vote on a parent
closes every earlier slot after that parent, a prepare vote names a block whose
gap to its parent is closed, and a confirm vote names a prepared block. The
evidence consists of quorums of signed messages, so it is never lost. Every
handler of a node keeps its state within such evidence.
-/

namespace Ordexus

open Checked List

section

variable (protocol : Protocol)

/-- Validators with more than two thirds of the stake of a slot have signed the
same message of a type. -/
def HasQuorum (signed : List VoteMessage) (type : VoteType) (slot : ℕ) (hash : Hash) : Prop :=
  ∃ snapshot height, protocol.snapshotForSlot slot = some snapshot ∧ snapshot.Sound ∧
    snapshot.totalStake * 2 / 3 + 1 ≤
      snapshot.signedStake signed fun voter => ⟨type, slot, height, hash, voter⟩

/-- Does a hash belong to a block, or to genesis, of this slot? -/
def IsSlotOf (hash : Hash) (slot : ℕ) : Prop :=
  (hash = protocol.genesisHash ∧ slot = 0) ∨
    ∃ header, protocol.occurs header = true ∧ protocol.blockHash header = hash ∧
      header.slot = slot

/-- No two headers that occur have the same hash, and none has the genesis hash. -/
structure Protocol.CollisionFree : Prop where
  injective : ∀ first second, protocol.occurs first = true → protocol.occurs second = true →
    protocol.blockHash first = protocol.blockHash second → first = second
  genesis : ∀ header, protocol.occurs header = true →
    protocol.blockHash header ≠ protocol.genesisHash

/-- In every slot the faulty validators hold at most `(T - 1) / 3` of the stake. -/
def Protocol.FaultBound (byzantine : ValidatorID → Bool) : Prop :=
  ∀ slot snapshot, protocol.snapshotForSlot slot = some snapshot →
    Weight.of ValidatorState.stakeLamports snapshot.validators
      (fun validator => byzantine validator.validatorID) ≤ (snapshot.totalStake - 1) / 3

/-- The evidence for a message of an honest validator. -/
def Justified (signed : List VoteMessage) (message : VoteMessage) : Prop :=
  match message.type with
  | .unknown => True
  | .skip => ∀ parentSlot slot, IsSlotOf protocol message.blockHash parentSlot →
      parentSlot < slot → slot < message.slot →
      HasQuorum protocol signed .skip slot message.blockHash
  | .prepare => ∃ header, protocol.occurs header = true ∧
      protocol.blockHash header = message.blockHash ∧ header.slot = message.slot ∧
      ∀ parentSlot, IsSlotOf protocol header.parentHash parentSlot →
        parentSlot + 1 < message.slot →
        HasQuorum protocol signed .skip (message.slot - 1) header.parentHash
  | .confirm => ∃ header, protocol.occurs header = true ∧
      protocol.blockHash header = message.blockHash ∧ header.slot = message.slot ∧
      (∃ parentSlot, IsSlotOf protocol header.parentHash parentSlot ∧
        parentSlot < message.slot) ∧
      HasQuorum protocol signed .prepare message.slot message.blockHash

end

section

variable {protocol : Protocol} {byzantine : ValidatorID → Bool}
  {signed more : List VoteMessage}

variable {slot : ℕ}

theorem HasQuorum.mono {type : VoteType} {hash : Hash}
    (h : HasQuorum protocol signed type slot hash) (hsub : ∀ m ∈ signed, m ∈ more) :
    HasQuorum protocol more type slot hash := by
  obtain ⟨snapshot, height, hsnapshot, hsound, hstake⟩ := h
  refine ⟨snapshot, height, hsnapshot, hsound, Nat.le_trans hstake ?_⟩
  apply Weight.of_mono
  intro validator _ hmem
  simp only [decide_eq_true_eq] at hmem ⊢
  exact hsub _ hmem

theorem Justified.mono {message : VoteMessage} (h : Justified protocol signed message)
    (hsub : ∀ m ∈ signed, m ∈ more) : Justified protocol more message := by
  unfold Justified at *
  cases htype : message.type <;> simp only [htype] at h ⊢
  case skip =>
    exact fun parentSlot slot hparent hlow hhigh => (h parentSlot slot hparent hlow hhigh).mono hsub
  case prepare =>
    obtain ⟨header, hoccurs, hhash, hslot, hgap⟩ := h
    exact ⟨header, hoccurs, hhash, hslot, fun p hp hlt => (hgap p hp hlt).mono hsub⟩
  case confirm =>
    obtain ⟨header, hoccurs, hhash, hslot, hparent, hprepared⟩ := h
    exact ⟨header, hoccurs, hhash, hslot, hparent, hprepared.mono hsub⟩

theorem HasQuorum.of_verified {certificate : QuorumCertificate}
    (h : succeeds (verifyQuorumCertificate protocol signed certificate) = true) :
    HasQuorum protocol signed certificate.type certificate.slot certificate.blockHash := by
  obtain ⟨_, h⟩ := succeeds_iff.mp h
  simp only [verifyQuorumCertificate, eq_ok] at h
  obtain ⟨snapshot, hsnapshot, hverified⟩ := h
  obtain ⟨hsound, hstake⟩ := verifyQuorumCertificateForSnapshot_quorum hverified
  exact ⟨snapshot, certificate.blockHeight, hsnapshot, hsound, hstake⟩

theorem HasQuorum.exists_honest {type : VoteType} {hash : Hash}
    (h : HasQuorum protocol signed type slot hash) (hfault : protocol.FaultBound byzantine) :
    ∃ message ∈ signed, byzantine message.voterID = false ∧ message.type = type ∧
      message.slot = slot ∧ message.blockHash = hash := by
  obtain ⟨snapshot, height, hsnapshot, -, hstake⟩ := h
  have hbound := hfault slot snapshot hsnapshot
  obtain ⟨validator, -, hsigned, hhonest⟩ :=
    Weight.exists_correct (fun v : ValidatorState => byzantine v.validatorID)
      (Nat.lt_of_lt_of_le (by omega) hstake)
  exact ⟨_, by simpa using hsigned, hhonest, rfl, rfl, rfl⟩

/-- Two quorums of one slot have a common honest signer. -/
theorem HasQuorum.exists_common {type₁ type₂ : VoteType} {hash₁ hash₂ : Hash}
    (h₁ : HasQuorum protocol signed type₁ slot hash₁)
    (h₂ : HasQuorum protocol signed type₂ slot hash₂) (hfault : protocol.FaultBound byzantine) :
    ∃ first ∈ signed, ∃ second ∈ signed, first.voterID = second.voterID ∧
      byzantine first.voterID = false ∧ first.slot = slot ∧ second.slot = slot ∧
      first.type = type₁ ∧ second.type = type₂ ∧
      first.blockHash = hash₁ ∧ second.blockHash = hash₂ := by
  obtain ⟨snapshot, height₁, hsnapshot, -, hstake₁⟩ := h₁
  obtain ⟨snapshot₂, height₂, hsnapshot₂, -, hstake₂⟩ := h₂
  obtain rfl := Option.mem_unique hsnapshot hsnapshot₂
  have hbound := hfault slot snapshot hsnapshot
  obtain ⟨validator, -, hfirst, hsecond, hhonest⟩ :=
    Weight.exists_correct_common (fun v : ValidatorState => byzantine v.validatorID)
      (Nat.lt_of_lt_of_le
        (show (snapshot.validators.map ValidatorState.stakeLamports).sum + _ <
            (snapshot.totalStake * 2 / 3 + 1) + (snapshot.totalStake * 2 / 3 + 1) by
          change snapshot.totalStake + _ < _
          omega)
        (Nat.add_le_add hstake₁ hstake₂))
  simp only [decide_eq_true_eq] at hfirst hsecond
  exact ⟨_, hfirst, _, hsecond, rfl, hhonest, rfl, rfl, rfl, rfl, rfl, rfl⟩

theorem IsSlotOf.unique (hfree : protocol.CollisionFree) {hash : Hash} {slot' : ℕ}
    (h : IsSlotOf protocol hash slot) (h' : IsSlotOf protocol hash slot') : slot = slot' := by
  rcases h with ⟨hgenesis, rfl⟩ | ⟨header, hoccurs, hhash, rfl⟩ <;>
    rcases h' with ⟨hgenesis', rfl⟩ | ⟨header', hoccurs', hhash', rfl⟩
  · rfl
  · exact absurd (hhash'.trans hgenesis) (hfree.genesis header' hoccurs')
  · exact absurd (hhash.trans hgenesis') (hfree.genesis header hoccurs)
  · rw [hfree.injective header header' hoccurs hoccurs' (hhash.trans hhash'.symm)]

/-- A skip quorum closes every slot between its parent and itself. -/
theorem HasQuorum.skip_below (hfault : protocol.FaultBound byzantine)
    (hjustified : ∀ m ∈ signed, byzantine m.voterID = false → Justified protocol signed m)
    {last parentSlot : ℕ} {parent : Hash} (h : HasQuorum protocol signed .skip last parent)
    (hparent : IsSlotOf protocol parent parentSlot) (hlow : parentSlot < slot)
    (hhigh : slot ≤ last) :
    HasQuorum protocol signed .skip slot parent := by
  rcases Nat.lt_or_eq_of_le hhigh with hlt | rfl
  · obtain ⟨message, hmem, hhonest, htype, rfl, rfl⟩ := h.exists_honest hfault
    have hevidence := hjustified message hmem hhonest
    simp only [Justified, htype] at hevidence
    exact hevidence parentSlot slot hparent hlow hlt
  · exact h

end

/-- The evidence behind the state of the node of an honest validator `id` that has
sent the messages `sent`. -/
structure Node.Sound (protocol : Protocol) (signed sent : List VoteMessage) (id : ValidatorID)
    (node : Node) : Prop where
  identity : node.validatorID = id
  headSlot : IsSlotOf protocol node.head.blockHash node.head.slot
  headConfirmed : node.head.blockHash = protocol.genesisHash ∨
    ∃ slot, HasQuorum protocol signed .confirm slot node.head.blockHash
  blocks : ∀ proposal ∈ node.blocks, protocol.occurs proposal.header = true
  prepared : ∀ qc ∈ node.prepareQCs, HasQuorum protocol signed .prepare qc.slot qc.blockHash
  latest : ∀ qc ∈ node.latestTimeoutQC, HasQuorum protocol signed .skip qc.slot qc.blockHash
  persisted : ∀ qc ∈ node.persistedTimeoutQC, HasQuorum protocol signed .skip qc.slot qc.blockHash
  pending : ∀ vote ∈ node.pendingVotes, vote.voterID = id ∧
    Justified protocol signed vote.toVoteMessage
  record : node.ownVotes.Covers sent

section

variable {protocol : Protocol} {signed more sent : List VoteMessage} {id : ValidatorID}
  {node : Node} {now : ℤ}

theorem Node.Sound.mono (h : node.Sound protocol signed sent id) (hsub : ∀ m ∈ signed, m ∈ more) :
    node.Sound protocol more sent id :=
  { h with
    headConfirmed := h.headConfirmed.imp_right fun ⟨slot, hquorum⟩ => ⟨slot, hquorum.mono hsub⟩
    prepared := fun qc hqc => (h.prepared qc hqc).mono hsub
    latest := fun qc hqc => (h.latest qc hqc).mono hsub
    persisted := fun qc hqc => (h.persisted qc hqc).mono hsub
    pending := fun vote hvote => (h.pending vote hvote).imp_right fun hj => hj.mono hsub }

/-- The clock, the saved confirm certificates and the production mark carry no
evidence. -/
theorem Node.Sound.frame (h : node.Sound protocol signed sent id) {next : Node}
    (hidentity : next.validatorID = node.validatorID) (hhead : next.head = node.head)
    (hblocks : next.blocks = node.blocks) (hprepared : next.prepareQCs = node.prepareQCs)
    (hlatest : next.latestTimeoutQC = node.latestTimeoutQC)
    (hpersisted : next.persistedTimeoutQC = node.persistedTimeoutQC)
    (hpending : next.pendingVotes = node.pendingVotes) (hrecord : next.ownVotes = node.ownVotes) :
    next.Sound protocol signed sent id where
  identity := hidentity ▸ h.identity
  headSlot := hhead ▸ h.headSlot
  headConfirmed := hhead ▸ h.headConfirmed
  blocks := hblocks ▸ h.blocks
  prepared := hprepared ▸ h.prepared
  latest := hlatest ▸ h.latest
  persisted := hpersisted ▸ h.persisted
  pending := hpending ▸ h.pending
  record := hrecord ▸ h.record

theorem Node.initial_sound (protocol : Protocol) (id : ValidatorID) :
    (Node.initial protocol id).Sound protocol [] [] id := by
  constructor
  case record => constructor <;> simp [Node.initial]
  all_goals simp [Node.initial, IsSlotOf]

variable {proposal : Proposal}

/-- The slot of a stored or produced block is the slot its hash stands for. -/
theorem Node.blockByHash_spec (h : node.Sound protocol signed sent id) {hash : Hash}
    (hfind : node.blockByHash protocol hash = some proposal) :
    protocol.occurs proposal.header = true ∧ protocol.blockHash proposal.header = hash := by
  refine ⟨h.blocks proposal (mem_of_find?_eq_some hfind), ?_⟩
  simpa using find?_some hfind

theorem Proposal.asHead_slot (hoccurs : protocol.occurs proposal.header = true) :
    IsSlotOf protocol (proposal.asHead protocol).blockHash (proposal.asHead protocol).slot :=
  .inr ⟨proposal.header, hoccurs, rfl, rfl⟩

section

variable (h : node.Sound protocol signed sent id)
include h

theorem Node.Sound.requestVote {type : VoteType} {slot height : ℕ} {hash : Hash}
    (hjustified : Justified protocol signed ⟨type, slot, height, hash, node.validatorID⟩) :
    (node.requestVote protocol now type slot height hash).Sound protocol signed sent id := by
  unfold Node.requestVote
  cases node.localStake protocol slot with
  | none => exact h
  | some stake =>
    refine { h with pending := ?_ }
    intro vote hvote
    rcases mem_cons.mp hvote with rfl | hold
    · exact ⟨h.identity, hjustified⟩
    · exact h.pending vote hold

section

variable {certificate : QuorumCertificate}
  (hquorum : HasQuorum protocol signed .prepare certificate.slot certificate.blockHash)
include hquorum

theorem Node.Sound.voteForPreparedBlock :
    (node.voteForPreparedBlock protocol now certificate).Sound protocol signed sent id := by
  unfold Node.voteForPreparedBlock
  cases hfind : node.blockByHash protocol certificate.blockHash with
  | none => exact h
  | some proposal =>
    obtain ⟨hoccurs, hhash⟩ := Node.blockByHash_spec h hfind
    simp only
    split_ifs with hbinding hround hdecided
    · exact h
    · exact h
    · exact h
    · push Not at hbinding hround
      -- the head is the parent, so its slot is the slot of the parent
      have hparent : IsSlotOf protocol proposal.header.parentHash node.head.slot := by
        rw [hround.1]
        exact h.headSlot
      apply h.requestVote
      refine ⟨proposal.header, hoccurs, hhash, rfl, ⟨_, hparent, hround.2.2⟩, ?_⟩
      rw [hbinding.1]
      exact hquorum

theorem Node.Sound.rememberPrepareQC :
    (node.rememberPrepareQC now certificate).Sound protocol signed sent id := by
  unfold Node.rememberPrepareQC
  split
  · refine { h with prepared := ?_ }
    intro qc hqc
    rcases mem_cons.mp hqc with rfl | hold
    · exact hquorum
    · exact h.prepared qc hold
  · split
    · refine { h with prepared := ?_ }
      intro qc hqc
      rcases mem_cons.mp hqc with rfl | hold
      · exact hquorum
      · exact h.prepared qc (mem_of_mem_filter hold)
    · exact h

end

theorem Node.Sound.acceptPrepareQC (certificate : QuorumCertificate) :
    (node.acceptPrepareQC protocol signed now certificate).Sound protocol signed sent id := by
  unfold Node.acceptPrepareQC
  split_ifs with htype hverified
  · exact h
  · exact h
  · have hquorum := HasQuorum.of_verified (by simpa using hverified)
    rw [not_not.mp htype] at hquorum
    exact (h.rememberPrepareQC hquorum).voteForPreparedBlock hquorum

theorem Node.Sound.confirmBlockIfPrepared (blockHash : Hash) :
    (node.confirmBlockIfPrepared protocol now blockHash).Sound protocol signed sent id := by
  unfold Node.confirmBlockIfPrepared
  cases hfind : node.prepareQCs.find? fun qc => qc.blockHash = blockHash with
  | none => exact h
  | some certificate =>
    exact h.voteForPreparedBlock (h.prepared certificate (mem_of_find?_eq_some hfind))

theorem Node.Sound.prunePrepareQCs (slot : ℕ) :
    (node.prunePrepareQCs slot).Sound protocol signed sent id :=
  { h with prepared := fun qc hqc => h.prepared qc (mem_of_mem_filter hqc) }

theorem Node.Sound.acceptTimeoutQC (certificate : QuorumCertificate) :
    (node.acceptTimeoutQC protocol signed certificate).Sound protocol signed sent id := by
  unfold Node.acceptTimeoutQC
  split_ifs with htype hverified hhead hlatest
  · exact h
  · exact h
  · exact h
  · exact h
  · have hquorum := HasQuorum.of_verified (by simpa using hverified)
    rw [not_not.mp htype] at hquorum
    apply Node.Sound.prunePrepareQCs
    refine { h with latest := ?_, persisted := ?_ } <;>
    · rintro qc ⟨rfl⟩
      exact hquorum

theorem Node.Sound.promoteCertifiedBlock (qc : QuorumCertificate) (accepted : Bool) :
    (node.promoteCertifiedBlock protocol signed qc accepted).Sound protocol signed sent id := by
  unfold Node.promoteCertifiedBlock
  by_cases htype : qc.type ≠ .confirm ∨ qc.blockHash = 0
  · rwa [if_pos htype]
  by_cases hverified : succeeds (verifyQuorumCertificate protocol signed qc) = false
  · rwa [if_neg htype, if_pos hverified]
  rw [if_neg htype, if_neg hverified]
  have hquorum := HasQuorum.of_verified (by simpa using hverified)
  rw [not_not.mp (not_or.mp htype).1] at hquorum
  cases hfind : node.blockByHash protocol qc.blockHash with
  | none => exact h
  | some proposal =>
    obtain ⟨hoccurs, hhash⟩ := Node.blockByHash_spec h hfind
    simp only
    split_ifs
    · exact h.prunePrepareQCs _
    · exact h
    · apply Node.Sound.prunePrepareQCs
      refine { h with
        headSlot := Proposal.asHead_slot hoccurs, headConfirmed := .inr ⟨qc.slot, ?_⟩ }
      simpa only [Proposal.asHead, hhash] using hquorum

theorem Node.Sound.promoteBlockIfCertified (blockHash : Hash) (accepted : Bool) :
    (node.promoteBlockIfCertified protocol signed blockHash accepted).Sound
      protocol signed sent id := by
  unfold Node.promoteBlockIfCertified
  split
  · exact h
  · exact h.promoteCertifiedBlock _ accepted

theorem Node.Sound.handleQC (qc : QuorumCertificate) (accepted : Bool) :
    (node.handleQC protocol signed now qc accepted).Sound protocol signed sent id := by
  unfold Node.handleQC
  split
  · exact h.acceptPrepareQC qc
  · apply Node.Sound.promoteCertifiedBlock
    exact h.frame rfl rfl rfl rfl rfl rfl rfl rfl
  · exact h.acceptTimeoutQC qc
  · exact h

theorem Node.Sound.storeBlock (hoccurs : protocol.occurs proposal.header = true) :
    (node.storeBlock proposal).Sound protocol signed sent id := by
  refine { h with blocks := ?_ }
  intro stored hstored
  rcases mem_cons.mp hstored with rfl | hold
  · exact hoccurs
  · exact h.blocks stored hold

theorem Node.Sound.acceptCarriedQC (proposal : Proposal) :
    (node.acceptCarriedQC protocol signed proposal).Sound protocol signed sent id := by
  unfold Node.acceptCarriedQC
  split
  · exact h
  · exact h.acceptTimeoutQC _

end

/-- The evidence for a prepare vote on a proposal with an accepted timeout
certificate. -/
theorem justified_prepare {parentSlot : ℕ} {voter : ValidatorID} (hfree : protocol.CollisionFree)
    (hoccurs : protocol.occurs proposal.header = true)
    (hparent : IsSlotOf protocol proposal.header.parentHash parentSlot)
    (hrule : validateTimeoutQC proposal.header.slot parentSlot proposal.header.height
      proposal.header.parentHash proposal.timeoutQC = .ok ())
    (hproof : verifyCarriedTimeoutQC protocol signed proposal.timeoutQC = .ok ()) :
    Justified protocol signed ⟨.prepare, proposal.header.slot, proposal.header.height,
      protocol.blockHash proposal.header, voter⟩ := by
  refine ⟨proposal.header, hoccurs, rfl, rfl, ?_⟩
  intro slot hslot hgap
  obtain rfl := hslot.unique hfree hparent
  obtain ⟨qc, hqc, htype, hqcSlot, hqcHash⟩ := validateTimeoutQC_gap hrule hgap
  rw [hqc] at hproof
  have hquorum := HasQuorum.of_verified (succeeds_iff.mpr ⟨(), hproof⟩)
  rwa [htype, hqcSlot, hqcHash] at hquorum

theorem Node.Sound.prepareBlock (h : node.Sound protocol signed sent id)
    (hjustified : Justified protocol signed ⟨.prepare, proposal.header.slot,
      proposal.header.height, protocol.blockHash proposal.header, node.validatorID⟩) :
    (node.prepareBlock protocol now proposal).Sound protocol signed sent id := by
  unfold Node.prepareBlock
  split
  · exact h
  · exact h.requestVote hjustified

theorem Node.parentSlotForProposal_spec (h : node.Sound protocol signed sent id) {parentHash : Hash}
    {parentSlot : ℕ} (hslot : node.parentSlotForProposal protocol parentHash = some parentSlot) :
    IsSlotOf protocol parentHash parentSlot := by
  unfold Node.parentSlotForProposal at hslot
  split_ifs at hslot with hgenesis hhead
  · obtain rfl := Option.some.inj hslot
    exact .inl ⟨hgenesis, rfl⟩
  · obtain rfl := Option.some.inj hslot
    rw [hhead]
    exact h.headSlot
  · obtain ⟨parent, hfind, rfl⟩ := Option.map_eq_some_iff.mp hslot
    obtain ⟨hoccurs, hhash⟩ := Node.blockByHash_spec h hfind
    exact .inr ⟨parent.header, hoccurs, hhash, rfl⟩

end

end Ordexus
