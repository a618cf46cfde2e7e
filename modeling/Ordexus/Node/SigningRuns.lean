import Ordexus.Consensus.CollectorCertificates
import Ordexus.Node.SigningSafety

/-!
# Runs of a signing node

Pruning deletes only choices that the watermarks cover, and a restart reads back what a crash has
left. With the calls of `SigningSafety` this gives that a validator does not contradict itself in
any run in which every choice that is found again is covered.
-/

namespace Ordexus.Signing

open Checked SigningRecord Transition List

variable {τ : Type}

namespace SigningNode

variable {node next : SigningNode τ} {votes : List VoteEnvelope}
  {proposals : List (BlockProposal τ)} {codec : ProposalCodec τ} {crypto : Crypto}
  {config : Config}

/-! ### Pruning -/

theorem sound_batchDelete {ε φ γ : Type} {layout : Layout StateKey (StateValue τ) ε φ γ}
    {choices : φ → ℕ → Option ε} {watermark : φ → ℕ} {sent : List ε} {db : Store τ}
    {keys : List StateKey} (deleted : Bool) (h : Sound layout db choices watermark sent)
    (hdelete : ∀ key ∈ keys, ∀ db, Sound layout db choices watermark sent →
      Sound layout (db.write (.delete key)) choices watermark sent) :
    Sound layout (batchDelete db keys deleted) choices watermark sent := by
  cases deleted with
  | false => exact h
  | true =>
    induction keys generalizing db with
    | nil => exact h
    | cons key keys ih =>
      exact ih (hdelete key mem_cons_self db h)
        fun other hother => hdelete other (mem_cons_of_mem key hother)

/-- What is left of a cache was there before. -/
theorem lookup_of_pruned {κ α : Type} [DecidableEq κ] {table : Table κ α} {keys : List κ} {key : κ}
    {value : α} (h : (TableWrite.applyAll table (keys.map .delete)).lookup key = some value) :
    table.lookup key = some value := by
  rw [TableWrite.lookup_applyAll_delete] at h
  split at h
  · cases h
  · exact h

theorem exists_of_mem_keys {κ α : Type} [DecidableEq κ] {table : Table κ α} {key : κ}
    (h : key ∈ table.keys) : ∃ value, table.lookup key = some value :=
  Option.isSome_iff_exists.mp (AList.lookup_isSome.mpr (AList.mem_keys.mp h))

theorem VotesSound.pruneVotes (h : node.VotesSound votes) (finalizedSlot : ℕ) (deleted : Bool) :
    (node.pruneFinalizedLocalVoteJournal finalizedSlot deleted).VotesSound votes := by
  refine Sound.forget (sound_batchDelete deleted h fun key hkey db hdb => ?_)
    fun phase slot envelope henvelope => lookup_of_pruned henvelope
  obtain ⟨⟨phase, slot⟩, hmem, rfl⟩ := mem_map.mp hkey
  obtain ⟨envelope, henvelope⟩ := exists_of_mem_keys (mem_of_mem_filter hmem)
  exact hdb.delete voteLayout_key_injective (fun _ => voteLayout_marks rfl)
    (hdb.cached_below phase slot envelope henvelope)

section

variable (h : node.ProposalsSound codec proposals) (finalizedSlot : ℕ) (deleted : Bool)
include h

theorem ProposalsSound.pruneVotes :
    (node.pruneFinalizedLocalVoteJournal finalizedSlot deleted).ProposalsSound codec
      proposals := by
  refine sound_batchDelete deleted h fun key hkey db hdb => ?_
  obtain ⟨choice, -, rfl⟩ := mem_map.mp hkey
  exact hdb.write_foreign (proposalLayout_foreign codec rfl)

theorem ProposalsSound.pruneProposals :
    (node.pruneFinalizedLocalProposalJournal finalizedSlot deleted).ProposalsSound codec
      proposals := by
  refine Sound.forget (sound_batchDelete deleted h fun key hkey db hdb => ?_)
    fun _ slot proposal hproposal => lookup_of_pruned hproposal
  obtain ⟨slot, hmem, rfl⟩ := mem_map.mp hkey
  obtain ⟨proposal, hproposal⟩ := exists_of_mem_keys (mem_of_mem_filter hmem)
  exact hdb.delete (p := ()) (proposalLayout_key_injective codec)
    (fun _ => proposalLayout_marks rfl) (hdb.cached_below () slot proposal hproposal)

end

theorem VotesSound.pruneProposals (h : node.VotesSound votes) (finalizedSlot : ℕ) (deleted : Bool) :
    (node.pruneFinalizedLocalProposalJournal finalizedSlot deleted).VotesSound votes := by
  refine sound_batchDelete deleted h fun key hkey db hdb => ?_
  obtain ⟨slot, -, rfl⟩ := mem_map.mp hkey
  exact hdb.write_foreign (voteLayout_foreign rfl)

/-! ### Restarts -/

theorem exists_of_mem_prefixQuery {β : Type} {table : Table StateKey (StateValue τ)}
    {select : StateKey → StateValue τ → Option β} {limit : ℕ} {content : β}
    (h : content ∈ prefixQueryReverseWithLimit table select limit) :
    ∃ key value, table.lookup key = some value ∧ select key value = some content := by
  obtain ⟨⟨key, value⟩, hrow, hselect⟩ := mem_filterMap.mp (mem_of_mem_take h)
  exact ⟨key, value, AList.mem_lookup_iff.mpr ((mem_insertionSort _).mp hrow), hselect⟩

/-- What the query for proposals finds is in the journal. -/
theorem ProposalsSound.entry_of_query (h : node.ProposalsSound codec proposals)
    {proposal : BlockProposal τ} {limit : ℕ}
    (hmem : proposal ∈ prefixQueryReverseWithLimit node.db.visible selectProposal limit) :
    (proposalLayout codec).entry node.db () proposal.header.slot = some proposal := by
  obtain ⟨key, value, hlookup, hselect⟩ := exists_of_mem_prefixQuery hmem
  cases key with
  | localProposal slot =>
    have hentry : (proposalLayout codec).entry node.db () slot = some proposal :=
      Option.bind_eq_some_iff.mpr ⟨value, hlookup, hselect⟩
    obtain ⟨-, hslot⟩ := h.keyed () slot proposal (Layout.possible_of_entry hentry)
    obtain rfl := hslot
    exact hentry
  | _ => cases hselect

variable {envelope : VoteEnvelope} {accepts : VoteEnvelope → Bool}

/-- What the query for votes finds is in the journal. -/
theorem VotesSound.entry_of_query (h : node.VotesSound votes) {limit : ℕ}
    (hmem : envelope ∈ prefixQueryReverseWithLimit node.db.visible selectEnvelope limit) :
    (voteLayout τ).entry node.db envelope.choiceKey.1 envelope.choiceKey.2 = some envelope := by
  obtain ⟨key, value, hlookup, hselect⟩ := exists_of_mem_prefixQuery hmem
  cases key with
  | localVoteEnvelope phase slot =>
    have hentry : (voteLayout τ).entry node.db phase slot = some envelope :=
      Option.bind_eq_some_iff.mpr ⟨value, hlookup, hselect⟩
    obtain ⟨hphase, hslot⟩ := h.keyed phase slot envelope (Layout.possible_of_entry hentry)
    obtain rfl := hphase
    obtain rfl := hslot
    exact hentry
  | _ => cases hselect

theorem loadVote_cases (h : node.loadVote crypto config accepts envelope = .ok next) :
    envelope.vote.type ≠ .unknown ∧
      (next = { node with
          watermarks := node.watermarks.advance envelope.vote.toVoteMessage } ∨
        next = node.rememberVote envelope) := by
  unfold loadVote at h
  simp only [eq_ok] at h
  obtain ⟨-, hverified, h⟩ := h
  refine ⟨type_of_verifyVoteEnvelope hverified, ?_⟩
  split at h
  · simp only [eq_ok] at h
    obtain ⟨-, -, rfl⟩ := h
    exact .inl rfl
  · exact .inr (pure_eq_ok.mp h).symm

theorem VotesSound.load (h : node.VotesSound votes)
    (hentry : (voteLayout τ).entry node.db envelope.choiceKey.1 envelope.choiceKey.2 =
      some envelope) (hload : node.loadVote crypto config accepts envelope = .ok next) :
    next.VotesSound votes ∧ next.db = node.db ∧
      next.proposalChoices = node.proposalChoices ∧
      next.lastProducedSlot = node.lastProducedSlot := by
  obtain ⟨htype, rfl | rfl⟩ := loadVote_cases hload
  · exact ⟨Sound.raise h (node.watermarks.forPhase_le_advance _), rfl, rfl, rfl⟩
  · exact ⟨h.remember htype hentry, rfl, rfl, rfl⟩

theorem VotesSound.loadPersisted
    (h : VotesSound { node with watermarks := loadWatermarks node.db.visible } votes)
    (hload : node.loadPersistedLocalVoteEnvelopes crypto config accepts = .ok next) :
    next.VotesSound votes ∧ next.db = node.db ∧ next.proposalChoices = node.proposalChoices ∧
      next.lastProducedSlot = node.lastProducedSlot := by
  refine @foldlM_invariant _ _ _ _ _ _ _
    (fun next => next.VotesSound votes ∧ next.db = node.db ∧
      next.proposalChoices = node.proposalChoices ∧
      next.lastProducedSlot = node.lastProducedSlot) hload ⟨h, rfl, rfl, rfl⟩ ?_
  rintro before envelope hmem after ⟨hsound, hdb, hchoices, hslot⟩ hstep
  have hquery : envelope ∈ prefixQueryReverseWithLimit before.db.visible selectEnvelope
      maxLoadedLocalVoteEnvelopes := by
    rw [hdb]
    exact hmem
  obtain ⟨hafter, hsame, hkept, hlast⟩ := hsound.load (hsound.entry_of_query hquery) hstep
  exact ⟨hafter, hsame.trans hdb, hkept.trans hchoices, hlast.trans hslot⟩

section

variable [DecidableEq τ]

/-- Loading a proposal touches the proposals in memory only. -/
theorem loadProposal_cases {proposal : BlockProposal τ}
    (h : node.loadProposal crypto config codec proposal = .ok next) :
    (next = { node with lastProducedSlot := max node.lastProducedSlot proposal.header.slot }) ∨
      next = node.rememberProposal proposal := by
  unfold loadProposal at h
  simp only [eq_ok] at h
  obtain ⟨-, h⟩ := h
  split at h
  · simp only [eq_ok] at h
    obtain ⟨-, rfl⟩ := h
    exact .inl rfl
  · exact .inr (pure_eq_ok.mp h).symm

theorem ProposalsSound.load (h : node.ProposalsSound codec proposals) {proposal : BlockProposal τ}
    (hentry : (proposalLayout codec).entry node.db () proposal.header.slot = some proposal)
    (hload : node.loadProposal crypto config codec proposal = .ok next) :
    next.ProposalsSound codec proposals ∧ next.db = node.db ∧
      next.voteEnvelopeChoices = node.voteEnvelopeChoices := by
  rcases loadProposal_cases hload with rfl | rfl
  · exact ⟨Sound.raise h fun _ => le_max_left _ _, rfl, rfl⟩
  · exact ⟨h.remember hentry rfl rfl (le_max_left _ _) (le_max_right _ _), rfl, rfl⟩

/-- The proposals are loaded while the votes in memory are still empty. -/
theorem ProposalsSound.loadPersisted (h : node.ProposalsSound codec proposals)
    {kept : List Bool} (hload : (fresh (node.db.crash kept)).loadPersistedLocalProposals crypto
      config codec = .ok next) :
    next.ProposalsSound codec proposals ∧ next.db = node.db.crash kept ∧
      next.voteEnvelopeChoices = ∅ := by
  refine @foldlM_invariant _ _ _ _ _ _ _
    (fun next => next.ProposalsSound codec proposals ∧ next.db = node.db.crash kept ∧
      next.voteEnvelopeChoices = ∅) hload ⟨Sound.crash h kept, rfl, rfl⟩ ?_
  rintro before proposal hmem after ⟨hsound, hdb, hcache⟩ hstep
  have hquery : proposal ∈ prefixQueryReverseWithLimit before.db.visible selectProposal
      maxLoadedLocalProposals := by
    rw [hdb]
    exact hmem
  obtain ⟨hafter, hsame, hkept⟩ := hsound.load (hsound.entry_of_query hquery) hstep
  exact ⟨hafter, hsame.trans hdb, hkept.trans hcache⟩

theorem sound_restart (hvotes : node.VotesSound votes)
    (hproposals : node.ProposalsSound codec proposals) {kept : List Bool}
    {accepts : VoteEnvelope → Bool}
    (hrestart : node.restart crypto config codec kept accepts = .ok next) :
    next.VotesSound votes ∧ next.ProposalsSound codec proposals := by
  obtain ⟨loaded, hloaded, hnext⟩ := bind_eq_ok.mp hrestart
  obtain ⟨hsound, hdb, hcache⟩ := hproposals.loadPersisted hloaded
  have hcrashed : VotesSound { loaded with watermarks := loadWatermarks loaded.db.visible }
      votes := by
    simp only [hdb, hcache]
    exact Sound.crash hvotes kept
  obtain ⟨hafter, hsame, hchoices, hlast⟩ := hcrashed.loadPersisted hnext
  refine ⟨hafter, ?_⟩
  unfold ProposalsSound
  rw [hsame, hchoices, hlast]
  exact hsound

end

end SigningNode

/-! ### Runs -/

namespace SigningRun

variable {run next : SigningRun τ} {codec : ProposalCodec τ} {crypto : Crypto} {config : Config}

section

variable (codec : ProposalCodec τ) (run : SigningRun τ)

/-- A choice that a call finds again, in memory or in the journal, is covered: whatever a crash
leaves, the watermark on disk of its phase has reached its slot. -/
def ReplaysCovered : SigningEvent τ → Prop
  | .prepareVote envelope _ _ => run.node.VoteCovered envelope
  | .prepareProposal proposal _ => run.node.ProposalCovered codec proposal
  | .pruneVotes _ _ | .pruneProposals _ _ | .restart _ _ => True

/-- Nothing that was returned contradicts anything else that was returned. -/
def NoConflict : Prop :=
  (∀ first ∈ run.votes, ∀ second ∈ run.votes, first.vote.slot = second.vote.slot →
    votePhaseForChoice first.vote.type = votePhaseForChoice second.vote.type →
      sameVoteChoice first.vote second.vote = true) ∧
  ∀ first ∈ run.proposals, ∀ second ∈ run.proposals,
    first.header.slot = second.header.slot → codec.stored first = codec.stored second

/-- Both records of the node agree with what was returned. -/
structure Sound : Prop where
  votes : run.node.VotesSound run.votes
  proposals : run.node.ProposalsSound codec run.proposals

end

theorem Sound.noConflict (h : run.Sound codec) : run.NoConflict codec := by
  refine ⟨fun first hfirst second hsecond hslot hphase => ?_,
    fun first hfirst second hsecond hslot => ?_⟩
  · have hsame : first.vote.toVoteMessage = second.vote.toVoteMessage :=
      h.votes.unique first hfirst second hsecond hphase hslot
    exact decide_eq_true hsame
  · exact h.proposals.unique first hfirst second hsecond rfl hslot

theorem sound_start (codec : ProposalCodec τ) : (start : SigningRun τ).Sound codec := by
  refine ⟨?_, Sound.start⟩
  have hzero : (fun _ => 0) = (⟨0, 0, 0⟩ : Watermarks).forPhase := by
    funext phase
    cases phase <;> rfl
  change SigningRecord.Sound (voteLayout τ) .empty (fun _ _ => none)
    (⟨0, 0, 0⟩ : Watermarks).forPhase []
  rw [← hzero]
  exact Sound.start

/-- A sufficient test: a choice is found again only where the store is flushed and the watermark
has reached the slot. -/
def replaysFlushed (codec : ProposalCodec τ) (run : SigningRun τ) : SigningEvent τ → Bool
  | .prepareVote envelope _ _ =>
    (run.node.voteEnvelopeChoices.lookup envelope.choiceKey).isNone &&
        (run.node.db.visible.lookup (localVoteEnvelopeStateKey envelope.vote)).isNone ||
      (voteLayout τ).isCovered run.node.db envelope.choiceKey.1 envelope.choiceKey.2
  | .prepareProposal proposal _ =>
    (run.node.proposalChoices.lookup proposal.header.slot).isNone &&
        (run.node.db.visible.lookup (.localProposal proposal.header.slot)).isNone ||
      (proposalLayout codec).isCovered run.node.db () proposal.header.slot
  | .pruneVotes _ _ | .pruneProposals _ _ | .restart _ _ => true

theorem replaysCovered_of_flushed (codec : ProposalCodec τ) (run : SigningRun τ)
    (event : SigningEvent τ) (h : run.replaysFlushed codec event = true) :
    run.ReplaysCovered codec event := by
  -- nothing is found, or what is found is covered
  have hcase {found journal covered : Bool} {property : Prop}
      (htest : ((!found && !journal) || covered) = true) (hcovered : covered = true → property)
      (hfound : found = true ∨ journal = true) : property := by
    refine hcovered ?_
    rcases hfound with rfl | rfl
    · simpa using htest
    · simpa using htest
  cases event with
  | prepareVote envelope verified outcome | prepareProposal proposal outcome =>
    rw [replaysFlushed, ← Option.not_isSome, ← Option.not_isSome] at h
    exact hcase h Layout.covered_of_isCovered
  | pruneVotes finalizedSlot deleted => trivial
  | pruneProposals finalizedSlot deleted => trivial
  | restart kept accepts => trivial

variable [DecidableEq τ]

theorem Sound.step (h : run.Sound codec) {event : SigningEvent τ}
    (hcovered : run.ReplaysCovered codec event)
    (hstep : run.step crypto config codec event = some next) : next.Sound codec := by
  cases event with
  | prepareVote envelope verified outcome =>
    cases hstep
    exact ⟨h.votes.prepare hcovered rfl, h.proposals.prepareVote rfl⟩
  | prepareProposal proposal outcome =>
    cases hstep
    exact ⟨h.votes.prepareProposal rfl, h.proposals.prepare hcovered rfl⟩
  | pruneVotes finalizedSlot deleted =>
    cases hstep
    exact ⟨h.votes.pruneVotes finalizedSlot deleted, h.proposals.pruneVotes finalizedSlot deleted⟩
  | pruneProposals finalizedSlot deleted =>
    cases hstep
    exact ⟨h.votes.pruneProposals finalizedSlot deleted,
      h.proposals.pruneProposals finalizedSlot deleted⟩
  | restart kept accepts =>
    obtain ⟨node, hnode, rfl⟩ := Option.map_eq_some_iff.mp hstep
    obtain ⟨hvotes, hproposals⟩ :=
      SigningNode.sound_restart h.votes h.proposals (toOption_eq_some.mp hnode)
    exact ⟨hvotes, hproposals⟩

/-- A validator never contradicts itself, in every run in which the choices that are found again
are covered. -/
theorem no_conflict_of_covered
    (hreach : Reaches (SigningRun.step crypto config codec) (ReplaysCovered codec) .start run) :
    run.NoConflict codec := by
  have hsound : run.Sound codec :=
    hreach.invariant (sound_start codec) fun _ _ _ h hok hstep => h.step hok hstep
  exact hsound.noConflict

/-- Proposals that are stored as they are. -/
def plainCodec : ProposalCodec Unit where
  stored := .ok
  stored_stored := fun _ => rfl
  header_stored := fun h => by rw [Except.ok.inj h]

def soloConfig : Config where
  chainID := []
  consensusPublicKey := 1

/-- A vote of the validator to confirm a block in the first slot. -/
def soloVote (blockHash : Hash) : VoteEnvelope where
  vote :=
    { type := .confirm, slot := 1, blockHeight := 1, blockHash := blockHash,
      voterID := countingCrypto.newValidatorID 1, stake := 1, createdAtUnixMilli := 1 }
  publicKey := 1
  signature := 0
  blsPublicKey := []
  blsSignature := []
  originPeerID := []
  hopCount := 0
  maxHops := 0

def allSucceed : StoreOutcome :=
  ⟨true, true, true, true, true⟩

/-- A vote is returned, found again after a restart and returned once more, and another choice is
refused. -/
theorem no_conflict_after_restart :
    ∃ run : SigningRun Unit, run.votes = [soloVote 7, soloVote 7] ∧
      run.NoConflict plainCodec := by
  have hrun : (run (fun run event => if replaysFlushed plainCodec run event then
      step countingCrypto soloConfig plainCodec run event else none) .start
      [.prepareVote (soloVote 7) true allSucceed, .restart [] fun _ => true,
        .prepareVote (soloVote 7) true allSucceed,
        .prepareVote (soloVote 8) true allSucceed]).any
      (fun run => decide (run.votes = [soloVote 7, soloVote 7])) = true := by
    decide +kernel
  obtain ⟨run, hreach, htest⟩ := exists_of_checked_run _ (replaysCovered_of_flushed plainCodec) hrun
  exact ⟨run, of_decide_eq_true htest, no_conflict_of_covered hreach⟩

/-- The flush of a vote fails, the retry finds the vote in the journal and returns it, and a crash
loses the entry and the watermark: another vote for the same slot is returned. -/
theorem conflict_after_failed_flush :
    ∃ run, Reaches (SigningRun.step countingCrypto soloConfig plainCodec) anyStep .start run ∧
      run.votes = [soloVote 8, soloVote 7] ∧ ¬run.NoConflict plainCodec := by
  have hrun : (run (step countingCrypto soloConfig plainCodec) .start
      [.prepareVote (soloVote 7) true { allSucceed with flush := false },
        .prepareVote (soloVote 7) true allSucceed, .restart [] fun _ => true,
        .prepareVote (soloVote 8) true allSucceed]).any
      (fun run => decide (run.votes = [soloVote 8, soloVote 7])) = true := by
    decide +kernel
  obtain ⟨run, hreach, htest⟩ := exists_of_run hrun
  have hvotes : run.votes = [soloVote 8, soloVote 7] := of_decide_eq_true htest
  refine ⟨run, hreach, hvotes, fun hnone => ?_⟩
  have hsame := hnone.1 (soloVote 8) (by simp [hvotes]) (soloVote 7) (by simp [hvotes]) rfl rfl
  cases hsame

end SigningRun

end Ordexus.Signing
