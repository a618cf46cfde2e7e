import Ordexus.Consensus.Vote

/-!
# The local signing record

What a validator remembers about its own votes
(`internal/posnode/round_state.go`): a cache of choices, a journal on disk and
three watermarks. A vote leaves the node only through `sendLocalVote`, which
replays an earlier choice or signs a new one beyond the watermark. Disk writes
succeed in this model; a restart drops the memory and reads the disk again.
-/

namespace Ordexus

open List

def VoteMessage.phase (message : VoteMessage) : VotePhase :=
  votePhaseForChoice message.type

/-- The last slot signed for each vote type. -/
structure Watermarks where
  lastPreparedSlot : ℕ
  lastVotedSlot : ℕ
  lastTimeoutVotedSlot : ℕ
deriving DecidableEq

structure LocalVotes where
  /-- Choices held in memory, at most one for each slot and phase. -/
  voteEnvelopeChoices : List Vote
  /-- Choices on disk, under the same keys. -/
  journal : List Vote
  watermarks : Watermarks
  durableWatermarks : Watermarks
deriving DecidableEq

section

variable (marks : Watermarks)

/-- The watermark of the decision phase, `localSignedVoteWatermarkLocked`. -/
def Watermarks.signed : ℕ :=
  max marks.lastTimeoutVotedSlot marks.lastVotedSlot

/-- `localVoteWatermarkLocked`. -/
def Watermarks.forType : VoteType → ℕ
  | .prepare => marks.lastPreparedSlot
  | .confirm | .skip => marks.signed
  | .unknown => maxUint64

/-- `localProposalVoteWatermarkLocked`. -/
def Watermarks.proposal : ℕ :=
  max marks.lastPreparedSlot marks.signed

/-- `advanceLocalVoteWatermarkLocked`. -/
def Watermarks.advance (message : VoteMessage) : Watermarks :=
  match message.type with
  | .prepare => { marks with lastPreparedSlot := max marks.lastPreparedSlot message.slot }
  | .confirm => { marks with lastVotedSlot := max marks.lastVotedSlot message.slot }
  | .skip => { marks with lastTimeoutVotedSlot := max marks.lastTimeoutVotedSlot message.slot }
  | .unknown => marks

/-- The value written under the watermark key of a vote type. -/
def Watermarks.store (message : VoteMessage) : Watermarks :=
  match message.type with
  | .prepare => { marks with lastPreparedSlot := message.slot }
  | .confirm => { marks with lastVotedSlot := message.slot }
  | .skip => { marks with lastTimeoutVotedSlot := message.slot }
  | .unknown => marks

end

/-- The entry stored under the key of a slot and phase. -/
def findChoice (votes : List Vote) (slot : ℕ) (phase : VotePhase) : Option Vote :=
  votes.find? fun vote => vote.slot = slot && vote.phase = phase

section

variable (own : LocalVotes)

/-- `cachedDecisionLocalVoteEnvelopeLocked`. -/
def LocalVotes.cachedDecision (slot : ℕ) : Option Vote :=
  findChoice own.voteEnvelopeChoices slot .decision

/-- A new signature is refused at or below the watermark of its type, and a
prepare vote also at or below the decision watermark. -/
def Watermarks.permits (marks : Watermarks) (message : VoteMessage) : Bool :=
  !(message.type = .prepare && message.slot ≤ marks.signed) &&
    !(message.slot ≤ marks.forType message.type)

/-- Write a new choice to disk, then to memory. -/
def LocalVotes.record (vote : Vote) : LocalVotes where
  voteEnvelopeChoices := vote :: own.voteEnvelopeChoices
  journal := vote :: own.journal
  watermarks := own.watermarks.advance vote.toVoteMessage
  durableWatermarks := own.durableWatermarks.store vote.toVoteMessage

/-- `prepareDurableLocalVoteEnvelope`, called while the choice is not cached. -/
def LocalVotes.prepareDurable (vote : Vote) : Option LocalVotes :=
  match findChoice own.journal vote.slot vote.phase with
  | some persisted =>
    if persisted.toVoteMessage = vote.toVoteMessage then
      some { own with
        voteEnvelopeChoices := persisted :: own.voteEnvelopeChoices
        watermarks := own.watermarks.advance persisted.toVoteMessage }
    else none
  | none =>
    if own.watermarks.permits vote.toVoteMessage then some (own.record vote) else none

/-- `sendLocalVote`: the record after the call, or `none` when no signature of
this choice leaves the node. `verified` is the verdict of `verifyVoteEnvelope` on
the freshly signed envelope. -/
def LocalVotes.sendLocalVote (vote : Vote) (verified : Bool) : Option LocalVotes :=
  match findChoice own.voteEnvelopeChoices vote.slot vote.phase with
  | some cached => if cached.toVoteMessage = vote.toVoteMessage then some own else none
  | none =>
    if own.watermarks.permits vote.toVoteMessage && verified then own.prepareDurable vote
    else none

/-- `pruneFinalizedLocalVoteJournal`: cached choices up to the finalized slot are
dropped together with their journal entries. The watermarks stay. -/
def LocalVotes.pruneFinalized (finalizedSlot : ℕ) : LocalVotes :=
  { own with
    voteEnvelopeChoices := own.voteEnvelopeChoices.filter fun vote => finalizedSlot < vote.slot
    journal := own.journal.filter fun vote =>
      !(own.voteEnvelopeChoices.any fun cached => cached.slot ≤ finalizedSlot &&
        cached.slot = vote.slot && cached.phase = vote.phase) }

/-- `loadPersistedLocalVoteEnvelopes` after a restart. The number of entries that
are loaded is limited, so `loaded` is some part of the journal. -/
def LocalVotes.reload (loaded : List Vote) : LocalVotes :=
  { own with
    voteEnvelopeChoices := loaded
    watermarks := loaded.foldl (fun marks vote => marks.advance vote.toVoteMessage)
      own.durableWatermarks }

/-- The record agrees with the messages the validator has sent: every message
lies at or below the watermark of its phase, in memory and on disk, and every
recorded choice is one of them. -/
structure LocalVotes.Covers (sent : List VoteMessage) : Prop where
  prepared : ∀ message ∈ sent, message.type = .prepare →
    message.slot ≤ own.watermarks.lastPreparedSlot ∧
      message.slot ≤ own.durableWatermarks.lastPreparedSlot
  decided : ∀ message ∈ sent, message.type.isDecision = true →
    message.slot ≤ own.watermarks.signed ∧ message.slot ≤ own.durableWatermarks.signed
  cached : ∀ vote ∈ own.voteEnvelopeChoices, vote.toVoteMessage ∈ sent
  journaled : ∀ vote ∈ own.journal, vote.toVoteMessage ∈ sent
  typed : ∀ message ∈ sent, message.type ≠ .unknown
  /-- One choice for each slot and phase. -/
  unique : ∀ first ∈ sent, ∀ second ∈ sent, first.slot = second.slot →
    first.phase = second.phase → first = second

end

variable {own : LocalVotes} {message : VoteMessage} {marks : Watermarks} {sent : List VoteMessage}

theorem VoteMessage.phase_eq_prepare :
    message.phase = .prepare ↔ message.type = .prepare := by
  unfold VoteMessage.phase
  cases message.type <;> simp [votePhaseForChoice]

theorem VoteMessage.isDecision_of_phase (hphase : message.phase = .decision)
    (htyped : message.type ≠ .unknown) : message.type.isDecision = true := by
  unfold VoteMessage.phase at hphase
  cases htype : message.type <;> simp_all [votePhaseForChoice, VoteType.isDecision]

theorem Watermarks.permits_prepare (h : marks.permits message = true)
    (htype : message.type = .prepare) : marks.lastPreparedSlot < message.slot := by
  simp only [Watermarks.permits, htype, Watermarks.forType, Bool.and_eq_true, Bool.not_eq_true',
    decide_eq_false_iff_not, Nat.not_le] at h
  exact h.2

theorem Watermarks.permits_decision (h : marks.permits message = true)
    (htype : message.type.isDecision = true) : marks.signed < message.slot := by
  cases hcase : message.type <;> rw [hcase] at htype <;>
    simp_all [Watermarks.permits, Watermarks.forType, VoteType.isDecision]

/-- Advancing covers the new message and keeps what was covered. -/
theorem Watermarks.advance_le (marks : Watermarks) (message : VoteMessage) :
    marks.lastPreparedSlot ≤ (marks.advance message).lastPreparedSlot ∧
      marks.signed ≤ (marks.advance message).signed := by
  unfold Watermarks.advance Watermarks.signed
  cases message.type <;> simp <;> omega

theorem Watermarks.advance_covers (marks : Watermarks) (message : VoteMessage) :
    (message.type = .prepare → message.slot ≤ (marks.advance message).lastPreparedSlot) ∧
      (message.type.isDecision = true → message.slot ≤ (marks.advance message).signed) := by
  unfold Watermarks.advance Watermarks.signed
  cases message.type <;> simp [VoteType.isDecision]

/-- Overwriting a watermark with a slot beyond every covered one covers them all. -/
theorem Watermarks.store_covers {durable : Watermarks} (h : marks.permits message = true)
    (htyped : message.type ≠ .unknown) (slot : ℕ) :
    (slot ≤ marks.lastPreparedSlot → slot ≤ durable.lastPreparedSlot →
      slot ≤ (durable.store message).lastPreparedSlot) ∧
    (slot ≤ marks.signed → slot ≤ durable.signed → slot ≤ (durable.store message).signed) := by
  have hprepare := Watermarks.permits_prepare h
  have hdecision := Watermarks.permits_decision h
  unfold Watermarks.store Watermarks.signed at *
  cases hcase : message.type <;> simp_all [VoteType.isDecision] <;> omega

theorem Watermarks.store_self (durable : Watermarks) (message : VoteMessage) :
    (message.type = .prepare → message.slot ≤ (durable.store message).lastPreparedSlot) ∧
      (message.type.isDecision = true → message.slot ≤ (durable.store message).signed) := by
  unfold Watermarks.store Watermarks.signed
  cases message.type <;> simp [VoteType.isDecision]

/-- A permitted message shares no slot and phase with a covered one. -/
theorem LocalVotes.Covers.fresh {other : VoteMessage} (hcovers : own.Covers sent)
    (hpermits : own.watermarks.permits message = true) (htyped : message.type ≠ .unknown)
    (hother : other ∈ sent) (hslot : message.slot = other.slot) : message.phase ≠ other.phase := by
  intro hphase
  cases hcase : other.phase with
  | prepare =>
    have hold := (hcovers.prepared other hother (VoteMessage.phase_eq_prepare.mp hcase)).1
    have hnew := Watermarks.permits_prepare hpermits
      (VoteMessage.phase_eq_prepare.mp (hphase.trans hcase))
    omega
  | decision =>
    have hold := (hcovers.decided other hother
      (VoteMessage.isDecision_of_phase hcase (hcovers.typed other hother))).1
    have hnew := Watermarks.permits_decision hpermits
      (VoteMessage.isDecision_of_phase (hphase.trans hcase) htyped)
    omega

/-- Signing a permitted message keeps the record in agreement with the history. -/
theorem LocalVotes.Covers.record {vote : Vote} (hcovers : own.Covers sent)
    (hpermits : own.watermarks.permits vote.toVoteMessage = true) (htyped : vote.type ≠ .unknown) :
    (own.record vote).Covers (vote.toVoteMessage :: sent) where
  prepared := by
    intro message hmessage htype
    rcases mem_cons.mp hmessage with rfl | hold
    · exact ⟨(own.watermarks.advance_covers _).1 htype,
        (own.durableWatermarks.store_self _).1 htype⟩
    · obtain ⟨hmemory, hdisk⟩ := hcovers.prepared message hold htype
      exact ⟨Nat.le_trans hmemory (own.watermarks.advance_le _).1,
        (Watermarks.store_covers hpermits htyped _).1 hmemory hdisk⟩
  decided := by
    intro message hmessage htype
    rcases mem_cons.mp hmessage with rfl | hold
    · exact ⟨(own.watermarks.advance_covers _).2 htype,
        (own.durableWatermarks.store_self _).2 htype⟩
    · obtain ⟨hmemory, hdisk⟩ := hcovers.decided message hold htype
      exact ⟨Nat.le_trans hmemory (own.watermarks.advance_le _).2,
        (Watermarks.store_covers hpermits htyped _).2 hmemory hdisk⟩
  cached := by
    intro cached hcached
    rcases mem_cons.mp hcached with rfl | hold
    · exact mem_cons_self
    · exact mem_cons_of_mem _ (hcovers.cached cached hold)
  journaled := by
    intro entry hentry
    rcases mem_cons.mp hentry with rfl | hold
    · exact mem_cons_self
    · exact mem_cons_of_mem _ (hcovers.journaled entry hold)
  typed := by
    intro message hmessage
    rcases mem_cons.mp hmessage with rfl | hold
    · exact htyped
    · exact hcovers.typed message hold
  unique := by
    intro first hfirst second hsecond hslot hphase
    rcases mem_cons.mp hfirst with rfl | hfirst <;>
      rcases mem_cons.mp hsecond with rfl | hsecond
    · rfl
    · exact absurd hphase (hcovers.fresh hpermits htyped hsecond hslot)
    · exact absurd hphase.symm (hcovers.fresh hpermits htyped hfirst hslot.symm)
    · exact hcovers.unique first hfirst second hsecond hslot hphase

/-- Repeating a message that was already sent adds nothing. -/
theorem LocalVotes.Covers.replay (hcovers : own.Covers sent) (hmem : message ∈ sent) :
    own.Covers (message :: sent) := by
  have hsame : ∀ m, m ∈ message :: sent → m ∈ sent := by
    intro m hm
    rcases mem_cons.mp hm with rfl | hold
    · exact hmem
    · exact hold
  exact {
    prepared := fun m hm => hcovers.prepared m (hsame m hm)
    decided := fun m hm => hcovers.decided m (hsame m hm)
    cached := fun v hv => mem_cons_of_mem _ (hcovers.cached v hv)
    journaled := fun v hv => mem_cons_of_mem _ (hcovers.journaled v hv)
    typed := fun m hm => hcovers.typed m (hsame m hm)
    unique := fun m hm m' hm' => hcovers.unique m (hsame m hm) m' (hsame m' hm') }

/-- A record with smaller memory and larger watermarks still agrees with the
history. -/
theorem LocalVotes.Covers.weaken {next : LocalVotes} (hcovers : own.Covers sent)
    (hcache : ∀ vote ∈ next.voteEnvelopeChoices, vote.toVoteMessage ∈ sent)
    (hjournal : ∀ vote ∈ next.journal, vote.toVoteMessage ∈ sent)
    (hmemory : own.watermarks.lastPreparedSlot ≤ next.watermarks.lastPreparedSlot ∧
        own.watermarks.signed ≤ next.watermarks.signed ∨
      own.durableWatermarks.lastPreparedSlot ≤ next.watermarks.lastPreparedSlot ∧
        own.durableWatermarks.signed ≤ next.watermarks.signed)
    (hdisk : next.durableWatermarks = own.durableWatermarks) : next.Covers sent where
  prepared := by
    intro message hmessage htype
    have hold := hcovers.prepared message hmessage htype
    rw [hdisk]
    omega
  decided := by
    intro message hmessage htype
    have hold := hcovers.decided message hmessage htype
    rw [hdisk]
    omega
  cached := hcache
  journaled := hjournal
  typed := hcovers.typed
  unique := hcovers.unique

/-- Every way out of `sendLocalVote` with a signature keeps the record in
agreement with the messages sent, the new one included. -/
theorem LocalVotes.Covers.sendLocalVote {next : LocalVotes} {vote : Vote} {verified : Bool}
    (hcovers : own.Covers sent) (htyped : verified = true → vote.type ≠ .unknown)
    (hsend : own.sendLocalVote vote verified = some next) :
    next.Covers (vote.toVoteMessage :: sent) := by
  unfold LocalVotes.sendLocalVote at hsend
  cases hcached : findChoice own.voteEnvelopeChoices vote.slot vote.phase with
  | some cached =>
    simp only [hcached, Option.ite_none_right_eq_some, Option.some.injEq] at hsend
    obtain ⟨hsame, rfl⟩ := hsend
    exact hcovers.replay (hsame ▸ hcovers.cached cached (mem_of_find?_eq_some hcached))
  | none =>
    simp only [hcached, Option.ite_none_right_eq_some, Bool.and_eq_true] at hsend
    obtain ⟨⟨hpermits, hverified⟩, hdurable⟩ := hsend
    unfold LocalVotes.prepareDurable at hdurable
    cases hjournal : findChoice own.journal vote.slot vote.phase with
    | none =>
      simp only [hjournal, hpermits, if_true, Option.some.injEq] at hdurable
      subst hdurable
      exact hcovers.record hpermits (htyped hverified)
    | some persisted =>
      simp only [hjournal, Option.ite_none_right_eq_some, Option.some.injEq] at hdurable
      obtain ⟨hsame, rfl⟩ := hdurable
      have hsent := hcovers.journaled persisted (mem_of_find?_eq_some hjournal)
      refine LocalVotes.Covers.replay (hcovers.weaken ?_ hcovers.journaled
        (.inl (own.watermarks.advance_le persisted.toVoteMessage)) rfl) (hsame ▸ hsent)
      intro cached hmem
      rcases mem_cons.mp hmem with rfl | hold
      · exact hsent
      · exact hcovers.cached cached hold

theorem LocalVotes.Covers.pruneFinalized (hcovers : own.Covers sent) (finalizedSlot : ℕ) :
    (own.pruneFinalized finalizedSlot).Covers sent := by
  refine hcovers.weaken ?_ ?_ (.inl ⟨Nat.le_refl _, Nat.le_refl _⟩) rfl
  · exact fun vote hvote => hcovers.cached vote (mem_of_mem_filter hvote)
  · exact fun vote hvote => hcovers.journaled vote (mem_of_mem_filter hvote)

theorem advance_foldl_le (votes : List Vote) (marks : Watermarks) :
    marks.lastPreparedSlot ≤
        (votes.foldl (fun marks vote => marks.advance vote.toVoteMessage) marks).lastPreparedSlot ∧
      marks.signed ≤
        (votes.foldl (fun marks vote => marks.advance vote.toVoteMessage) marks).signed := by
  induction votes generalizing marks with
  | nil => exact ⟨Nat.le_refl _, Nat.le_refl _⟩
  | cons vote votes ih =>
    have hstep := marks.advance_le vote.toVoteMessage
    have hrest := ih (marks.advance vote.toVoteMessage)
    exact ⟨Nat.le_trans hstep.1 hrest.1, Nat.le_trans hstep.2 hrest.2⟩

theorem LocalVotes.Covers.reload {loaded : List Vote} (hcovers : own.Covers sent)
    (hloaded : ∀ vote ∈ loaded, vote ∈ own.journal) : (own.reload loaded).Covers sent := by
  refine hcovers.weaken ?_ hcovers.journaled (.inr (advance_foldl_le loaded _)) rfl
  exact fun vote hvote => hcovers.journaled vote (hloaded vote hvote)

end Ordexus
