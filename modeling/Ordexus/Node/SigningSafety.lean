import Ordexus.Library.SigningRecord
import Ordexus.Library.Transition
import Ordexus.Node.SigningJournal

/-!
# A validator does not contradict itself

Over every run of a signing node, with failing writes, crashes, reloads and pruning, the votes
and proposals that were returned for broadcast agree for each slot and phase, as long as a choice
that is found again is covered: whatever a crash leaves, the watermark on disk has reached its
slot. A call that was interrupted between its first write and its flush leaves choices that are
not, and a retry returns them.
-/

namespace Ordexus

def Watermarks.forPhase (marks : Watermarks) : VotePhase → ℕ
  | .prepare => marks.lastPreparedSlot
  | .decision => marks.signed

theorem Watermarks.forType_eq (marks : Watermarks) {type : VoteType} (h : type ≠ .unknown) :
    marks.forType type = marks.forPhase (votePhaseForChoice type) := by
  cases type with
  | unknown => exact absurd rfl h
  | confirm | skip | prepare => rfl

theorem Watermarks.forPhase_le_advance (marks : Watermarks) (message : VoteMessage)
    (phase : VotePhase) : marks.forPhase phase ≤ (marks.advance message).forPhase phase := by
  cases phase with
  | prepare => exact (marks.advance_le message).1
  | decision => exact (marks.advance_le message).2

theorem Watermarks.slot_le_advance (marks : Watermarks) {message : VoteMessage}
    (h : message.type ≠ .unknown) :
    message.slot ≤ (marks.advance message).forPhase (votePhaseForChoice message.type) := by
  obtain ⟨hprepare, hdecision⟩ := marks.advance_covers message
  cases htype : message.type with
  | unknown => exact absurd htype h
  | prepare => exact hprepare htype
  | confirm | skip => exact hdecision (by rw [htype]; rfl)

namespace Signing

open Checked SigningRecord Transition TableWrite FlushedStore

variable {τ : Type}

/-! ### The two records of a node -/

def voteLayout (τ : Type) :
    Layout StateKey (StateValue τ) VoteEnvelope VotePhase VoteMessage where
  key := .localVoteEnvelope
  read := StateValue.envelope?
  marks := fun table => (loadWatermarks table).forPhase
  phase := fun envelope => votePhaseForChoice envelope.vote.type
  slot := fun envelope => envelope.vote.slot
  choice := fun envelope => envelope.vote.toVoteMessage

def proposalLayout (codec : ProposalCodec τ) :
    Layout StateKey (StateValue τ) (BlockProposal τ) Unit (Except String (BlockProposal τ)) where
  key := fun _ => .localProposal
  read := StateValue.proposal?
  marks := fun table _ => loadLocalVoteWatermark table .localProposalWatermark
  phase := fun _ => ()
  slot := fun proposal => proposal.header.slot
  choice := codec.stored

theorem voteLayout_key_injective (p : VotePhase) (s : ℕ) (q : VotePhase) (t : ℕ)
    (h : (voteLayout τ).key p s = (voteLayout τ).key q t) : p = q ∧ s = t :=
  StateKey.localVoteEnvelope.inj h

theorem proposalLayout_key_injective (codec : ProposalCodec τ) (p : Unit) (s : ℕ) (q : Unit) (t : ℕ)
    (h : (proposalLayout codec).key p s = (proposalLayout codec).key q t) : p = q ∧ s = t :=
  ⟨rfl, StateKey.localProposal.inj h⟩

variable {operation : TableWrite StateKey (StateValue τ)} {table : Table StateKey (StateValue τ)}

/-- A watermark is seen under its key only. -/
theorem loadLocalVoteWatermark_applyTo {key : StateKey} (h : operation.key ≠ key) :
    loadLocalVoteWatermark (applyTo table operation) key =
      loadLocalVoteWatermark table key := by
  rw [loadLocalVoteWatermark, loadLocalVoteWatermark]
  cases operation with
  | put other value =>
    rw [applyTo, Table.lookup_insert, if_neg fun heq => h heq.symm]
  | delete other =>
    rw [applyTo, lookup_erase, if_neg fun heq => h heq.symm]

theorem loadLocalVoteWatermark_put (key : StateKey) (slot : ℕ) :
    loadLocalVoteWatermark (applyTo table (.put key (.watermark slot))) key = slot := by
  rw [loadLocalVoteWatermark, applyTo, Table.lookup_insert, if_pos rfl]
  rfl

theorem loadWatermarks_applyTo (hprepare : operation.key ≠ .localPrepareVoteWatermark)
    (hconfirm : operation.key ≠ .localConfirmVoteWatermark)
    (htimeout : operation.key ≠ .localTimeoutVoteWatermark) :
    loadWatermarks (applyTo table operation) = loadWatermarks table := by
  rw [loadWatermarks, loadWatermarks, loadLocalVoteWatermark_applyTo hprepare,
    loadLocalVoteWatermark_applyTo hconfirm, loadLocalVoteWatermark_applyTo htimeout]

/-- The watermark of a vote type is one of its phase. -/
theorem forPhase_put {type : VoteType} {key : StateKey}
    (hkey : localVoteWatermarkStateKey type = .ok key) (slot : ℕ) :
    slot ≤ (loadWatermarks (applyTo table (.put key (.watermark slot)))).forPhase
        (votePhaseForChoice type) ∧
      ∀ phase, phase ≠ votePhaseForChoice type →
        (loadWatermarks (applyTo table (.put key (.watermark slot)))).forPhase phase =
          (loadWatermarks table).forPhase phase := by
  have hother {other : StateKey} (hne : key ≠ other) :
      loadLocalVoteWatermark (applyTo table (.put key (.watermark slot))) other =
        loadLocalVoteWatermark table other :=
    @loadLocalVoteWatermark_applyTo _ (.put key (.watermark slot)) _ _ hne
  have hself := @loadLocalVoteWatermark_put _ table key slot
  cases type with
  | unknown => cases hkey
  | prepare =>
    cases hkey
    refine ⟨hself.ge, fun phase hphase => ?_⟩
    cases phase with
    | prepare => exact absurd rfl hphase
    | decision =>
      have hconfirm := @hother .localConfirmVoteWatermark (by decide)
      have htimeout := @hother .localTimeoutVoteWatermark (by decide)
      simp only [Watermarks.forPhase, Watermarks.signed, loadWatermarks, hconfirm, htimeout]
  | confirm =>
    cases hkey
    refine ⟨le_max_of_le_right hself.ge, fun phase hphase => ?_⟩
    cases phase with
    | prepare => exact hother (by decide)
    | decision => exact absurd rfl hphase
  | skip =>
    cases hkey
    refine ⟨le_max_of_le_left hself.ge, fun phase hphase => ?_⟩
    cases phase with
    | prepare => exact hother (by decide)
    | decision => exact absurd rfl hphase

/-! ### Writing a choice -/

def StateKey.isVoteKey : StateKey → Bool
  | .localVoteEnvelope _ _ | .localPrepareVoteWatermark | .localConfirmVoteWatermark
  | .localTimeoutVoteWatermark => true
  | .localProposal _ | .localProposalWatermark => false

theorem voteLayout_foreign (h : operation.key.isVoteKey = false) :
    (voteLayout τ).Foreign operation := by
  have hne {key : StateKey} (hkey : key.isVoteKey = true) : operation.key ≠ key := by
    rintro rfl
    rw [h] at hkey
    cases hkey
  refine ⟨fun phase slot => hne rfl, fun table => ?_⟩
  change (loadWatermarks _).forPhase = _
  rw [loadWatermarks_applyTo (hne rfl) (hne rfl) (hne rfl)]
  rfl

/-- An entry is no watermark. -/
theorem voteLayout_marks {phase : VotePhase} {slot : ℕ}
    (h : operation.key = .localVoteEnvelope phase slot) :
    (voteLayout τ).marks (applyTo table operation) = (voteLayout τ).marks table := by
  have hloaded : loadWatermarks (applyTo table operation) = loadWatermarks table :=
    loadWatermarks_applyTo (by rw [h]; exact nofun) (by rw [h]; exact nofun)
      (by rw [h]; exact nofun)
  change (loadWatermarks _).forPhase = _
  rw [hloaded]
  rfl

theorem proposalLayout_foreign (codec : ProposalCodec τ) (h : operation.key.isVoteKey = true) :
    (proposalLayout codec).Foreign operation := by
  have hne {key : StateKey} (hkey : key.isVoteKey = false) : operation.key ≠ key := by
    rintro rfl
    rw [h] at hkey
    cases hkey
  refine ⟨fun _ slot => hne rfl, fun table => ?_⟩
  funext _
  exact loadLocalVoteWatermark_applyTo (hne rfl)

section

variable {kind : String} {db nextDB : Store τ} {key : StateKey} {value : StateValue τ}
  {watermarkKey : Except String StateKey} {slot : ℕ} {outcome : StoreOutcome}
  {result : Except String Unit}

theorem persistChoice_cases
    (h : persistChoice kind db key value watermarkKey slot outcome = (nextDB, result)) :
    ((∃ message, result = .error message) ∧
      (nextDB = db ∨ nextDB = db.write (.put key value) ∨
        ∃ mark, watermarkKey = .ok mark ∧
          nextDB = (db.write (.put key value)).write (.put mark (.watermark slot)))) ∨
    (result = .ok () ∧ ∃ mark, watermarkKey = .ok mark ∧
      nextDB = ((db.write (.put key value)).write (.put mark (.watermark slot))).flush) := by
  unfold persistChoice at h
  split at h
  · cases h
    exact .inl ⟨⟨_, rfl⟩, .inl rfl⟩
  · cases watermarkKey with
    | error message =>
      cases h
      exact .inl ⟨⟨_, rfl⟩, .inr (.inl rfl)⟩
    | ok mark =>
      dsimp only at h
      split at h
      · cases h
        exact .inl ⟨⟨_, rfl⟩, .inr (.inl rfl)⟩
      · split at h
        · cases h
          exact .inl ⟨⟨_, rfl⟩, .inr (.inr ⟨mark, rfl, rfl⟩)⟩
        · cases h
          exact .inr ⟨rfl, mark, rfl, rfl⟩

variable {ε φ γ : Type} {layout : Layout StateKey (StateValue τ) ε φ γ}
  {choices : φ → ℕ → Option ε} {watermark : φ → ℕ} {sent : List ε}

/-- A choice of the other record is written. -/
theorem sound_persist_foreign (h : Sound layout db choices watermark sent)
    (hentry : layout.Foreign (.put key value))
    (hmark : ∀ mark, watermarkKey = .ok mark → layout.Foreign (.put mark (.watermark slot)))
    (hpersist : persistChoice kind db key value watermarkKey slot outcome = (nextDB, result)) :
    Sound layout nextDB choices watermark sent := by
  have hwritten := h.write_foreign hentry
  rcases persistChoice_cases hpersist with ⟨-, rfl | rfl | ⟨mark, hkey, rfl⟩⟩ | ⟨-, mark, hkey, rfl⟩
  · exact h
  · exact hwritten
  · exact hwritten.write_foreign (hmark mark hkey)
  · exact (hwritten.write_foreign (hmark mark hkey)).flush

/-- A new choice is written: what was sent is covered at every stage, and once all writes have
succeeded the choice is read back and covered too. -/
theorem sound_persist {a : ε} (h : Sound layout db choices watermark sent)
    (hinjective : ∀ p s q t, layout.key p s = layout.key q t → p = q ∧ s = t)
    (hread : layout.read value = some a)
    (hmarks : ∀ table, layout.marks (applyTo table
      (.put (layout.key (layout.phase a) (layout.slot a)) value)) = layout.marks table)
    (hnone : layout.entry db (layout.phase a) (layout.slot a) = none)
    (hchoices : choices (layout.phase a) (layout.slot a) = none)
    (hfresh : watermark (layout.phase a) < layout.slot a)
    (hmarkKey : ∀ mark, watermarkKey = .ok mark → ∀ p s, mark ≠ layout.key p s)
    (hmark : ∀ mark, watermarkKey = .ok mark → ∀ table,
      layout.slot a ≤ layout.marks (applyTo table
          (.put mark (.watermark (layout.slot a)))) (layout.phase a) ∧
        ∀ q, q ≠ layout.phase a → layout.marks (applyTo table
          (.put mark (.watermark (layout.slot a)))) q = layout.marks table q)
    (hpersist : persistChoice kind db (layout.key (layout.phase a) (layout.slot a)) value
      watermarkKey (layout.slot a) outcome = (nextDB, result)) :
    Sound layout nextDB choices watermark sent ∧
      (result = .ok () → layout.entry nextDB (layout.phase a) (layout.slot a) = some a ∧
        layout.Covered nextDB (layout.phase a) (layout.slot a)) := by
  have hwritten := h.write_entry rfl hinjective hread hmarks hnone hchoices hfresh
  have hmarked (mark : StateKey) (hkey : watermarkKey = .ok mark) :
      Sound layout ((db.write (.put (layout.key (layout.phase a) (layout.slot a)) value)).write
        (.put mark (.watermark (layout.slot a)))) choices watermark sent := by
    refine hwritten.write_mark (hmarkKey mark hkey) fun b hb table hle => ?_
    obtain ⟨hreached, hother⟩ := hmark mark hkey table
    by_cases hphase : layout.phase b = layout.phase a
    · have hbelow := h.below b hb
      rw [hphase] at hbelow ⊢
      omega
    · rw [hother _ hphase]
      exact hle
  rcases persistChoice_cases hpersist with ⟨⟨message, rfl⟩, rfl | rfl | ⟨mark, hkey, rfl⟩⟩ |
    ⟨rfl, mark, hkey, rfl⟩
  · exact ⟨h, nofun⟩
  · exact ⟨hwritten, nofun⟩
  · exact ⟨hmarked mark hkey, nofun⟩
  · refine ⟨(hmarked mark hkey).flush, fun _ => ⟨?_, fun table htable => ?_⟩⟩
    · -- the watermark has another key than the entry
      rw [Layout.entry, visible_flush, visible_write,
        visible_write, applyTo, applyTo, Table.lookup_insert,
        if_neg (hmarkKey mark hkey _ _).symm, Table.lookup_insert, if_pos rfl, Option.bind_some,
        hread]
    · rw [survives_flush.mp htable, visible_write]
      exact (hmark mark hkey _).1

end

namespace SigningNode

/-- The votes that were sent agree with the node. -/
def VotesSound (node : SigningNode τ) (votes : List VoteEnvelope) : Prop :=
  Sound (voteLayout τ) node.db (fun phase slot => node.voteEnvelopeChoices.lookup (phase, slot))
    node.watermarks.forPhase votes

variable {verified : Bool} {envelope : VoteEnvelope} {result : Except String VoteEnvelope}

/-- The proposals that were sent agree with the node. -/
def ProposalsSound (codec : ProposalCodec τ) (node : SigningNode τ)
    (proposals : List (BlockProposal τ)) : Prop :=
  Sound (proposalLayout codec) node.db (fun _ slot => node.proposalChoices.lookup slot)
    (fun _ => node.lastProducedSlot) proposals

variable {node next : SigningNode τ} {votes : List VoteEnvelope}
  {proposals : List (BlockProposal τ)} {codec : ProposalCodec τ} {crypto : Crypto}
  {config : Config} {outcome : StoreOutcome}

theorem refused {α : Type} {message : String} {result : Except String α}
    (h : (node, .error message) = (next, result)) :
    (∃ message, result = .error message) ∧ next = node := by
  cases h
  exact ⟨⟨message, rfl⟩, rfl⟩

/-! ### Votes -/

theorem type_of_verifyVoteEnvelope (h : verifyVoteEnvelope verified envelope = .ok ()) :
    envelope.vote.type ≠ .unknown := by
  simp only [verifyVoteEnvelope, Vote.marshalBinary, Vote.validate, eq_ok] at h
  obtain ⟨-, ⟨⟨htype, -⟩, -⟩, -⟩ := h
  exact htype

/-- A vote is remembered that has the same content as the one in the journal. -/
theorem VotesSound.remember (h : node.VotesSound votes) (htype : envelope.vote.type ≠ .unknown)
    (hentry : (voteLayout τ).entry node.db envelope.choiceKey.1 envelope.choiceKey.2 =
      some envelope) : (node.rememberVote envelope).VotesSound votes := by
  refine Sound.remember_entry h (a := envelope) hentry rfl (fun phase slot other hother => ?_)
    (node.watermarks.forPhase_le_advance _) (node.watermarks.slot_le_advance htype)
  change (node.voteEnvelopeChoices.insert envelope.choiceKey envelope).lookup (phase, slot) =
    some other at hother
  rw [Table.lookup_insert] at hother
  split at hother
  · next hkey =>
    obtain ⟨hphase, hslot⟩ := Prod.mk.inj hkey
    exact .inr ⟨hphase, hslot, (Option.some.inj hother).symm⟩
  · exact .inl hother

theorem lookup_rememberVote (node : SigningNode τ) (envelope : VoteEnvelope) :
    (node.rememberVote envelope).voteEnvelopeChoices.lookup envelope.choiceKey = some envelope :=
  AList.lookup_insert _

/-- What `signVote` does: it refuses, or it writes the choice beyond the watermark. -/
theorem signVote_cases (h : node.signVote envelope outcome = (next, result)) :
    ((∃ message, result = .error message) ∧ next = node) ∨
    (node.watermarks.forType envelope.vote.type < envelope.vote.slot ∧ ∃ db written,
      persistChoice "vote" node.db (localVoteEnvelopeStateKey envelope.vote) (.envelope envelope)
        (localVoteWatermarkStateKey envelope.vote.type) envelope.vote.slot outcome =
          (db, written) ∧
      ((written = .ok () ∧ result = .ok envelope ∧
          next = SigningNode.rememberVote { node with db := db } envelope) ∨
        ((∃ message, result = .error message) ∧ next = { node with db := db }))) := by
  unfold signVote at h
  dsimp only at h
  split at h
  · exact .inl (refused h)
  split at h
  · exact .inl (refused h)
  next hbeyond =>
  split at h
  · exact .inl (refused h)
  · refine .inr ⟨Nat.lt_of_not_le hbeyond, _, _, rfl, ?_⟩
    split at h
    · exact .inr (refused h)
    · next hwritten =>
      cases h
      exact .inl ⟨hwritten, rfl, rfl⟩

section

variable {type : VoteType} {key : StateKey} (h : localVoteWatermarkStateKey type = .ok key)
include h

theorem localVoteWatermarkStateKey_isVoteKey : key.isVoteKey = true := by
  cases type with
  | unknown => cases h
  | prepare | confirm | skip => cases h; rfl

theorem localVoteWatermarkStateKey_ne (phase : VotePhase) (slot : ℕ) :
    key ≠ .localVoteEnvelope phase slot := by
  cases type with
  | unknown => cases h
  | prepare | confirm | skip => cases h; exact nofun

end

theorem VotesSound.sign (h : node.VotesSound votes) (htype : envelope.vote.type ≠ .unknown)
    (hcache : node.voteEnvelopeChoices.lookup envelope.choiceKey = none)
    (hnone : (voteLayout τ).entry node.db envelope.choiceKey.1 envelope.choiceKey.2 = none)
    (hsign : node.signVote envelope outcome = (next, result)) :
    next.VotesSound (result.toOption.toList ++ votes) := by
  rcases signVote_cases hsign with ⟨⟨message, rfl⟩, rfl⟩ | ⟨hbeyond, db, written, hpersist, hcases⟩
  · exact h
  rw [node.watermarks.forType_eq htype] at hbeyond
  obtain ⟨hsound, hok⟩ := sound_persist (a := envelope) h voteLayout_key_injective rfl
    (fun _ => voteLayout_marks rfl) hnone hcache hbeyond
    (fun mark hmark => localVoteWatermarkStateKey_ne hmark)
    (fun mark hmark table => forPhase_put hmark _) hpersist
  rcases hcases with ⟨hwritten, rfl, rfl⟩ | ⟨⟨message, rfl⟩, rfl⟩
  · obtain ⟨hentry, hcovered⟩ := hok hwritten
    have hwritten : VotesSound { node with db := db } votes := hsound
    have hremembered := hwritten.remember htype hentry
    exact Sound.send hremembered (lookup_rememberVote { node with db := db } envelope) rfl hcovered
  · exact hsound

/-- The four ways through `prepareDurableLocalVoteEnvelope`. -/
theorem prepareDurableLocalVoteEnvelope_cases
    (h : node.prepareDurableLocalVoteEnvelope crypto config envelope verified outcome =
      (next, result)) :
    ((∃ message, result = .error message) ∧ next = node) ∨
    (envelope.vote.type ≠ .unknown ∧
      ((∃ existing, node.voteEnvelopeChoices.lookup envelope.choiceKey = some existing ∧
          sameVoteChoice existing.vote envelope.vote = true ∧ result = .ok existing ∧
          next = node) ∨
        (node.voteEnvelopeChoices.lookup envelope.choiceKey = none ∧
          ((∃ persisted, (voteLayout τ).entry node.db envelope.choiceKey.1 envelope.choiceKey.2 =
              some persisted ∧ sameVoteChoice persisted.vote envelope.vote = true ∧
              result = .ok persisted ∧ next = node.rememberVote persisted) ∨
            ((voteLayout τ).entry node.db envelope.choiceKey.1 envelope.choiceKey.2 = none ∧
              node.signVote envelope outcome = (next, result)))))) := by
  unfold prepareDurableLocalVoteEnvelope at h
  split at h
  · exact .inl (refused h)
  next hverify =>
  have htype := type_of_verifyVoteEnvelope hverify
  split at h
  · exact .inl (refused h)
  split at h
  · next existing hexisting =>
    split at h
    · next hsame =>
      cases h
      exact .inr ⟨htype, .inl ⟨existing, hexisting, hsame, rfl, rfl⟩⟩
    · exact .inl (refused h)
  next hcache =>
  split at h
  · exact .inl (refused h)
  split at h
  · next persisted hpersisted =>
    split at h
    · next hsame =>
      cases h
      rw [Bool.and_eq_true] at hsame
      exact .inr ⟨htype, .inr ⟨hcache, .inl ⟨persisted, hpersisted, hsame.1, rfl, rfl⟩⟩⟩
    · exact .inl (refused h)
  · next hnone => exact .inr ⟨htype, .inr ⟨hcache, .inr ⟨hnone, h⟩⟩⟩

/-- A choice that is found again is covered. -/
def VoteCovered (node : SigningNode τ) (envelope : VoteEnvelope) : Prop :=
  (node.voteEnvelopeChoices.lookup envelope.choiceKey).isSome = true ∨
      (node.db.visible.lookup (localVoteEnvelopeStateKey envelope.vote)).isSome = true →
    (voteLayout τ).Covered node.db envelope.choiceKey.1 envelope.choiceKey.2

theorem VotesSound.prepare (h : node.VotesSound votes) (hcovered : node.VoteCovered envelope)
    (hprepare : node.prepareDurableLocalVoteEnvelope crypto config envelope verified outcome =
      (next, result)) : next.VotesSound (result.toOption.toList ++ votes) := by
  rcases prepareDurableLocalVoteEnvelope_cases hprepare with ⟨⟨message, rfl⟩, rfl⟩ |
    ⟨htype, ⟨existing, hexisting, hsame, rfl, rfl⟩ |
      ⟨hcache, ⟨persisted, hentry, hsame, rfl, rfl⟩ | ⟨hnone, hsign⟩⟩⟩
  · exact h
  · have hcov := hcovered (.inl (by rw [hexisting]; rfl))
    have hkey : existing.choiceKey = envelope.choiceKey := by
      obtain ⟨hphase, hslot⟩ := h.cached_key _ _ existing hexisting
      exact Prod.ext hphase hslot
    rw [← hkey] at hexisting hcov
    exact Sound.send h hexisting rfl hcov
  · have hkey : persisted.choiceKey = envelope.choiceKey := by
      obtain ⟨hphase, hslot⟩ := h.keyed _ _ persisted (Layout.possible_of_entry hentry)
      exact Prod.ext hphase hslot
    have hpersistedType : persisted.vote.type ≠ .unknown := by
      have hmessage : persisted.vote.toVoteMessage = envelope.vote.toVoteMessage :=
        of_decide_eq_true hsame
      rw [hmessage]
      exact htype
    have hcov := hcovered (.inr (Layout.isSome_of_entry hentry))
    rw [← hkey] at hentry hcov
    exact Sound.send (h.remember hpersistedType hentry) (lookup_rememberVote node persisted) rfl
      hcov
  · exact h.sign htype hcache hnone hsign

theorem ProposalsSound.prepareVote (h : node.ProposalsSound codec proposals)
    (hprepare : node.prepareDurableLocalVoteEnvelope crypto config envelope verified outcome =
      (next, result)) : next.ProposalsSound codec proposals := by
  rcases prepareDurableLocalVoteEnvelope_cases hprepare with ⟨-, rfl⟩ |
    ⟨-, ⟨existing, -, -, -, rfl⟩ | ⟨-, ⟨persisted, -, -, -, rfl⟩ | ⟨-, hsign⟩⟩⟩
  · exact h
  · exact h
  · exact h
  rcases signVote_cases hsign with ⟨-, rfl⟩ | ⟨-, db, written, hpersist, hcases⟩
  · exact h
  have hsound := sound_persist_foreign h (proposalLayout_foreign codec rfl)
    (fun mark hmark => proposalLayout_foreign codec (localVoteWatermarkStateKey_isVoteKey hmark))
    hpersist
  rcases hcases with ⟨-, -, rfl⟩ | ⟨-, rfl⟩
  · exact hsound
  · exact hsound

/-! ### Proposals -/

section

variable {proposal : BlockProposal τ} {result : Except String (BlockProposal τ)}

/-- A proposal is remembered that has the bytes of the one in the journal. -/
theorem ProposalsSound.remember (h : node.ProposalsSound codec proposals) {slot raised : ℕ}
    {readBack : BlockProposal τ}
    (hentry : (proposalLayout codec).entry node.db () proposal.header.slot = some readBack)
    (hsame : codec.stored readBack = codec.stored proposal) (hslot : proposal.header.slot = slot)
    (hraised : node.lastProducedSlot ≤ raised) (hreached : slot ≤ raised) :
    ProposalsSound codec
      { node with
        proposalChoices := node.proposalChoices.insert slot proposal
        lastProducedSlot := raised } proposals := by
  refine Sound.remember_entry h (a := proposal) hentry hsame (fun _ other content hcontent => ?_)
    (fun _ => hraised) (hslot.trans_le hreached)
  rw [Table.lookup_insert] at hcontent
  split at hcontent
  · next hkey => exact .inr ⟨rfl, hkey.trans hslot.symm, (Option.some.inj hcontent).symm⟩
  · exact .inl hcontent

/-- What `signProposal` does: it refuses, or it writes the choice beyond the watermark. -/
theorem signProposal_cases (h : node.signProposal codec proposal outcome = (next, result)) :
    ((∃ message, result = .error message) ∧ next = node) ∨
    (node.lastProducedSlot < proposal.header.slot ∧ ∃ encoded db written,
      codec.stored proposal = .ok encoded ∧
      persistChoice "proposal" node.db (.localProposal proposal.header.slot) (.proposal encoded)
        (.ok .localProposalWatermark) proposal.header.slot outcome = (db, written) ∧
      ((written = .ok () ∧ result = .ok proposal ∧ next =
          { node with
            db := db
            proposalChoices := node.proposalChoices.insert proposal.header.slot proposal
            lastProducedSlot := proposal.header.slot }) ∨
        ((∃ message, result = .error message) ∧ next = { node with db := db }))) := by
  unfold signProposal at h
  dsimp only at h
  split at h
  · exact .inl (refused h)
  next hbeyond =>
  split at h
  · exact .inl (refused h)
  next encoded hencoded =>
  refine .inr ⟨Nat.lt_of_not_le hbeyond, encoded, _, _, hencoded, rfl, ?_⟩
  split at h
  · exact .inr (refused h)
  · next hwritten =>
    cases h
    exact .inl ⟨hwritten, rfl, rfl⟩

theorem proposalLayout_marks {slot : ℕ} (h : operation.key = .localProposal slot) :
    (proposalLayout codec).marks (applyTo table operation) =
      (proposalLayout codec).marks table := by
  funext _
  exact loadLocalVoteWatermark_applyTo (by rw [h]; exact nofun)

theorem ProposalsSound.sign (h : node.ProposalsSound codec proposals)
    (hcache : node.proposalChoices.lookup proposal.header.slot = none)
    (hnone : (proposalLayout codec).entry node.db () proposal.header.slot = none)
    (hsign : node.signProposal codec proposal outcome = (next, result)) :
    next.ProposalsSound codec (result.toOption.toList ++ proposals) := by
  rcases signProposal_cases hsign with ⟨⟨message, rfl⟩, rfl⟩ |
    ⟨hbeyond, encoded, db, written, hencoded, hpersist, hcases⟩
  · exact h
  have hheader := codec.header_stored hencoded
  have hsame : codec.stored encoded = codec.stored proposal :=
    (codec.stored_stored hencoded).trans hencoded.symm
  -- what is written is the proposal as it is read back
  rw [← hheader] at hcache hnone hbeyond hpersist
  obtain ⟨hsound, hok⟩ := sound_persist (a := encoded) h (proposalLayout_key_injective codec) rfl
    (fun _ => proposalLayout_marks rfl) hnone hcache hbeyond
    (fun mark hmark _ slot heq => by
      cases hmark
      cases heq)
    (fun mark hmark table => by
      cases hmark
      refine ⟨?_, fun q hq => absurd rfl hq⟩
      exact (@loadLocalVoteWatermark_put _ table .localProposalWatermark encoded.header.slot).ge)
    hpersist
  rcases hcases with ⟨hwritten, rfl, rfl⟩ | ⟨⟨message, rfl⟩, rfl⟩
  · obtain ⟨hentry, hcovered⟩ := hok hwritten
    have hdb : ProposalsSound codec { node with db := db } proposals := hsound
    have hjournal : (proposalLayout codec).entry db () proposal.header.slot = some encoded := by
      rw [← hheader]
      exact hentry
    have hremembered := hdb.remember hjournal hsame rfl (by rw [← hheader]; exact hbeyond.le)
      (Nat.le_refl _)
    refine Sound.send hremembered (AList.lookup_insert _) rfl ?_
    change (proposalLayout codec).Covered db () proposal.header.slot
    rw [← hheader]
    exact hcovered
  · exact hsound

variable [DecidableEq τ]

/-- The four ways through `prepareDurableLocalProposal`. -/
theorem prepareDurableLocalProposal_cases
    (h : node.prepareDurableLocalProposal crypto config codec proposal outcome = (next, result)) :
    ((∃ message, result = .error message) ∧ next = node) ∨
    (∃ existing, node.proposalChoices.lookup proposal.header.slot = some existing ∧
      result = .ok existing ∧ next = node) ∨
    (node.proposalChoices.lookup proposal.header.slot = none ∧
      ((∃ persisted, (proposalLayout codec).entry node.db () proposal.header.slot =
          some persisted ∧ result = .ok persisted ∧ next =
            { node with
              proposalChoices := node.proposalChoices.insert proposal.header.slot persisted
              lastProducedSlot := max node.lastProducedSlot persisted.header.slot }) ∨
        ((proposalLayout codec).entry node.db () proposal.header.slot = none ∧
          node.signProposal codec proposal outcome = (next, result)))) := by
  unfold prepareDurableLocalProposal at h
  dsimp only at h
  split at h
  · exact .inl (refused h)
  split at h
  · next existing hexisting =>
    split at h
    · exact .inl (refused h)
    · cases h
      exact .inr (.inl ⟨existing, hexisting, rfl, rfl⟩)
    · exact .inl (refused h)
  next hcache =>
  split at h
  · exact .inl (refused h)
  split at h
  · next persisted hpersisted =>
    split at h
    · split at h
      · cases h
        exact .inr (.inr ⟨hcache, .inl ⟨persisted, hpersisted, rfl, rfl⟩⟩)
      · exact .inl (refused h)
    · exact .inl (refused h)
  · next hnone => exact .inr (.inr ⟨hcache, .inr ⟨hnone, h⟩⟩)

def ProposalCovered (codec : ProposalCodec τ) (node : SigningNode τ)
    (proposal : BlockProposal τ) : Prop :=
  (node.proposalChoices.lookup proposal.header.slot).isSome = true ∨
      (node.db.visible.lookup (.localProposal proposal.header.slot)).isSome = true →
    (proposalLayout codec).Covered node.db () proposal.header.slot

theorem ProposalsSound.prepare (h : node.ProposalsSound codec proposals)
    (hcovered : node.ProposalCovered codec proposal)
    (hprepare : node.prepareDurableLocalProposal crypto config codec proposal outcome =
      (next, result)) : next.ProposalsSound codec (result.toOption.toList ++ proposals) := by
  rcases prepareDurableLocalProposal_cases hprepare with ⟨⟨message, rfl⟩, rfl⟩ |
    ⟨existing, hexisting, rfl, rfl⟩ | ⟨hcache, ⟨persisted, hentry, rfl, rfl⟩ | ⟨hnone, hsign⟩⟩
  · exact h
  · have hcov := hcovered (.inl (by rw [hexisting]; rfl))
    have hslot : existing.header.slot = proposal.header.slot :=
      (h.cached_key () _ existing hexisting).2
    rw [← hslot] at hexisting hcov
    exact Sound.send h hexisting rfl hcov
  · have hslot : persisted.header.slot = proposal.header.slot :=
      (h.keyed _ _ persisted (Layout.possible_of_entry hentry)).2
    have hcov := hcovered (.inr (Layout.isSome_of_entry hentry))
    rw [← hslot] at hentry hcov ⊢
    have hremembered := h.remember hentry rfl rfl (le_max_left _ persisted.header.slot)
      (le_max_right _ _)
    exact Sound.send hremembered (AList.lookup_insert _) rfl hcov
  · exact h.sign hcache hnone hsign

theorem VotesSound.prepareProposal (h : node.VotesSound votes)
    (hprepare : node.prepareDurableLocalProposal crypto config codec proposal outcome =
      (next, result)) : next.VotesSound votes := by
  rcases prepareDurableLocalProposal_cases hprepare with ⟨-, rfl⟩ | ⟨existing, -, -, rfl⟩ |
    ⟨-, ⟨persisted, -, -, rfl⟩ | ⟨-, hsign⟩⟩
  · exact h
  · exact h
  · exact h
  rcases signProposal_cases hsign with ⟨-, rfl⟩ | ⟨-, encoded, db, written, -, hpersist, hcases⟩
  · exact h
  have hsound := sound_persist_foreign h (voteLayout_foreign rfl)
    (fun mark hmark => voteLayout_foreign (by obtain rfl := Except.ok.inj hmark; rfl)) hpersist
  rcases hcases with ⟨-, -, rfl⟩ | ⟨-, rfl⟩
  · exact hsound
  · exact hsound

end

end SigningNode

end Signing

end Ordexus
