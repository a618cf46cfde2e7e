import Ordexus.Consensus.SnapshotRoot

/-!
# What accepted evidence proves

The signature of a header covers the id of its chain, but `SlashingEvidence.Validate` does not
compare it with anything; the signature of a vote does not cover a chain at all. So accepted
evidence proves an offence on a given chain only if it consists of two headers that name this
chain.
-/

namespace Ordexus

open Checked Borsh List

/-! ### What a signature covers -/

/-- The fields fit the widths in which they are written. -/
structure BlockHeader.InRange (header : BlockHeader) : Prop where
  slot : header.slot < 256 ^ 8
  height : header.height < 256 ^ 8
  parentHash : header.parentHash < 256 ^ 32
  previousQCHash : header.previousQCHash < 256 ^ 32
  timeoutQCHash : header.timeoutQCHash < 256 ^ 32
  epochID : header.epochID < 256 ^ 8
  epochSnapshotRoot : header.epochSnapshotRoot < 256 ^ 32
  txRoot : header.txRoot < 256 ^ 32
  receiptRoot : header.receiptRoot < 256 ^ 32
  rewardQCRoot : header.rewardQCRoot < 256 ^ 32
  evidenceRoot : header.evidenceRoot < 256 ^ 32
  rewardRoot : header.rewardRoot < 256 ^ 32
  stateRoot : header.stateRoot < 256 ^ 32
  accountRoot : header.accountRoot < 256 ^ 32
  timestampUnixMilli : -2 ^ 63 ≤ header.timestampUnixMilli ∧ header.timestampUnixMilli < 2 ^ 63

section

variable {header other : BlockHeader} {vote : Vote} {bytes : Bytes}

theorem BlockHeader.signBytes_length (h : header.signBytes = .ok bytes) :
    bytes.length = header.chainID.length + header.leaderID.length + 384 := by
  simp only [signBytes, eq_ok] at h
  obtain ⟨-, rfl⟩ := h
  simp only [length_append, uint64ForHash, littleEndian_length, bigEndian_length]
  omega

theorem Vote.marshalBinary_length (h : vote.marshalBinary = .ok bytes) :
    bytes.length = vote.voterID.length + 71 := by
  simp only [marshalBinary, writeString, writeBytes, eq_ok] at h
  obtain ⟨-, _, ⟨-, -, rfl⟩, rfl⟩ := h
  simp only [length_append, int64Bytes, littleEndian_length, bigEndian_length]
  omega

/-- A header and a vote of one validator are never signed by the same bytes. -/
theorem signBytes_ne_marshalBinary (hid : header.leaderID = vote.voterID)
    (hheader : header.signBytes = .ok bytes) : vote.marshalBinary ≠ .ok bytes := by
  intro hvote
  have hlong := BlockHeader.signBytes_length hheader
  have hshort := Vote.marshalBinary_length hvote
  rw [hid] at hlong
  omega

/-- The headers of one leader are determined by their bytes: the chain id has no length in front
of it, but the length of everything else is known. -/
theorem BlockHeader.signBytes_inj (hid : header.leaderID = other.leaderID)
    (hheader : header.InRange) (hother : other.InRange) (h : header.signBytes = .ok bytes)
    (hsame : other.signBytes = .ok bytes) : header = other := by
  have hlength : header.chainID.length = other.chainID.length := by
    have hfirst := signBytes_length h
    have hsecond := signBytes_length hsame
    rw [hid] at hfirst
    omega
  simp only [signBytes, eq_ok, uint64ForHash, append_assoc] at h hsame
  obtain ⟨-, rfl⟩ := h
  obtain ⟨-, h⟩ := hsame
  obtain ⟨hchain, h⟩ := append_inj h hlength.symm
  obtain ⟨hslot, h⟩ := split_littleEndian hother.slot hheader.slot h
  obtain ⟨hheight, h⟩ := split_littleEndian hother.height hheader.height h
  obtain ⟨hparent, h⟩ := split_bigEndian hother.parentHash hheader.parentHash h
  obtain ⟨hprevious, h⟩ := split_bigEndian hother.previousQCHash hheader.previousQCHash h
  obtain ⟨htimeout, h⟩ := split_bigEndian hother.timeoutQCHash hheader.timeoutQCHash h
  rw [hid] at h
  obtain ⟨hepoch, h⟩ := split_littleEndian hother.epochID hheader.epochID
    (append_cancel_left h)
  obtain ⟨hsnapshot, h⟩ := split_bigEndian hother.epochSnapshotRoot hheader.epochSnapshotRoot h
  obtain ⟨htx, h⟩ := split_bigEndian hother.txRoot hheader.txRoot h
  obtain ⟨hreceipt, h⟩ := split_bigEndian hother.receiptRoot hheader.receiptRoot h
  obtain ⟨hrewardQC, h⟩ := split_bigEndian hother.rewardQCRoot hheader.rewardQCRoot h
  obtain ⟨hevidence, h⟩ := split_bigEndian hother.evidenceRoot hheader.evidenceRoot h
  obtain ⟨hreward, h⟩ := split_bigEndian hother.rewardRoot hheader.rewardRoot h
  obtain ⟨hstate, h⟩ := split_bigEndian hother.stateRoot hheader.stateRoot h
  obtain ⟨haccount, h⟩ := split_bigEndian hother.accountRoot hheader.accountRoot h
  have htime := littleEndian_inj (by omega) (by omega) h
  have htimestamp : other.timestampUnixMilli = header.timestampUnixMilli := by
    have hfirst := hheader.timestampUnixMilli
    have hsecond := hother.timestampUnixMilli
    omega
  cases header
  cases other
  simp_all

theorem VoteType.code_inj {first second : VoteType} (h : first.code = second.code) :
    first = second := by
  cases first <;> cases second <;> first | rfl | cases h

theorem Vote.marshalBinary_inj {first second : Vote} (hfirst : first.InRange)
    (hsecond : second.InRange) (h : first.marshalBinary = .ok bytes)
    (hsame : second.marshalBinary = .ok bytes) :
    first.type = second.type ∧ first.blockHeight = second.blockHeight ∧
      first.blockHash = second.blockHash := by
  have hcode (type : VoteType) : type.code < 256 ^ 1 := by
    cases type <;> decide
  simp only [marshalBinary, eq_ok, append_assoc] at h hsame
  obtain ⟨-, firstID, -, rfl⟩ := h
  obtain ⟨-, secondID, -, h⟩ := hsame
  obtain ⟨htype, h⟩ := split_littleEndian (hcode _) (hcode _) (append_cancel_left h)
  obtain ⟨-, h⟩ := split_littleEndian hsecond.slot hfirst.slot h
  obtain ⟨hheight, h⟩ := split_littleEndian hsecond.blockHeight hfirst.blockHeight h
  obtain ⟨hhash, -⟩ := split_bigEndian hsecond.blockHash hfirst.blockHash h
  exact ⟨VoteType.code_inj htype.symm, hheight.symm, hhash.symm⟩

end

/-! ### Histories of signing -/

/-- Which keys have signed which bytes on which chains. -/
abbrev SigningHistory := PublicKey → (chainID : Bytes) → (bytes : Bytes) → Prop

namespace SigningHistory

section

variable (history : SigningHistory)

/-- Signatures are unforgeable: what verifies was signed on some chain. -/
def Unforgeable (crypto : Crypto) : Prop :=
  ∀ key bytes signature, crypto.verifyMessageSignature key bytes signature = true →
    ∃ chainID, history key chainID bytes

/-- The headers of a validator are signed on the chain that they name. -/
def NamesChain (validator : ValidatorState) : Prop :=
  ∀ (chainID bytes : Bytes) (header : BlockHeader),
    history validator.consensusPublicKey chainID bytes →
    header.leaderID = validator.validatorID → header.InRange → header.signBytes = .ok bytes →
      header.chainID = chainID

/-- Two different proposals of a validator for a slot. -/
structure ConflictingProposals (validator : ValidatorState) (slot : ℕ)
    (first second : BlockHeader) : Prop where
  firstRange : first.InRange
  secondRange : second.InRange
  firstLeader : first.leaderID = validator.validatorID
  secondLeader : second.leaderID = validator.validatorID
  firstSlot : first.slot = slot
  secondSlot : second.slot = slot
  different : first ≠ second

/-- Two votes of a validator for a slot, of one phase and for different choices. -/
structure ConflictingVotes (validator : ValidatorState) (slot : ℕ) (first second : Vote) :
    Prop where
  firstRange : first.InRange
  secondRange : second.InRange
  firstVoter : first.voterID = validator.validatorID
  secondVoter : second.voterID = validator.validatorID
  firstSlot : first.slot = slot
  secondSlot : second.slot = slot
  phase : votePhaseForChoice first.type = votePhaseForChoice second.type
  different : ¬(first.type = second.type ∧ first.blockHeight = second.blockHeight ∧
    first.blockHash = second.blockHash)

/-- The validator has signed two conflicting messages for the slot on the chain. -/
def Guilty (validator : ValidatorState) (slot : ℕ) (chainID : Bytes) : Prop :=
  (∃ first second firstBytes secondBytes, ConflictingProposals validator slot first second ∧
    first.signBytes = .ok firstBytes ∧ second.signBytes = .ok secondBytes ∧
    history validator.consensusPublicKey chainID firstBytes ∧
    history validator.consensusPublicKey chainID secondBytes) ∨
  ∃ first second firstBytes secondBytes, ConflictingVotes validator slot first second ∧
    first.marshalBinary = .ok firstBytes ∧ second.marshalBinary = .ok secondBytes ∧
    history validator.consensusPublicKey chainID firstBytes ∧
    history validator.consensusPublicKey chainID secondBytes

/-- The key has signed the bytes on some chain. -/
def Signed (key : PublicKey) (bytes : Except String Bytes) : Prop :=
  ∃ content chainID, bytes = .ok content ∧ history key chainID content

/-- The validator has made the two signatures of a piece of evidence. -/
def Explains (evidence : SlashingEvidence) (validator : ValidatorState) : Prop :=
  match evidence.type with
  | .doubleProposal => ∀ proposals ∈ evidence.doubleProposal,
    history.Signed validator.consensusPublicKey proposals.firstProposal.header.signBytes ∧
      history.Signed validator.consensusPublicKey proposals.secondProposal.header.signBytes
  | .doubleVote => ∀ votes ∈ evidence.doubleVote,
    history.Signed validator.consensusPublicKey votes.firstVote.vote.marshalBinary ∧
      history.Signed validator.consensusPublicKey votes.secondVote.vote.marshalBinary
  | .unknown _ => True

end

end SigningHistory

/-- The headers and votes in a piece of evidence fit their widths. -/
structure SlashingEvidence.InRange (evidence : SlashingEvidence) : Prop where
  proposals : ∀ proposals ∈ evidence.doubleProposal,
    proposals.firstProposal.header.InRange ∧ proposals.secondProposal.header.InRange
  votes : ∀ votes ∈ evidence.doubleVote,
    votes.firstVote.vote.InRange ∧ votes.secondVote.vote.InRange

/-- Two proposals that both name the chain. -/
def SlashingEvidence.NamesChain (evidence : SlashingEvidence) (chainID : Bytes) : Prop :=
  evidence.type = .doubleProposal ∧ ∀ proposals ∈ evidence.doubleProposal,
    proposals.firstProposal.header.chainID = chainID ∧
      proposals.secondProposal.header.chainID = chainID

/-! ### Accepted evidence -/

section

variable {crypto : Crypto} {snapshot : EpochSnapshot} {evidence : SlashingEvidence}
  {validator : ValidatorState} {slot : ℕ} {history : SigningHistory} {chainID : Bytes}

open SigningHistory

theorem validatorID_of_validatorByID {id : ValidatorID}
    (h : snapshot.validatorByID id = some validator) : validator.validatorID = id := by
  simpa using find?_some h

theorem SignedHeader.verified {proposal : SignedHeader} {key : PublicKey}
    (h : proposal.verifyLeaderSignature crypto key = .ok ()) :
    ∃ bytes, proposal.header.signBytes = .ok bytes ∧
      crypto.verifyMessageSignature key bytes proposal.leaderSignature = true := by
  simp only [verifyLeaderSignature, eq_ok, Bool.not_eq_false] at h
  exact h

theorem SignedHeader.hash_eq {proposal : SignedHeader} {bytes : Bytes}
    (h : proposal.header.signBytes = .ok bytes) :
    proposal.hash crypto = .ok (crypto.sha256 bytes) := by
  rw [SignedHeader.hash, h]
  rfl

theorem SignedVote.verified {vote : SignedVote} (h : vote.validate crypto = .ok ()) :
    ∃ bytes, vote.vote.marshalBinary = .ok bytes ∧
      crypto.verifyMessageSignature vote.publicKey bytes vote.signature = true ∧
      crypto.newValidatorID vote.publicKey = vote.vote.voterID := by
  simp only [validate, eq_ok, Bool.not_eq_false, not_not, ne_eq] at h
  obtain ⟨-, -, hid, bytes, hbytes, hsignature⟩ := h
  exact ⟨bytes, hbytes, hsignature, hid⟩

section

variable (h : evidence.validate crypto snapshot = .ok (validator, slot))
include h

theorem validate_doubleProposal (htype : evidence.type = .doubleProposal) :
    ∃ proposals firstBytes secondBytes, evidence.doubleProposal = some proposals ∧
      proposals.firstProposal.header.leaderID = validator.validatorID ∧
      proposals.secondProposal.header.leaderID = validator.validatorID ∧
      proposals.firstProposal.header.slot = slot ∧
      proposals.secondProposal.header.slot = slot ∧
      proposals.firstProposal.header.signBytes = .ok firstBytes ∧
      proposals.secondProposal.header.signBytes = .ok secondBytes ∧ firstBytes ≠ secondBytes ∧
      crypto.verifyMessageSignature validator.consensusPublicKey firstBytes
        proposals.firstProposal.leaderSignature = true ∧
      crypto.verifyMessageSignature validator.consensusPublicKey secondBytes
        proposals.secondProposal.leaderSignature = true := by
  simp only [SlashingEvidence.validate, htype, SlashingEvidence.validateDoubleProposal,
    DoubleProposalEvidence.validate, eq_ok, not_not, ne_eq, Prod.mk.injEq] at h
  obtain ⟨-, _, -, -, proposals, hproposals, found, hfound, ⟨firstHash, hfirstHash, secondHash,
    hsecondHash, hdifferent, hslot, hleader, hfirst, hsecond⟩, rfl, rfl⟩ := h
  have hid := validatorID_of_validatorByID hfound
  obtain ⟨firstBytes, hfirstBytes, hfirstSignature⟩ := SignedHeader.verified hfirst
  obtain ⟨secondBytes, hsecondBytes, hsecondSignature⟩ := SignedHeader.verified hsecond
  refine ⟨proposals, firstBytes, secondBytes, hproposals, hid.symm, hleader ▸ hid.symm, rfl,
    hslot.symm, hfirstBytes, hsecondBytes, ?_, hfirstSignature, hsecondSignature⟩
  rintro rfl
  rw [SignedHeader.hash_eq hfirstBytes] at hfirstHash
  rw [SignedHeader.hash_eq hsecondBytes] at hsecondHash
  exact hdifferent (Except.ok.inj (hfirstHash.symm.trans hsecondHash))

theorem validate_doubleVote (hrange : evidence.InRange) (htype : evidence.type = .doubleVote) :
    ∃ votes firstBytes secondBytes, evidence.doubleVote = some votes ∧
      ConflictingVotes validator slot votes.firstVote.vote votes.secondVote.vote ∧
      votes.firstVote.vote.marshalBinary = .ok firstBytes ∧
      votes.secondVote.vote.marshalBinary = .ok secondBytes ∧
      votes.firstVote.publicKey = validator.consensusPublicKey ∧
      crypto.newValidatorID votes.secondVote.publicKey = validator.validatorID ∧
      crypto.newValidatorID votes.firstVote.publicKey = validator.validatorID ∧
      crypto.verifyMessageSignature votes.firstVote.publicKey firstBytes
        votes.firstVote.signature = true ∧
      crypto.verifyMessageSignature votes.secondVote.publicKey secondBytes
        votes.secondVote.signature = true := by
  simp only [SlashingEvidence.validate, htype, SlashingEvidence.validateDoubleVote,
    SignedDoubleVoteEvidence.validate, validateDoubleVote, eq_ok, not_not, ne_eq,
    Prod.mk.injEq] at h
  obtain ⟨-, _, -, -, votes, hvotes, ⟨hfirst, hsecond, -, -, hvoter, hslot, hphase, hdifferent⟩,
    found, hfound, hkey, rfl, rfl⟩ := h
  have hid := validatorID_of_validatorByID hfound
  obtain ⟨hfirstRange, hsecondRange⟩ := hrange.votes votes hvotes
  obtain ⟨firstBytes, hfirstBytes, hfirstSignature, hfirstID⟩ := SignedVote.verified hfirst
  obtain ⟨secondBytes, hsecondBytes, hsecondSignature, hsecondID⟩ := SignedVote.verified hsecond
  exact ⟨votes, firstBytes, secondBytes, hvotes,
    ⟨hfirstRange, hsecondRange, hid.symm, hvoter ▸ hid.symm, rfl, hslot.symm, hphase, hdifferent⟩,
    hfirstBytes, hsecondBytes, hkey.symm, by rw [hsecondID, hid, hvoter],
    by rw [hfirstID, hid], hfirstSignature, hsecondSignature⟩

/-- Where signatures are unforgeable and the id of the validator belongs to its key only, the
validator has made the signatures of accepted evidence. -/
theorem explains_of_unforgeable (hrange : evidence.InRange) (hforge : history.Unforgeable crypto)
    (hid : ∀ key, crypto.newValidatorID key = crypto.newValidatorID validator.consensusPublicKey →
      key = validator.consensusPublicKey) : history.Explains evidence validator := by
  have hsigned {bytes : Except String Bytes} {content : Bytes} {signature : Signature}
      (hbytes : bytes = .ok content)
      (hverified : crypto.verifyMessageSignature validator.consensusPublicKey content signature =
        true) : history.Signed validator.consensusPublicKey bytes := by
    obtain ⟨signedOn, hsigned⟩ := hforge _ _ _ hverified
    exact ⟨content, signedOn, hbytes, hsigned⟩
  unfold Explains
  split
  · next htype =>
    obtain ⟨proposals, firstBytes, secondBytes, hproposals, -, -, -, -, hfirst, hsecond, -,
      hfirstSignature, hsecondSignature⟩ := validate_doubleProposal h htype
    rw [hproposals]
    rintro _ ⟨⟩
    exact ⟨hsigned hfirst hfirstSignature, hsigned hsecond hsecondSignature⟩
  · next htype =>
    obtain ⟨votes, firstBytes, secondBytes, hvotes, -, hfirst, hsecond, hfirstKey, hsecondID,
      hfirstID, hfirstSignature, hsecondSignature⟩ := validate_doubleVote h hrange htype
    rw [hvotes]
    rintro _ ⟨⟩
    have hsecondKey : votes.secondVote.publicKey = validator.consensusPublicKey :=
      hid _ (by rw [hsecondID, ← hfirstID, hfirstKey])
    rw [hfirstKey] at hfirstSignature
    rw [hsecondKey] at hsecondSignature
    exact ⟨hsigned hfirst hfirstSignature, hsigned hsecond hsecondSignature⟩
  · trivial

/-- Two headers that name the chain prove an offence on it. -/
theorem guilty_of_namesChain (hrange : evidence.InRange) (hchain : evidence.NamesChain chainID)
    (hnames : history.NamesChain validator) (hexplains : history.Explains evidence validator) :
    history.Guilty validator slot chainID := by
  obtain ⟨htype, hchain⟩ := hchain
  obtain ⟨proposals, firstBytes, secondBytes, hproposals, hfirstLeader, hsecondLeader, hfirstSlot,
    hsecondSlot, hfirst, hsecond, hdifferent, -, -⟩ := validate_doubleProposal h htype
  obtain ⟨hfirstRange, hsecondRange⟩ := hrange.proposals proposals hproposals
  obtain ⟨hfirstChain, hsecondChain⟩ := hchain proposals hproposals
  simp only [Explains, htype] at hexplains
  obtain ⟨⟨content, firstOn, hcontent, hfirstSigned⟩, other, secondOn, hother, hsecondSigned⟩ :=
    hexplains proposals hproposals
  obtain rfl := Except.ok.inj (hfirst.symm.trans hcontent)
  obtain rfl := Except.ok.inj (hsecond.symm.trans hother)
  have hfirstOn := hnames firstOn _ _ hfirstSigned hfirstLeader hfirstRange hfirst
  have hsecondOn := hnames secondOn _ _ hsecondSigned hsecondLeader hsecondRange hsecond
  rw [← hfirstOn, hfirstChain] at hfirstSigned
  rw [← hsecondOn, hsecondChain] at hsecondSigned
  refine .inl ⟨_, _, firstBytes, secondBytes, ⟨hfirstRange, hsecondRange, hfirstLeader,
    hsecondLeader, hfirstSlot, hsecondSlot, fun hsame => hdifferent ?_⟩, hfirst, hsecond,
    hfirstSigned, hsecondSigned⟩
  rw [hsame] at hfirst
  exact Except.ok.inj (hfirst.symm.trans hsecond)

end

/-- A validator that has signed one byte string on a chain is not guilty there. -/
theorem not_guilty_of_one {bytes : Bytes}
    (hone : ∀ content, history validator.consensusPublicKey chainID content → content = bytes)
    {header : BlockHeader} (hleader : header.leaderID = validator.validatorID)
    (hbytes : header.signBytes = .ok bytes) : ¬history.Guilty validator slot chainID := by
  rintro (⟨first, second, firstBytes, secondBytes, hconflict, hfirst, hsecond, hfirstSigned,
    hsecondSigned⟩ | ⟨first, second, firstBytes, secondBytes, hconflict, hfirst, -, hfirstSigned,
    -⟩)
  · obtain rfl := hone _ hfirstSigned
    obtain rfl := hone _ hsecondSigned
    exact hconflict.different (BlockHeader.signBytes_inj
      (hconflict.firstLeader.trans hconflict.secondLeader.symm) hconflict.firstRange
      hconflict.secondRange hfirst hsecond)
  · obtain rfl := hone _ hfirstSigned
    exact signBytes_ne_marshalBinary (hleader.trans hconflict.firstVoter.symm) hbytes hfirst

section

variable (h : evidence.validate crypto snapshot = .ok (validator, slot)) (hrange : evidence.InRange)
include h hrange

/-- Evidence of two headers of which one names another chain is explained without an offence. -/
theorem exists_innocent_of_proposals (htype : evidence.type = .doubleProposal)
    (hchain : ¬evidence.NamesChain chainID) :
    ∃ history : SigningHistory, history.NamesChain validator ∧
      history.Explains evidence validator ∧ ¬history.Guilty validator slot chainID := by
  obtain ⟨proposals, firstBytes, secondBytes, hproposals, hfirstLeader, hsecondLeader, -, -,
    hfirst, hsecond, -, -, -⟩ := validate_doubleProposal h htype
  obtain ⟨hfirstRange, hsecondRange⟩ := hrange.proposals proposals hproposals
  let history : SigningHistory := fun _ signedOn bytes =>
    (signedOn = proposals.firstProposal.header.chainID ∧ bytes = firstBytes) ∨
      (signedOn = proposals.secondProposal.header.chainID ∧ bytes = secondBytes)
  refine ⟨history, ?_, ?_, ?_⟩
  · rintro signedOn bytes header (⟨rfl, rfl⟩ | ⟨rfl, rfl⟩) hleader hheader hbytes
    · exact congrArg BlockHeader.chainID (BlockHeader.signBytes_inj
        (hleader.trans hfirstLeader.symm) hheader hfirstRange hbytes hfirst)
    · exact congrArg BlockHeader.chainID (BlockHeader.signBytes_inj
        (hleader.trans hsecondLeader.symm) hheader hsecondRange hbytes hsecond)
  · simp only [Explains, htype, hproposals]
    rintro _ ⟨⟩
    exact ⟨⟨firstBytes, _, hfirst, .inl ⟨rfl, rfl⟩⟩, ⟨secondBytes, _, hsecond, .inr ⟨rfl, rfl⟩⟩⟩
  · by_cases hfirstChain : proposals.firstProposal.header.chainID = chainID
    · refine not_guilty_of_one ?_ hfirstLeader hfirst
      rintro content (⟨-, rfl⟩ | ⟨hsecondChain, -⟩)
      · rfl
      · refine absurd ⟨htype, ?_⟩ hchain
        rw [hproposals]
        rintro _ ⟨⟩
        exact ⟨hfirstChain, hsecondChain.symm⟩
    · refine not_guilty_of_one ?_ hsecondLeader hsecond
      rintro content (⟨hsame, -⟩ | ⟨-, rfl⟩)
      · exact absurd hsame.symm hfirstChain
      · rfl

/-- Evidence of two votes is explained without an offence on any given chain. -/
theorem exists_innocent_of_votes (htype : evidence.type = .doubleVote) (chainID : Bytes) :
    ∃ history : SigningHistory, history.NamesChain validator ∧
      history.Explains evidence validator ∧ ¬history.Guilty validator slot chainID := by
  obtain ⟨votes, firstBytes, secondBytes, hvotes, hconflict, hfirst, hsecond, -⟩ :=
    validate_doubleVote h hrange htype
  -- both votes are signed on one other chain
  let history : SigningHistory := fun _ signedOn bytes =>
    signedOn = 0 :: chainID ∧ (bytes = firstBytes ∨ bytes = secondBytes)
  have hother {bytes : Bytes} : ¬history validator.consensusPublicKey chainID bytes :=
    fun hsigned => cons_ne_self _ _ hsigned.1.symm
  refine ⟨history, ?_, ?_, ?_⟩
  · rintro signedOn bytes header ⟨-, rfl | rfl⟩ hleader - hbytes
    · exact absurd hfirst (signBytes_ne_marshalBinary
        (hleader.trans hconflict.firstVoter.symm) hbytes)
    · exact absurd hsecond (signBytes_ne_marshalBinary
        (hleader.trans hconflict.secondVoter.symm) hbytes)
  · simp only [Explains, htype, hvotes]
    rintro _ ⟨⟩
    exact ⟨⟨firstBytes, _, hfirst, rfl, .inl rfl⟩, ⟨secondBytes, _, hsecond, rfl, .inr rfl⟩⟩
  · rintro (⟨_, _, _, _, -, -, -, hsigned, -⟩ | ⟨_, _, _, _, -, -, -, hsigned, -⟩)
    · exact hother hsigned
    · exact hother hsigned

end

/-- Accepted evidence proves an offence on a chain, in every history in which its signatures were
made by the validator, exactly if it consists of two headers that name the chain. Unforgeable
signatures make every history one in which they were. -/
theorem accepted_evidence_proves_offence
    (h : evidence.validate crypto snapshot = .ok (validator, slot)) (hrange : evidence.InRange)
    (chainID : Bytes) :
    ((∀ history : SigningHistory, history.NamesChain validator →
        history.Explains evidence validator → history.Guilty validator slot chainID) ↔
      evidence.NamesChain chainID) ∧
    ((∀ key, crypto.newValidatorID key = crypto.newValidatorID validator.consensusPublicKey →
        key = validator.consensusPublicKey) →
      ∀ history : SigningHistory, history.Unforgeable crypto →
        history.Explains evidence validator) := by
  refine ⟨⟨fun hproves => ?_, fun hchain history => guilty_of_namesChain h hrange hchain⟩,
    fun hid history hforge => explains_of_unforgeable h hrange hforge hid⟩
  by_contra hchain
  have hinnocent : ∃ history : SigningHistory, history.NamesChain validator ∧
      history.Explains evidence validator ∧ ¬history.Guilty validator slot chainID := by
    cases htype : evidence.type with
    | doubleProposal => exact exists_innocent_of_proposals h hrange htype hchain
    | doubleVote => exact exists_innocent_of_votes h hrange htype chainID
    | unknown code => simp [SlashingEvidence.validate, SlashingEvidence.slot, htype] at h
  obtain ⟨history, hnames, hexplains, hnot⟩ := hinnocent
  exact hnot (hproves history hnames hexplains)

end

/-! ### One key on two chains -/

section

open SigningHistory

/-- A header of the first of the two validators. -/
def firstHeader (stateRoot : Hash) : BlockHeader where
  chainID := [1]
  slot := 5
  height := 1
  parentHash := 0
  previousQCHash := 0
  timeoutQCHash := 0
  leaderID := openCrypto.newValidatorID 1
  epochID := 1
  epochSnapshotRoot := 0
  txRoot := 0
  receiptRoot := 0
  rewardQCRoot := 0
  evidenceRoot := 0
  rewardRoot := 0
  stateRoot := stateRoot
  accountRoot := 0
  timestampUnixMilli := 1

/-- Two proposals for one slot of one chain. -/
def doubleProposalOnOneChain : SlashingEvidence where
  type := .doubleProposal
  doubleProposal := some ⟨⟨firstHeader 1, 0⟩, ⟨firstHeader 2, 0⟩⟩
  doubleVote := none

def sortedSnapshot : EpochSnapshot :=
  twoValidatorSnapshot [stakedValidator 1 1, stakedValidator 2 1]

/-- Two proposals for one slot prove an offence on the chain that they name. -/
theorem double_proposal_proves_offence :
    doubleProposalOnOneChain.validate openCrypto sortedSnapshot = .ok (stakedValidator 1 1, 5) ∧
      ∀ history : SigningHistory, history.NamesChain (stakedValidator 1 1) →
        history.Explains doubleProposalOnOneChain (stakedValidator 1 1) →
        history.Guilty (stakedValidator 1 1) 5 [1] := by
  have haccepted : doubleProposalOnOneChain.validate openCrypto sortedSnapshot =
      .ok (stakedValidator 1 1, 5) := by
    decide +kernel
  have hrange : doubleProposalOnOneChain.InRange := by
    refine ⟨fun proposals hmem => ?_, nofun⟩
    cases hmem
    exact ⟨by constructor <;> decide, by constructor <;> decide⟩
  refine ⟨haccepted, (accepted_evidence_proves_offence haccepted hrange [1]).1.mpr ⟨rfl, ?_⟩⟩
  rintro proposals ⟨⟩
  exact ⟨rfl, rfl⟩

/-- A vote of the first of the two validators to confirm a block. -/
def roamingVote (blockHash : Hash) : Vote where
  type := .confirm
  slot := 5
  blockHeight := 1
  blockHash := blockHash
  voterID := openCrypto.newValidatorID 1
  stake := 1
  createdAtUnixMilli := 1

def roamingBytes (blockHash : Hash) : Bytes :=
  (roamingVote blockHash).marshalBinary.toOption.getD []

/-- Each of two chains has one vote of the validator. -/
def roamingHistory : SigningHistory := fun key chainID bytes =>
  key = 1 ∧ ((chainID = [1] ∧ bytes = roamingBytes 7) ∨ (chainID = [2] ∧ bytes = roamingBytes 8))

/-- The signatures of these two votes, and no others, verify. -/
def roamingCrypto : Crypto :=
  { openCrypto with
    verifyMessageSignature := fun key bytes _ =>
      key = 1 && (bytes = roamingBytes 7 || bytes = roamingBytes 8) }

def votesOnTwoChains : SlashingEvidence where
  type := .doubleVote
  doubleProposal := none
  doubleVote := some ⟨⟨roamingVote 7, 1, 0⟩, ⟨roamingVote 8, 1, 0⟩⟩

/-- A validator that votes once on each of two chains is punished on either of them. -/
theorem votes_on_two_chains_accepted :
    votesOnTwoChains.validate roamingCrypto sortedSnapshot = .ok (stakedValidator 1 1, 5) ∧
      roamingHistory.Unforgeable roamingCrypto ∧
      roamingHistory.NamesChain (stakedValidator 1 1) ∧
      ∀ chainID, ¬roamingHistory.Guilty (stakedValidator 1 1) 5 chainID := by
  have hbytes (blockHash : Hash) (h : blockHash = 7 ∨ blockHash = 8) :
      (roamingVote blockHash).marshalBinary = .ok (roamingBytes blockHash) := by
    rcases h with rfl | rfl <;> decide +kernel
  -- no header of the validator has the bytes of one of the votes
  have hheader {header : BlockHeader} {bytes : Bytes}
      (hleader : header.leaderID = (stakedValidator 1 1).validatorID)
      (hsigned : bytes = roamingBytes 7 ∨ bytes = roamingBytes 8) :
      header.signBytes ≠ .ok bytes := by
    intro hheader
    rcases hsigned with rfl | rfl
    · exact @signBytes_ne_marshalBinary _ (roamingVote 7) _ hleader hheader (hbytes 7 (.inl rfl))
    · exact @signBytes_ne_marshalBinary _ (roamingVote 8) _ hleader hheader (hbytes 8 (.inr rfl))
  have hsame {chainID first second : Bytes} (hfirst : roamingHistory 1 chainID first)
      (hsecond : roamingHistory 1 chainID second) : first = second := by
    obtain ⟨-, ⟨rfl, rfl⟩ | ⟨rfl, rfl⟩⟩ := hfirst
    · obtain ⟨-, ⟨-, rfl⟩ | ⟨hchain, -⟩⟩ := hsecond
      · rfl
      · cases hchain
    · obtain ⟨-, ⟨hchain, -⟩ | ⟨-, rfl⟩⟩ := hsecond
      · cases hchain
      · rfl
  refine ⟨by decide +kernel, ?_, ?_, ?_⟩
  · intro key bytes signature hverify
    simp only [roamingCrypto, Bool.and_eq_true, Bool.or_eq_true, decide_eq_true_eq] at hverify
    obtain ⟨rfl, rfl | rfl⟩ := hverify
    · exact ⟨[1], rfl, .inl ⟨rfl, rfl⟩⟩
    · exact ⟨[2], rfl, .inr ⟨rfl, rfl⟩⟩
  · rintro chainID bytes header ⟨-, ⟨-, rfl⟩ | ⟨-, rfl⟩⟩ hleader - hsigned
    · exact absurd hsigned (hheader hleader (.inl rfl))
    · exact absurd hsigned (hheader hleader (.inr rfl))
  · rintro chainID (⟨first, second, firstBytes, secondBytes, hconflict, hfirst, -, hfirstSigned,
      -⟩ | ⟨first, second, firstBytes, secondBytes, hconflict, hfirst, hsecond, hfirstSigned,
      hsecondSigned⟩)
    · obtain ⟨-, ⟨-, rfl⟩ | ⟨-, rfl⟩⟩ := hfirstSigned
      · exact hheader hconflict.firstLeader (.inl rfl) hfirst
      · exact hheader hconflict.firstLeader (.inr rfl) hfirst
    · rw [hsame hfirstSigned hsecondSigned] at hfirst
      exact hconflict.different
        (Vote.marshalBinary_inj hconflict.firstRange hconflict.secondRange hfirst hsecond)

end

end Ordexus
