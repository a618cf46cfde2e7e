import Ordexus.Structure.Primitive

/-!
# Votes, thresholds and certificates

The wire-level objects of the voting protocol (`consensus/slot.go`) with their
field checks. What a validator signs is the message of a vote: its type, round
and block together with the voter, but neither the stake nor the time.
-/

namespace Ordexus

open Checked

/-- A validator is named by a text derived from its consensus key. -/
abbrev ValidatorID := Bytes

def maxConsensusTextLength : ℕ := 128
def maxCertificateVoters : ℕ := 2048

/-- The vote types; `unknown` stands for every byte outside the other three. -/
inductive VoteType where
  | unknown
  | confirm
  | skip
  | prepare
deriving DecidableEq

def VoteType.code : VoteType → ℕ
  | .unknown => 0
  | .confirm => 1
  | .skip => 2
  | .prepare => 3

/-- `Confirm` and `Skip` are the two outcomes of the decision phase. -/
def VoteType.isDecision : VoteType → Bool
  | .confirm | .skip => true
  | .unknown | .prepare => false

/-- The two phases that share one choice each in a slot. -/
inductive VotePhase where
  | prepare
  | decision
deriving DecidableEq

def votePhaseForChoice : VoteType → VotePhase
  | .prepare => .prepare
  | .unknown | .confirm | .skip => .decision

/-- The signed part of a vote (`BLSVoteMessage`, `sameVoteChoice`). -/
structure VoteMessage where
  type : VoteType
  slot : ℕ
  blockHeight : ℕ
  blockHash : Hash
  voterID : ValidatorID
deriving DecidableEq

structure Vote extends VoteMessage where
  stake : ℕ
  createdAtUnixMilli : ℤ
deriving DecidableEq

/-- A field check shared by votes and certificates: both phases name a block, or
its parent, at a positive height. -/
def validateTarget (type : VoteType) (blockHash : Hash) (blockHeight : ℕ)
    (kind sentinel : String) : Except String Unit := do
  failIf ((type = .prepare ∨ type = .confirm) ∧ blockHash = 0)
    (sentinel ++ ": block " ++ kind ++ " requires block hash")
  failIf ((type = .prepare ∨ type = .confirm) ∧ blockHeight = 0)
    (sentinel ++ ": block " ++ kind ++ " requires block height")
  failIf (type = .skip ∧ blockHash = 0)
    (sentinel ++ ": skip " ++ kind ++ " requires parent block hash")
  failIf (type = .skip ∧ blockHeight = 0)
    (sentinel ++ ": skip " ++ kind ++ " requires target block height")

def Vote.validate (vote : Vote) : Except String Unit := do
  failIf (vote.type = .unknown) "consensus: invalid vote: unknown vote type"
  failIf (isBlank vote.voterID = true ∨ maxConsensusTextLength < vote.voterID.length)
    "consensus: invalid vote: invalid voter id"
  failIf (vote.stake = 0) "consensus: invalid vote: stake must be positive"
  failIf (vote.createdAtUnixMilli ≤ 0) "consensus: invalid vote: created_at must be positive"
  validateTarget vote.type vote.blockHash vote.blockHeight "vote" "consensus: invalid vote"

/-- A threshold as a fraction of the total stake; `strict` asks for more than it. -/
structure Quorum where
  numerator : ℕ
  denominator : ℕ
  strict : Bool
deriving DecidableEq

/-- The stake that is asked for. Products that could leave 64 bits are refused; the one
added to a strict threshold still wraps. -/
def Quorum.requiredStake (quorum : Quorum) (totalStake : ℕ) : Except String ℕ := do
  failIf (quorum.numerator = 0 ∨ quorum.denominator = 0) "consensus: invalid quorum: zero value"
  failIf (quorum.denominator < quorum.numerator)
    "consensus: invalid quorum: numerator exceeds denominator"
  failIf (totalStake = 0) "consensus: invalid quorum: total stake is zero"
  failIf ((maxUint64 - quorum.denominator + 1) / quorum.numerator < totalStake)
    "consensus: invalid quorum: stake overflow"
  if quorum.strict then
    pure (wrapUint64 (totalStake * quorum.numerator / quorum.denominator + 1))
  else
    pure ((totalStake * quorum.numerator + quorum.denominator - 1) / quorum.denominator)

namespace Quorum

variable {quorum : Quorum} {total required : ℕ}

theorem requiredStake_eq_ok (h : quorum.requiredStake total = .ok required) :
    0 < quorum.numerator ∧ quorum.numerator ≤ quorum.denominator ∧ 0 < total ∧
      total * quorum.numerator ≤ maxUint64 - quorum.denominator + 1 ∧
      required = if quorum.strict then
          wrapUint64 (total * quorum.numerator / quorum.denominator + 1)
        else (total * quorum.numerator + quorum.denominator - 1) / quorum.denominator := by
  simp only [requiredStake, eq_ok, not_or, not_lt] at h
  obtain ⟨⟨hnumerator, -⟩, hfraction, htotal, hfits, h⟩ := h
  have hpositive := Nat.pos_of_ne_zero hnumerator
  refine ⟨hpositive, hfraction, Nat.pos_of_ne_zero htotal,
    (Nat.le_div_iff_mul_le hpositive).mp hfits, ?_⟩
  split at h
  · next hstrict => rw [if_pos hstrict, Except.ok.inj h]
  · next hstrict => rw [if_neg hstrict, Except.ok.inj h]

/-- A part of the total meets the threshold, in exact numbers. -/
def Meets (quorum : Quorum) (total stake : ℕ) : Prop :=
  if quorum.strict then total * quorum.numerator < stake * quorum.denominator
  else total * quorum.numerator ≤ stake * quorum.denominator

/-- The quotient a strict threshold adds one to stays below the largest number, apart from
the whole of the largest total. -/
theorem quotient_lt_maxUint64 (hpositive : 0 < quorum.numerator)
    (hfraction : quorum.numerator ≤ quorum.denominator)
    (hfits : total * quorum.numerator ≤ maxUint64 - quorum.denominator + 1) :
    total * quorum.numerator / quorum.denominator < maxUint64 ↔
      ¬(quorum.numerator = 1 ∧ quorum.denominator = 1 ∧ total = maxUint64) := by
  constructor
  · rintro hless ⟨hnumerator, hdenominator, rfl⟩
    rw [hnumerator, hdenominator, Nat.mul_one, Nat.div_one] at hless
    exact hless.false
  · intro hother
    rw [Nat.div_lt_iff_lt_mul (hpositive.trans_le hfraction)]
    rcases Nat.lt_or_ge 1 quorum.denominator with hmany | hone
    · have hdouble : maxUint64 * 2 ≤ maxUint64 * quorum.denominator :=
        Nat.mul_le_mul_left _ hmany
      unfold maxUint64 at *
      omega
    · obtain ⟨hnumerator, hdenominator⟩ : quorum.numerator = 1 ∧ quorum.denominator = 1 := by
        omega
      rw [hnumerator, hdenominator] at hfits ⊢
      have hne : total ≠ maxUint64 := fun h => hother ⟨hnumerator, hdenominator, h⟩
      unfold maxUint64 at *
      omega

/-- A threshold is the least stake that meets it unless the added one wraps. -/
theorem requiredStake_exact_iff (h : quorum.requiredStake total = .ok required) :
    (IsLeast {stake | quorum.Meets total stake} required ∧ 0 < required ∧
        (quorum.strict = false → required ≤ total)) ↔
      ¬(quorum.strict = true ∧ quorum.numerator = 1 ∧ quorum.denominator = 1 ∧
        total = maxUint64) := by
  obtain ⟨hpositive, hfraction, htotal, hfits, hrequired⟩ := requiredStake_eq_ok h
  have hdenominator := hpositive.trans_le hfraction
  cases hstrict : quorum.strict with
  | true =>
    simp only [hstrict, Meets, if_true, true_and, Bool.true_eq_false, false_implies, and_true]
      at hrequired ⊢
    have hleast : IsLeast {stake | total * quorum.numerator < stake * quorum.denominator}
        (total * quorum.numerator / quorum.denominator + 1) :=
      ⟨(Nat.div_lt_iff_lt_mul hdenominator).mp (Nat.lt_succ_self _),
        fun _ hstake => (Nat.div_lt_iff_lt_mul hdenominator).mpr hstake⟩
    rw [← quotient_lt_maxUint64 hpositive hfraction hfits]
    unfold wrapUint64 at hrequired
    unfold maxUint64
    constructor
    · rintro ⟨hexact, -⟩
      have hsame := le_antisymm (hexact.2 hleast.1) (hleast.2 hexact.1)
      omega
    · intro hquotient
      rw [Nat.mod_eq_of_lt (by omega)] at hrequired
      exact hrequired ▸ ⟨hleast, Nat.succ_pos _⟩
  | false =>
    simp only [hstrict, Meets, Bool.false_eq_true, if_false, false_and, not_false_iff, iff_true,
      true_implies] at hrequired ⊢
    have hceil (stake : ℕ) :
        required ≤ stake ↔ total * quorum.numerator ≤ stake * quorum.denominator := by
      rw [hrequired, ← Nat.lt_succ_iff, Nat.div_lt_iff_lt_mul hdenominator, Nat.succ_mul]
      omega
    refine ⟨⟨(hceil required).mp le_rfl, fun stake => (hceil stake).mpr⟩, ?_,
      (hceil total).mpr (Nat.mul_le_mul_left total hfraction)⟩
    refine Nat.pos_of_ne_zero fun hzero => ?_
    have hnothing := (hceil 0).mp hzero.le
    rw [Nat.zero_mul] at hnothing
    exact (Nat.mul_pos htotal hpositive).not_ge hnothing

/-- Two thirds of ten are met by seven. -/
theorem requiredStake_exact_ten :
    IsLeast {stake | Meets ⟨2, 3, true⟩ 10 stake} 7 :=
  ((@requiredStake_exact_iff ⟨2, 3, true⟩ 10 7 rfl).mpr (by decide)).1

/-- More than the whole of the largest total is no stake at all. -/
theorem requiredStake_wraps :
    requiredStake ⟨1, 1, true⟩ maxUint64 = .ok 0 ∧ ¬Meets ⟨1, 1, true⟩ maxUint64 0 :=
  ⟨rfl, by simp [Meets]⟩

end Quorum

/-- The threshold both phases of the protocol use. -/
def strictTwoThirds : Quorum := { numerator := 2, denominator := 3, strict := true }

/-- A successful threshold is the strict two-thirds of a positive total. -/
theorem requiredStake_strictTwoThirds {total required : ℕ}
    (h : strictTwoThirds.requiredStake total = .ok required) :
    0 < total ∧ required = total * 2 / 3 + 1 := by
  obtain ⟨-, -, htotal, hfits, rfl⟩ := Quorum.requiredStake_eq_ok h
  refine ⟨htotal, ?_⟩
  simp only [strictTwoThirds, if_true, wrapUint64, maxUint64] at hfits ⊢
  omega

inductive SignatureScheme where
  | none
  | blsBasic
  | other
deriving DecidableEq

structure QuorumCertificate where
  type : VoteType
  slot : ℕ
  blockHeight : ℕ
  blockHash : Hash
  thresholdStake : ℕ
  confirmedStake : ℕ
  voters : List ValidatorID
  createdAtUnixMilli : ℤ
  signatureScheme : SignatureScheme
  aggregateSignature : Bytes
  voterBitmap : Bytes
deriving DecidableEq

/-- The message a voter listed by a certificate must have signed. -/
def QuorumCertificate.message (certificate : QuorumCertificate) (voter : ValidatorID) :
    VoteMessage where
  type := certificate.type
  slot := certificate.slot
  blockHeight := certificate.blockHeight
  blockHash := certificate.blockHash
  voterID := voter

def validateAggregateFields (certificate : QuorumCertificate) : Except String Unit := do
  if certificate.signatureScheme ≠ .none ∨ certificate.aggregateSignature ≠ [] ∨
      certificate.voterBitmap ≠ [] then
    failIf (certificate.signatureScheme ≠ .blsBasic)
      "consensus: invalid certificate: unsupported aggregate signature scheme"
    failIf (certificate.aggregateSignature = [])
      "consensus: invalid certificate: missing aggregate signature"
    failIf (certificate.voterBitmap = [])
      "consensus: invalid certificate: missing voter bitmap"

/-- Voter lists are strictly increasing; `previous` is the last name read. -/
def validateVoterListFrom : Option ValidatorID → List ValidatorID → Except String Unit
  | _, [] => pure ()
  | previous, voter :: voters => do
    failIf (isBlank voter = true ∨ maxConsensusTextLength < voter.length)
      "consensus: invalid certificate: invalid voter id"
    failIf (∃ last ∈ previous, voter ≤ last)
      "consensus: invalid certificate: voters must be sorted and unique"
    validateVoterListFrom (some voter) voters

def validateVoterList (voters : List ValidatorID) : Except String Unit :=
  validateVoterListFrom none voters

def QuorumCertificate.validate (certificate : QuorumCertificate) : Except String Unit := do
  failIf (certificate.type = .unknown) "consensus: invalid certificate: unknown certificate type"
  validateTarget certificate.type certificate.blockHash certificate.blockHeight "certificate"
    "consensus: invalid certificate"
  failIf (certificate.thresholdStake = 0 ∨ certificate.confirmedStake < certificate.thresholdStake)
    "consensus: invalid certificate: insufficient stake"
  failIf (certificate.voters = [] ∨ maxCertificateVoters < certificate.voters.length)
    "consensus: invalid certificate: invalid voters"
  failIf (certificate.createdAtUnixMilli ≤ 0)
    "consensus: invalid certificate: created_at must be positive"
  validateAggregateFields certificate
  validateVoterList certificate.voters

end Ordexus
