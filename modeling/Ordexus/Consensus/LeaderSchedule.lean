import Ordexus.Consensus.ValidatorSet

/-!
# Leader schedules

The leader of every slot of an epoch (`consensus/leader_schedule.go`), drawn from
the random seed of the snapshot with the stakes as weights.
-/

namespace Ordexus

open Checked

/-- `SlotToLeader`; the first entry of a slot counts. -/
structure LeaderSchedule where
  slotToLeader : List (ℕ × ValidatorID)
deriving DecidableEq

def LeaderSchedule.leaderForSlot (schedule : LeaderSchedule) (slot : ℕ) :
    Except String ValidatorID :=
  orFail (schedule.slotToLeader.lookup slot)
    s!"consensus: unknown validator: slot {slot} not in schedule"

/-- The first validator whose accumulated stake passes the target. -/
def leaderAtTarget (target : ℕ) : ℕ → List ValidatorState → Option ValidatorID
  | _, [] => none
  | accumulatedStake, validator :: validators =>
    let next := wrapUint64 (accumulatedStake + validator.stakeLamports)
    if target < next then some validator.validatorID else leaderAtTarget target next validators

def selectLeaderForSlot (crypto : Crypto) (snapshot : EpochSnapshot) (slot : ℕ) : ValidatorID :=
  let randomBytes := bigEndian 32
    (crypto.sha256 (bigEndian 32 snapshot.randomSeed ++ littleEndian 8 slot))
  let target := Borsh.ofLittleEndian (randomBytes.take 8) % snapshot.totalActiveStake
  ((leaderAtTarget target 0 snapshot.validators).orElse fun _ =>
    snapshot.validators.getLast?.map ValidatorState.validatorID).getD []

def newLeaderSchedule (crypto : Crypto) (snapshot : EpochSnapshot) :
    Except String LeaderSchedule := do
  failIf (snapshot.totalActiveStake = 0 ∨ snapshot.validators = [])
    "consensus: invalid vote: empty snapshot"
  pure { slotToLeader := (List.range' snapshot.startSlot
    (snapshot.endSlot + 1 - snapshot.startSlot)).map fun slot =>
      (slot, selectLeaderForSlot crypto snapshot slot) }

end Ordexus
