import Mathlib.Algebra.BigOperators.Ring.Finset
import Mathlib.Algebra.Order.BigOperators.Group.Finset
import Ordexus.Structure.Account

/-!
# Monetary policy

The inflation curve (`structure/monetary_policy.go`): a yearly rate in basis
points that decays to a floor, and the lamports it releases in an epoch.
-/

namespace Ordexus

open Checked

def basisPointsDenominator : ℕ := 10000

structure MonetaryPolicy where
  genesisSupplyLamports : ℕ
  initialInflationBps : ℕ
  terminalInflationBps : ℕ
  inflationDecayBpsPerYear : ℕ
  slotsPerYear : ℕ
  slotsPerEpoch : ℕ
deriving DecidableEq

def defaultMonetaryPolicy : MonetaryPolicy where
  genesisSupplyLamports := 100000000 * 1000000000
  initialInflationBps := 500
  terminalInflationBps := 150
  inflationDecayBpsPerYear := 1500
  slotsPerYear := 78840000
  slotsPerEpoch := 432000

/-- Zero stands for the default. -/
def orDefault (value fallback : ℕ) : ℕ :=
  if value = 0 then fallback else value

namespace MonetaryPolicy

def normalize (policy : MonetaryPolicy) : MonetaryPolicy where
  genesisSupplyLamports :=
    orDefault policy.genesisSupplyLamports defaultMonetaryPolicy.genesisSupplyLamports
  initialInflationBps :=
    orDefault policy.initialInflationBps defaultMonetaryPolicy.initialInflationBps
  terminalInflationBps :=
    orDefault policy.terminalInflationBps defaultMonetaryPolicy.terminalInflationBps
  inflationDecayBpsPerYear :=
    orDefault policy.inflationDecayBpsPerYear defaultMonetaryPolicy.inflationDecayBpsPerYear
  slotsPerYear := orDefault policy.slotsPerYear defaultMonetaryPolicy.slotsPerYear
  slotsPerEpoch := orDefault policy.slotsPerEpoch defaultMonetaryPolicy.slotsPerEpoch

def validate (unchecked : MonetaryPolicy) : Except String Unit := do
  let policy := unchecked.normalize
  failIf (policy.genesisSupplyLamports = 0) "structure: invalid fee: genesis supply cannot be zero"
  failIf (basisPointsDenominator < policy.initialInflationBps)
    "structure: invalid fee: initial inflation bps exceeds 10000"
  failIf (policy.initialInflationBps < policy.terminalInflationBps)
    "structure: invalid fee: terminal inflation exceeds initial inflation"
  failIf (basisPointsDenominator < policy.inflationDecayBpsPerYear)
    "structure: invalid fee: inflation decay bps exceeds 10000"
  failIf (policy.slotsPerYear = 0 ∨ policy.slotsPerEpoch = 0)
    "structure: invalid fee: slots per year and epoch must be positive"

/-- One turn of the loop of `InflationBpsForEpoch`. -/
def nextInflation (policy : MonetaryPolicy) (inflation : ℕ) : ℕ :=
  max (inflation * (basisPointsDenominator - policy.inflationDecayBpsPerYear) /
    basisPointsDenominator) policy.terminalInflationBps

/-- The loop of `InflationBpsForEpoch`. -/
def decayInflation (policy : MonetaryPolicy) : ℕ → ℕ → ℕ
  | 0, inflation => inflation
  | years + 1, inflation =>
    if inflation ≤ policy.terminalInflationBps then inflation
    else decayInflation policy years (policy.nextInflation inflation)

def inflationBpsForEpoch (unchecked : MonetaryPolicy) (epochID : ℕ) : Except String ℕ := do
  let policy := unchecked.normalize
  policy.validate
  let elapsedSlots ← withContext "structure: calculate inflation year"
    (safeMulUint64 epochID policy.slotsPerEpoch)
  let yearIndex := elapsedSlots / policy.slotsPerYear
  pure (policy.decayInflation yearIndex policy.initialInflationBps)

def inflationLamportsForEpoch (unchecked : MonetaryPolicy)
    (currentSupplyLamports epochID epochSlots : ℕ) : Except String ℕ := do
  let policy := unchecked.normalize
  policy.validate
  if currentSupplyLamports = 0 ∨ epochSlots = 0 then pure 0
  else
    let inflationBps ← policy.inflationBpsForEpoch epochID
    let reward := currentSupplyLamports * inflationBps * epochSlots /
      (basisPointsDenominator * policy.slotsPerYear)
    failIf (maxUint64 < reward) "structure: invalid fee: epoch inflation exceeds uint64"
    pure reward

/-! ### The curve -/

/-- How often the loop runs. -/
def decayTurns (policy : MonetaryPolicy) : ℕ → ℕ → ℕ
  | 0, _ => 0
  | years + 1, inflation =>
    if inflation ≤ policy.terminalInflationBps then 0
    else decayTurns policy years (policy.nextInflation inflation) + 1

section

variable {policy : MonetaryPolicy} {inflation years : ℕ}

/-- The rate is what the turns make of the first one. -/
theorem decayInflation_eq_iterate : policy.decayInflation years inflation =
    policy.nextInflation^[policy.decayTurns years inflation] inflation := by
  induction years generalizing inflation with
  | zero => rfl
  | succ years ih =>
    rw [decayInflation, decayTurns]
    split
    · rfl
    · rw [ih, Function.iterate_succ_apply]

theorem terminal_le_next : policy.terminalInflationBps ≤ policy.nextInflation inflation :=
  le_max_right _ _

variable (hdecay : 0 < policy.inflationDecayBpsPerYear)
include hdecay

/-- A rate above the floor falls. -/
theorem nextInflation_lt (habove : policy.terminalInflationBps < inflation) :
    policy.nextInflation inflation < inflation := by
  refine max_lt (Nat.div_lt_of_lt_mul ?_) habove
  rw [Nat.mul_comm]
  refine Nat.mul_lt_mul_of_pos_right ?_ (by omega)
  unfold basisPointsDenominator
  omega

/-- Every turn takes at least one basis point from the rate. -/
theorem decayInflation_add_turns_le (years : ℕ) (hfloor : policy.terminalInflationBps ≤ inflation) :
    policy.terminalInflationBps ≤ policy.decayInflation years inflation ∧
      policy.decayInflation years inflation + policy.decayTurns years inflation ≤ inflation := by
  induction years generalizing inflation with
  | zero => exact ⟨hfloor, le_rfl⟩
  | succ years ih =>
    rw [decayInflation, decayTurns]
    split
    · exact ⟨hfloor, le_rfl⟩
    · next habove =>
      have hless := nextInflation_lt hdecay (not_le.mp habove)
      obtain ⟨hterminal, hturns⟩ := ih terminal_le_next
      exact ⟨hterminal, by omega⟩

theorem decayInflation_antitone (hfloor : policy.terminalInflationBps ≤ inflation) {more : ℕ}
    (hmore : years ≤ more) :
    policy.decayInflation more inflation ≤ policy.decayInflation years inflation := by
  induction years generalizing more inflation with
  | zero => exact le_of_add_le_left (decayInflation_add_turns_le hdecay more hfloor).2
  | succ years ih =>
    obtain ⟨more, rfl⟩ := Nat.exists_eq_succ_of_ne_zero (Nat.ne_zero_of_lt hmore)
    rw [decayInflation, decayInflation]
    split
    · rfl
    · exact ih terminal_le_next (Nat.le_of_succ_le_succ hmore)

end

section

variable {unchecked : MonetaryPolicy} {epochID first rate : ℕ}

theorem normalize_normalize (policy : MonetaryPolicy) :
    policy.normalize.normalize = policy.normalize := by
  have htwice (value fallback : ℕ) :
      orDefault (orDefault value fallback) fallback = orDefault value fallback := by
    unfold orDefault
    split <;> simp_all
  simp only [normalize, htwice]

theorem inflationBpsForEpoch_eq_ok (h : unchecked.inflationBpsForEpoch epochID = .ok rate) :
    let policy := unchecked.normalize
    0 < policy.inflationDecayBpsPerYear ∧ 0 < policy.slotsPerYear ∧
      policy.terminalInflationBps ≤ policy.initialInflationBps ∧
      rate = policy.decayInflation (epochID * policy.slotsPerEpoch / policy.slotsPerYear)
        policy.initialInflationBps := by
  simp only [inflationBpsForEpoch, validate, normalize_normalize, eq_ok, not_or, not_lt] at h
  obtain ⟨⟨-, -, hfloor, -, hslots, -⟩, elapsed, helapsed, rfl⟩ := h
  have hdecay : 0 < unchecked.normalize.inflationDecayBpsPerYear := by
    change 0 < orDefault _ 1500
    unfold orDefault
    split <;> omega
  have hproduct : elapsed = epochID * unchecked.normalize.slotsPerEpoch := by
    unfold safeMulUint64 at helapsed
    split at helapsed
    · next hzero =>
      cases helapsed
      exact (Nat.mul_eq_zero.mpr hzero).symm
    · obtain ⟨-, -, helapsed⟩ := bind_eq_ok.mp helapsed
      exact (Except.ok.inj helapsed).symm
  refine ⟨hdecay, Nat.pos_of_ne_zero hslots, hfloor, ?_⟩
  rw [hproduct]

theorem inflationBpsForEpoch_antitone {later : ℕ} (hfirst : first ≤ epochID)
    (h : unchecked.inflationBpsForEpoch first = .ok rate)
    (hlater : unchecked.inflationBpsForEpoch epochID = .ok later) : later ≤ rate := by
  obtain ⟨hdecay, -, hfloor, rfl⟩ := inflationBpsForEpoch_eq_ok h
  obtain ⟨-, -, -, rfl⟩ := inflationBpsForEpoch_eq_ok hlater
  exact decayInflation_antitone hdecay hfloor
    (Nat.div_le_div_right (Nat.mul_le_mul_right _ hfirst))

/-- An epoch releases at most the share of its slots at the rate of an earlier epoch. -/
theorem inflationLamportsForEpoch_le {supply slots reward : ℕ} (hfirst : first ≤ epochID)
    (h : unchecked.inflationBpsForEpoch first = .ok rate)
    (hreward : unchecked.inflationLamportsForEpoch supply epochID slots = .ok reward) :
    reward * (basisPointsDenominator * unchecked.normalize.slotsPerYear) ≤
      supply * rate * slots := by
  simp only [inflationLamportsForEpoch, eq_ok] at hreward
  obtain ⟨-, hreward⟩ := hreward
  split at hreward
  · obtain rfl := Except.ok.inj hreward
    rw [Nat.zero_mul]
    exact Nat.zero_le _
  · simp only [eq_ok] at hreward
    obtain ⟨later, hlater, -, rfl⟩ := hreward
    have hsame : unchecked.inflationBpsForEpoch epochID = .ok later := by
      rwa [inflationBpsForEpoch, normalize_normalize] at hlater
    have hless := inflationBpsForEpoch_antitone hfirst h hsame
    exact (Nat.div_mul_le_self _ _).trans
      (Nat.mul_le_mul_right slots (Nat.mul_le_mul_left supply hless))

/-- The rate never rises and stays between its bounds, the loop takes no more turns than lie
between them, and consecutive epochs of a year release no more than their first rate allows.
Nothing is computed for a policy that `Validate` refuses. -/
theorem inflation_curve (h : unchecked.inflationBpsForEpoch first = .ok rate) :
    let policy := unchecked.normalize
    let years := first * policy.slotsPerEpoch / policy.slotsPerYear
    policy.terminalInflationBps ≤ rate ∧ rate ≤ policy.initialInflationBps ∧
      (∀ epochID later, first ≤ epochID → unchecked.inflationBpsForEpoch epochID = .ok later →
        later ≤ rate) ∧
      rate = policy.decayInflation years policy.initialInflationBps ∧
      policy.decayTurns years policy.initialInflationBps ≤
        policy.initialInflationBps - policy.terminalInflationBps ∧
      ∀ supply count (slots rewards : ℕ → ℕ),
        (∀ i < count,
          unchecked.inflationLamportsForEpoch supply (first + i) (slots i) = .ok (rewards i)) →
        ∑ i ∈ Finset.range count, slots i ≤ policy.slotsPerYear →
          (∑ i ∈ Finset.range count, rewards i) * basisPointsDenominator ≤ supply * rate := by
  obtain ⟨hdecay, hslots, hfloor, hrate⟩ := inflationBpsForEpoch_eq_ok h
  obtain ⟨hterminal, hturns⟩ := decayInflation_add_turns_le hdecay
    (first * unchecked.normalize.slotsPerEpoch / unchecked.normalize.slotsPerYear) hfloor
  rw [← hrate] at hterminal hturns
  refine ⟨hterminal, by omega, fun _ _ hle => inflationBpsForEpoch_antitone hle h, hrate,
    by omega, fun supply count slots rewards hrewards hyear => ?_⟩
  refine Nat.le_of_mul_le_mul_right ?_ hslots
  calc (∑ i ∈ Finset.range count, rewards i) * basisPointsDenominator *
        unchecked.normalize.slotsPerYear
      = ∑ i ∈ Finset.range count,
          rewards i * (basisPointsDenominator * unchecked.normalize.slotsPerYear) := by
        rw [Nat.mul_assoc, Finset.sum_mul]
    _ ≤ ∑ i ∈ Finset.range count, supply * rate * slots i :=
        Finset.sum_le_sum fun i hi => inflationLamportsForEpoch_le (Nat.le_add_right _ _) h
          (hrewards i (Finset.mem_range.mp hi))
    _ ≤ supply * rate * unchecked.normalize.slotsPerYear := by
        rw [← Finset.mul_sum]
        exact Nat.mul_le_mul_left _ hyear

/-- Two epochs of the third year of the default policy. -/
theorem inflation_curve_default :
    defaultMonetaryPolicy.inflationBpsForEpoch 400 = .ok 361 ∧
      (19780821917808 + 19780821917808) * 10000 ≤ 100000000 * 1000000000 * 361 := by
  have hrate : defaultMonetaryPolicy.inflationBpsForEpoch 400 = .ok 361 := by decide +kernel
  refine ⟨hrate, ?_⟩
  exact (inflation_curve hrate).2.2.2.2.2 (100000000 * 1000000000) 2 (fun _ => 432000)
    (fun _ => 19780821917808) (by decide +kernel) (by decide)

end

end MonetaryPolicy

end Ordexus
