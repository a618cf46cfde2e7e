import Ordexus.Consensus.RewardAccounting

/-!
# The stake records of a state

Rewards and penalties read and write one account at a time, through the last entry at its
address. This module has the frame of such a write: what is read afterwards at the address and
at every other address, and that writes to different addresses commute.
-/

namespace Ordexus

open Checked

section

variable {entries : List AddressedAccount} {address other : PublicKey} {index : ℕ}
  {account old : Account}

/-- Writing the last entry of an address changes what is found there and nothing else. -/
theorem lastEntry_modify (h : lastEntry address entries = some (index, old))
    (account : Account) (other : PublicKey) :
    lastEntry other (entries.modify index fun entry => { entry with account := account }) =
      if other = address then some (index, account) else lastEntry other entries := by
  induction entries generalizing index with
  | nil => simp [lastEntry] at h
  | cons entry entries ih =>
    unfold lastEntry at h
    split at h
    · next later found hlater =>
      obtain ⟨rfl, rfl⟩ : later + 1 = index ∧ found = old := by simpa using h
      by_cases hother : other = address
      · subst hother
        simp [lastEntry, ih hlater]
      · simp [lastEntry, ih hlater, hother]
    · next hnone =>
      split at h
      · next haddress =>
        obtain ⟨rfl, rfl⟩ : 0 = index ∧ entry.account = old := by simpa using h
        subst haddress
        by_cases hother : other = entry.address
        · subst hother
          simp [lastEntry, hnone]
        · simp [lastEntry, hother, Ne.symm hother]
      · cases h

end

namespace ChainState

variable {state : ChainState} {address other first second : PublicKey} {index : ℕ}
  {account old : Account}

theorem lastEntry_setAccount (h : lastEntry address state.accounts = some (index, old))
    (account : Account) (other : PublicKey) :
    lastEntry other (state.setAccount index account).accounts =
      if other = address then some (index, account) else lastEntry other state.accounts :=
  lastEntry_modify h account other

theorem setAccount_self (h : lastEntry address state.accounts = some (index, old)) :
    state.setAccount index old = state := by
  obtain ⟨entries⟩ := state
  refine congrArg mk ?_
  have hentry := getElem?_of_lastEntry h
  refine List.ext_getElem? fun position => ?_
  rw [List.getElem?_modify]
  by_cases hposition : index = position
  · subst hposition
    simp only [hentry]
    rfl
  · cases entries[position]? <;> simp [hposition]

/-- The account at an address is replaced by what a function makes of it. -/
def updateAccount (update : Account → Option Account) (state : ChainState)
    (address : PublicKey) : Option ChainState :=
  (lastEntry address state.accounts).bind fun found =>
    (update found.2).map (state.setAccount found.1)

/-- Two updates of different accounts, both read from the state before them. -/
theorem updateAccount_bind (hne : first ≠ second) (update later : Account → Option Account)
    (state : ChainState) :
    (state.updateAccount update first).bind (updateAccount later · second) =
      (lastEntry first state.accounts).bind fun found => (update found.2).bind fun account =>
        (lastEntry second state.accounts).bind fun other => (later other.2).map
          ((state.setAccount found.1 account).setAccount other.1) := by
  rw [updateAccount]
  cases hfirst : lastEntry first state.accounts with
  | none => rfl
  | some found =>
    simp only [Option.bind_some]
    cases update found.2 with
    | none => rfl
    | some account =>
      simp only [Option.map_some, Option.bind_some]
      rw [updateAccount, lastEntry_setAccount hfirst, if_neg hne.symm]

theorem updateAccount_comm (hne : first ≠ second) (update later : Account → Option Account)
    (state : ChainState) :
    (state.updateAccount update first).bind (updateAccount later · second) =
      (state.updateAccount later second).bind (updateAccount update · first) := by
  rw [updateAccount_bind hne, updateAccount_bind hne.symm]
  cases hfirst : lastEntry first state.accounts with
  | none => cases lastEntry second state.accounts with
    | none => rfl
    | some other => cases hlater : later other.2 <;> simp [hlater]
  | some found => cases hsecond : lastEntry second state.accounts with
    | none => cases hupdate : update found.2 <;> simp [hupdate]
    | some other =>
      have hindex : found.1 ≠ other.1 := by
        intro hsame
        have hat := getElem?_of_lastEntry hfirst
        rw [hsame, getElem?_of_lastEntry hsecond] at hat
        exact hne (congrArg AddressedAccount.address (Option.some.inj hat)).symm
      cases hupdate : update found.2 <;> cases hlater : later other.2 <;>
        simp [hupdate, hlater, setAccount, List.modify_modify_ne _ _ _ hindex]

end ChainState

end Ordexus
