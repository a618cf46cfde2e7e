import Ordexus.Consensus.ValidatorSet
import Ordexus.Structure.Fee

/-!
# The account state of a chain

The state a block starts from, the writes of a transaction, and the state root
(`consensus/proposal.go`). The list may hold an address twice; a write then goes
to the last entry.
-/

namespace Ordexus

open Checked List

def Account.marshalBinary (account : Account) : Except String Bytes := do
  account.validate
  pure (littleEndian 8 account.lamports ++ littleEndian 4 account.data.length ++ account.data ++
    bigEndian 32 account.owner ++ [if account.executable then 1 else 0] ++
    littleEndian 8 account.rentEpoch)

structure ChainState where
  accounts : List AddressedAccount
deriving DecidableEq

/-- The entry of a built-in program that a transaction names but nobody created. -/
def isBuiltinProgramPlaceholder (entry : AddressedAccount) : Bool :=
  defaultBuiltinProgramIDs.isBuiltinProgram entry.address && entry.account.lamports = 0 &&
    entry.account.data = [] && !entry.account.executable &&
    entry.account.owner = defaultBuiltinProgramIDs.nativeLoader

/-- Overwrite the last entry at the address of `write`. -/
def replaceLast (write : AddressedAccount) : List AddressedAccount → List AddressedAccount
  | [] => []
  | entry :: entries =>
    if write.address ∈ entries.map AddressedAccount.address then
      entry :: replaceLast write entries
    else if entry.address = write.address then write :: entries
    else entry :: entries

namespace ChainState

section

variable (state : ChainState)

def applyWrite (write : AddressedAccount) : ChainState :=
  if write.address ∈ state.accounts.map AddressedAccount.address then
    { accounts := replaceLast write state.accounts }
  else if isBuiltinProgramPlaceholder write then state
  else { accounts := state.accounts ++ [write] }

def applyWrites (writes : List AddressedAccount) : ChainState :=
  writes.foldl applyWrite state

/-- All the state holds for an address. -/
def accountsAt (address : PublicKey) : List Account :=
  (state.accounts.filter fun entry => entry.address = address).map AddressedAccount.account

/-- The account at an address; of several entries the last one counts. -/
def account? (address : PublicKey) : Option Account :=
  (state.accountsAt address).getLast?

def addresses : List PublicKey :=
  state.accounts.map AddressedAccount.address

def lamports : ℕ :=
  (state.accounts.map fun entry => entry.account.lamports).sum

/-- `RootHash`: the accounts are committed to in the order of their addresses. -/
def rootHash (crypto : Crypto) (state : ChainState) : Except String Hash := do
  let sorted := state.accounts.insertionSort fun left right => left.address ≤ right.address
  let encoded ← sorted.mapM fun entry => do
    let accountBytes ← entry.account.marshalBinary
    pure (bigEndian 32 entry.address ++ bigEndian 32 (crypto.sha256 accountBytes))
  pure (crypto.sha256 encoded.flatten)

/-- A write that repeats what the state holds, or that is dropped. -/
def Unchanged (write : AddressedAccount) : Prop :=
  match (state.accountsAt write.address).getLast? with
  | some account => account = write.account
  | none => isBuiltinProgramPlaceholder write = true

end

variable {state other : ChainState} {write : AddressedAccount} {address : PublicKey}

theorem filter_replaceLast_of_ne (hne : write.address ≠ address)
    (entries : List AddressedAccount) :
    (replaceLast write entries).filter (fun entry => entry.address = address) =
      entries.filter fun entry => entry.address = address := by
  induction entries with
  | nil => rfl
  | cons entry entries ih =>
    unfold replaceLast
    split
    · rw [filter_cons, filter_cons, ih]
    · split
      · next heq => simp [hne, heq]
      · rfl

theorem replaceLast_of_getLast? (entries : List AddressedAccount) {account : Account}
    (hlast : ((entries.filter fun entry => entry.address = write.address).map
      AddressedAccount.account).getLast? = some account) (heq : account = write.account) :
    replaceLast write entries = entries := by
  induction entries with
  | nil => rfl
  | cons entry entries ih =>
    unfold replaceLast
    by_cases hmem : write.address ∈ entries.map AddressedAccount.address
    · rw [if_pos hmem, ih]
      obtain ⟨later, hlater, haddress⟩ := mem_map.mp hmem
      have hne : (entries.filter fun entry => entry.address = write.address).map
          AddressedAccount.account ≠ [] := by
        simp only [ne_eq, map_eq_nil_iff, filter_eq_nil_iff, not_forall]
        exact ⟨later, hlater, by simpa using haddress⟩
      by_cases hhead : entry.address = write.address
      · rwa [filter_cons_of_pos (by simpa using hhead), map_cons,
          getLast?_cons_of_ne_nil hne] at hlast
      · rwa [filter_cons_of_neg (by simpa using hhead)] at hlast
    · rw [if_neg hmem]
      split
      · next hhead =>
        have hnone : (entries.filter fun entry => entry.address = write.address) = [] := by
          rw [filter_eq_nil_iff]
          intro later hlater hlaterAddress
          exact hmem (mem_map.mpr ⟨later, hlater, by simpa using hlaterAddress⟩)
        rw [filter_cons_of_pos (by simpa using hhead), hnone] at hlast
        cases entry
        simp_all
      · rfl

/-- A write only changes the entries at its own address. -/
theorem accountsAt_applyWrite (hne : write.address ≠ address) :
    (state.applyWrite write).accountsAt address = state.accountsAt address := by
  unfold applyWrite accountsAt
  split
  · rw [filter_replaceLast_of_ne hne]
  · split
    · rfl
    · simp [hne]

theorem mem_addresses_iff :
    write.address ∈ state.accounts.map AddressedAccount.address ↔
      state.accountsAt write.address ≠ [] := by
  simp only [accountsAt, ne_eq, map_eq_nil_iff, filter_eq_nil_iff, not_forall, mem_map]
  constructor
  all_goals
    rintro ⟨entry, hmem, haddress⟩
    exact ⟨entry, hmem, by simpa using haddress⟩

theorem applyWrite_of_unchanged (h : state.Unchanged write) : state.applyWrite write = state := by
  unfold Unchanged at h
  cases hlast : (state.accountsAt write.address).getLast? with
  | none =>
    rw [hlast] at h
    have hempty := getLast?_eq_none_iff.mp hlast
    simp [applyWrite, mem_addresses_iff, hempty, h]
  | some account =>
    rw [hlast] at h
    have hne : state.accountsAt write.address ≠ [] := by
      intro hempty
      simp [hempty] at hlast
    rw [applyWrite, if_pos (mem_addresses_iff.mpr hne), replaceLast_of_getLast? _ hlast h]

/-- Whether a write changes anything is decided by the entries at its address. -/
theorem Unchanged.congr (h : state.Unchanged write)
    (hsame : other.accountsAt write.address = state.accountsAt write.address) :
    other.Unchanged write := by
  unfold Unchanged at *
  rwa [hsame]

variable {writes : List AddressedAccount}

/-- Writes that change nothing outside a set of addresses leave the entries at
every other address as they are. -/
theorem accountsAt_applyWrites {locked : List PublicKey}
    (hwrites : ∀ write ∈ writes, write.address ∈ locked ∨ state.Unchanged write)
    (haddress : address ∉ locked) :
    (state.applyWrites writes).accountsAt address = state.accountsAt address := by
  -- the state moves along the list, but its unlocked entries stay those of `state`
  suffices hrun : ∀ current : ChainState,
      (∀ address, address ∉ locked → current.accountsAt address = state.accountsAt address) →
      (current.applyWrites writes).accountsAt address = state.accountsAt address from
    hrun state fun _ _ => rfl
  induction writes with
  | nil => exact fun current hcurrent => hcurrent address haddress
  | cons write writes ih =>
    intro current hcurrent
    refine ih (fun later hlater => hwrites later (mem_cons_of_mem write hlater))
      (current.applyWrite write) fun outside houtside => ?_
    by_cases hlocked : write.address ∈ locked
    · rw [accountsAt_applyWrite (by rintro rfl; exact houtside hlocked)]
      exact hcurrent outside houtside
    · have hunchanged := (hwrites write mem_cons_self).resolve_left hlocked
      rw [applyWrite_of_unchanged (hunchanged.congr (hcurrent _ hlocked))]
      exact hcurrent outside houtside

/-! ### The account at an address -/

theorem filter_replaceLast (entries : List AddressedAccount)
    (hmem : write.address ∈ entries.map AddressedAccount.address) :
    (((replaceLast write entries).filter fun entry => entry.address = write.address).map
        AddressedAccount.account).getLast? = some write.account ∧
      write.address ∈ (replaceLast write entries).map AddressedAccount.address := by
  induction entries with
  | nil => simp at hmem
  | cons entry entries ih =>
    unfold replaceLast
    by_cases hlater : write.address ∈ entries.map AddressedAccount.address
    · obtain ⟨hlast, hkept⟩ := ih hlater
      rw [if_pos hlater]
      refine ⟨?_, mem_cons_of_mem _ hkept⟩
      rw [filter_cons]
      split
      · rw [map_cons, getLast?_cons, hlast]
        rfl
      · exact hlast
    · have hnone : (entries.filter fun entry => entry.address = write.address) = [] := by
        rw [filter_eq_nil_iff]
        intro later hmember haddress
        exact hlater (mem_map.mpr ⟨later, hmember, by simpa using haddress⟩)
      have hhead : entry.address = write.address := by
        rcases mem_cons.mp hmem with hhead | hlater'
        · exact hhead.symm
        · exact absurd hlater' hlater
      rw [if_neg hlater, if_pos hhead]
      exact ⟨by simp [hnone], by simp⟩

theorem account?_eq_none : state.account? address = none ↔ address ∉ state.addresses := by
  rw [account?, getLast?_eq_none_iff, accountsAt, map_eq_nil_iff,
    filter_eq_nil_iff, addresses, mem_map]
  constructor
  · rintro hnone ⟨entry, hmem, haddress⟩
    exact hnone entry hmem (by simpa using haddress)
  · intro hnone entry hmem haddress
    exact hnone ⟨entry, hmem, by simpa using haddress⟩

theorem account?_applyWrite (state : ChainState) (write : AddressedAccount) (address : PublicKey) :
    (state.applyWrite write).account? address =
      if address ≠ write.address then state.account? address
      else if state.account? address = none ∧ isBuiltinProgramPlaceholder write = true then none
      else some write.account := by
  by_cases hother : address ≠ write.address
  · rw [if_pos hother, account?, accountsAt_applyWrite hother.symm, account?]
  · obtain rfl := not_not.mp hother
    rw [if_neg hother]
    unfold applyWrite
    by_cases hmem : write.address ∈ state.accounts.map AddressedAccount.address
    · have hsome : ¬(state.account? write.address = none ∧
          isBuiltinProgramPlaceholder write = true) := by
        rw [account?_eq_none]
        exact fun h => h.1 hmem
      rw [if_pos hmem, if_neg hsome]
      exact (filter_replaceLast state.accounts hmem).1
    · have hnone : state.account? write.address = none := account?_eq_none.mpr hmem
      rw [if_neg hmem]
      by_cases hplaceholder : isBuiltinProgramPlaceholder write = true
      · rw [if_pos hplaceholder, if_pos ⟨hnone, hplaceholder⟩, hnone]
      · rw [if_neg hplaceholder, if_neg (fun h => hplaceholder h.2)]
        simp [account?, accountsAt]

theorem account?_applyWrites_of_not_mem (h : address ∉ writes.map AddressedAccount.address) :
    (state.applyWrites writes).account? address = state.account? address := by
  induction writes generalizing state with
  | nil => rfl
  | cons first writes ih =>
    obtain ⟨hfirst, hlater⟩ := not_or.mp (mt mem_cons.mpr h)
    have hfold : state.applyWrites (first :: writes) =
        (state.applyWrite first).applyWrites writes := rfl
    rw [hfold, ih hlater, account?_applyWrite, if_pos hfirst]

/-- What writes to different addresses leave at an address. -/
theorem account?_applyWrites (hnodup : (writes.map AddressedAccount.address).Nodup)
    (hwrite : write ∈ writes) :
    (state.applyWrites writes).account? write.address =
      if state.account? write.address = none ∧ isBuiltinProgramPlaceholder write = true then none
      else some write.account := by
  induction writes generalizing state with
  | nil => cases hwrite
  | cons first writes ih =>
    obtain ⟨hfirst, hnodup⟩ := nodup_cons.mp hnodup
    have hfold : state.applyWrites (first :: writes) =
        (state.applyWrite first).applyWrites writes := rfl
    rw [hfold]
    rcases mem_cons.mp hwrite with rfl | hlater
    · rw [account?_applyWrites_of_not_mem hfirst, account?_applyWrite, if_neg (by simp)]
    · have hne : write.address ≠ first.address := by
        intro heq
        exact hfirst (heq ▸ mem_map_of_mem hlater)
      rw [ih hnodup hlater, account?_applyWrite, if_pos hne]

/-! ### The sum of the balances -/

/-- A missing account has no balance. -/
def balanceAt (state : ChainState) (address : PublicKey) : ℕ :=
  (state.account? address).elim 0 Account.lamports

theorem sum_replaceLast (entries : List AddressedAccount) {account : Account}
    (hlast : ((entries.filter fun entry => entry.address = write.address).map
      AddressedAccount.account).getLast? = some account) :
    ((replaceLast write entries).map fun entry => entry.account.lamports).sum + account.lamports =
      (entries.map fun entry => entry.account.lamports).sum + write.account.lamports := by
  induction entries with
  | nil => simp at hlast
  | cons entry entries ih =>
    unfold replaceLast
    by_cases hlater : write.address ∈ entries.map AddressedAccount.address
    · have hne : (entries.filter fun entry => entry.address = write.address).map
          AddressedAccount.account ≠ [] :=
        (@mem_addresses_iff ⟨entries⟩ write).mp hlater
      have htail : ((entries.filter fun entry => entry.address = write.address).map
          AddressedAccount.account).getLast? = some account := by
        rw [filter_cons] at hlast
        split at hlast
        · rwa [map_cons, getLast?_cons_of_ne_nil hne] at hlast
        · exact hlast
      have hsum := ih htail
      rw [if_pos hlater]
      simp only [map_cons, sum_cons]
      omega
    · have hnone : (entries.filter fun entry => entry.address = write.address) = [] := by
        rw [filter_eq_nil_iff]
        intro later hmember haddress
        exact hlater (mem_map.mpr ⟨later, hmember, by simpa using haddress⟩)
      rw [if_neg hlater]
      rw [filter_cons, hnone] at hlast
      split at hlast
      · next hhead =>
        obtain rfl : entry.account = account := by simpa using hlast
        rw [if_pos (by simpa using hhead)]
        simp only [map_cons, sum_cons]
        omega
      · simp at hlast

/-- A write adds its balance and takes away the one it replaces. -/
theorem lamports_applyWrite (state : ChainState) (write : AddressedAccount) :
    (state.applyWrite write).lamports + state.balanceAt write.address =
      state.lamports + write.account.lamports := by
  unfold applyWrite balanceAt
  cases haccount : state.account? write.address with
  | none =>
    have hmissing : write.address ∉ state.accounts.map AddressedAccount.address :=
      account?_eq_none.mp haccount
    rw [if_neg hmissing]
    by_cases hplaceholder : isBuiltinProgramPlaceholder write = true
    · have hzero : write.account.lamports = 0 := by
        simp only [isBuiltinProgramPlaceholder, Bool.and_eq_true, decide_eq_true_eq] at hplaceholder
        exact hplaceholder.1.1.1.2
      rw [if_pos hplaceholder, hzero]
      rfl
    · rw [if_neg hplaceholder]
      simp [lamports]
  | some account =>
    have hmem : write.address ∈ state.accounts.map AddressedAccount.address := by
      by_contra hmissing
      rw [account?_eq_none.mpr hmissing] at haccount
      cases haccount
    rw [if_pos hmem]
    exact sum_replaceLast state.accounts haccount

/-- The same for writes to different addresses. -/
theorem lamports_applyWrites (state : ChainState)
    (hnodup : (writes.map AddressedAccount.address).Nodup) :
    (state.applyWrites writes).lamports +
        (writes.map fun write => state.balanceAt write.address).sum =
      state.lamports + (writes.map fun write => write.account.lamports).sum := by
  induction writes generalizing state with
  | nil => rfl
  | cons write writes ih =>
    obtain ⟨hfirst, hnodup⟩ := nodup_cons.mp hnodup
    have hsame : (writes.map fun later => (state.applyWrite write).balanceAt later.address) =
        writes.map fun later => state.balanceAt later.address := by
      refine map_congr_left fun later hlater => ?_
      have hne : later.address ≠ write.address := by
        intro heq
        exact hfirst (heq ▸ mem_map_of_mem hlater)
      rw [balanceAt, account?_applyWrite, if_pos hne, balanceAt]
    have hrest := ih (state.applyWrite write) hnodup
    have hwrite := lamports_applyWrite state write
    have hfold : state.applyWrites (write :: writes) =
        (state.applyWrite write).applyWrites writes := rfl
    rw [hsame] at hrest
    rw [hfold]
    simp only [map_cons, sum_cons]
    omega

end ChainState

end Ordexus
