import Ordexus.Library.Transition
import Ordexus.Programs.BpfLoader
import Ordexus.Programs.ValidatorStates

/-!
# Upgrades over a run of the loader

A deployed program stays executable, and only the authority that its manifest names can change it.
An upgrade keeps this authority or gives it up, but never passes it on.
-/

namespace Ordexus.BpfLoader

open Checked Transition

/-- What has become of a deployed program: it is unchanged, or its authority has signed, and it
names the same authority or none. -/
def Governed (program : Program) (signed : PublicKey → Prop) (address : PublicKey)
    (account : Account) (accounts : AccountMap) : Prop :=
  ∃ last, accounts.lookup address = some last ∧ last.executable = true ∧
    (last = account ∨ ∃ authority ≠ 0, signed authority ∧
      program.decodeProgramManifest account.data = .ok (some authority) ∧
      ∃ kept, program.decodeProgramManifest last.data = .ok (some kept) ∧
        (kept ≠ 0 → kept = authority))

def step (program : Program) (accounts : AccountMap) (context : InstructionContext) :
    Option AccountMap :=
  (execute program context accounts).toOption

variable {program : Program} {signed : PublicKey → Prop} {context : InstructionContext}
  {accounts next : AccountMap} {address : PublicKey} {account : Account}

section

variable (hlookup : accounts.lookup address = some account) (hdeployed : account.executable = true)
include hlookup hdeployed

/-- What is not an upgrade is for accounts that are not executable yet. -/
theorem lookup_insert_of_load {target : PublicKey × Account} (written : Account)
    (hload : loadWritableProgramAccount context accounts = .ok target) :
    (accounts.insert target.1 written).lookup address = some account := by
  simp only [loadWritableProgramAccount, eq_ok] at hload
  obtain ⟨-, _, -, _, -, -, -, _, hfound, -, hplain, rfl⟩ := hload
  rw [Table.lookup_insert, if_neg, hlookup]
  rintro rfl
  cases hlookup.symm.trans hfound
  exact hplain hdeployed

theorem execute_governed (h : execute program context accounts = .ok next)
    (hsigned : ∀ key, context.isSignerContextAddress key = true → signed key) :
    Governed program signed address account next := by
  have hsame (hkept : next.lookup address = some account) :
      Governed program signed address account next := ⟨account, hkept, hdeployed, .inl rfl⟩
  simp only [execute, eq_ok] at h
  obtain ⟨instruction, -, h⟩ := h
  split at h
  · simp only [executeWrite, eq_ok] at h
    obtain ⟨_, hload, -, rfl⟩ := h
    exact hsame (lookup_insert_of_load hlookup hdeployed _ hload)
  · simp only [executeFinalize, eq_ok] at h
    obtain ⟨_, hload, -, -, rfl⟩ := h
    exact hsame (lookup_insert_of_load hlookup hdeployed _ hload)
  · simp only [executeDeploy, eq_ok] at h
    obtain ⟨_, hload, -, _, -, -, rfl⟩ := h
    exact hsame (lookup_insert_of_load hlookup hdeployed _ hload)
  · simp only [executeUpgrade, currentUpgradeAuthority, eq_ok] at h
    obtain ⟨⟨target, _⟩, hload, authority, ⟨_, hnamed, _, rfl, hnonzero, rfl⟩, hsigner, -, _, hnext,
      kept, rfl, hkept, _, -, -, rfl⟩ := h
    by_cases htarget : address = target
    · subst htarget
      cases hlookup.symm.trans (loadWritableExecutableProgramAccount_eq_ok hload).1
      have hsource := hsigned _ (Bool.eq_true_of_not_eq_false hsigner)
      exact ⟨_, AList.lookup_insert _, rfl, .inr ⟨_, hnonzero, hsource, hnamed, kept, hnext,
        fun hother => not_not.mp fun hne => hkept ⟨hother, hne⟩⟩⟩
    · exact hsame (by rwa [Table.lookup_insert, if_neg htarget])
  · cases h

/-- A deployed program is changed only in runs that its authority has signed, and nobody else ever
becomes its authority. -/
theorem deployed_program_governed
    (hreach : Reaches (step program)
      (fun _ context => ∀ key, context.isSignerContextAddress key = true → signed key)
      accounts next) :
    Governed program signed address account next := by
  induction hreach with
  | start => exact ⟨account, hlookup, hdeployed, .inl rfl⟩
  | next _ hsigned hstep ih =>
    obtain ⟨last, hlast, hrunning, hgoverned⟩ := ih
    obtain ⟨newest, hnewest, hnow, rfl | ⟨authority, hnonzero, hsource, hnamed, hkept⟩⟩ :=
      execute_governed hlast hrunning (toOption_eq_some.mp hstep) hsigned
    · exact ⟨newest, hnewest, hrunning, hgoverned⟩
    · refine ⟨newest, hnewest, hnow, .inr ⟨authority, hnonzero, hsource, ?_, hkept⟩⟩
      -- an authority that earlier upgrades have kept is that of the first manifest
      obtain rfl | ⟨first, -, -, hfirst, kept, hnames, hsame⟩ := hgoverned
      · exact hnamed
      · cases hnamed.symm.trans hnames
        exact hsame hnonzero ▸ hfirst

end

/-- The first byte of the bytecode is its upgrade authority. -/
def byteProgram : Program where
  policy := ⟨[], 0, false, true⟩
  loadBytecode := fun _ => pure ()
  decodeProgramManifest := fun data => pure (data.head?.map UInt8.toNat)

def deployed : Account :=
  { Stake.sampleWallet with data := [1], owner := programID, executable := true }

/-- The program at address 1, its own authority, gets other bytecode. -/
def upgradeContext : InstructionContext :=
  { Stake.sampleContext 0 1 0 0 0 with
    instruction := ⟨3, [0], [3, 0, 0, 0, 0, 0, 0, 0, 2, 0, 0, 0, 1, 7]⟩ }

theorem deployed_program_governed_upgrade :
    ∃ next, (next.lookup 1).any (fun last => last.data = [1, 7]) = true ∧
      Governed byteProgram (fun key => key = 1 ∨ key = 2) 1 deployed next := by
  have hrun : ((step byteProgram (AList.singleton 1 deployed) upgradeContext).any
      fun next => (next.lookup 1).any fun last => last.data = [1, 7]) = true := by decide +kernel
  obtain ⟨next, hstep, hdata⟩ := Option.any_eq_true _ _ |>.mp hrun
  refine ⟨next, hdata, deployed_program_governed rfl rfl (.next .start (fun key hkey => ?_) hstep)⟩
  simpa [InstructionContext.isSignerContextAddress, isSignerAddress, upgradeContext,
    Stake.sampleContext, Stake.sampleMessage] using hkey

end Ordexus.BpfLoader
