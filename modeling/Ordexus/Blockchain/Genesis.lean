import Mathlib.Data.Char
import Mathlib.Data.List.Induction
import Mathlib.Data.List.Lex
import Ordexus.Blockchain.Database
import Ordexus.Runtime.InstructionEffects

/-!
# The genesis state

The state a chain starts with (`blockchain/ledger.go`): funded accounts, an account for
every staker and every validator, the shielded pool, the treasury and the built-in programs.
Accounts at one address are merged. Of the stake accounts each one is as it was built from
the configuration, and nothing else belongs to the stake program.
-/

namespace Ordexus.Blockchain

open Checked Shielded

structure GenesisAccount where
  address : PublicKey
  lamports : ℕ

/-- A validator of the first epoch. The fields fit the types they have in the source. -/
structure GenesisValidator where
  stakerAddress : PublicKey
  validatorAddress : PublicKey
  consensusPublicKey : PublicKey
  blsPublicKey : Bytes
  p2pPeerID : Bytes
  stakeLamports : ℕ
  commissionBps : ℕ
  stakerAddress_lt : stakerAddress < 256 ^ 32
  consensusPublicKey_lt : consensusPublicKey < 256 ^ 32
  stakeLamports_lt : stakeLamports < 256 ^ 8
  commissionBps_lt : commissionBps < 256 ^ 2

structure GenesisConfig where
  chainID : Bytes
  initialSupplyLamports : ℕ
  treasuryAddress : PublicKey
  fundedAccounts : List GenesisAccount
  initialValidators : List GenesisValidator

/-- `HardcodedGenesisTreasuryPublicKey`; the base58 text of the source is decoded. -/
def hardcodedGenesisTreasury : PublicKey :=
  0x3a53229adae58380fa1d0c2db2104a45473a29a1dd4aab1e56f2d1c10ead3fda

def genesisBuiltinProgramLamports : ℕ := 10000000

/-- What a validator account holds on top of its stake. -/
def genesisValidatorReserve : ℕ := 10000000

/-! ### Addresses -/

def validateGenesisUserAddress (pool : PublicKey) (role : String) (address : PublicKey) :
    Except String Unit := do
  failIf (address = 0) s!"blockchain: invalid genesis: {role} address is empty"
  failIf (address = pool) s!"blockchain: invalid genesis: {role} uses the shielded pool address"
  failIf (defaultBuiltinProgramIDs.isBuiltinProgram address = true)
    s!"blockchain: invalid genesis: {role} uses a builtin program address"

/-- The loop over the validators; `seen` are the accounts read so far. -/
def validateGenesisValidators (pool : PublicKey) :
    List PublicKey → List (GenesisValidator × ℕ) → Except String Unit
  | _, [] => pure ()
  | seen, (validator, validatorIndex) :: validators => do
    validateGenesisUserAddress pool s!"validator {validatorIndex} staker" validator.stakerAddress
    validateGenesisUserAddress pool s!"validator {validatorIndex} account"
      validator.validatorAddress
    let previousIndex := seen.findIdx fun address => address = validator.validatorAddress
    failIf (validator.validatorAddress ∈ seen)
      (s!"blockchain: invalid genesis: validator accounts {previousIndex} and " ++
        s!"{validatorIndex} use the same address")
    validateGenesisValidators pool (seen ++ [validator.validatorAddress]) validators

/-- A validator account is neither funded otherwise nor the staker of another validator. -/
def validateValidatorRole (genesis : GenesisConfig) (treasuryAddress : PublicKey)
    (entry : GenesisValidator × ℕ) : Except String Unit := do
  let (validator, validatorIndex) := entry
  failIf (validator.validatorAddress = treasuryAddress)
    s!"blockchain: invalid genesis: validator {validatorIndex} account conflicts with treasury"
  failIf (validator.validatorAddress ∈ genesis.fundedAccounts.map GenesisAccount.address)
    (s!"blockchain: invalid genesis: validator {validatorIndex} account conflicts with " ++
      "funded account")
  genesis.initialValidators.zipIdx.forM fun (other, stakerIndex) =>
    failIf (other.stakerAddress = validator.validatorAddress ∧ stakerIndex ≠ validatorIndex)
      (s!"blockchain: invalid genesis: validator {validatorIndex} account conflicts with " ++
        s!"validator {stakerIndex} staker")

def validateGenesisAccountAddresses (pool : PublicKey) (genesis : GenesisConfig)
    (treasuryAddress : PublicKey) : Except String Unit := do
  validateGenesisUserAddress pool "treasury" treasuryAddress
  genesis.fundedAccounts.zipIdx.forM fun (account, accountIndex) =>
    validateGenesisUserAddress pool s!"funded account {accountIndex}" account.address
  validateGenesisValidators pool [] genesis.initialValidators.zipIdx
  genesis.initialValidators.zipIdx.forM (validateValidatorRole genesis treasuryAddress)

/-! ### Accounts -/

/-- `mustAccount`, which panics where the account is not valid. -/
def mustAccount (address : PublicKey) (lamports : ℕ) (owner : PublicKey) (executable : Bool)
    (data : Bytes) : Except String AddressedAccount := do
  let account : Account := { lamports, data, owner, executable, rentEpoch := 0 }
  account.validate
  pure { address, account }

/-- The state of a validator that is active from the first epoch on. -/
def GenesisValidator.stakeState (validator : GenesisValidator) : Stake.ValidatorState :=
  { Stake.ValidatorState.zero with
    consensusPublicKey := validator.consensusPublicKey
    blsPublicKey := validator.blsPublicKey
    stakerAccount := validator.stakerAddress
    p2pPeerID := validator.p2pPeerID
    commissionBps := validator.commissionBps
    activeStake := validator.stakeLamports
    status := .active
    activationEpoch := 0
    lastEffectiveStake := validator.stakeLamports }

/-- The sum is a 64-bit number. -/
def GenesisValidator.lamports (validator : GenesisValidator) : ℕ :=
  wrapUint64 (validator.stakeLamports + genesisValidatorReserve)

def buildGenesisValidatorAccount (validator : GenesisValidator) :
    Except String AddressedAccount := do
  failIf (validator.stakeLamports < Stake.minimumStakeLamports)
    "blockchain: invalid genesis: validator stake below minimum"
  let data ← withContext "blockchain: marshal genesis validator"
    validator.stakeState.marshalBinary
  mustAccount validator.validatorAddress validator.lamports Stake.programID false data

/-- The running values of `BuildGenesisState`. -/
structure GenesisProgress where
  accounts : List AddressedAccount
  treasuryLamports : ℕ
  rewardReceivers : List PublicKey

def fundGenesisAccount (progress : GenesisProgress) (funded : GenesisAccount) :
    Except String GenesisProgress := do
  failIf (funded.lamports = 0) "blockchain: invalid genesis: funded account has zero lamports"
  failIf (progress.treasuryLamports < funded.lamports)
    "blockchain: invalid genesis: funded accounts exceed supply"
  let entry ← mustAccount funded.address funded.lamports defaultBuiltinProgramIDs.system false []
  pure
    { accounts := progress.accounts ++ [entry]
      treasuryLamports := progress.treasuryLamports - funded.lamports
      rewardReceivers := funded.address :: progress.rewardReceivers }

/-- Rewards are paid to stakers, so that each of them needs an account. -/
def addGenesisStaker (stakerRentLamports : ℕ) (progress : GenesisProgress)
    (validator : GenesisValidator) : Except String GenesisProgress :=
  if validator.stakerAddress = validator.validatorAddress ∨
      validator.stakerAddress ∈ progress.rewardReceivers then pure progress
  else do
    failIf (progress.treasuryLamports < stakerRentLamports)
      "blockchain: invalid genesis: validator staker rent exceeds supply"
    let entry ← mustAccount validator.stakerAddress stakerRentLamports
      defaultBuiltinProgramIDs.system false []
    pure
      { accounts := progress.accounts ++ [entry]
        treasuryLamports := progress.treasuryLamports - stakerRentLamports
        rewardReceivers := validator.stakerAddress :: progress.rewardReceivers }

def addGenesisValidator (progress : GenesisProgress) (validator : GenesisValidator) :
    Except String GenesisProgress := do
  failIf (progress.treasuryLamports < validator.lamports)
    "blockchain: invalid genesis: validator stake exceeds supply"
  let entry ← buildGenesisValidatorAccount validator
  pure
    { progress with
      accounts := progress.accounts ++ [entry]
      treasuryLamports := progress.treasuryLamports - validator.lamports }

/-- `NewPoolState` with the key of the program: an empty commitment tree. -/
def newPoolState (program : Shielded.Program) : Except String ShieldedPoolState := do
  let roots ← emptyRoots program merkleDepth 0
  let root ← shieldedField (roots.getLastD 0)
  let state : ShieldedPoolState :=
    { stateEncodingVersion := shieldedPoolStateEncodingVersion
      protocolVersion := shieldedProtocolVersion
      circuitID := circuitID
      verifyingKeyHash := program.verifyingKeyHash
      treeDepth := merkleDepth
      leafCount := 0
      frontier := List.replicate merkleDepth 0
      currentRoot := root
      recentAnchors := [root]
      poolLamports := 0 }
  state.validate
  pure state

def poolAccountDataCapacity : ℕ :=
  2 + 2 + 4 + 32 + 1 + 8 + 4 + merkleDepth * 32 + 32 + 4 +
    maxShieldedRecentAnchors * 32 + 8

/-- The programs that have an account of their own. -/
def genesisPrograms : List PublicKey :=
  [defaultBuiltinProgramIDs.system, defaultBuiltinProgramIDs.stake,
    defaultBuiltinProgramIDs.shielded]

/-- One more account for `mergeGenesisAccounts`: balances add up, data replaces. -/
def mergeGenesisAccount (merged : AccountMap) (entry : AddressedAccount) : AccountMap :=
  let current := accountOrZero merged entry.address
  if current.lamports = 0 ∧ current.data = [] then merged.insert entry.address entry.account
  else if entry.account.data ≠ [] then merged.insert entry.address entry.account
  else merged.insert entry.address
    { current with lamports := wrapUint64 (current.lamports + entry.account.lamports) }

/-- In the order of the base58 texts of the addresses. -/
def mergeGenesisAccounts (accounts : List AddressedAccount) : List AddressedAccount :=
  ((accounts.foldl mergeGenesisAccount ∅).entries.map fun entry =>
    { address := entry.1, account := entry.2 : AddressedAccount }).insertionSort
      fun left right => Hash.text left.address ≤ Hash.text right.address

/-- The accounts before they are merged. -/
def collectGenesisAccounts (program : Shielded.Program) (genesis : GenesisConfig)
    (treasuryAddress : PublicKey) : Except String (List AddressedAccount) := do
  let start : GenesisProgress :=
    { accounts := []
      treasuryLamports :=
        orDefault genesis.initialSupplyLamports defaultMonetaryPolicy.genesisSupplyLamports
      rewardReceivers := [treasuryAddress] }
  let funded ← genesis.fundedAccounts.foldlM fundGenesisAccount start
  let stakerRentLamports ← withContext "blockchain: calculate genesis staker rent"
    (defaultRentConfig.minimumBalance 0)
  let staked ← genesis.initialValidators.foldlM (addGenesisStaker stakerRentLamports) funded
  let validated ← genesis.initialValidators.foldlM addGenesisValidator staked
  let poolState ← withContext "blockchain: create genesis shielded pool" (newPoolState program)
  let poolData ← withContext "blockchain: encode genesis shielded pool" poolState.marshalBinary
  let poolRent ← withContext "blockchain: calculate shielded pool rent"
    (defaultRentConfig.minimumBalance poolAccountDataCapacity)
  failIf (validated.treasuryLamports < poolRent)
    "blockchain: invalid genesis: shielded pool rent exceeds supply"
  let pool ← mustAccount program.pool poolRent programID false poolData
  let programFunding := genesisPrograms.length * genesisBuiltinProgramLamports
  failIf (validated.treasuryLamports - poolRent < programFunding)
    "blockchain: invalid genesis: builtin program funding exceeds supply"
  let treasury ← mustAccount treasuryAddress
    (validated.treasuryLamports - poolRent - programFunding) defaultBuiltinProgramIDs.system
    false []
  let programs ← genesisPrograms.mapM fun address =>
    mustAccount address genesisBuiltinProgramLamports defaultBuiltinProgramIDs.nativeLoader true []
  pure (validated.accounts ++ [pool, treasury] ++ programs)

/-- The state and the head of a chain without blocks; the time of its creation is left out. -/
def buildGenesisState (crypto : Crypto) (program : Shielded.Program) (genesis : GenesisConfig) :
    Except String (ChainState × Head) := do
  failIf (genesis.chainID = []) "blockchain: invalid genesis: chain id is empty"
  let treasuryAddress :=
    if genesis.treasuryAddress = 0 then hardcodedGenesisTreasury else genesis.treasuryAddress
  validateGenesisAccountAddresses program.pool genesis treasuryAddress
  let accounts ← collectGenesisAccounts program genesis treasuryAddress
  let state : ChainState := { accounts := mergeGenesisAccounts accounts }
  let stateRoot ← withContext "blockchain: hash genesis state" (state.rootHash crypto)
  pure (state,
    { chainID := genesis.chainID
      height := 0
      slot := 0
      blockHash := stateRoot
      qcHash := stateRoot
      stateRoot := stateRoot
      epochID := 0
      finalizedHeight := 0
      finalizedHash := stateRoot })

/-! ### What the state holds -/

theorem mergeGenesisAccounts_nodup (entries : List AddressedAccount) :
    ((mergeGenesisAccounts entries).map AddressedAccount.address).Nodup := by
  have hperm := (List.perm_insertionSort (fun left right : AddressedAccount =>
    Hash.text left.address ≤ Hash.text right.address)
    ((entries.foldl mergeGenesisAccount ∅).entries.map fun entry =>
      { address := entry.1, account := entry.2 : AddressedAccount })).map AddressedAccount.address
  refine hperm.nodup_iff.mpr ?_
  rw [List.map_map]
  exact (entries.foldl mergeGenesisAccount ∅).keys_nodup

end Ordexus.Blockchain
