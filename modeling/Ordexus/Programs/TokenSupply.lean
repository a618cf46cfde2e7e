import Ordexus.Library.Transition
import Ordexus.Programs.Token

/-!
# Token supply

The balances of all token accounts of a mint against the supply the mint records. A
transfer reads both accounts before it writes either of them, so it keeps the sum only
between two different accounts.
-/

namespace Ordexus.Token

open Checked Borsh Transition List

/-! ### Reading states back -/

structure MintState.InRange (state : MintState) : Prop where
  version : state.version = tokenStateVersion
  decimals : state.decimals < 256 ^ 1
  mintAuthority : state.mintAuthority < 256 ^ 32
  supply : state.supply < 256 ^ 8

structure AccountState.InRange (state : AccountState) : Prop where
  version : state.version = tokenStateVersion
  mint : state.mint < 256 ^ 32
  owner : state.owner < 256 ^ 32
  amount : state.amount < 256 ^ 8

theorem MintState.InRange.withSupply {state : MintState} (h : state.InRange) {supply : ℕ}
    (hsupply : supply < 256 ^ 8) : (state.withSupply supply).InRange :=
  { h with supply := hsupply }

/-- The first byte of a state tells mints and token accounts apart. -/
def kindOf (account : Account) : ℕ :=
  ofLittleEndian (account.data.take 1)

section

variable {kind version : ℕ} {account : Account}

theorem readStatePrefix_reads (hkind : kind < 256 ^ 1)
    (hversion : version = tokenStateVersion) :
    Reads readStatePrefix (littleEndian 1 kind ++ (littleEndian 1 version ++ []))
      (kind, version) := by
  have hfits : version < 256 ^ 1 := by
    rw [hversion]
    decide
  refine Reads.bind (Reads.field _ hkind) (Reads.bind (Reads.field _ hfits) ?_)
  exact Reads.bind (Reads.require (by simp [hversion])) (Reads.pure (kind, version))

theorem readStatePrefix_yields :
    Yields readStatePrefix fun read => read.2 = tokenStateVersion :=
  (Yields.field 1 _).bind fun _ _ => (Yields.field 1 _).bind fun _ _ =>
    (Yields.require _ _).bind fun _ htest => Yields.pure (not_not.mp htest)

theorem unmarshalMintStateBinary_marshalBinary {state : MintState} (h : state.InRange) :
    unmarshalMintStateBinary state.marshalBinary = .ok state := by
  have hread : Reads readMint ((littleEndian 1 accountKindMint ++
      (littleEndian 1 state.version ++ [])) ++ ([] ++ (littleEndian 1 state.decimals ++
        (bigEndian 32 state.mintAuthority ++ (littleEndian 8 state.supply ++ []))))) state := by
    refine Reads.bind (readStatePrefix_reads (by decide) h.version) ?_
    refine Reads.bind (Reads.require (by simp)) (Reads.bind (Reads.field _ h.decimals) ?_)
    exact Reads.bind (Reads.key _ (by decide) h.mintAuthority)
      (Reads.bind (Reads.field _ h.supply) (Reads.pure state))
  have hall := hread.all "token: decode mint eof"
  simpa only [unmarshalMintStateBinary, MintState.marshalBinary, append_nil,
    nil_append, append_assoc] using hall

variable {state : AccountState}

theorem unmarshalAccountStateBinary_marshalBinary (h : state.InRange) :
    unmarshalAccountStateBinary state.marshalBinary = .ok state := by
  have hread : Reads readAccount ((littleEndian 1 accountKindTokenAccount ++
      (littleEndian 1 state.version ++ [])) ++ ([] ++ (bigEndian 32 state.mint ++
        (bigEndian 32 state.owner ++ (littleEndian 8 state.amount ++ []))))) state := by
    refine Reads.bind (readStatePrefix_reads (by decide) h.version) ?_
    refine Reads.bind (Reads.require (by simp)) (Reads.bind (Reads.key _ (by decide) h.mint) ?_)
    exact Reads.bind (Reads.key _ (by decide) h.owner)
      (Reads.bind (Reads.field _ h.amount) (Reads.pure state))
  have hall := hread.all "token: decode account eof"
  simpa only [unmarshalAccountStateBinary, AccountState.marshalBinary, append_nil,
    nil_append, append_assoc] using hall

theorem readMint_yields : Yields readMint MintState.InRange :=
  readStatePrefix_yields.bind fun _ hversion => (Yields.require _ _).bind fun _ _ =>
    (Yields.field 1 _).bind fun _ hdecimals => (Yields.key _ _).bind fun _ hauthority =>
      (Yields.field 8 _).bind fun _ hsupply =>
        Yields.pure ⟨hversion, hdecimals, hauthority, hsupply⟩

theorem readAccount_yields : Yields readAccount AccountState.InRange :=
  readStatePrefix_yields.bind fun _ hversion => (Yields.require _ _).bind fun _ _ =>
    (Yields.key _ _).bind fun _ hmint => (Yields.key _ _).bind fun _ howner =>
      (Yields.field 8 _).bind fun _ hamount => Yields.pure ⟨hversion, hmint, howner, hamount⟩

theorem readStatePrefix_kind {data rest : Bytes}
    (h : readStatePrefix data = .ok ((kind, version), rest)) :
    kind = ofLittleEndian (data.take 1) := by
  simp only [readStatePrefix, Reader.bind_apply, Reader.pure_apply, eq_ok, Except.ok.injEq,
    Prod.mk.injEq] at h
  obtain ⟨⟨first, middle⟩, hfirst, ⟨second, _⟩, -, -, -, ⟨rfl, -⟩, -⟩ := h
  simp only [readField, Reader.withContext, eq_ok, readUint, Prod.mk.injEq] at hfirst
  exact hfirst.2.1.symm

/-- A state is held by an account of the program and is of its kind. -/
theorem stateOf_eq_some {σ : Type} {state : σ} {expected : ℕ} {wrong late : String}
    {readRest : ℕ × ℕ → Reader σ} {inRange : σ → Prop}
    (hyields : Yields (readStatePrefix >>= fun read =>
      require (read.1 ≠ expected) wrong >>= fun _ => readRest read) inRange)
    (h : (if Owned account then (readAll (readStatePrefix >>= fun read =>
      require (read.1 ≠ expected) wrong >>= fun _ => readRest read) late account.data).toOption
        else none) = some state) :
    Owned account ∧ inRange state ∧ kindOf account = expected := by
  split at h
  · next howned =>
    have hread := toOption_eq_some.mp h
    refine ⟨howned, hyields.all hread, ?_⟩
    simp only [readAll, Reader.bind_apply, eq_ok, require, not_not, ne_eq] at hread
    obtain ⟨-, ⟨⟨⟨kind, version⟩, rest⟩, hprefix, -, ⟨hkind, -⟩, -⟩, -⟩ := hread
    exact (readStatePrefix_kind hprefix).symm.trans hkind
  · cases h

theorem mintStateOf_eq_some {state : MintState} (h : mintStateOf account = some state) :
    Owned account ∧ state.InRange ∧ kindOf account = accountKindMint :=
  stateOf_eq_some readMint_yields h

theorem accountStateOf_eq_some (h : accountStateOf account = some state) :
    Owned account ∧ state.InRange ∧ kindOf account = accountKindTokenAccount :=
  stateOf_eq_some readAccount_yields h

theorem mintStateOf_write {state : MintState} (howned : Owned account) (h : state.InRange) :
    mintStateOf { account with data := state.marshalBinary } = some state :=
  (if_pos howned).trans (toOption_eq_some.mpr (unmarshalMintStateBinary_marshalBinary h))

theorem accountStateOf_write (howned : Owned account) (h : state.InRange) :
    accountStateOf { account with data := state.marshalBinary } = some state :=
  (if_pos howned).trans (toOption_eq_some.mpr (unmarshalAccountStateBinary_marshalBinary h))

theorem kindOf_empty (h : account.data = []) : kindOf account = 0 := by
  rw [kindOf, h]
  rfl

end

/-! ### Balances -/

def balanceOf (mint : PublicKey) (account : Account) : ℕ :=
  match accountStateOf account with
  | some state => if state.mint = mint then state.amount else 0
  | none => 0

/-- The sum of the balances of all token accounts of a mint. -/
def holdings (mint : PublicKey) (accounts : AccountMap) : ℕ :=
  Table.total (fun _ account => balanceOf mint account) accounts

/-- The mint exists, and its token accounts hold exactly its supply. -/
def SupplyCovered (mint : PublicKey) (accounts : AccountMap) : Prop :=
  ∃ state, readMintState accounts mint = .ok state ∧ holdings mint accounts = state.supply

section

variable {mint address : PublicKey} {account old : Account} {accounts next : AccountMap}
  {context : InstructionContext} {instruction : Instruction}

theorem balanceOf_of_state {state : AccountState} (h : accountStateOf account = some state) :
    balanceOf mint account = if state.mint = mint then state.amount else 0 := by
  simp [balanceOf, h]

theorem balanceOf_of_kind (h : kindOf account ≠ accountKindTokenAccount) :
    balanceOf mint account = 0 := by
  cases hstate : accountStateOf account with
  | none => simp [balanceOf, hstate]
  | some state => exact absurd (accountStateOf_eq_some hstate).2.2 h

theorem balanceOf_of_empty (h : account.data = []) : balanceOf mint account = 0 :=
  balanceOf_of_kind (by rw [kindOf_empty h]; decide)

theorem balanceOf_mint (account : Account) (state : MintState) :
    balanceOf mint { account with data := state.marshalBinary } = 0 :=
  balanceOf_of_kind (show accountKindMint ≠ _ by decide)

theorem holdings_insert (hlookup : accounts.lookup address = some old) (account : Account) :
    holdings mint (accounts.insert address account) + balanceOf mint old =
      holdings mint accounts + balanceOf mint account := by
  have htotal := Table.total_insert (fun _ account => balanceOf mint account) accounts address
    account
  rwa [Table.weightAt_of_lookup hlookup] at htotal

theorem holdings_write {state : AccountState} {amount : ℕ}
    (hlookup : accounts.lookup address = some account)
    (hstate : accountStateOf account = some state) (hamount : amount < 256 ^ 8) :
    holdings mint (accounts.insert address
          { account with data := (state.withAmount amount).marshalBinary }) +
        (if state.mint = mint then state.amount else 0) =
      holdings mint accounts + if state.mint = mint then amount else 0 := by
  obtain ⟨howned, hrange, -⟩ := accountStateOf_eq_some hstate
  have hwritten := @accountStateOf_write account (state.withAmount amount) howned
    { hrange with amount := hamount }
  have htotal := @holdings_insert mint address account accounts hlookup
    { account with data := (state.withAmount amount).marshalBinary }
  rwa [balanceOf_of_state hstate, balanceOf_of_state hwritten] at htotal

section

variable (h : SupplyCovered mint accounts)
include h

/-- A write elsewhere that leaves the balance as it is. -/
theorem SupplyCovered.insert (hne : address ≠ mint) (hlookup : accounts.lookup address = some old)
    (hsame : balanceOf mint account = balanceOf mint old) :
    SupplyCovered mint (accounts.insert address account) := by
  obtain ⟨state, hstate, hcovered⟩ := h
  obtain ⟨holder, hholder, hmint⟩ := readMintState_eq_ok.mp hstate
  have htotal := @holdings_insert mint address old accounts hlookup account
  refine ⟨state, readMintState_eq_ok.mpr ⟨holder, ?_, hmint⟩, by omega⟩
  rw [AList.lookup_insert_ne hne.symm, hholder]

/-- Where a mint is, there is no account of another kind. -/
theorem SupplyCovered.ne_of_kind (hlookup : accounts.lookup address = some account)
    (hkind : kindOf account ≠ accountKindMint) : address ≠ mint := by
  rintro rfl
  obtain ⟨state, hstate, -⟩ := h
  obtain ⟨holder, hholder, hmint⟩ := readMintState_eq_ok.mp hstate
  obtain rfl := Option.mem_unique hlookup hholder
  exact hkind (mintStateOf_eq_some hmint).2.2

theorem SupplyCovered.initializeMint
    (hexecute : executeInitializeMint instruction context accounts = .ok next) :
    SupplyCovered mint next := by
  obtain ⟨mintAddress, authorityAddress, account, -, -, hlookup, -, hempty, rfl⟩ :=
    executeInitializeMint_eq_ok hexecute
  exact h.insert (h.ne_of_kind hlookup (by rw [kindOf_empty hempty]; decide)) hlookup
    ((balanceOf_mint _ _).trans (balanceOf_of_empty hempty).symm)

theorem SupplyCovered.initializeAccount
    (hexecute : executeInitializeAccount context accounts = .ok next) :
    SupplyCovered mint next := by
  obtain ⟨accountAddress, mintAddress, ownerAddress, -, account, -, hmint, howner, -, hlookup,
    howned, hempty, rfl⟩ := executeInitializeAccount_eq_ok hexecute
  have hrange : (AccountState.initial mintAddress ownerAddress).InRange :=
    ⟨rfl, InstructionContext.accountAddressAt_lt hmint,
      InstructionContext.accountAddressAt_lt howner, Nat.two_pow_pos 64⟩
  have hafter : balanceOf mint { account with
      data := (AccountState.initial mintAddress ownerAddress).marshalBinary } = 0 := by
    rw [balanceOf_of_state (accountStateOf_write howned hrange)]
    exact ite_self 0
  exact h.insert (h.ne_of_kind hlookup (by rw [kindOf_empty hempty]; decide)) hlookup
    (hafter.trans (balanceOf_of_empty hempty).symm)

theorem SupplyCovered.mintTo (hexecute : executeMintTo instruction context accounts = .ok next) :
    SupplyCovered mint next := by
  obtain ⟨mintAddress, destinationAddress, mintState, destinationState, hmint, hdestination, hsame,
    hsupply, hamount, minted, rfl, rfl⟩ := executeMintTo_eq_ok hexecute
  obtain ⟨mintAccount, hmintLookup, hmint⟩ := readMintState_eq_ok.mp hmint
  obtain ⟨account, hlookup, hstate⟩ := readAccountState_eq_ok.mp hdestination
  obtain ⟨hmintOwned, hmintRange, hmintKind⟩ := mintStateOf_eq_some hmint
  obtain ⟨-, hrange, hkind⟩ := accountStateOf_eq_some hstate
  have hapart : destinationAddress ≠ mintAddress := by
    rintro rfl
    obtain rfl := Option.mem_unique hlookup hmintLookup
    rw [hkind] at hmintKind
    cases hmintKind
  have hsupplyRange := hmintRange.supply
  have hamountRange := hrange.amount
  have hnextMint := hmintRange.withSupply (show mintState.supply + instruction.amount < 256 ^ 8 by
    unfold maxUint64 at hsupply
    omega)
  have hnextAmount : destinationState.amount + instruction.amount < 256 ^ 8 := by
    unfold maxUint64 at hamount
    omega
  rw [accountOrZero_of_lookup hmintLookup]
  -- the destination is still what it was when the mint was read
  have hkept : ∀ written, (accounts.insert mintAddress written).lookup destinationAddress =
      some account := fun written => by rw [AList.lookup_insert_ne hapart, hlookup]
  rw [accountOrZero_of_lookup (hkept _)]
  dsimp only
  have hmintBefore : balanceOf mint mintAccount = 0 := balanceOf_of_kind (by rw [hmintKind]; decide)
  have hmintAfter := @balanceOf_mint mint mintAccount
    (mintState.withSupply (mintState.supply + instruction.amount))
  have hwritten := mintStateOf_write hmintOwned hnextMint
  generalize ({ mintAccount with data := _ } : Account) = nextMint at hmintAfter hwritten ⊢
  have hfirst := @holdings_insert mint _ _ _ hmintLookup nextMint
  have hsecond := @holdings_write mint _ _ _ _ _ (hkept nextMint) hstate hnextAmount
  have hmintDestination := h.ne_of_kind hlookup (by rw [hkind]; decide)
  obtain ⟨state, hread, hcovered⟩ := h
  obtain ⟨holder, hholder, hholds⟩ := readMintState_eq_ok.mp hread
  by_cases hcase : mintAddress = mint
  · subst hcase
    obtain rfl := Option.mem_unique hmintLookup hholder
    obtain rfl := Option.mem_unique hmint hholds
    rw [if_pos hsame, if_pos hsame] at hsecond
    refine ⟨_, readMintState_eq_ok.mpr ⟨_, ?_, hwritten⟩, ?_⟩
    · rw [AList.lookup_insert_ne hapart.symm, AList.lookup_insert]
    · change _ = mintState.supply + instruction.amount
      omega
  · have hother : destinationState.mint ≠ mint := by rwa [hsame]
    rw [if_neg hother, if_neg hother] at hsecond
    refine ⟨state, readMintState_eq_ok.mpr ⟨holder, ?_, hholds⟩, by omega⟩
    rw [AList.lookup_insert_ne hmintDestination.symm, AList.lookup_insert_ne (Ne.symm hcase),
      hholder]

/-- Between two different accounts. -/
theorem SupplyCovered.transfer (hexecute : executeTransfer instruction context accounts = .ok next)
    (hapart : ∀ address, context.accountAddressAt 0 = .ok address →
      context.accountAddressAt 1 ≠ .ok address) : SupplyCovered mint next := by
  obtain ⟨sourceAddress, destinationAddress, sourceState, destinationState, hsourceAt,
    hdestinationAt, hsource, hdestination, hsame, henough, hfits, debited, rfl, rfl⟩ :=
    executeTransfer_eq_ok hexecute
  obtain ⟨source, hsourceLookup, hsource⟩ := readAccountState_eq_ok.mp hsource
  obtain ⟨destination, hlookup, hdestination⟩ := readAccountState_eq_ok.mp hdestination
  obtain ⟨-, hsourceRange, hsourceKind⟩ := accountStateOf_eq_some hsource
  obtain ⟨-, hrange, hkind⟩ := accountStateOf_eq_some hdestination
  have hne : destinationAddress ≠ sourceAddress := by
    rintro rfl
    exact hapart _ hsourceAt hdestinationAt
  have hnextSource := (Nat.sub_le _ instruction.amount).trans_lt hsourceRange.amount
  have hnextDestination : destinationState.amount + instruction.amount < 256 ^ 8 := by
    have hamount := hrange.amount
    unfold maxUint64 at hfits
    omega
  rw [accountOrZero_of_lookup hsourceLookup]
  have hkept : ∀ written, (accounts.insert sourceAddress written).lookup destinationAddress =
      some destination := fun written => by rw [AList.lookup_insert_ne hne, hlookup]
  rw [accountOrZero_of_lookup (hkept _)]
  dsimp only
  have hfirst := @holdings_write mint _ _ _ _ _ hsourceLookup hsource hnextSource
  generalize ({ source with data := _ } : Account) = debited at hfirst ⊢
  have hsecond := @holdings_write mint _ _ _ _ _ (hkept debited) hdestination hnextDestination
  have hmintSource : sourceAddress ≠ mint :=
    h.ne_of_kind hsourceLookup (by rw [hsourceKind]; decide)
  have hmintDestination : destinationAddress ≠ mint := h.ne_of_kind hlookup (by rw [hkind]; decide)
  obtain ⟨state, hread, hcovered⟩ := h
  obtain ⟨holder, hholder, hholds⟩ := readMintState_eq_ok.mp hread
  refine ⟨state, readMintState_eq_ok.mpr ⟨holder, ?_, hholds⟩, ?_⟩
  · rw [AList.lookup_insert_ne hmintDestination.symm, AList.lookup_insert_ne hmintSource.symm,
      hholder]
  · rw [hsame] at hfirst
    by_cases hmint : destinationState.mint = mint
    · rw [if_pos hmint, if_pos hmint] at hfirst hsecond
      omega
    · rw [if_neg hmint, if_neg hmint] at hfirst hsecond
      omega

end

end

/-! ### Runs of the token program -/

/-- One instruction of the token program. -/
def step (accounts : AccountMap) (context : InstructionContext) : Option AccountMap :=
  (execute context accounts).toOption

/-- A transfer names two different accounts. -/
def NoSelfTransfer (_ : AccountMap) (context : InstructionContext) : Prop :=
  ∀ instruction, unmarshalInstructionBinary context.instruction.data = .ok instruction →
    instruction.type = .transfer → ∀ address, context.accountAddressAt 0 = .ok address →
      context.accountAddressAt 1 ≠ .ok address

variable {mint : PublicKey}

theorem SupplyCovered.step {accounts next : AccountMap} {context : InstructionContext}
    (h : SupplyCovered mint accounts) (hapart : NoSelfTransfer accounts context)
    (hstep : step accounts context = some next) : SupplyCovered mint next := by
  have hexecute := toOption_eq_some.mp hstep
  obtain ⟨instruction, hdecode, hexecute⟩ := bind_eq_ok.mp hexecute
  have hapart := hapart instruction hdecode
  unfold executeInstruction at hexecute
  cases htype : instruction.type with
  | initializeMint => exact h.initializeMint (by simpa only [htype] using hexecute)
  | initializeAccount => exact h.initializeAccount (by simpa only [htype] using hexecute)
  | mintTo => exact h.mintTo (by simpa only [htype] using hexecute)
  | transfer => exact h.transfer (by simpa only [htype] using hexecute) (hapart htype)
  | unknown code =>
    rw [htype] at hexecute
    cases hexecute

def Unheld (mint : PublicKey) (accounts : AccountMap) : Prop :=
  Table.All (fun _ account => ∀ state, accountStateOf account = some state → state.mint ≠ mint)
    accounts

/-- The accounts right after a mint was created at an address that no token account names. -/
def MintCreated (mint : PublicKey) (created : AccountMap) : Prop :=
  ∃ before instruction context, Unheld mint before ∧
    context.accountAddressAt 0 = .ok mint ∧
    unmarshalInstructionBinary context.instruction.data = .ok instruction ∧
    instruction.type = .initializeMint ∧ execute context before = .ok created

theorem Unheld.holdings {accounts : AccountMap} (h : Unheld mint accounts) :
    holdings mint accounts = 0 := by
  refine Table.total_eq_zero fun address account hlookup => ?_
  cases hstate : accountStateOf account with
  | none => simp [balanceOf, hstate]
  | some state => rw [balanceOf_of_state hstate, if_neg (h address account hlookup state hstate)]

theorem unmarshalInstructionBinary_decimals {instruction : Instruction} {data : Bytes}
    (h : unmarshalInstructionBinary data = .ok instruction) : instruction.decimals < 256 ^ 1 := by
  have hyields : Yields readInstruction fun instruction => instruction.decimals < 256 ^ 1 :=
    (Yields.field 4 _).bind fun _ _ => (Yields.field 1 _).bind fun _ hdecimals =>
      (Yields.field 8 _).bind fun _ _ => Yields.pure hdecimals
  simp only [unmarshalInstructionBinary, eq_ok] at h
  obtain ⟨_, hread, -, rfl⟩ := h
  exact hyields.all hread

theorem MintCreated.supplyCovered {created : AccountMap} (h : MintCreated mint created) :
    SupplyCovered mint created := by
  obtain ⟨before, instruction, context, hunheld, haddress, hdecode, htype, hexecute⟩ := h
  simp only [execute, hdecode, eq_ok, Except.ok.injEq, exists_eq_left', executeInstruction, htype]
    at hexecute
  obtain ⟨mintAddress, authorityAddress, account, hmintAt, hauthority, hlookup, howned, hempty,
    rfl⟩ := executeInitializeMint_eq_ok hexecute
  obtain rfl := Except.ok.inj (haddress.symm.trans hmintAt)
  have hrange : (MintState.initial instruction.decimals authorityAddress).InRange :=
    ⟨rfl, unmarshalInstructionBinary_decimals hdecode,
      InstructionContext.accountAddressAt_lt hauthority, Nat.two_pow_pos 64⟩
  refine ⟨_, readMintState_eq_ok.mpr ⟨_, AList.lookup_insert _, mintStateOf_write howned hrange⟩,
    ?_⟩
  have htotal := @holdings_insert mint _ _ _ hlookup { account with
    data := (MintState.initial instruction.decimals authorityAddress).marshalBinary }
  rwa [balanceOf_of_empty hempty, balanceOf_mint, hunheld.holdings] at htotal

/-- From the creation of a mint on, its token accounts hold its supply as long as no
transfer names one account twice. -/
theorem holdings_eq_supply {mint : PublicKey} {created reached : AccountMap}
    (hcreated : MintCreated mint created) (hreach : Reaches step NoSelfTransfer created reached) :
    ∃ state, readMintState reached mint = .ok state ∧ holdings mint reached = state.supply := by
  have hcovered : SupplyCovered mint reached :=
    hreach.invariant hcreated.supplyCovered fun _ _ _ h hapart hstep => h.step hapart hstep
  exact hcovered

/-! A mint at address 2 with the token accounts 3 and 4, all in the hands of the account 1. -/

/-- The first account signs; the last one is the program. -/
def walletMessage : ResolvedMessage where
  header :=
    { numRequiredSignatures := 1, numReadonlySignedAccounts := 0
      numReadonlyUnsignedAccounts := 1 }
  staticAccountKeys := [1, 2, 3, 4, programID]
  loadedAddresses := { writable := [], readonly := [] }
  accountKeys := [1, 2, 3, 4, programID]
  recentBlockhash := 1
  instructions := []
  key_lt := by decide +kernel

def walletContext (accountIndexes : List ℕ) (instructionType decimals amount : ℕ) :
    InstructionContext where
  instructionIndex := 0
  instruction :=
    { programIDIndex := 4, accountIndexes
      data := littleEndian 4 instructionType ++ littleEndian 1 decimals ++
        littleEndian 8 amount }
  message := walletMessage
  currentSlot := 1
  currentEpoch := 0
  rentConfig := defaultRentConfig
  computeBudget := defaultComputeBudgetLimits
  transactionFee := 5000
  feeSource := .transparentAccount
  signerOverrides := []

def emptyTokenAccount : Account where
  lamports := 2000000
  data := []
  owner := programID
  executable := false
  rentEpoch := 0

def walletAccounts : AccountMap :=
  List.toAList [⟨2, emptyTokenAccount⟩, ⟨3, emptyTokenAccount⟩, ⟨4, emptyTokenAccount⟩]

def createMint : InstructionContext := walletContext [1, 0] 0 6 0
def openAccounts : List InstructionContext :=
  [walletContext [2, 1, 0] 1 0 0, walletContext [3, 1, 0] 1 0 0]
def mintFive : InstructionContext := walletContext [1, 2, 0] 2 0 5
def moveFive : InstructionContext := walletContext [2, 3, 0] 3 0 5
def moveFiveToSelf : InstructionContext := walletContext [2, 2, 0] 3 0 5

instance (mint : PublicKey) (accounts : AccountMap) : Decidable (SupplyCovered mint accounts) :=
  match h : readMintState accounts mint with
  | .ok state =>
    decidable_of_iff (holdings mint accounts = state.supply) (by simp [SupplyCovered, h])
  | .error _ => isFalse (by simp [SupplyCovered, h])

theorem walletAccounts_unheld : Unheld 2 walletAccounts := by
  refine Table.All.of_entries fun entry hmem state hstate => ?_
  have hnone : ∀ entry ∈ walletAccounts.entries, accountStateOf entry.2 = none := by
    decide +kernel
  rw [hnone entry hmem] at hstate
  cases hstate

theorem mintCreated_wallet {created : AccountMap}
    (h : step walletAccounts createMint = some created) : MintCreated 2 created := by
  have hdecode : unmarshalInstructionBinary createMint.instruction.data =
      .ok { type := .initializeMint, decimals := 6, amount := 0 } := by decide +kernel
  exact ⟨walletAccounts, _, createMint, walletAccounts_unheld, by decide +kernel, hdecode, rfl,
    toOption_eq_some.mp h⟩

theorem holdings_eq_supply_wallet :
    ∃ created reached, MintCreated 2 created ∧ Reaches step NoSelfTransfer created reached ∧
      ∃ state, readMintState reached 2 = .ok state ∧ holdings 2 reached = state.supply := by
  have hrun : ((step walletAccounts createMint).bind fun created =>
      run (fun accounts context =>
          if (context.accountAddressAt 0).toOption ≠ (context.accountAddressAt 1).toOption then
            step accounts context
          else none) created (openAccounts ++ [mintFive, moveFive])).isSome = true := by
    decide +kernel
  obtain ⟨reached, hrun⟩ := Option.isSome_iff_exists.mp hrun
  obtain ⟨created, hcreate, hrun⟩ := Option.bind_eq_some_iff.mp hrun
  have hreach : Reaches step NoSelfTransfer created reached := by
    refine Reaches.of_checked_run (fun _ context => decide
      ((context.accountAddressAt 0).toOption ≠ (context.accountAddressAt 1).toOption)) ?_
      (by simpa using hrun)
    intro accounts context hcheck instruction _ _ address hfirst hsecond
    simp [hfirst, hsecond] at hcheck
  exact ⟨created, reached, mintCreated_wallet hcreate, hreach,
    holdings_eq_supply (mintCreated_wallet hcreate) hreach⟩

/-- Five tokens, transferred from an account to itself, are ten. -/
theorem self_transfer_creates_tokens :
    ∃ created reached, MintCreated 2 created ∧ Reaches step anyStep created reached ∧
      ¬∃ state, readMintState reached 2 = .ok state ∧ holdings 2 reached = state.supply := by
  have hrun : ((step walletAccounts createMint).any fun created =>
      (run step created (openAccounts ++ [mintFive, moveFiveToSelf])).any fun reached =>
        decide (¬SupplyCovered 2 reached)) = true := by
    decide +kernel
  cases hcreate : step walletAccounts createMint with
  | none => simp [hcreate] at hrun
  | some created =>
    rw [hcreate] at hrun
    obtain ⟨reached, hreach, hbad⟩ := exists_of_run hrun
    have hbad : ¬SupplyCovered 2 reached := of_decide_eq_true hbad
    exact ⟨created, reached, mintCreated_wallet hcreate, hreach, hbad⟩

end Ordexus.Token
