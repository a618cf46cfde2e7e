import Ordexus.Programs.TokenSupply
import Ordexus.Programs.ValidatorStates
import Ordexus.Runtime.Simulator

/-!
# What one instruction can do to an account

The five built-in programs seen from a single account. `AccountChange` lists everything an
instruction may do to an account that exists; every statement about who may change what is
a case analysis of it.
-/

namespace Ordexus

open Checked

def InstructionContext.program (context : InstructionContext) : Option PublicKey :=
  context.message.accountKeys[context.instruction.programIDIndex]?

/-- The accounts that mark the nullifiers of an instruction of the shielded program. -/
def spentMarkers (addresses : ShieldedAddresses) (instruction : CompiledInstruction) :
    List PublicKey :=
  match unmarshalShieldedTransferInstructionBinary instruction.data with
  | .error _ => []
  | .ok shielded => (spentNullifiers shielded.bundle.actions).map addresses.nullifierAccount

inductive ProgramStep (parameters : RuntimeParameters) (context : InstructionContext)
    (accounts next : AccountMap) : Prop
  | system (hprogram : context.program = some System.programID)
      (h : System.execute context accounts = .ok next)
  | token (hprogram : context.program = some Token.programID)
      (h : Token.execute context accounts = .ok next)
  | stake (hprogram : context.program = some Stake.programID)
      (h : Stake.execute context accounts = .ok next)
  | shielded (hprogram : context.program = some Shielded.programID)
      (h : (Shielded.execute parameters.shielded context accounts).2 = .ok next)
  | loader (hprogram : context.program = some BpfLoader.programID)
      (h : BpfLoader.execute parameters.loader context accounts = .ok next)

section

variable {parameters : RuntimeParameters} {context : InstructionContext}
  {accounts next : AccountMap} {address : PublicKey}

theorem registryExecute_eq_ok (h : (registryExecute parameters context accounts).2 = .ok next) :
    ProgramStep parameters context accounts next := by
  unfold registryExecute at h
  split at h
  · cases h
  · next programID hprogram =>
    split_ifs at h with hsystem htoken hstake hshielded hloader
    · exact .system (hsystem ▸ hprogram) h
    · exact .token (htoken ▸ hprogram) h
    · exact .stake (hstake ▸ hprogram) h
    · exact .shielded (hshielded ▸ hprogram) h
    · exact .loader (hloader ▸ hprogram) h

theorem executeInstructionSandbox_eq_ok {execute : ProgramHandler}
    (h : (executeInstructionSandbox execute context accounts).2 = .ok next) :
    (execute context accounts).2 = .ok next ∧
      validateInstructionWrites context accounts next = .ok () := by
  simp only [executeInstructionSandbox, eq_ok] at h
  obtain ⟨-, _, hexecute, hwrites, rfl⟩ := h
  exact ⟨hexecute, hwrites⟩

theorem mem_of_mem_writableAccountSet {message : ResolvedMessage}
    (h : address ∈ writableAccountSet message) : address ∈ message.accountKeys := by
  obtain ⟨⟨key, index⟩, hmem, rfl⟩ := List.mem_map.mp h
  exact List.fst_mem_of_mem_zipIdx (List.mem_of_mem_filter hmem)

/-- Only accounts of the message are created. -/
theorem mem_accountKeys_of_created (h : validateInstructionWrites context accounts next = .ok ())
    (hbefore : accounts.lookup address = none) (hafter : (next.lookup address).isSome) :
    address ∈ context.message.accountKeys := by
  obtain ⟨account, haccount⟩ := Option.isSome_iff_exists.mp hafter
  simp only [validateInstructionWrites, eq_ok] at h
  obtain ⟨programID, -, hwrites⟩ := h
  have hentry := forM_eq_ok.mp hwrites ⟨address, account⟩ (AList.mem_lookup_iff.mp haccount)
  rw [validateInstructionWrite, hbefore] at hentry
  exact mem_of_mem_writableAccountSet (not_not.mp (failIf_eq_ok.mp hentry))

end

/-! ### Changes of an account -/

/-- Nothing but the balance differs. -/
structure Account.SameState (before after : Account) : Prop where
  owner : after.owner = before.owner
  data : after.data = before.data
  executable : after.executable = before.executable

theorem Account.SameState.refl (account : Account) : account.SameState account :=
  ⟨rfl, rfl, rfl⟩

theorem Account.SameState.trans {first second third : Account} (hfirst : first.SameState second)
    (hsecond : second.SameState third) : first.SameState third :=
  ⟨hsecond.owner.trans hfirst.owner, hsecond.data.trans hfirst.data,
    hsecond.executable.trans hfirst.executable⟩

/-- What an instruction may do to an account. -/
inductive AccountChange (parameters : RuntimeParameters) (context : InstructionContext)
    (address : PublicKey) (before after : Account) : Prop
  | credited (hsame : before.SameState after) (hlamports : before.lamports ≤ after.lamports)
  | paid (hsigned : context.isSignerContextAddress address = true)
      (hsame : before.SameState after)
  | assigned (hsigned : context.isSignerContextAddress address = true)
      (hprogram : context.program = some System.programID)
      (howner : before.owner = System.programID)
  | written (hprogram : context.program = some before.owner) (howner : after.owner = before.owner)
      (hlamports : after.lamports = before.lamports)
      (hkind : before.owner = Token.programID ∨ before.owner = BpfLoader.programID)
  | pool (hprogram : context.program = some Shielded.programID)
      (haddress : address = parameters.shielded.pool)
      (howner : before.owner = Shielded.programID ∧ after.owner = Shielded.programID)
  | validator (hprogram : context.program = some Stake.programID)
      (haddress : context.accountAddressAt 1 = .ok address)
      (howner : after.owner = Stake.programID)
  | marker (hprogram : context.program = some Shielded.programID)
      (hmarker : address ∈ spentMarkers parameters.shielded.toShieldedAddresses
        context.instruction)
      (hbefore : before.owner = System.programID ∧ before.data = [] ∧ before.executable = false)
      (hafter : after.owner = Shielded.programID ∧ after.data = [] ∧ after.executable = false)
      (hlamports : before.lamports ≤ after.lamports ∨
        context.isSignerContextAddress address = true)

namespace AccountChange

variable {parameters : RuntimeParameters} {context : InstructionContext} {address : PublicKey}
  {account : Account}

theorem refl (account : Account) : AccountChange parameters context address account account :=
  .credited (.refl account) le_rfl

end AccountChange

/-- Every account of `accounts` is in `next`, and has changed as the relation says. -/
def Changes (relation : PublicKey → Account → Account → Prop) (accounts next : AccountMap) :
    Prop :=
  ∀ address before, accounts.lookup address = some before →
    ∃ after, next.lookup address = some after ∧ relation address before after

theorem Changes.of_insert {relation : PublicKey → Account → Account → Prop} {accounts : AccountMap}
    {address : PublicKey} {account : Account}
    (hrefl : ∀ other before, other ≠ address → accounts.lookup other = some before →
      relation other before before)
    (hwrite : ∀ before, accounts.lookup address = some before → relation address before account) :
    Changes relation accounts (accounts.insert address account) := by
  intro other before hbefore
  rw [Table.lookup_insert]
  by_cases hother : other = address
  · subst hother
    exact ⟨account, by rw [if_pos rfl], hwrite before hbefore⟩
  · exact ⟨before, by rw [if_neg hother, hbefore], hrefl other before hother hbefore⟩

/-- What a transfer does to an account: the source pays, the destination is credited. -/
theorem transferLamports_changes {accounts next : AccountMap} {source destination : PublicKey}
    {lamports : ℕ} {rentConfig : RentConfig}
    (h : transferLamports source destination lamports accounts rentConfig = .ok next) :
    Changes (fun address before after => before.SameState after ∧
      (before.lamports ≤ after.lamports ∨ address = source)) accounts next := by
  intro address before hbefore
  rw [transferLamports_lookup h]
  by_cases hdestination : address = destination
  · subst hdestination
    rw [if_pos rfl, accountOrZero_of_lookup hbefore]
    exact ⟨_, rfl, ⟨rfl, rfl, rfl⟩, .inl (Nat.le_add_right _ _)⟩
  · rw [if_neg hdestination]
    by_cases hsource : address = source
    · subst hsource
      rw [if_pos rfl, accountOrZero_of_lookup hbefore]
      exact ⟨_, rfl, ⟨rfl, rfl, rfl⟩, .inr rfl⟩
    · rw [if_neg hsource]
      exact ⟨before, hbefore, .refl before, .inl le_rfl⟩

section

variable {parameters : RuntimeParameters} {context : InstructionContext}
  {accounts next : AccountMap}

theorem changes_of_signed_transfer {source destination : PublicKey} {lamports : ℕ}
    (hsigned : context.isSignerContextAddress source = true)
    (h : transferLamports source destination lamports accounts context.rentConfig = .ok next) :
    Changes (AccountChange parameters context) accounts next := by
  intro address before hbefore
  obtain ⟨after, hafter, hsame, hcredited | rfl⟩ :=
    transferLamports_changes h address before hbefore
  · exact ⟨after, hafter, .credited hsame hcredited⟩
  · exact ⟨after, hafter, .paid hsigned hsame⟩

theorem changes_of_assigned {target : PublicKey} (account : Account)
    (hprogram : context.program = some System.programID)
    (hsigned : context.isSignerContextAddress target = true)
    (howned : System.SystemOwned accounts target) :
    Changes (AccountChange parameters context) accounts (accounts.insert target account) := by
  refine Changes.of_insert (fun _ before _ _ => .refl before) fun before hbefore => ?_
  have howner := howned.1
  rw [accountOrZero_of_lookup hbefore] at howner
  exact .assigned hsigned hprogram howner

theorem changes_of_created {payer created : PublicKey} {funded : AccountMap}
    {lamports : ℕ} (account : Account) (hprogram : context.program = some System.programID)
    (hpayer : context.isSignerContextAddress payer = true)
    (hcreated : context.isSignerContextAddress created = true)
    (howned : System.SystemOwned accounts created)
    (h : transferLamports payer created lamports accounts context.rentConfig = .ok funded) :
    Changes (AccountChange parameters context) accounts (funded.insert created account) := by
  intro address before hbefore
  rw [Table.lookup_insert]
  by_cases haddress : address = created
  · subst haddress
    have howner := howned.1
    rw [accountOrZero_of_lookup hbefore] at howner
    exact ⟨account, by rw [if_pos rfl], .assigned hcreated hprogram howner⟩
  · rw [if_neg haddress]
    exact changes_of_signed_transfer hpayer h address before hbefore

theorem system_changes (hprogram : context.program = some System.programID)
    (h : System.execute context accounts = .ok next) :
    Changes (AccountChange parameters context) accounts next := by
  obtain ⟨instruction, -, h⟩ := bind_eq_ok.mp h
  cases instruction with
  | transfer lamports =>
    obtain ⟨source, destination, -, -, hsigned, -, -, htransfer⟩ :=
      System.executeSystemTransfer_eq_ok h
    exact changes_of_signed_transfer hsigned htransfer
  | createAccount lamports space owner =>
    obtain ⟨payer, created, funded, -, -, hpayer, hcreated, -, -, howned, -, -, hfunded, rfl⟩ :=
      System.executeSystemCreateAccount_eq_ok h
    exact changes_of_created _ hprogram hpayer hcreated howned hfunded
  | assign owner =>
    obtain ⟨target, -, hsigned, howned, rfl⟩ := System.executeSystemAssign_eq_ok h
    exact changes_of_assigned _ hprogram hsigned howned
  | allocate space =>
    obtain ⟨target, data, -, hsigned, howned, rfl⟩ := System.executeSystemAllocate_eq_ok h
    exact changes_of_assigned _ hprogram hsigned howned

/-! Token accounts and program accounts -/

/-- A sequence of writes into accounts of one owner that leaves owner and balance alone. -/
inductive DataWrites (owner : PublicKey) (accounts : AccountMap) : AccountMap → Prop
  | refl : DataWrites owner accounts accounts
  | write {middle : AccountMap} {address : PublicKey} {account : Account} (data : Bytes)
      (executable : Bool) (hwrites : DataWrites owner accounts middle)
      (hlookup : middle.lookup address = some account) (howner : account.owner = owner) :
      DataWrites owner accounts (middle.insert address { account with data, executable })

variable {owner : PublicKey}

theorem DataWrites.changes (h : DataWrites owner accounts next) :
    Changes (fun _ before after => before = after ∨
      before.owner = owner ∧ after.owner = owner ∧ after.lamports = before.lamports)
      accounts next := by
  induction h with
  | refl => exact fun address before hbefore => ⟨before, hbefore, .inl rfl⟩
  | @write middle target account data executable _ hlookup howner ih =>
    intro address before hbefore
    obtain ⟨after, hafter, hchange⟩ := ih address before hbefore
    rw [Table.lookup_insert]
    by_cases haddress : address = target
    · subst haddress
      obtain rfl := Option.mem_unique hlookup hafter
      refine ⟨_, if_pos rfl, .inr ?_⟩
      rcases hchange with rfl | ⟨hbeforeOwner, -, hlamports⟩
      · exact ⟨howner, howner, rfl⟩
      · exact ⟨hbeforeOwner, howner, hlamports⟩
    · exact ⟨after, by rw [if_neg haddress, hafter], hchange⟩

theorem DataWrites.lamports (h : DataWrites owner accounts next) :
    AccountMap.lamports next = AccountMap.lamports accounts := by
  induction h with
  | refl => rfl
  | @write middle target account data executable _ hlookup _ ih =>
    have hinsert := AccountMap.lamports_insert middle target { account with data, executable }
    rw [accountOrZero_of_lookup hlookup] at hinsert
    dsimp only at hinsert
    omega

/-- Two accounts that are read before the first of them is written. -/
theorem DataWrites.pair {first second : PublicKey} {firstAccount secondAccount : Account}
    (firstData secondData : Bytes) (hfirst : accounts.lookup first = some firstAccount)
    (hfirstOwner : firstAccount.owner = owner)
    (hsecond : accounts.lookup second = some secondAccount)
    (hsecondOwner : secondAccount.owner = owner) :
    DataWrites owner accounts
      ((accounts.insert first { firstAccount with data := firstData }).insert second
        { accountOrZero (accounts.insert first { firstAccount with data := firstData }) second with
          data := secondData }) := by
  have hwrite := DataWrites.write firstData firstAccount.executable .refl hfirst hfirstOwner
  obtain ⟨account, hlookup, howner⟩ : ∃ account,
      (accounts.insert first { firstAccount with data := firstData }).lookup second =
        some account ∧ account.owner = owner := by
    rw [Table.lookup_insert]
    by_cases hsame : second = first
    · exact ⟨_, if_pos hsame, hfirstOwner⟩
    · exact ⟨secondAccount, by rw [if_neg hsame, hsecond], hsecondOwner⟩
  rw [accountOrZero_of_lookup hlookup]
  exact .write secondData account.executable hwrite hlookup howner

theorem Token.execute_writes (h : Token.execute context accounts = .ok next) :
    DataWrites Token.programID accounts next := by
  obtain ⟨instruction, -, h⟩ := bind_eq_ok.mp h
  unfold Token.executeInstruction at h
  cases htype : instruction.type with
  | initializeMint =>
    rw [htype] at h
    obtain ⟨address, _, account, -, -, hlookup, howned, -, rfl⟩ :=
      Token.executeInitializeMint_eq_ok h
    exact .write _ account.executable .refl hlookup howned.1
  | initializeAccount =>
    rw [htype] at h
    obtain ⟨address, _, _, _, account, -, -, -, -, hlookup, howned, -, rfl⟩ :=
      Token.executeInitializeAccount_eq_ok h
    exact .write _ account.executable .refl hlookup howned.1
  | mintTo =>
    rw [htype] at h
    obtain ⟨mint, destination, _, _, hmint, hdestination, -, -, -, _, rfl, rfl⟩ :=
      Token.executeMintTo_eq_ok h
    obtain ⟨mintAccount, hmintLookup, hmint⟩ := Token.readMintState_eq_ok.mp hmint
    obtain ⟨account, hlookup, hstate⟩ := Token.readAccountState_eq_ok.mp hdestination
    rw [accountOrZero_of_lookup hmintLookup]
    exact .pair _ _ hmintLookup (Token.mintStateOf_eq_some hmint).1.1 hlookup
      (Token.accountStateOf_eq_some hstate).1.1
  | transfer =>
    rw [htype] at h
    obtain ⟨source, destination, _, _, -, -, hsource, hdestination, -, -, -, _, rfl, rfl⟩ :=
      Token.executeTransfer_eq_ok h
    obtain ⟨sourceAccount, hsourceLookup, hsource⟩ := Token.readAccountState_eq_ok.mp hsource
    obtain ⟨account, hlookup, hstate⟩ := Token.readAccountState_eq_ok.mp hdestination
    rw [accountOrZero_of_lookup hsourceLookup]
    exact .pair _ _ hsourceLookup (Token.accountStateOf_eq_some hsource).1.1 hlookup
      (Token.accountStateOf_eq_some hstate).1.1
  | unknown code =>
    rw [htype] at h
    cases h

theorem BpfLoader.execute_writes (h : BpfLoader.execute parameters.loader context accounts =
    .ok next) : DataWrites BpfLoader.programID accounts next := by
  obtain ⟨address, account, data, executable, hlookup, howner, rfl⟩ := BpfLoader.execute_eq_ok h
  exact .write data executable .refl hlookup howner

theorem changes_of_writes (hprogram : context.program = some owner)
    (hkind : owner = Token.programID ∨ owner = BpfLoader.programID)
    (h : DataWrites owner accounts next) :
    Changes (AccountChange parameters context) accounts next := by
  intro address before hbefore
  obtain ⟨after, hafter, rfl | ⟨hbeforeOwner, hafterOwner, hlamports⟩⟩ :=
    h.changes address before hbefore
  · exact ⟨before, hafter, .refl before⟩
  · subst hbeforeOwner
    exact ⟨after, hafter, .written hprogram hafterOwner hlamports hkind⟩

/-! Validator accounts -/

/-- Outside the validator account, a payment credits the party or takes from it. -/
theorem payment_changes {instruction : Stake.Instruction} {party validator : PublicKey}
    {middle : AccountMap} {account : Account}
    (hsigned : context.isSignerContextAddress party = true)
    (h : Stake.Payment context accounts instruction party validator middle account)
    {address : PublicKey} {before : Account} (haddress : address ≠ validator)
    (hbefore : accounts.lookup address = some before) :
    ∃ after, middle.lookup address = some after ∧
      AccountChange parameters context address before after := by
  cases h with
  | deposit _ htransfer => exact changes_of_signed_transfer hsigned htransfer address before hbefore
  | delegation _ htransfer _ =>
    exact changes_of_signed_transfer hsigned htransfer address before hbefore
  | unpaid _ _ => exact ⟨before, hbefore, .refl before⟩
  | withdrawal _ htransfer =>
    obtain ⟨after, hafter, hsame, hcredited | hsource⟩ :=
      transferLamports_changes htransfer address before hbefore
    · exact ⟨after, hafter, .credited hsame hcredited⟩
    · exact absurd hsource haddress

theorem stake_changes (hprogram : context.program = some Stake.programID)
    (h : Stake.execute context accounts = .ok next) :
    Changes (AccountChange parameters context) accounts next := by
  obtain ⟨instruction, party, validator, state, -, hexecutes⟩ := Stake.execute_executes h
  obtain ⟨middle, account, data, hpayment, -, -, rfl⟩ := hexecutes.written
  intro address before hbefore
  rw [Table.lookup_insert]
  by_cases haddress : address = validator
  · subst haddress
    exact ⟨_, if_pos rfl, .validator hprogram hexecutes.validatorAt rfl⟩
  · rw [if_neg haddress]
    exact payment_changes hexecutes.signed hpayment haddress hbefore

/-! The pool and the markers -/

theorem Shielded.payIf_changes {source destination : Option PublicKey} {amount : ℕ}
    {rentConfig : RentConfig}
    (h : Shielded.payIf source destination amount accounts rentConfig = .ok next) :
    Changes (fun address before after => before.SameState after ∧
      (before.lamports ≤ after.lamports ∨ source = some address)) accounts next := by
  have hsame : ∀ {same : AccountMap}, Changes (fun address before after =>
      before.SameState after ∧ (before.lamports ≤ after.lamports ∨ source = some address))
      same same :=
    fun address before hbefore => ⟨before, hbefore, .refl before, .inl le_rfl⟩
  unfold Shielded.payIf at h
  split at h
  · next payer payee =>
    intro address before hbefore
    obtain ⟨after, hafter, hstate, hlamports⟩ := transferLamports_changes h address before hbefore
    exact ⟨after, hafter, hstate, hlamports.imp_right (congrArg some ·.symm)⟩
  · cases h
    exact hsame

theorem Shielded.storeNullifierMarkers_cons (marker : PublicKey) (markers : List PublicKey) :
    Shielded.storeNullifierMarkers accounts (marker :: markers) =
      Shielded.storeNullifierMarkers
        (accounts.insert marker (Shielded.spentMarker (accountOrZero accounts marker))) markers :=
  rfl

theorem Shielded.storeNullifierMarkers_lookup (markers : List PublicKey) (address : PublicKey) :
    (Shielded.storeNullifierMarkers accounts markers).lookup address =
      if address ∈ markers then
        some (Shielded.spentMarker (accountOrZero accounts address))
      else accounts.lookup address := by
  induction markers generalizing accounts with
  | nil => rfl
  | cons marker markers ih =>
    rw [Shielded.storeNullifierMarkers_cons, ih, accountOrZero_insert]
    by_cases hmarker : address = marker
    · subst hmarker
      simp [Shielded.spentMarker]
    · simp [hmarker]

theorem shielded_changes (hprogram : context.program = some Shielded.programID)
    (h : (Shielded.execute parameters.shielded context accounts).2 = .ok next) :
    Changes (AccountChange parameters context) accounts next := by
  obtain ⟨executes⟩ := Shielded.execute_eq_ok h
  intro address before hbefore
  rw [executes.written, Table.lookup_insert]
  by_cases hpool : address = parameters.shielded.pool
  · subst hpool
    obtain rfl := Option.mem_unique executes.pool.lookup hbefore
    exact ⟨_, if_pos rfl, .pool hprogram rfl ⟨executes.pool.owner, rfl⟩⟩
  · rw [if_neg hpool, Shielded.storeNullifierMarkers_lookup]
    obtain ⟨funded, hfunded, hfundedSame, hfund⟩ :=
      Shielded.payIf_changes executes.fund address before hbefore
    obtain ⟨paid, hpaid, hpaidSame, hpay⟩ :=
      Shielded.payIf_changes executes.pay address funded hfunded
    have hsame := hfundedSame.trans hpaidSame
    have hlamports : before.lamports ≤ paid.lamports ∨
        context.isSignerContextAddress address = true := by
      rcases hpay with hpay | hpay
      · rcases hfund with hfund | hsource
        · exact .inl (hfund.trans hpay)
        · simp [InstructionContext.isSignerContextAddress,
            executes.resolves.sourceSigned address hsource]
      · exact absurd (Option.some.inj hpay).symm hpool
    by_cases hmarker : address ∈ executes.resolved.nullifierMarkers
    · rw [if_pos hmarker, accountOrZero_of_lookup hpaid]
      obtain ⟨account, hlookup, howner, hdata, hexecutable⟩ := executes.unspent address hmarker
      obtain rfl := Option.mem_unique hlookup hbefore
      refine ⟨_, rfl, .marker hprogram ?_ ⟨howner, hdata, hexecutable⟩
        ⟨rfl, rfl, hsame.executable.trans hexecutable⟩ hlamports⟩
      rw [executes.resolves.markers] at hmarker
      rw [spentMarkers, executes.decoded]
      exact hmarker
    · rw [if_neg hmarker]
      refine ⟨paid, hpaid, ?_⟩
      rcases hlamports with hcredited | hsigned
      · exact .credited hsame hcredited
      · exact .paid hsigned hsame

/-- Everything that an instruction does to an account is in the list. -/
theorem ProgramStep.changes (h : ProgramStep parameters context accounts next) :
    Changes (AccountChange parameters context) accounts next := by
  cases h with
  | system hprogram h => exact system_changes hprogram h
  | token hprogram h => exact changes_of_writes hprogram (.inl rfl) (Token.execute_writes h)
  | stake hprogram h => exact stake_changes hprogram h
  | shielded hprogram h => exact shielded_changes hprogram h
  | loader hprogram h => exact changes_of_writes hprogram (.inr rfl) (BpfLoader.execute_writes h)

end

end Ordexus
