import Ordexus.Blockchain.Finality

/-!
# Finality over all operations

A ledger in memory keeps neither blocks nor indexes, so the blocks that are handed in are
recorded beside it. With a database or without, the finalized height never goes down nor above
the head, and the finalized hash is that of the block of the main chain at this height. Two
conditions are needed besides blocks that fit: checkpoints are not set below the finalized
block, and in memory a commit does not finalize a block between the finalized one and the head.
-/

namespace Ordexus.Blockchain

open Checked Ancestry Transition Ledger

variable {τ : Type} {crypto : Crypto} {model : LedgerTransactionModel τ}

/-- A ledger and the blocks that were handed in. -/
structure Traced (τ : Type) where
  ledger : Ledger τ
  known : Headers

/-- A block that can be hashed becomes known. -/
def Headers.record (crypto : Crypto) (known : Headers) (proposal : BlockProposal τ) : Headers :=
  match proposal.hash crypto with
  | .ok hash => known.store hash proposal.header
  | .error _ => known

theorem Headers.record_eq {known : Headers} {proposal : BlockProposal τ} {hash : Hash}
    (h : proposal.hash crypto = .ok hash) :
    known.record crypto proposal = known.store hash proposal.header := by
  rw [record, h]

namespace Traced

/-- The stored blocks or, in memory, the blocks that were handed in. -/
def headers (traced : Traced τ) : Headers :=
  match traced.ledger.db with
  | some db => db.headers
  | none => traced.known

def recorded (crypto : Crypto) (traced : Traced τ) : LedgerOperation τ → Headers
  | .commitBlock request => traced.known.record crypto request.proposal
  | .saveBlockCandidate request => traced.known.record crypto request.proposal
  | .importFinalizedSnapshot request => traced.known.record crypto request.proposal
  | _ => traced.known

def step (crypto : Crypto) (model : LedgerTransactionModel τ) (traced : Traced τ)
    (operation : LedgerOperation τ) : Option (Traced τ) :=
  (traced.ledger.step crypto model operation).map fun next =>
    { ledger := next, known := traced.recorded crypto operation }

/-- The conditions under which an operation keeps the books. -/
def KeepsBooks (crypto : Crypto) (genesis : Hash) (traced : Traced τ) :
    LedgerOperation τ → Prop
  | .commitBlock request => traced.headers.FitsBlock crypto genesis request.proposal ∧
      (traced.ledger.db = none → traced.ledger.finalitySuspended = true ∨
        traced.ledger.effectiveDepth = 1 ∨ request.proposal.header.height ≤
          traced.ledger.head.finalizedHeight + traced.ledger.effectiveDepth)
  | .saveBlockCandidate request => traced.headers.FitsBlock crypto genesis request.proposal
  | .importFinalizedSnapshot request => traced.headers.FitsBlock crypto genesis request.proposal
  | .advanceFinalizedCheckpoint height _ => traced.ledger.head.finalizedHeight ≤ height
  | .reorganizeTo _ => True
  | .saveQC _ => True
  | .setFinalitySuspended _ => True

/-- The finalized block is the block of the main chain at the finalized height. -/
structure Consistent (genesis : Hash) (traced : Traced τ) : Prop where
  le_head : traced.ledger.head.finalizedHeight ≤ traced.ledger.head.height
  final : IsAncestor traced.headers.parent traced.ledger.head.finalizedHash
    traced.ledger.head.blockHash
  level : traced.headers.level genesis traced.ledger.head.finalizedHash =
    some traced.ledger.head.finalizedHeight

/-! ### In memory -/

section

variable {genesis : Hash} {ledger next : Ledger τ} {known : Headers}

section

variable (hdb : ledger.db = none) (hanchored : ledger.head.Anchored genesis known)
include hdb hanchored

/-- In memory a commit finalizes the head, or nothing new. -/
theorem memory_commit {request : CommitBlockRequest τ}
    (hfits : known.FitsBlock crypto genesis request.proposal)
    (hdepth : ledger.finalitySuspended = true ∨ ledger.effectiveDepth = 1 ∨
      request.proposal.header.height ≤ ledger.head.finalizedHeight + ledger.effectiveDepth)
    (hstep : ledger.commitBlock crypto model request = .ok next) :
    next.db = none ∧ next.head.Anchored genesis (known.record crypto request.proposal) ∧
      ledger.head.finalizedHeight ≤ next.head.finalizedHeight := by
  obtain ⟨blockHash, transactionIDs, hcommits, hpersists⟩ := commitBlock_eq_ok hstep
  have hnone := rest_of_none hpersists hdb
  have hfits := hfits blockHash hcommits.hash
  have hheight := hcommits.height_eq hanchored hfits
  have hfinalized := hanchored.finalizedHeight_le
  have hstored := hanchored.store hfits
  rw [Headers.record_eq hcommits.hash]
  refine ⟨hnone, (hcommits.anchored hanchored hfits rfl fun hash hancestor hlevel => ?_).1, ?_⟩
  · -- the new finalized height is that of the head, or the old one
    have hcases : next.head.finalizedHeight = ledger.head.height ∨
        next.head.finalizedHeight = ledger.head.finalizedHeight := by
      rw [hcommits.finalizedHeight, ledger.nextFinalizedHeight_eq]
      split
      · exact .inr rfl
      · next hactive =>
        rcases hdepth with hsuspended | hone | hlow
        · exact absurd hsuspended hactive
        · omega
        · omega
    have hhash := hcommits.finalizedHash
    rw [← hcommits.finalizedHeight, finalizedHashForCommittedHeight, hdb] at hhash
    have hsame (heq : next.head.finalizedHeight = ledger.head.finalizedHeight)
        (hfound : ledger.head.finalizedHash = next.head.finalizedHash) :
        next.head.finalizedHash = hash := by
      rw [← hfound]
      exact hstored.final.eq_of_level hstored.leveled hancestor hstored.final_level
        (heq ▸ hlevel)
    split at hhash
    · exact hsame (by omega) (pure_eq_ok.mp hhash)
    · split at hhash
      · next heq =>
        rw [← pure_eq_ok.mp hhash]
        exact IsAncestor.eq_of_level hstored.leveled (.refl _) hancestor
          (heq ▸ hstored.head_level) hlevel
      · next hne =>
        exact hsame (hcases.resolve_left hne) (pure_eq_ok.mp hhash)
  · rw [hcommits.finalizedHeight]
    exact ledger.le_nextFinalizedHeight _

theorem memory_advance {height : ℕ} {blockHash : Hash} (hlow : ledger.head.finalizedHeight ≤ height)
    (hadvances : Ledger.Advances ledger height blockHash next) :
    next.db = none ∧ next.head.Anchored genesis known ∧
      ledger.head.finalizedHeight ≤ next.head.finalizedHeight := by
  have hmain := hadvances.mainChain
  rw [mainChainHashAtHeight, hdb] at hmain
  have hblock : IsAncestor known.parent blockHash ledger.head.blockHash ∧
      known.level genesis blockHash = some height := by
    simp only at hmain
    split at hmain
    · next heq =>
      cases hmain
      exact ⟨.refl _, heq ▸ hanchored.head_level⟩
    · split at hmain
      · next heq =>
        cases hmain
        exact ⟨hanchored.final, heq ▸ hanchored.final_level⟩
      · cases hmain
  have hnext := hadvances.eq
  rw [hdb] at hnext
  subst hnext
  exact ⟨rfl, (hanchored.advance hblock.1 hblock.2 hlow).1, hlow⟩

theorem memory_snapshot {request : ImportSnapshotRequest τ}
    (hfits : known.FitsBlock crypto genesis request.proposal)
    (hstep : ledger.importFinalizedSnapshot crypto model request = .ok next) :
    next.db = none ∧ next.head.Anchored genesis (known.record crypto request.proposal) ∧
      ledger.head.finalizedHeight ≤ next.head.finalizedHeight := by
  have hrecord : ledger.head.Anchored genesis (known.record crypto request.proposal) := by
    unfold Headers.record
    split
    · next hash hhash => exact hanchored.store (hfits hash hhash)
    · exact hanchored
  rcases importFinalizedSnapshot_eq_ok hstep with rfl | ⟨blockHash, -, habove, hadvances⟩ |
    ⟨blockHash, transactionIDs, removed, hreplaces, hafter⟩
  · exact ⟨hdb, hrecord, le_rfl⟩
  · exact memory_advance hdb hrecord habove.le hadvances
  · rw [Headers.record_eq hreplaces.hash]
    refine ⟨(rest_of_none hafter hdb).1, hreplaces.anchored (hfits blockHash hreplaces.hash), ?_⟩
    rw [hreplaces.finalizedHeight]
    exact hreplaces.above.le

end

end

/-! ### Runs -/

/-- The invariant of a run, with a database or without. -/
def Kept (crypto : Crypto) (genesis : Hash) (traced : Traced τ) : Prop :=
  (∃ db, traced.ledger.Anchored crypto genesis db) ∨
    (traced.ledger.db = none ∧ traced.ledger.head.Anchored genesis traced.known)

variable {genesis : Hash} {traced next : Traced τ}

theorem Kept.head_anchored (h : Kept crypto genesis traced) :
    traced.ledger.head.Anchored genesis traced.headers := by
  rcases h with ⟨db, hdb⟩ | ⟨hnone, hanchored⟩
  · rw [headers, hdb.before]
    exact hdb.anchored
  · rw [headers, hnone]
    exact hanchored

theorem Kept.consistent (h : Kept crypto genesis traced) : Consistent genesis traced :=
  ⟨h.head_anchored.finalizedHeight_le, h.head_anchored.final, h.head_anchored.final_level⟩

variable {operation : LedgerOperation τ}

/-- With a database the blocks handed in need no record. -/
theorem step_persistent {db : Database τ} {after : Ledger τ}
    (h : traced.ledger.Anchored crypto genesis db)
    (hok : KeepsBooks crypto genesis traced operation)
    (hstep : traced.ledger.step crypto model operation = some after) :
    ∃ nextDB, Ledger.Extends crypto genesis traced.ledger db after nextDB := by
  have hheaders : traced.headers = db.headers := by rw [headers, h.before]
  have hperform := toOption_eq_some.mp hstep
  have hkeeps (hkeep : KeepsFinality crypto genesis traced.ledger operation) :
      ∃ nextDB, Extends crypto genesis traced.ledger db after nextDB := by
    obtain ⟨nextDB, hkeeps⟩ := h.step hkeep hstep
    exact ⟨nextDB, hkeeps.toExtends⟩
  have hstored : traced.ledger.headers = traced.headers := h.headers_eq.trans hheaders.symm
  cases operation with
  | commitBlock request =>
    refine hkeeps ?_
    rw [KeepsFinality, hstored]
    exact hok.1
  | saveBlockCandidate request =>
    refine hkeeps ?_
    rw [KeepsFinality, hstored]
    exact hok
  | reorganizeTo newTipHash | saveQC qc | setFinalitySuspended suspended => exact hkeeps trivial
  | importFinalizedSnapshot request => exact h.snapshot (hheaders ▸ hok) hperform
  | advanceFinalizedCheckpoint height blockHash =>
    have hadvance := orFail_eq_ok.mp hperform
    obtain ⟨nextDB, hkeeps⟩ := h.advance (tryAdvanceFinalizedCheckpoint_eq_some hadvance) hok
    exact ⟨nextDB, hkeeps.toExtends⟩

theorem step_memory {after : Ledger τ} (hdb : traced.ledger.db = none)
    (hanchored : traced.ledger.head.Anchored genesis traced.known)
    (hok : KeepsBooks crypto genesis traced operation)
    (hstep : traced.ledger.step crypto model operation = some after) :
    after.db = none ∧ after.head.Anchored genesis (traced.recorded crypto operation) ∧
      traced.ledger.head.finalizedHeight ≤ after.head.finalizedHeight := by
  have hheaders : traced.headers = traced.known := by rw [headers, hdb]
  have hperform := toOption_eq_some.mp hstep
  cases operation with
  | commitBlock request =>
    exact memory_commit hdb hanchored (hheaders ▸ hok.1) (hok.2 hdb) hperform
  | saveBlockCandidate request =>
    obtain ⟨⟨saved, blockHash⟩, hsave, hnext⟩ := bind_eq_ok.mp hperform
    obtain rfl := pure_eq_ok.mp hnext
    obtain ⟨hhash, -, -, hsaved, hafter⟩ := saveBlockCandidate_eq_ok hsave
    have hnone := rest_of_none hafter hdb
    have hhead : saved.head = traced.ledger.head := by rw [hsaved]
    have hfits : traced.headers.FitsBlock crypto genesis request.proposal := hok
    rw [hheaders] at hfits
    refine ⟨hnone, ?_, by rw [hhead]⟩
    rw [hhead, recorded, Headers.record_eq hhash]
    exact hanchored.store (hfits blockHash hhash)
  | reorganizeTo newTipHash =>
    obtain ⟨⟨moved, decision⟩, hreorg, -⟩ := bind_eq_ok.mp hperform
    obtain ⟨db, hsome, -⟩ := bind_eq_ok.mp hreorg
    rw [hdb] at hsome
    cases hsome
  | saveQC qc =>
    have hsaves := saveQC_eq_ok hperform
    obtain ⟨qcHash, hhead⟩ := hsaves.head
    have hnone := rest_of_none hsaves.db hdb
    rw [hhead]
    exact ⟨hnone, { hanchored with }, le_rfl⟩
  | setFinalitySuspended suspended =>
    cases hperform
    exact ⟨hdb, hanchored, le_rfl⟩
  | importFinalizedSnapshot request =>
    exact memory_snapshot hdb hanchored (hheaders ▸ hok) hperform
  | advanceFinalizedCheckpoint height blockHash =>
    have hadvance := orFail_eq_ok.mp hperform
    exact memory_advance hdb hanchored hok
      (tryAdvanceFinalizedCheckpoint_eq_some hadvance)

theorem Kept.step (h : Kept crypto genesis traced)
    (hok : KeepsBooks crypto genesis traced operation)
    (hstep : traced.step crypto model operation = some next) :
    Kept crypto genesis next ∧
      traced.ledger.head.finalizedHeight ≤ next.ledger.head.finalizedHeight := by
  obtain ⟨after, hafter, rfl⟩ := Option.map_eq_some_iff.mp hstep
  rcases h with ⟨db, hdb⟩ | ⟨hnone, hanchored⟩
  · obtain ⟨nextDB, hextends⟩ := step_persistent hdb hok hafter
    exact ⟨.inl ⟨nextDB, hextends.toAnchored⟩, hextends.finalized⟩
  · obtain ⟨hafterNone, hafterAnchored, hmono⟩ := step_memory hnone hanchored hok hafter
    exact ⟨.inr ⟨hafterNone, hafterAnchored⟩, hmono⟩

theorem Kept.reaches (h : Kept crypto genesis traced)
    (hreach : Reaches (Traced.step crypto model) (KeepsBooks crypto genesis) traced next) :
    Kept crypto genesis next ∧
      traced.ledger.head.finalizedHeight ≤ next.ledger.head.finalizedHeight := by
  induction hreach with
  | start => exact ⟨h, le_rfl⟩
  | next _ hok hstep ih =>
    obtain ⟨hlast, hmono⟩ := ih.1.step hok hstep
    exact ⟨hlast, ih.2.trans hmono⟩

/-- A new ledger, with an empty database or in memory. -/
def created (ledger : Ledger τ) : Traced τ where
  ledger := ledger
  known := fun _ => none

theorem kept_created {program : Shielded.Program} {db : Option (Database τ)}
    {genesisConfig : GenesisConfig} {config : LedgerConfig} {ledger : Ledger τ}
    (hdb : db = none ∨ db = some .empty)
    (h : newLedgerFromGenesisWithConfig crypto program db genesisConfig config =
      .ok ledger) :
    Kept crypto ledger.head.blockHash (created ledger) := by
  obtain ⟨hbegins, ⟨-, hnone⟩ | ⟨before, after, hbefore, hafter, hwrites⟩⟩ :=
    newLedgerFromGenesisWithConfig_eq_ok h
  · exact .inr ⟨hnone, hbegins.anchored _ fun _ => rfl⟩
  · obtain rfl : before = .empty := by
      rcases hdb with hnone | hempty
      · rw [hnone] at hbefore
        cases hbefore
      · exact Option.mem_unique hbefore hempty
    exact .inl ⟨after, hbegins.anchored_db hwrites hafter⟩

end Traced

/-- In every run of a ledger, persistent or in memory, whose operations keep the books, the
finalized height never goes down and the finalized block is the block of the main chain at this
height. -/
theorem finality_consistent {program : Shielded.Program} {db : Option (Database τ)}
    {genesis : GenesisConfig} {config : LedgerConfig} {ledger : Ledger τ} {first second : Traced τ}
    (hdb : db = none ∨ db = some .empty)
    (hcreated : newLedgerFromGenesisWithConfig crypto program db genesis config =
      .ok ledger)
    (hfirst : Reaches (Traced.step crypto model) (Traced.KeepsBooks crypto ledger.head.blockHash)
      (Traced.created ledger) first)
    (hsecond : Reaches (Traced.step crypto model)
      (Traced.KeepsBooks crypto ledger.head.blockHash) first second) :
    first.ledger.head.finalizedHeight ≤ second.ledger.head.finalizedHeight ∧
      Traced.Consistent ledger.head.blockHash second := by
  have hkept := ((Traced.kept_created hdb hcreated).reaches hfirst).1
  obtain ⟨hlast, hmono⟩ := hkept.reaches hsecond
  exact ⟨hmono, hlast.consistent⟩

/-- A test for operations of a persistent ledger that keep the books. -/
def Traced.checkKeepsBooks (crypto : Crypto) (genesis : Hash) (traced : Traced τ) :
    LedgerOperation τ → Bool
  | .commitBlock request =>
    traced.ledger.db.any fun db => db.checkFits crypto genesis request.proposal
  | .saveBlockCandidate request =>
    traced.ledger.db.any fun db => db.checkFits crypto genesis request.proposal
  | .importFinalizedSnapshot request =>
    traced.ledger.db.any fun db => db.checkFits crypto genesis request.proposal
  | .advanceFinalizedCheckpoint height _ => traced.ledger.head.finalizedHeight ≤ height
  | _ => true

theorem Traced.keepsBooks_of_check (genesis : Hash) (traced : Traced τ)
    (operation : LedgerOperation τ) (h : traced.checkKeepsBooks crypto genesis operation = true) :
    traced.KeepsBooks crypto genesis operation := by
  have hfits {proposal : BlockProposal τ}
      (hcheck : (traced.ledger.db.any fun db => db.checkFits crypto genesis proposal) = true) :
      traced.headers.FitsBlock crypto genesis proposal ∧ traced.ledger.db ≠ none := by
    obtain ⟨db, hdb, hfits⟩ := (Option.any_eq_true ..).mp hcheck
    rw [Traced.headers, hdb]
    exact ⟨Database.fitsBlock_of_checkFits hfits, by simp⟩
  cases operation with
  | commitBlock request => exact ⟨(hfits h).1, fun hnone => absurd hnone (hfits h).2⟩
  | saveBlockCandidate request => exact (hfits h).1
  | importFinalizedSnapshot request => exact (hfits h).1
  | advanceFinalizedCheckpoint height blockHash => exact of_decide_eq_true (p := _ ≤ _) h
  | _ => trivial

/-- The first block becomes final, a fork replaces the two blocks above it and its first block
becomes a checkpoint. -/
theorem finality_consistent_fork :
    ∃ (ledger : Ledger ℕ) (first second : Traced ℕ), chainStart true 2 = .ok ledger ∧
      Reaches (Traced.step chainCrypto chainModel)
        (Traced.KeepsBooks chainCrypto ledger.head.blockHash) (Traced.created ledger) first ∧
      Reaches (Traced.step chainCrypto chainModel)
        (Traced.KeepsBooks chainCrypto ledger.head.blockHash) first second ∧
      first.ledger.head.finalizedHeight = 1 ∧ second.ledger.head.finalizedHash = 32 ∧
      first.ledger.head.finalizedHeight ≤ second.ledger.head.finalizedHeight ∧
      Traced.Consistent ledger.head.blockHash second := by
  have hrun : (chainStart true 2).toOption.any (fun ledger =>
      (run (fun traced operation =>
          if traced.checkKeepsBooks chainCrypto ledger.head.blockHash operation then
            traced.step chainCrypto chainModel operation else none) (Traced.created ledger)
        (chainCommits ledger)).any fun first =>
      (run (fun traced operation =>
          if traced.checkKeepsBooks chainCrypto ledger.head.blockHash operation then
            traced.step chainCrypto chainModel operation else none) first
        (chainTakeover ledger ++ [.advanceFinalizedCheckpoint 3 32])).any fun second =>
      decide (first.ledger.head.finalizedHeight = 1 ∧
        second.ledger.head.finalizedHash = 32)) = true := by decide +kernel
  obtain ⟨ledger, hcreated, hrun⟩ := exists_of_any hrun
  obtain ⟨first, hfirst, hrun⟩ := exists_of_checked_run _ (Traced.keepsBooks_of_check _) hrun
  obtain ⟨second, hsecond, htest⟩ := exists_of_checked_run _ (Traced.keepsBooks_of_check _) hrun
  obtain ⟨hfinal, hlast⟩ := of_decide_eq_true htest
  exact ⟨ledger, first, second, hcreated, hfirst, hsecond, hfinal, hlast,
    finality_consistent (.inr rfl) hcreated hfirst hsecond⟩

/-- A checkpoint is set below the finalized block, and in memory the third block finalizes the
first one under the hash of the genesis block. -/
theorem finality_inconsistent :
    (∃ (ledger : Ledger ℕ) (first second : Traced ℕ), chainStart true 1 = .ok ledger ∧
      Reaches (Traced.step chainCrypto chainModel) anyStep (Traced.created ledger) first ∧
      Reaches (Traced.step chainCrypto chainModel) anyStep first second ∧
      second.ledger.head.finalizedHeight < first.ledger.head.finalizedHeight) ∧
    ∃ (ledger : Ledger ℕ) (last : Traced ℕ), chainStart false 2 = .ok ledger ∧
      Reaches (Traced.step chainCrypto chainModel) anyStep (Traced.created ledger) last ∧
      ¬Traced.Consistent ledger.head.blockHash last := by
  constructor
  · have hrun : (chainStart true 1).toOption.any (fun ledger =>
        (run (Traced.step chainCrypto chainModel) (Traced.created ledger)
          (chainCommits ledger)).any fun first =>
        (run (Traced.step chainCrypto chainModel) first
          [.advanceFinalizedCheckpoint 0 chainRoot]).any fun second =>
        second.ledger.head.finalizedHeight < first.ledger.head.finalizedHeight) = true := by
      decide +kernel
    obtain ⟨ledger, hcreated, hrun⟩ := exists_of_any hrun
    obtain ⟨first, hfirst, hrun⟩ := exists_of_run hrun
    obtain ⟨second, hsecond, hlt⟩ := exists_of_run hrun
    exact ⟨ledger, first, second, hcreated, hfirst, hsecond, of_decide_eq_true hlt⟩
  · have hrun : (chainStart false 2).toOption.any (fun ledger =>
        (run (Traced.step chainCrypto chainModel) (Traced.created ledger)
          (chainCommits ledger)).any fun last =>
        decide (last.headers.level ledger.head.blockHash last.ledger.head.finalizedHash ≠
          some last.ledger.head.finalizedHeight)) = true := by
      decide +kernel
    obtain ⟨ledger, hcreated, hrun⟩ := exists_of_any hrun
    obtain ⟨last, hlast, hne⟩ := exists_of_run hrun
    exact ⟨ledger, last, hcreated, hlast, fun h => of_decide_eq_true hne h.level⟩

end Ordexus.Blockchain
