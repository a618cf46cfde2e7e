import Ordexus.Library.Transition
import Ordexus.Structure.Fee

/-!
# The recent-blockhash queue

The queue of `structure/blockhash_status.go` decides whether the blockhash a transaction
names is recent. The node fills it apart from its ledger (`internal/posnode/blockhash_queue.go`):
it records the block a certificate or a snapshot makes the head, and builds the queue anew from
the main chain only when it starts. The ledger enters by its main chain, newest block first.
-/

namespace Ordexus

open Checked Transition List

def maxRecentBlockhashAgeSlots : ℕ := 150

def RecentBlockhashEntry.validate (entry : RecentBlockhashEntry) : Except String Unit :=
  failIf (entry.blockhash = 0) "structure: empty blockhash"

namespace BlockhashQueue

section

variable (queue : BlockhashQueue)

def find (blockhash : Hash) : Option RecentBlockhashEntry :=
  queue.entries.find? fun entry => entry.blockhash = blockhash

def validate : Except String Unit := do
  failIf (queue.maxAgeSlots = 0) "structure: invalid blockhash queue: max age slots cannot be zero"
  failIf (queue.maxAgeSlots + 1 < queue.entries.length)
    (s!"structure: invalid blockhash queue: entries {queue.entries.length} exceed window " ++
      s!"{queue.maxAgeSlots + 1}")
  for (entry, index) in queue.entries.zipIdx do
    withContext s!"structure: blockhash entry {index}" entry.validate
    failIf (entry.blockhash ∈ (queue.entries.take index).map RecentBlockhashEntry.blockhash)
      s!"structure: invalid blockhash queue: duplicate blockhash entry {index}"

def trim (currentSlot : ℕ) : BlockhashQueue :=
  { queue with entries := queue.entries.dropWhile fun entry =>
      !entry.isRecent currentSlot queue.maxAgeSlots }

/-- The queue keeps the entry also where the report is an error of the queue. -/
def add (entry : RecentBlockhashEntry) : BlockhashQueue × Except String Unit :=
  let maxAgeSlots :=
    if queue.maxAgeSlots = 0 then maxRecentBlockhashAgeSlots else queue.maxAgeSlots
  match entry.validate with
  | .error message => ({ queue with maxAgeSlots := maxAgeSlots }, .error message)
  | .ok () =>
    let next := trim ⟨queue.entries ++ [entry], maxAgeSlots⟩ entry.slot
    (next, next.validate)

def addOrFail (entry : RecentBlockhashEntry) : Except String BlockhashQueue := do
  (queue.add entry).2
  pure (queue.add entry).1

/-- The effect on the queue of `recordCommittedBlockhash`, which logs an error of the queue, and
of `ensureHeadBlockhashAvailable`, which reports it to the caller of the RPC. -/
def recordCommittedBlockhash (slot : ℕ) (blockhash : Hash) : BlockhashQueue :=
  if blockhash = 0 ∨ (queue.find blockhash).isSome then queue
  else (queue.add ⟨blockhash, slot⟩).1

end

end BlockhashQueue

/-- What a block's header says of its place. -/
structure BlockPlace where
  height : ℕ
  slot : ℕ
  parentHash : Hash

/-- The blocks of a network. A hash names one header. -/
structure BlockTree where
  genesis : Hash
  header : Hash → BlockPlace
  genesis_height : (header genesis).height = 0
  genesis_ne : genesis ≠ 0

namespace BlockTree

variable (tree : BlockTree)

def entry (hash : Hash) : RecentBlockhashEntry := ⟨hash, (tree.header hash).slot⟩

def head (chain : List Hash) : Hash := chain.headD tree.genesis

/-- The block may be put on top of the chain. -/
def Follows (chain : List Hash) (hash : Hash) : Prop :=
  (tree.header hash).parentHash = tree.head chain ∧
    (tree.header hash).height = (tree.header (tree.head chain)).height + 1 ∧
      (tree.header (tree.head chain)).slot < (tree.header hash).slot ∧ hash ≠ 0

instance (chain : List Hash) (hash : Hash) : Decidable (tree.Follows chain hash) :=
  inferInstanceAs (Decidable (_ ∧ _ ∧ _ ∧ _))

def grow : List Hash → List Hash → Option (List Hash)
  | chain, [] => some chain
  | chain, hash :: branch => if tree.Follows chain hash then grow (hash :: chain) branch else none

def startHeight (height : ℕ) : ℕ :=
  if maxRecentBlockhashAgeSlots < height then height - maxRecentBlockhashAgeSlots else 1

/-- `BlockByHeight` finds what the main chain holds of the heights of the window. -/
def restoreRecentBlockhashQueue (chain : List Hash) : Except String BlockhashQueue := do
  let head := tree.head chain
  let start := startHeight (tree.header head).height
  let queue ← ((chain.filter fun hash => start ≤ (tree.header hash).height).map
    tree.entry).reverse.foldlM BlockhashQueue.addOrFail ⟨[], maxRecentBlockhashAgeSlots⟩
  if (queue.find head).isSome then pure queue else queue.addOrFail (tree.entry head)

end BlockTree

structure QueueNode where
  chain : List Hash
  queue : BlockhashQueue

inductive ChainEvent
  /-- A certificate moves the head to the last block of a branch that leaves the main chain at
  the height of `ancestor`. -/
  | adopt (ancestor : ℕ) (branch : List Hash)
  | importSnapshot (hash : Hash)
  /-- One more certificate for the head, or an RPC call that hands out its hash. -/
  | recordHead
  | restart

namespace QueueNode

variable (tree : BlockTree)

/-- A node whose ledger holds the genesis state alone. -/
def start : QueueNode := ⟨[], ⟨[tree.entry tree.genesis], maxRecentBlockhashAgeSlots⟩⟩

def record (chain : List Hash) (queue : BlockhashQueue) : QueueNode :=
  ⟨chain, queue.recordCommittedBlockhash (tree.header (tree.head chain)).slot (tree.head chain)⟩

def step (node : QueueNode) : ChainEvent → Option QueueNode
  | .adopt ancestor branch =>
    if branch = [] then none
    else (tree.grow (node.chain.dropWhile fun hash => ancestor < (tree.header hash).height)
      branch).map fun chain => record tree chain node.queue
  | .importSnapshot hash =>
    if hash = 0 then none
    else some (record tree (hash :: node.chain.dropWhile fun other =>
      (tree.header hash).height ≤ (tree.header other).height) node.queue)
  | .recordHead => some (record tree node.chain node.queue)
  | .restart => (tree.restoreRecentBlockhashQueue node.chain).toOption.map fun queue =>
      ⟨node.chain, queue⟩

/-- The head moves by one block at a time, and the node does not restart while the genesis
block is within the window. -/
def movesSingly (node : QueueNode) : ChainEvent → Bool
  | .adopt ancestor branch =>
    ancestor = (tree.header (tree.head node.chain)).height && branch.length = 1
  | .importSnapshot hash => tree.Follows node.chain hash
  | .recordHead => true
  | .restart => node.chain = [] || (tree.header tree.genesis).slot + maxRecentBlockhashAgeSlots <
      (tree.header (tree.head node.chain)).slot

end QueueNode

/-! ### The queue of a main chain -/

/-- Where later elements pass once an earlier one does, dropping what does not pass is
filtering. -/
theorem dropWhile_eq_filter {α : Type} {p : α → Bool} {xs : List α}
    (h : xs.Pairwise fun x y => p x = true → p y = true) :
    xs.dropWhile (fun x => !p x) = xs.filter p := by
  induction xs with
  | nil => rfl
  | cons x xs ih =>
    obtain ⟨hfirst, hrest⟩ := pairwise_cons.mp h
    cases hx : p x with
    | false => rw [dropWhile_cons_of_pos (by simp [hx]), ih hrest,
        filter_cons_of_neg (by simp [hx])]
    | true =>
      rw [dropWhile_cons_of_neg (by simp [hx]), filter_cons_of_pos hx,
        filter_eq_self.mpr fun y hy => hfirst y hy hx]

namespace BlockTree

variable {tree : BlockTree} {chain : List Hash} {top hash : Hash}

@[simp] theorem head_cons : tree.head (hash :: chain) = hash := rfl

def Linked (tree : BlockTree) : List Hash → Prop
  | [] => True
  | hash :: chain => tree.Follows chain hash ∧ Linked tree chain

/-- The first block is above the second, by at least as many slots as heights. -/
def Above (tree : BlockTree) (first second : Hash) : Prop :=
  (tree.header second).height < (tree.header first).height ∧
    (tree.header second).slot + (tree.header first).height ≤
      (tree.header first).slot + (tree.header second).height

theorem Linked.above (h : tree.Linked chain) :
    (chain ++ [tree.genesis]).Pairwise tree.Above := by
  induction chain with
  | nil => exact pairwise_singleton _ _
  | cons hash chain ih =>
    obtain ⟨⟨-, hheight, hslot, -⟩, hlinked⟩ := h
    have hrest := ih hlinked
    refine pairwise_cons.mpr ⟨fun first hmem => ?_, hrest⟩
    have htop : tree.Above hash (tree.head chain) := ⟨by omega, by omega⟩
    -- the head of the rest is its first block, and the others are below it
    cases chain with
    | nil => rwa [mem_singleton.mp hmem]
    | cons top chain =>
      rcases mem_cons.mp hmem with rfl | hlower
      · exact htop
      · have hlow := (pairwise_cons.mp hrest).1 first hlower
        simp only [Above, head_cons] at hlow htop ⊢
        omega

theorem Linked.eq_of_head {other : List Hash} (h : tree.Linked chain) (hother : tree.Linked other)
    (hhead : tree.head chain = tree.head other) : chain = other := by
  have hpositive {hash : Hash} {chain : List Hash} (h : tree.Follows chain hash) :
      hash ≠ tree.genesis := by
    rintro rfl
    have hheight := h.2.1
    rw [tree.genesis_height] at hheight
    omega
  induction chain generalizing other with
  | nil =>
    cases other with
    | nil => rfl
    | cons hash other => exact absurd hhead.symm (hpositive hother.1)
  | cons hash chain ih =>
    cases other with
    | nil => exact absurd hhead (hpositive h.1)
    | cons hash' other =>
      obtain rfl : hash = hash' := hhead
      rw [ih h.2 hother.2 (h.1.1.symm.trans hother.1.1)]

def inWindow (tree : BlockTree) (slot : ℕ) (hash : Hash) : Bool :=
  (tree.entry hash).isRecent slot maxRecentBlockhashAgeSlots

theorem inWindow_iff {slot : ℕ} : tree.inWindow slot hash = true ↔ (tree.header hash).slot ≤ slot ∧
    slot ≤ (tree.header hash).slot + maxRecentBlockhashAgeSlots := by
  rw [inWindow, RecentBlockhashEntry.isRecent, Bool.and_eq_true, decide_eq_true_eq,
    decide_eq_true_eq]
  simp only [entry]
  omega

/-- The queue of blocks, newest first. -/
def queueOf (tree : BlockTree) (blocks : List Hash) : BlockhashQueue :=
  ⟨((blocks.filter (tree.inWindow (tree.header (tree.head blocks)).slot)).map tree.entry).reverse,
    maxRecentBlockhashAgeSlots⟩

theorem slot_le_head (h : chain.Pairwise tree.Above) (hmem : hash ∈ chain) :
    (tree.header hash).slot ≤ (tree.header (tree.head chain)).slot := by
  cases chain with
  | nil => cases hmem
  | cons top chain =>
    rcases mem_cons.mp hmem with rfl | hlower
    · exact le_rfl
    · have habove := (pairwise_cons.mp h).1 hash hlower
      simp only [Above, head_cons] at habove ⊢
      omega

theorem add_queueOf (h : (top :: chain).Pairwise tree.Above) (hne : top ≠ 0) :
    ((tree.queueOf chain).add (tree.entry top)).1 = tree.queueOf (top :: chain) := by
  obtain ⟨habove, hchain⟩ := pairwise_cons.mp h
  have hvalid : (tree.entry top).validate = .ok () := by
    simp [RecentBlockhashEntry.validate, failIf, entry, hne]
  have hsub := (@filter_sublist _ (tree.inWindow (tree.header (tree.head chain)).slot)
    chain).cons_cons top
  -- recent blocks are the newest
  have hmono : (((top :: chain.filter (tree.inWindow (tree.header (tree.head chain)).slot)).map
      tree.entry).reverse).Pairwise fun first second =>
        first.isRecent (tree.header top).slot maxRecentBlockhashAgeSlots = true →
          second.isRecent (tree.header top).slot maxRecentBlockhashAgeSlots = true := by
    rw [pairwise_reverse, pairwise_map]
    refine (h.sublist hsub).imp_of_mem fun {later earlier} hlater _ hless hrecent => ?_
    have hle := slot_le_head h (hsub.subset hlater)
    have hrecent := inWindow_iff.mp hrecent
    simp only [Above, head_cons] at hless hle
    exact inWindow_iff.mpr ⟨hle, by omega⟩
  have hkeeps : (chain.filter (tree.inWindow (tree.header (tree.head chain)).slot)).filter
      (tree.inWindow (tree.header top).slot) =
        chain.filter (tree.inWindow (tree.header top).slot) := by
    rw [filter_filter]
    refine filter_congr fun hash hmem => ?_
    rw [Bool.and_eq_left_iff_imp]
    intro hrecent
    have hrecent := inWindow_iff.mp hrecent
    obtain ⟨newest, older, rfl⟩ := exists_cons_of_ne_nil (ne_nil_of_mem hmem)
    have hnewest := habove newest mem_cons_self
    simp only [Above] at hnewest
    exact inWindow_iff.mpr ⟨slot_le_head hchain hmem, by rw [head_cons]; omega⟩
  rw [BlockhashQueue.add, hvalid]
  have hentries := dropWhile_eq_filter hmono
  rw [filter_reverse, filter_map, filter_cons, map_cons, reverse_cons] at hentries
  refine congrArg (BlockhashQueue.mk · maxRecentBlockhashAgeSlots) ?_
  rw [head_cons, filter_cons, ← hkeeps]
  exact hentries

/-- What the main chain says the queue is. -/
def window (tree : BlockTree) (chain : List Hash) : BlockhashQueue :=
  tree.queueOf (chain ++ [tree.genesis])

theorem head_append : tree.head (chain ++ [tree.genesis]) = tree.head chain := by
  cases chain <;> rfl

theorem Linked.record (h : tree.Linked (hash :: chain)) :
    (tree.window chain).recordCommittedBlockhash (tree.header hash).slot hash =
      tree.window (hash :: chain) := by
  have habove := (pairwise_cons.mp h.above).1
  have hne : hash ≠ 0 := h.1.2.2.2
  have hfresh : (tree.window chain).find hash = none := by
    rw [BlockhashQueue.find, find?_eq_none]
    intro entry hmem heq
    obtain ⟨other, hother, rfl⟩ := mem_map.mp (mem_reverse.mp hmem)
    obtain rfl := of_decide_eq_true heq
    exact absurd (habove other (mem_of_mem_filter hother)).1 (lt_irrefl _)
  rw [BlockhashQueue.recordCommittedBlockhash, hfresh, if_neg (by simp [hne])]
  exact add_queueOf h.above hne

theorem find_window : ((tree.window chain).find (tree.head chain)).isSome = true := by
  rw [BlockhashQueue.find, find?_isSome]
  refine ⟨tree.entry (tree.head chain), mem_reverse.mpr (mem_map_of_mem
    (mem_filter.mpr ⟨?_, inWindow_iff.mpr ?_⟩)), decide_eq_true rfl⟩
  · cases chain <;> simp [head]
  · rw [head_append]
    exact ⟨le_rfl, Nat.le_add_right _ _⟩

theorem addOrFail_eq_ok {queue next : BlockhashQueue} {entry : RecentBlockhashEntry}
    (h : queue.addOrFail entry = .ok next) : next = (queue.add entry).1 := by
  obtain ⟨_, -, hnext⟩ := bind_eq_ok.mp h
  exact (pure_eq_ok.mp hnext).symm

/-- Blocks added one after the other, oldest first. -/
theorem foldlM_addOrFail {queue : BlockhashQueue} (h : chain.Pairwise tree.Above)
    (hne : ∀ hash ∈ chain, hash ≠ 0)
    (hfold : (chain.map tree.entry).reverse.foldlM BlockhashQueue.addOrFail
      ⟨[], maxRecentBlockhashAgeSlots⟩ = .ok queue) : queue = tree.queueOf chain := by
  induction chain generalizing queue with
  | nil => exact (pure_eq_ok.mp hfold).symm
  | cons top chain ih =>
    rw [map_cons, reverse_cons, foldlM_append] at hfold
    obtain ⟨middle, hmiddle, hlast⟩ := bind_eq_ok.mp hfold
    rw [ih (pairwise_cons.mp h).2 (fun hash hmem => hne hash (mem_cons_of_mem _ hmem))
      hmiddle] at hlast
    obtain ⟨next, hnext, hqueue⟩ := bind_eq_ok.mp hlast
    rw [← pure_eq_ok.mp hqueue, addOrFail_eq_ok hnext]
    exact add_queueOf h (hne top mem_cons_self)

theorem Linked.ne_zero (h : tree.Linked chain) (hmem : hash ∈ chain) : hash ≠ 0 := by
  induction chain with
  | nil => cases hmem
  | cons top chain ih =>
    rcases mem_cons.mp hmem with rfl | hlower
    · exact h.1.2.2.2
    · exact ih h.2 hlower

theorem startHeight_le {height low : ℕ} (hlow : 0 < low)
    (hage : height ≤ low + maxRecentBlockhashAgeSlots) : startHeight height ≤ low := by
  rw [startHeight]
  split <;> omega

/-- The queue built anew, once the genesis block has left the window. -/
theorem Linked.restore (h : tree.Linked chain) {queue : BlockhashQueue}
    (hpast : chain = [] ∨ (tree.header tree.genesis).slot + maxRecentBlockhashAgeSlots <
      (tree.header (tree.head chain)).slot)
    (hrestore : tree.restoreRecentBlockhashQueue chain = .ok queue) :
    queue = tree.window chain := by
  obtain ⟨found, hfound, hqueue⟩ := bind_eq_ok.mp hrestore
  have hkept := foldlM_addOrFail ((pairwise_append.mp h.above).1.filter _)
    (fun hash hmem => h.ne_zero (mem_of_mem_filter hmem)) hfound
  cases chain with
  | nil =>
    subst hkept
    exact (addOrFail_eq_ok hqueue).trans
      (add_queueOf (pairwise_singleton _ _) tree.genesis_ne)
  | cons top rest =>
    have hslot := hpast.resolve_left (cons_ne_nil top rest)
    have hpositive {hash : Hash} (hmem : hash ∈ top :: rest) : 0 < (tree.header hash).height :=
      Nat.zero_lt_of_lt ((pairwise_append.mp h.above).2.2 hash hmem _
        (mem_singleton_self _)).1
    have htop := startHeight_le (hpositive mem_cons_self) (Nat.le_add_right _ _)
    rw [head_cons] at hslot
    have hrest : ((rest.filter fun hash => startHeight (tree.header top).height ≤
        (tree.header hash).height).filter (tree.inWindow (tree.header top).slot)) =
          (rest ++ [tree.genesis]).filter (tree.inWindow (tree.header top).slot) := by
      have hgenesis : tree.inWindow (tree.header top).slot tree.genesis = false := by
        rw [← Bool.not_eq_true, inWindow_iff]
        omega
      rw [filter_filter, filter_append, filter_singleton, hgenesis, cond_false, append_nil]
      refine filter_congr fun hash hmem => ?_
      rw [Bool.and_eq_left_iff_imp]
      intro hrecent
      have hrecent := inWindow_iff.mp hrecent
      have hlow := (pairwise_cons.mp h.above).1 hash (mem_append_left _ hmem)
      simp only [Above] at hlow
      exact decide_eq_true (startHeight_le (hpositive (mem_cons_of_mem _ hmem)) (by omega))
    have hwindow : found = tree.window (top :: rest) := by
      rw [hkept, head_cons, filter_cons_of_pos (by simpa using htop), window, queueOf, queueOf,
        cons_append, head_cons, head_cons, filter_cons, filter_cons, hrest]
    rw [hwindow, if_pos find_window] at hqueue
    exact (pure_eq_ok.mp hqueue).symm

end BlockTree

namespace QueueNode

open BlockTree

variable {tree : BlockTree} {node next : QueueNode}

/-- The queue is the one the main chain says it is. -/
structure Tracks (tree : BlockTree) (node : QueueNode) : Prop where
  linked : tree.Linked node.chain
  queue : node.queue = tree.window node.chain

theorem Tracks.start : Tracks tree (start tree) := by
  refine ⟨trivial, ?_⟩
  have hgenesis : tree.inWindow (tree.header tree.genesis).slot tree.genesis = true :=
    inWindow_iff.mpr ⟨le_rfl, Nat.le_add_right _ _⟩
  simp only [window, queueOf, QueueNode.start, nil_append, BlockTree.head_cons,
    filter_cons_of_pos hgenesis]
  rfl

theorem Tracks.push {hash : Hash} (h : node.Tracks tree) (hfollows : tree.Follows node.chain hash) :
    (record tree (hash :: node.chain) node.queue).Tracks tree := by
  have hlinked : tree.Linked (hash :: node.chain) := ⟨hfollows, h.linked⟩
  refine ⟨hlinked, ?_⟩
  rw [h.queue]
  exact hlinked.record

theorem Tracks.step {event : ChainEvent} (h : node.Tracks tree)
    (hsingly : node.movesSingly tree event = true) (hstep : node.step tree event = some next) :
    next.Tracks tree := by
  have hkept : (node.chain.dropWhile fun hash =>
      (tree.header (tree.head node.chain)).height < (tree.header hash).height) = node.chain := by
    cases node.chain with
    | nil => rfl
    | cons top rest => exact dropWhile_cons_of_neg (by simp)
  cases event with
  | adopt ancestor branch =>
    obtain ⟨hancestor, hlength⟩ : ancestor = (tree.header (tree.head node.chain)).height ∧
      branch.length = 1 := by simpa [movesSingly] using hsingly
    obtain ⟨hash, rfl⟩ := length_eq_one_iff.mp hlength
    rw [QueueNode.step, if_neg (cons_ne_nil _ _), hancestor, hkept, grow] at hstep
    split_ifs at hstep with hfollows
    · cases hstep
      exact h.push hfollows
    · cases hstep
  | importSnapshot hash =>
    have hfollows : tree.Follows node.chain hash := by simpa [movesSingly] using hsingly
    rw [QueueNode.step, if_neg hfollows.2.2.2, hfollows.2.1] at hstep
    cases hstep
    simp only [Nat.succ_le_iff, hkept]
    exact h.push hfollows
  | recordHead =>
    cases hstep
    refine ⟨h.linked, ?_⟩
    rw [record, BlockhashQueue.recordCommittedBlockhash, h.queue, if_pos (.inr find_window)]
  | restart =>
    simp only [QueueNode.step, Option.map_eq_some_iff, toOption_eq_some] at hstep
    obtain ⟨queue, hqueue, rfl⟩ := hstep
    exact ⟨h.linked, h.linked.restore (by simpa [movesSingly] using hsingly) hqueue⟩

theorem Tracks.of_reaches (hreach : Reaches (QueueNode.step tree)
    (fun node event => node.movesSingly tree event = true) (QueueNode.start tree) node) :
    node.Tracks tree :=
  hreach.invariant Tracks.start fun _ _ _ h hsingly hstep => h.step hsingly hstep

/-- Two nodes whose heads moved by one block at a time and ended at one block accept the same
blockhashes, all of them of the main chain, and commit the same branches. -/
theorem same_head_same_window {first second : QueueNode}
    (hfirst : Reaches (QueueNode.step tree) (fun node event => node.movesSingly tree event = true)
      (QueueNode.start tree) first)
    (hsecond : Reaches (QueueNode.step tree) (fun node event => node.movesSingly tree event = true)
      (QueueNode.start tree) second)
    (hhead : tree.head first.chain = tree.head second.chain) :
    (∀ blockhash slot,
      first.queue.isRecent blockhash slot = second.queue.isRecent blockhash slot) ∧
    (∀ blockhash slot, first.queue.isRecent blockhash slot = true →
      blockhash ∈ first.chain ++ [tree.genesis]) ∧
    ∀ ancestor branch, (first.step tree (.adopt ancestor branch)).isSome =
      (second.step tree (.adopt ancestor branch)).isSome := by
  have htracks := Tracks.of_reaches hfirst
  have htracks' := Tracks.of_reaches hsecond
  have hchain := htracks.linked.eq_of_head htracks'.linked hhead
  have hqueue : first.queue = second.queue := by rw [htracks.queue, htracks'.queue, hchain]
  refine ⟨fun _ _ => by rw [hqueue], fun blockhash slot hrecent => ?_, fun _ _ => ?_⟩
  · obtain ⟨entry, hfind, -⟩ := (Option.any_eq_true ..).mp hrecent
    have hmem := mem_of_find?_eq_some hfind
    rw [htracks.queue] at hmem
    obtain ⟨hash, hhash, rfl⟩ := mem_map.mp (mem_reverse.mp hmem)
    have heq := find?_some hfind
    obtain rfl := of_decide_eq_true heq
    exact mem_of_mem_filter hhash
  · simp only [step, hchain]
    split <;> simp

/-- Blocks 11 and 12 on top of the genesis block 1, and block 21 beside block 11. -/
def sampleTree : BlockTree where
  genesis := 1
  header hash := if hash = 1 then ⟨0, 0, 0⟩ else if hash = 12 then ⟨2, 2, 11⟩ else ⟨1, hash % 10, 1⟩
  genesis_height := rfl
  genesis_ne := by decide

theorem same_head_same_window_singly : ∃ first second : QueueNode,
    sampleTree.head first.chain = 12 ∧ sampleTree.head second.chain = 12 ∧
      ∀ blockhash slot,
        first.queue.isRecent blockhash slot = second.queue.isRecent blockhash slot := by
  obtain ⟨first, hfirst, htip⟩ := @exists_of_guarded_run _ _ (step sampleTree)
    (start sampleTree) [.adopt 0 [11], .adopt 1 [12]]
    (fun node => sampleTree.head node.chain = 12) (movesSingly sampleTree) (by decide +kernel)
  obtain ⟨second, hsecond, htip'⟩ := @exists_of_guarded_run _ _ (step sampleTree)
    (start sampleTree) [.restart, .adopt 0 [11], .recordHead, .importSnapshot 12]
    (fun node => sampleTree.head node.chain = 12) (movesSingly sampleTree) (by decide +kernel)
  rw [decide_eq_true_eq] at htip htip'
  exact ⟨first, second, htip, htip',
    (same_head_same_window hfirst hsecond (htip.trans htip'.symm)).1⟩

/-- One node commits two blocks one after the other and another adopts them at once: they end at
one head, and the hash of the first block is recent for one of them only. A third node leaves
block 21 for them and still takes its hash. -/
theorem adopted_branch_forgotten : ∃ first second third : QueueNode,
    Reaches (QueueNode.step sampleTree) anyStep (QueueNode.start sampleTree) first ∧
    Reaches (QueueNode.step sampleTree) anyStep (QueueNode.start sampleTree) second ∧
    Reaches (QueueNode.step sampleTree) anyStep (QueueNode.start sampleTree) third ∧
    first.chain = [12, 11] ∧ second.chain = [12, 11] ∧ third.chain = [12, 11] ∧
    first.queue.isRecent 11 3 = true ∧ second.queue.isRecent 11 3 = false ∧
    first.queue.isRecent 21 3 = false ∧ third.queue.isRecent 21 3 = true := by
  obtain ⟨first, hfirst, htest⟩ := @exists_of_run _ _ (step sampleTree)
    (start sampleTree) [.adopt 0 [11], .adopt 1 [12]] (fun node => node.chain = [12, 11] ∧
      node.queue.isRecent 11 3 = true ∧ node.queue.isRecent 21 3 = false) (by decide +kernel)
  obtain ⟨second, hsecond, htest'⟩ := @exists_of_run _ _ (step sampleTree)
    (start sampleTree) [.adopt 0 [11, 12]]
    (fun node => node.chain = [12, 11] ∧ node.queue.isRecent 11 3 = false) (by decide +kernel)
  obtain ⟨third, hthird, htest''⟩ := @exists_of_run _ _ (step sampleTree)
    (start sampleTree) [.adopt 0 [21], .adopt 0 [11, 12]]
    (fun node => node.chain = [12, 11] ∧ node.queue.isRecent 21 3 = true) (by decide +kernel)
  rw [decide_eq_true_eq] at htest htest' htest''
  exact ⟨first, second, third, hfirst, hsecond, hthird, htest.1, htest'.1, htest''.1, htest.2.1,
    htest'.2, htest.2.2, htest''.2⟩

end QueueNode

end Ordexus
