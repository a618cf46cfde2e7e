import Ordexus.Library.FlushedStore

/-!
# One choice for each slot

A signer must not sign two choices for one slot of a phase. It writes each choice to a store
before it sends it, together with a watermark of the phase, and it signs only beyond the
watermark; entries may be deleted, but the watermarks stay. What is kept across crashes is that
every watermark a crash may leave has reached the slots that were sent.
-/

namespace SigningRecord

open List TableWrite FlushedStore

/-- Where the choices and the watermarks are in a store. -/
structure Layout (κ α ε φ γ : Type) where
  key : φ → ℕ → κ
  read : α → Option ε
  marks : Table κ α → φ → ℕ
  phase : ε → φ
  slot : ε → ℕ
  choice : ε → γ

variable {κ α ε φ γ : Type} [DecidableEq κ] {layout : Layout κ α ε φ γ}
  {store : FlushedStore κ α} {choices next : φ → ℕ → Option ε} {watermark raised : φ → ℕ}
  {sent : List ε} {operation : TableWrite κ α} {p : φ} {s : ℕ} {a b : ε}

namespace Layout

section

variable (layout : Layout κ α ε φ γ) (store : FlushedStore κ α) (p : φ) (s : ℕ)

/-- The choice that is read for a slot. -/
def entry : Option ε :=
  (store.visible.lookup (layout.key p s)).bind layout.read

/-- A choice that may be read for a slot after a crash. -/
def Possible (a : ε) : Prop :=
  ∃ value, store.Possible (layout.key p s) value ∧ layout.read value = some a

/-- Whatever a crash leaves, its watermark has reached the slot. -/
def Covered : Prop :=
  ∀ table, store.Survives table → s ≤ layout.marks table p

end

/-- The operation is on none of the choices and watermarks. -/
def Foreign (layout : Layout κ α ε φ γ) (operation : TableWrite κ α) : Prop :=
  (∀ p s, operation.key ≠ layout.key p s) ∧
    ∀ table, layout.marks (applyTo table operation) = layout.marks table

theorem possible_of_entry (h : layout.entry store p s = some a) : layout.Possible store p s a := by
  obtain ⟨value, hlookup, hread⟩ := Option.bind_eq_some_iff.mp h
  exact ⟨value, survives_visible.possible hlookup, hread⟩

theorem isSome_of_entry (h : layout.entry store p s = some a) :
    (store.visible.lookup (layout.key p s)).isSome = true := by
  obtain ⟨value, hlookup, -⟩ := Option.bind_eq_some_iff.mp h
  rw [hlookup]
  rfl

theorem possible_write (h : layout.Possible (store.write operation) p s a) :
    layout.Possible store p s a ∨
      ∃ value, operation = .put (layout.key p s) value ∧ layout.read value = some a := by
  obtain ⟨value, hpossible, hread⟩ := h
  rcases FlushedStore.possible_write.mp hpossible with hold | hnew
  · exact .inl ⟨value, hold, hread⟩
  · exact .inr ⟨value, hnew, hread⟩

/-- A write elsewhere is not seen. -/
theorem entry_write (h : operation.key ≠ layout.key p s) :
    layout.entry (store.write operation) p s = layout.entry store p s := by
  rw [entry, entry, visible_write]
  cases operation with
  | put key value =>
    rw [applyTo, Table.lookup_insert, if_neg fun heq => h heq.symm]
  | delete key =>
    rw [applyTo, lookup_erase, if_neg fun heq => h heq.symm]

theorem Covered.write (h : layout.Covered store p s)
    (hmarks : ∀ table, s ≤ layout.marks table p →
      s ≤ layout.marks (applyTo table operation) p) :
    layout.Covered (store.write operation) p s := by
  intro table htable
  rcases survives_write htable with hold | ⟨before, hbefore, rfl⟩
  · exact h table hold
  · exact hmarks before (h before hbefore)

/-- After a flush the watermark on disk decides. -/
def isCovered (layout : Layout κ α ε φ γ) (store : FlushedStore κ α) (p : φ) (s : ℕ) : Bool :=
  store.pending.isEmpty && decide (s ≤ layout.marks store.durable p)

theorem covered_of_isCovered (h : layout.isCovered store p s = true) :
    layout.Covered store p s := by
  rw [isCovered, Bool.and_eq_true, List.isEmpty_iff, decide_eq_true_eq] at h
  obtain ⟨hflushed, hreached⟩ := h
  rintro table ⟨kept, hkept, rfl⟩
  rw [hflushed] at hkept
  rw [sublist_nil.mp hkept]
  exact hreached

end Layout

/-- The store and the memory of a signer agree with what it has sent. -/
structure Sound (layout : Layout κ α ε φ γ) (store : FlushedStore κ α)
    (choices : φ → ℕ → Option ε) (watermark : φ → ℕ) (sent : List ε) : Prop where
  unique : ∀ a ∈ sent, ∀ b ∈ sent, layout.phase a = layout.phase b →
    layout.slot a = layout.slot b → layout.choice a = layout.choice b
  below : ∀ a ∈ sent, layout.slot a ≤ watermark (layout.phase a)
  covered : ∀ a ∈ sent, layout.Covered store (layout.phase a) (layout.slot a)
  keyed : ∀ p s a, layout.Possible store p s a → layout.phase a = p ∧ layout.slot a = s
  agree : ∀ p s a b, layout.Possible store p s a → layout.Possible store p s b →
    layout.choice a = layout.choice b
  /-- A choice that is not read any more is not signed again either. -/
  remembered : ∀ p s a, layout.Possible store p s a →
    (layout.entry store p s).isSome = true ∨ s ≤ watermark p
  sent_agree : ∀ a ∈ sent, ∀ b, layout.Possible store (layout.phase a) (layout.slot a) b →
    layout.choice b = layout.choice a
  cached_key : ∀ p s a, choices p s = some a → layout.phase a = p ∧ layout.slot a = s
  cached_below : ∀ p s a, choices p s = some a → s ≤ watermark p
  cached_agree : ∀ p s a, choices p s = some a → ∀ b, layout.Possible store p s b →
    layout.choice b = layout.choice a
  cached_sent : ∀ p s a, choices p s = some a → ∀ b ∈ sent, layout.phase b = p →
    layout.slot b = s → layout.choice b = layout.choice a

namespace Sound

theorem start : Sound layout .empty (fun _ _ => none) (fun _ => 0) [] := by
  have hnone (p : φ) (s : ℕ) (a : ε) : ¬layout.Possible .empty p s a := by
    rintro ⟨value, hlookup | hpending, -⟩
    · cases hlookup
    · cases hpending
  constructor
  · exact nofun
  · exact nofun
  · exact nofun
  · exact fun p s a ha => absurd ha (hnone p s a)
  · exact fun p s a b ha => absurd ha (hnone p s a)
  · exact fun p s a ha => absurd ha (hnone p s a)
  all_goals exact nofun

/-! ### Writes -/

section

variable (h : Sound layout store choices watermark sent)
include h

/-- Nothing is possible that was not possible before. -/
theorem of_possible {later : FlushedStore κ α}
    (hpossible : ∀ p s a, layout.Possible later p s a → layout.Possible store p s a)
    (hremembered : ∀ p s a, layout.Possible later p s a →
      (layout.entry later p s).isSome = true ∨ s ≤ raised p)
    (hcovered : ∀ a ∈ sent, layout.Covered later (layout.phase a) (layout.slot a))
    (hbelow : ∀ a ∈ sent, layout.slot a ≤ raised (layout.phase a))
    (hcached : ∀ p s a, choices p s = some a → s ≤ raised p) :
    Sound layout later choices raised sent :=
  { h with
    below := hbelow
    covered := hcovered
    keyed := fun p s a ha => h.keyed p s a (hpossible p s a ha)
    agree := fun p s a b ha hb => h.agree p s a b (hpossible p s a ha) (hpossible p s b hb)
    remembered := hremembered
    sent_agree := fun a ha b hb => h.sent_agree a ha b (hpossible _ _ b hb)
    cached_below := hcached
    cached_agree := fun p s a ha b hb => h.cached_agree p s a ha b (hpossible p s b hb) }

/-- A write that no choice and no watermark of a sent slot sees. -/
theorem write_mark (hkey : ∀ p s, operation.key ≠ layout.key p s)
    (hmarks : ∀ a ∈ sent, ∀ table, layout.slot a ≤ layout.marks table (layout.phase a) →
      layout.slot a ≤ layout.marks (applyTo table operation) (layout.phase a)) :
    Sound layout (store.write operation) choices watermark sent := by
  have hpossible (p : φ) (s : ℕ) (a : ε) (ha : layout.Possible (store.write operation) p s a) :
      layout.Possible store p s a := by
    rcases Layout.possible_write ha with hold | ⟨value, rfl, -⟩
    · exact hold
    · exact absurd rfl (hkey p s)
  refine h.of_possible hpossible (fun p s a ha => ?_)
    (fun a ha => (h.covered a ha).write (hmarks a ha)) h.below h.cached_below
  rw [Layout.entry_write (hkey p s)]
  exact h.remembered p s a (hpossible p s a ha)

theorem write_foreign (hforeign : layout.Foreign operation) :
    Sound layout (store.write operation) choices watermark sent :=
  h.write_mark hforeign.1 fun a _ table hle => by rw [hforeign.2]; exact hle

/-- A choice that is new for its slot is written. -/
theorem write_entry {value : α}
    (hoperation : operation = .put (layout.key (layout.phase a) (layout.slot a)) value)
    (hinjective : ∀ p s q t, layout.key p s = layout.key q t → p = q ∧ s = t)
    (hread : layout.read value = some a)
    (hmarks : ∀ table, layout.marks (applyTo table operation) = layout.marks table)
    (hnone : layout.entry store (layout.phase a) (layout.slot a) = none)
    (hchoices : choices (layout.phase a) (layout.slot a) = none)
    (hfresh : watermark (layout.phase a) < layout.slot a) :
    Sound layout (store.write operation) choices watermark sent := by
  -- nothing was possible for the slot before
  have hempty (b : ε) : ¬layout.Possible store (layout.phase a) (layout.slot a) b := by
    intro hb
    rcases h.remembered _ _ b hb with hsome | hle
    · rw [hnone] at hsome
      cases hsome
    · omega
  have hpossible (p : φ) (s : ℕ) (b : ε) (hb : layout.Possible (store.write operation) p s b) :
      layout.Possible store p s b ∨ (layout.phase a = p ∧ layout.slot a = s ∧ b = a) := by
    rcases Layout.possible_write hb with hold | ⟨other, hput, hother⟩
    · exact .inl hold
    · obtain ⟨hkey, rfl⟩ := put.inj (hoperation.symm.trans hput)
      obtain ⟨hphase, hslot⟩ := hinjective _ _ _ _ hkey
      exact .inr ⟨hphase, hslot, Option.mem_unique hother hread⟩
  have hself : layout.entry (store.write operation) (layout.phase a) (layout.slot a) = some a := by
    rw [Layout.entry, visible_write, hoperation, applyTo,
      Table.lookup_insert, if_pos rfl, Option.bind_some, hread]
  refine { h with
    covered := fun b hb => (h.covered b hb).write fun table hle => by rw [hmarks]; exact hle
    keyed := ?_, agree := ?_, remembered := ?_, sent_agree := ?_, cached_agree := ?_ }
  · intro p s b hb
    rcases hpossible p s b hb with hold | ⟨hphase, hslot, rfl⟩
    · exact h.keyed p s b hold
    · exact ⟨hphase, hslot⟩
  · intro p s b c hb hc
    rcases hpossible p s b hb with hold | ⟨rfl, rfl, rfl⟩
    · rcases hpossible p s c hc with hother | ⟨rfl, rfl, rfl⟩
      · exact h.agree p s b c hold hother
      · exact absurd hold (hempty b)
    · rcases hpossible _ _ c hc with hother | ⟨-, -, rfl⟩
      · exact absurd hother (hempty c)
      · rfl
  · intro p s b hb
    by_cases hkey : layout.phase a = p ∧ layout.slot a = s
    · obtain ⟨rfl, rfl⟩ := hkey
      rw [hself]
      exact .inl rfl
    · rcases hpossible p s b hb with hold | ⟨hphase, hslot, -⟩
      · have hne : operation.key ≠ layout.key p s := by
          rw [hoperation]
          exact fun heq => hkey (hinjective _ _ _ _ heq)
        rw [Layout.entry_write hne]
        exact h.remembered p s b hold
      · exact absurd ⟨hphase, hslot⟩ hkey
  · intro b hb c hc
    rcases hpossible _ _ c hc with hold | ⟨hphase, hslot, -⟩
    · exact h.sent_agree b hb c hold
    · have hbelow := h.below b hb
      rw [← hphase] at hbelow
      omega
  · intro p s b hb c hc
    rcases hpossible p s c hc with hold | ⟨rfl, rfl, -⟩
    · exact h.cached_agree p s b hb c hold
    · rw [hchoices] at hb
      cases hb

theorem delete (hinjective : ∀ p s q t, layout.key p s = layout.key q t → p = q ∧ s = t)
    (hmarks : ∀ table, layout.marks (applyTo table (.delete (layout.key p s))) =
      layout.marks table) (hbelow : s ≤ watermark p) :
    Sound layout (store.write (.delete (layout.key p s))) choices watermark sent := by
  have hpossible (q : φ) (t : ℕ) (a : ε)
      (ha : layout.Possible (store.write (.delete (layout.key p s))) q t a) :
      layout.Possible store q t a := by
    rcases Layout.possible_write ha with hold | ⟨value, hput, -⟩
    · exact hold
    · cases hput
  refine h.of_possible hpossible (fun q t a ha => ?_)
    (fun a ha => (h.covered a ha).write fun table hle => by rw [hmarks]; exact hle) h.below
    h.cached_below
  by_cases hkey : p = q ∧ s = t
  · obtain ⟨rfl, rfl⟩ := hkey
    exact .inr hbelow
  · have hne : (TableWrite.delete (layout.key p s) : TableWrite κ α).key ≠ layout.key q t :=
      fun heq => hkey (hinjective _ _ _ _ heq)
    rw [Layout.entry_write hne]
    exact h.remembered q t a (hpossible q t a ha)

theorem flush : Sound layout store.flush choices watermark sent := by
  have hentry (p : φ) (s : ℕ) (a : ε) (ha : layout.Possible store.flush p s a) :
      layout.entry store p s = some a := by
    obtain ⟨value, hpossible, hread⟩ := ha
    rw [Layout.entry, possible_flush.mp hpossible, Option.bind_some, hread]
  refine h.of_possible (fun p s a ha => Layout.possible_of_entry (hentry p s a ha))
    (fun p s a ha => .inl ?_) (fun a ha table htable => ?_) h.below h.cached_below
  · have hsome : layout.entry store.flush p s = some a := hentry p s a ha
    rw [hsome]
    rfl
  · rw [survives_flush.mp htable]
    exact h.covered a ha _ survives_visible

/-! ### Memory -/

theorem raise (hraised : ∀ q, watermark q ≤ raised q) :
    Sound layout store choices raised sent :=
  h.of_possible (fun _ _ _ ha => ha)
    (fun p s a ha => (h.remembered p s a ha).imp_right fun hle => hle.trans (hraised p)) h.covered
    (fun a ha => (h.below a ha).trans (hraised _))
    fun p s a ha => (h.cached_below p s a ha).trans (hraised p)

theorem forget (hnext : ∀ p s a, next p s = some a → choices p s = some a) :
    Sound layout store next watermark sent :=
  { h with
    cached_key := fun p s a ha => h.cached_key p s a (hnext p s a ha)
    cached_below := fun p s a ha => h.cached_below p s a (hnext p s a ha)
    cached_agree := fun p s a ha => h.cached_agree p s a (hnext p s a ha)
    cached_sent := fun p s a ha => h.cached_sent p s a (hnext p s a ha) }

/-- A choice that agrees with the store and with what was sent is remembered. -/
theorem remember
    (hnext : ∀ q t b, next q t = some b →
      choices q t = some b ∨ (q = layout.phase a ∧ t = layout.slot a ∧ b = a))
    (hraised : ∀ q, watermark q ≤ raised q) (hslot : layout.slot a ≤ raised (layout.phase a))
    (hagree : ∀ b, layout.Possible store (layout.phase a) (layout.slot a) b →
      layout.choice b = layout.choice a)
    (hsent : ∀ b ∈ sent, layout.phase b = layout.phase a → layout.slot b = layout.slot a →
      layout.choice b = layout.choice a) : Sound layout store next raised sent := by
  have hbase := h.raise hraised
  refine { hbase with
    cached_key := ?_, cached_below := ?_, cached_agree := ?_, cached_sent := ?_ }
  · intro p s b hb
    rcases hnext p s b hb with hold | ⟨rfl, rfl, rfl⟩
    · exact h.cached_key p s b hold
    · exact ⟨rfl, rfl⟩
  · intro p s b hb
    rcases hnext p s b hb with hold | ⟨rfl, rfl, rfl⟩
    · exact hbase.cached_below p s b hold
    · exact hslot
  · intro p s b hb c hc
    rcases hnext p s b hb with hold | ⟨rfl, rfl, rfl⟩
    · exact h.cached_agree p s b hold c hc
    · exact hagree c hc
  · intro p s b hb c hc hphase hcslot
    rcases hnext p s b hb with hold | ⟨rfl, rfl, rfl⟩
    · exact h.cached_sent p s b hold c hc hphase hcslot
    · exact hsent c hc hphase hcslot

/-- A choice is remembered that has the same content as the one that is read for its slot. -/
theorem remember_entry (hentry : layout.entry store (layout.phase a) (layout.slot a) = some b)
    (hsame : layout.choice b = layout.choice a)
    (hnext : ∀ q t c, next q t = some c →
      choices q t = some c ∨ (q = layout.phase a ∧ t = layout.slot a ∧ c = a))
    (hraised : ∀ q, watermark q ≤ raised q) (hslot : layout.slot a ≤ raised (layout.phase a)) :
    Sound layout store next raised sent := by
  have hpossible := Layout.possible_of_entry hentry
  refine h.remember hnext hraised hslot (fun c hc => ?_) fun c hc hphase hcslot => ?_
  · exact (h.agree _ _ c b hc hpossible).trans hsame
  · rw [← hphase, ← hcslot] at hpossible
    exact (h.sent_agree c hc b hpossible).symm.trans hsame

/-- A choice that is remembered is sent once every watermark covers it. -/
theorem send (hcached : choices (layout.phase a) (layout.slot a) = some b)
    (hsame : layout.choice b = layout.choice a)
    (hcovered : layout.Covered store (layout.phase a) (layout.slot a)) :
    Sound layout store choices watermark (a :: sent) := by
  have hself (c : ε) (hc : c ∈ sent) (hphase : layout.phase c = layout.phase a)
      (hslot : layout.slot c = layout.slot a) : layout.choice c = layout.choice a :=
    (h.cached_sent _ _ b hcached c hc hphase hslot).trans hsame
  refine { h with unique := ?_, below := ?_, covered := ?_, sent_agree := ?_, cached_sent := ?_ }
  · intro c hc d hd hphase hslot
    rcases mem_cons.mp hc with rfl | hold
    · rcases mem_cons.mp hd with rfl | hother
      · rfl
      · exact (hself d hother hphase.symm hslot.symm).symm
    · rcases mem_cons.mp hd with rfl | hother
      · exact hself c hold hphase hslot
      · exact h.unique c hold d hother hphase hslot
  · intro c hc
    rcases mem_cons.mp hc with rfl | hc
    · exact h.cached_below _ _ b hcached
    · exact h.below c hc
  · intro c hc
    rcases mem_cons.mp hc with rfl | hc
    · exact hcovered
    · exact h.covered c hc
  · intro c hc d hd
    rcases mem_cons.mp hc with rfl | hc
    · exact (h.cached_agree _ _ b hcached d hd).trans hsame
    · exact h.sent_agree c hc d hd
  · intro p s c hc d hd hphase hslot
    rcases mem_cons.mp hd with rfl | hd
    · subst hphase hslot
      obtain rfl := Option.mem_unique hcached hc
      exact hsame.symm
    · exact h.cached_sent p s c hc d hd hphase hslot

/-- A crash leaves no choices in memory, and the watermarks are read again. -/
theorem crash (kept : List Bool) :
    Sound layout (store.crash kept) (fun _ _ => none)
      (layout.marks (store.crash kept).visible) sent := by
  -- the disk holds one of the tables that a crash may leave, and nothing else
  obtain ⟨left, hleft, hcrash⟩ : ∃ left, store.Survives left ∧ store.crash kept = ⟨left, []⟩ :=
    ⟨_, ⟨_, keep_sublist kept store.pending, rfl⟩, rfl⟩
  rw [hcrash]
  have hlookup (p : φ) (s : ℕ) (a : ε) (ha : layout.Possible ⟨left, []⟩ p s a) :
      ∃ value, left.lookup (layout.key p s) = some value ∧ layout.read value = some a := by
    obtain ⟨value, hdurable | hpending, hread⟩ := ha
    · exact ⟨value, hdurable, hread⟩
    · cases hpending
  have hempty : Sound layout store (fun _ _ => none) watermark sent :=
    h.forget nofun
  refine hempty.of_possible (fun p s a ha => ?_) (fun p s a ha => .inl ?_) ?_
    (fun a ha => h.covered a ha left hleft) nofun
  · obtain ⟨value, hvalue, hread⟩ := hlookup p s a ha
    exact ⟨value, hleft.possible hvalue, hread⟩
  · obtain ⟨value, hvalue, hread⟩ := hlookup p s a ha
    have hentry : layout.entry ⟨left, []⟩ p s = some a := by
      rw [Layout.entry, visible, applyAll_nil, hvalue, Option.bind_some, hread]
    rw [hentry]
    rfl
  · rintro a ha table ⟨_, hsublist, rfl⟩
    rw [sublist_nil.mp hsublist]
    exact h.covered a ha left hleft

end

end Sound

end SigningRecord
