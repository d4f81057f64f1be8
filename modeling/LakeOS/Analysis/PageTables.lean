import LakeOS.Model.Vmm

/-!
# The two levels of a page directory

`Vmm.pageEntry` reads the entry of a page off the two levels of a page directory, and
`Vmm.translation` its frame, with `0` for a page that is not mapped.  `WellMapped` is the
invariant behind them: the page tables that present slots of the directory name are
distinct frames, none of them the directory, and slot 768 names
`higher_half_page_table`, so that moving the window changes no other table.

Each of the few writes that `vmm.c` makes is given one lemma: where the window is moved,
where an entry of a table is set, where a slot gets a new table or loses an empty one.
-/

set_option autoImplicit false

namespace LakeOS.Model.Vmm

variable {α : Type} (k : KernelLayout)

/-- The entry of a directory slot. -/
def slot (s : Vmm α) (d : ℕ) : BitVec 32 := s.phys (s.directory k) d

/-- The page table that a directory slot names. -/
def table (s : Vmm α) (d : ℕ) : ℕ := entryFrame (s.slot k d)

/-- Where entry `i` of the page table of slot `d` leads, `0` where there is no such
page table or no such page. -/
def translation (s : Vmm α) (d i : ℕ) : ℕ :=
  if entryPresent (s.slot k d) && entryPresent (s.phys (s.table k d) i) then
    entryFrame (s.phys (s.table k d) i)
  else 0

/-- Entry `i` of the page table of slot `d`, zero where there is no such page table. -/
def pageEntry (s : Vmm α) (d i : ℕ) : BitVec 32 :=
  if entryPresent (s.slot k d) then s.phys (s.table k d) i else 0

/-- The page is neither the window nor `curr_page_directory`, through which the functions
reach the tables. -/
def Ordinary (d i : ℕ) : Prop := d ≠ 768 ∨ i ≠ windowSlot ∧ i ≠ k.directorySlot

instance (d i : ℕ) : Decidable (Ordinary k d i) := inferInstanceAs (Decidable (_ ∨ _))

/-- The frame holds the directory or one of its page tables. -/
def IsPaging (s : Vmm α) (frame : ℕ) : Prop :=
  frame = s.directory k ∨ ∃ d < 1024, entryPresent (s.slot k d) ∧ s.table k d = frame

instance (s : Vmm α) (frame : ℕ) : Decidable (IsPaging k s frame) :=
  inferInstanceAs (Decidable (_ ∨ _))

/-- The page tables of a directory lie apart. -/
structure WellMapped (s : Vmm α) : Prop where
  /-- `curr_page_directory` does not lie behind the window. -/
  slot_ne : k.directorySlot ≠ windowSlot
  higherHalf : entryPresent (s.slot k 768) ∧ s.table k 768 = k.higherHalf
  table_ne : ∀ d < 1024, entryPresent (s.slot k d) → s.table k d ≠ s.directory k
  distinct : ∀ d < 1024, ∀ e < 1024, entryPresent (s.slot k d) → entryPresent (s.slot k e) →
    s.table k d = s.table k e → d = e

variable {k} {s s' : Vmm α}

/-- INTERNAL: the directory is not `higher_half_page_table`. -/
theorem WellMapped.directory_ne (h : WellMapped k s) : s.directory k ≠ k.higherHalf := by
  have hne := h.table_ne 768 (by decide) h.higherHalf.1
  rw [h.higherHalf.2] at hne
  exact hne.symm

/-- INTERNAL: the table of another slot is not `higher_half_page_table`. -/
theorem WellMapped.table_ne_higherHalf (h : WellMapped k s) {d : ℕ} (hd : d < 1024)
    (hd768 : d ≠ 768) (hpres : entryPresent (s.slot k d)) : s.table k d ≠ k.higherHalf := by
  intro heq
  rw [← h.higherHalf.2] at heq
  exact hd768 (h.distinct d hd 768 (by decide) hpres h.higherHalf.1 heq)

/-- INTERNAL: the invariant only reads which slots are present and what they name. -/
theorem WellMapped.congr (h : WellMapped k s) (hdir : s'.directory k = s.directory k)
    (hpres : ∀ d, entryPresent (s'.slot k d) = entryPresent (s.slot k d))
    (htable : ∀ d, s'.table k d = s.table k d) : WellMapped k s' := by
  refine ⟨h.slot_ne, ?_, ?_, ?_⟩
  · rw [hpres, htable]
    exact h.higherHalf
  · intro d
    rw [hpres, htable, hdir]
    exact h.table_ne d
  · intro d hd e he
    rw [hpres, hpres, htable, htable]
    exact h.distinct d hd e he

theorem translation_of_slot_absent {d i : ℕ} (h : entryPresent (s.slot k d) = false) :
    s.translation k d i = 0 := by
  rw [translation, h]
  rfl

theorem pageEntry_of_slot_absent {d i : ℕ} (h : entryPresent (s.slot k d) = false) :
    s.pageEntry k d i = 0 := by
  rw [pageEntry, h]
  rfl

theorem pageEntry_of_slot_present {d i : ℕ} (h : entryPresent (s.slot k d)) :
    s.pageEntry k d i = s.phys (s.table k d) i := if_pos h

theorem translation_eq (s : Vmm α) (d i : ℕ) : s.translation k d i =
    if entryPresent (s.pageEntry k d i) then entryFrame (s.pageEntry k d i) else 0 := by
  unfold translation pageEntry
  cases entryPresent (s.slot k d) with
  | false =>
      simp only [Bool.false_and, Bool.false_eq_true, if_false]
      rfl
  | true => rfl

/-- INTERNAL: a translation is read off the entry. -/
theorem translation_congr {d i : ℕ} (h : s'.pageEntry k d i = s.pageEntry k d i) :
    s'.translation k d i = s.translation k d i := by
  rw [translation_eq, translation_eq, h]

/-- INTERNAL: so does being a frame of the page tables. -/
theorem isPaging_congr (hdir : s'.directory k = s.directory k)
    (hpres : ∀ d, entryPresent (s'.slot k d) = entryPresent (s.slot k d))
    (htable : ∀ d, s'.table k d = s.table k d) (f : ℕ) : IsPaging k s' f ↔ IsPaging k s f := by
  unfold IsPaging
  simp only [hdir, hpres, htable]

theorem WellMapped.isPaging_higherHalf (h : WellMapped k s) : IsPaging k s k.higherHalf :=
  .inr ⟨768, by decide, h.higherHalf⟩

/-! ## Moving the window -/

theorem mapWindow_phys_of_ne {frame f i : ℕ} (h : f ≠ k.higherHalf ∨ i ≠ windowSlot) :
    (s.mapWindow k frame).phys f i = s.phys f i :=
  PhysMemory.setWord_of_ne _ _ h

theorem window_mapWindow {frame : ℕ} (hpage : 0x1000 ∣ frame) (hlt : frame < 2 ^ 32) :
    (s.mapWindow k frame).window k = frame := by
  have hentry : (s.mapWindow k frame).phys k.higherHalf windowSlot =
      entrySetFrame (s.phys k.higherHalf windowSlot) frame := PhysMemory.setWord_self _ _ _ _
  rw [window, hentry, entryFrame_setFrame _ hpage hlt]

theorem window_mapWindow_entry (e : BitVec 32) :
    (s.mapWindow k (entryFrame e)).window k = entryFrame e :=
  window_mapWindow (dvd_entryFrame e) (entryFrame_lt e)

theorem directory_mapWindow (h : k.directorySlot ≠ windowSlot) (frame : ℕ) :
    (s.mapWindow k frame).directory k = s.directory k := by
  unfold directory
  rw [mapWindow_phys_of_ne (.inr h)]

theorem slot_mapWindow (h : WellMapped k s) (frame d : ℕ) :
    (s.mapWindow k frame).slot k d = s.slot k d := by
  unfold slot
  rw [directory_mapWindow h.slot_ne, mapWindow_phys_of_ne (.inl h.directory_ne)]

theorem table_mapWindow (h : WellMapped k s) (frame d : ℕ) :
    (s.mapWindow k frame).table k d = s.table k d := by
  unfold table
  rw [slot_mapWindow h]

theorem WellMapped.mapWindow (h : WellMapped k s) (frame : ℕ) :
    WellMapped k (s.mapWindow k frame) :=
  h.congr (directory_mapWindow h.slot_ne frame) (fun d => by rw [slot_mapWindow h])
    (table_mapWindow h frame)

/-- INTERNAL: only the entry of the window sees the window move. -/
theorem pageEntry_mapWindow (h : WellMapped k s) (frame : ℕ) {d i : ℕ} (hd : d < 1024)
    (hpage : Ordinary k d i) : (s.mapWindow k frame).pageEntry k d i = s.pageEntry k d i := by
  unfold pageEntry
  rw [slot_mapWindow h, table_mapWindow h]
  split
  next hpres =>
    apply mapWindow_phys_of_ne
    exact hpage.imp (fun hd768 => h.table_ne_higherHalf hd hd768 hpres) And.left
  next => rfl

/-- INTERNAL: the window stays mapped. -/
theorem entryPresent_mapWindow (s : Vmm α) (frame : ℕ) :
    entryPresent ((s.mapWindow k frame).phys k.higherHalf windowSlot) =
      entryPresent (s.phys k.higherHalf windowSlot) := by
  dsimp only [mapWindow]
  rw [PhysMemory.setWord_self, entryPresent_setFrame]

/-! ## Setting a slot of the directory -/

section Directory

variable {v : ℕ} {e : BitVec 32}

theorem setDirectoryEntry_phys_of_ne {f i : ℕ} (h : f ≠ s.directory k) :
    (s.setDirectoryEntry k v e).phys f i = s.phys f i :=
  PhysMemory.setWord_of_ne _ _ (.inl h)

theorem directory_setDirectoryEntry (h : s.directory k ≠ k.higherHalf) :
    (s.setDirectoryEntry k v e).directory k = s.directory k := by
  unfold directory
  rw [setDirectoryEntry_phys_of_ne h.symm]

theorem slot_setDirectoryEntry (h : s.directory k ≠ k.higherHalf) (d : ℕ) :
    (s.setDirectoryEntry k v e).slot k d = if d = pageDirIndex v then e else s.slot k d := by
  unfold slot
  rw [directory_setDirectoryEntry h]
  split
  next hd =>
    rw [hd]
    exact PhysMemory.setWord_self _ _ _ _
  next hd => exact PhysMemory.setWord_of_ne _ _ (.inr hd)

/-- INTERNAL: the entries of the other slots stay. -/
theorem pageEntry_setDirectoryEntry_of_ne (h : WellMapped k s) {d : ℕ} (hd : d < 1024)
    (hne : d ≠ pageDirIndex v) (i : ℕ) :
    (s.setDirectoryEntry k v e).pageEntry k d i = s.pageEntry k d i := by
  have hslot : (s.setDirectoryEntry k v e).slot k d = s.slot k d := by
    rw [slot_setDirectoryEntry h.directory_ne, if_neg hne]
  unfold pageEntry table
  rw [hslot]
  split
  next hpres => exact setDirectoryEntry_phys_of_ne (h.table_ne d hd hpres)
  next => rfl

/-- INTERNAL: the other slots keep their tables. -/
theorem isPaging_setDirectoryEntry (h : s.directory k ≠ k.higherHalf) {f : ℕ}
    (hf : IsPaging k (s.setDirectoryEntry k v e) f) :
    IsPaging k s f ∨ entryPresent e ∧ f = entryFrame e := by
  obtain heq | ⟨d, hd, hpres, htable⟩ := hf
  · rw [directory_setDirectoryEntry h] at heq
    exact .inl (.inl heq)
  · rw [table] at htable
    rw [slot_setDirectoryEntry h] at hpres htable
    by_cases hslot : d = pageDirIndex v
    · rw [if_pos hslot] at hpres htable
      exact .inr ⟨hpres, htable.symm⟩
    · rw [if_neg hslot] at hpres htable
      exact .inl (.inr ⟨d, hd, hpres, htable⟩)

/-- INTERNAL: a slot that names the same table changes no entry of it. -/
theorem setDirectoryEntry_same (h : WellMapped k s)
    (hpres : entryPresent e = entryPresent (s.directoryEntry k v))
    (hframe : entryFrame e = entryFrame (s.directoryEntry k v)) :
    WellMapped k (s.setDirectoryEntry k v e) ∧
    (∀ f, IsPaging k (s.setDirectoryEntry k v e) f ↔ IsPaging k s f) ∧
    ∀ d < 1024, ∀ i, (s.setDirectoryEntry k v e).pageEntry k d i = s.pageEntry k d i := by
  have hslot : ∀ d, entryPresent ((s.setDirectoryEntry k v e).slot k d) =
      entryPresent (s.slot k d) := by
    intro d
    rw [slot_setDirectoryEntry h.directory_ne]
    split
    next hd => rw [hpres, hd]; rfl
    next => rfl
  have htable : ∀ d, (s.setDirectoryEntry k v e).table k d = s.table k d := by
    intro d
    unfold table
    rw [slot_setDirectoryEntry h.directory_ne]
    split
    next hd => rw [hframe, hd]; rfl
    next => rfl
  have hdir := directory_setDirectoryEntry (v := v) (e := e) h.directory_ne
  refine ⟨h.congr hdir hslot htable, isPaging_congr hdir hslot htable, ?_⟩
  intro d hd i
  unfold pageEntry
  rw [hslot, htable]
  split
  next hd' => exact setDirectoryEntry_phys_of_ne (h.table_ne d hd hd')
  next => rfl

/-- INTERNAL: a slot is given a table: a frame that was none and reads as empty. -/
theorem setDirectoryEntry_new (h : WellMapped k s)
    (habsent : entryPresent (s.directoryEntry k v) = false)
    (hfresh : ¬ IsPaging k s (entryFrame e)) (hempty : ∀ i, s.phys (entryFrame e) i = 0) :
    WellMapped k (s.setDirectoryEntry k v e) ∧
      ∀ d < 1024, ∀ i, (s.setDirectoryEntry k v e).pageEntry k d i = s.pageEntry k d i := by
  have hne : entryFrame e ≠ s.directory k := fun heq => hfresh (.inl heq)
  have hother : ∀ d < 1024, entryPresent (s.slot k d) → s.table k d ≠ entryFrame e :=
    fun d hd hd' heq => hfresh (.inr ⟨d, hd, hd', heq⟩)
  have hslot := slot_setDirectoryEntry (v := v) (e := e) h.directory_ne
  have hdir := directory_setDirectoryEntry (v := v) (e := e) h.directory_ne
  have h768 : 768 ≠ pageDirIndex v := by
    intro heq
    have hhalf := h.higherHalf.1
    rw [heq] at hhalf
    exact Bool.false_ne_true (habsent.symm.trans hhalf)
  refine ⟨⟨h.slot_ne, ?_, ?_, ?_⟩, ?_⟩
  · unfold table
    rw [hslot, if_neg h768]
    exact h.higherHalf
  · intro d hd
    unfold table
    rw [hslot, hdir]
    split
    next => exact fun _ => hne
    next => exact h.table_ne d hd
  · intro d hd d' hd'
    unfold table
    rw [hslot, hslot]
    split
    next heq =>
      split
      next heq' => exact fun _ _ _ => heq.trans heq'.symm
      next => exact fun _ hp hf => absurd hf.symm (hother d' hd' hp)
    next =>
      split
      next => exact fun hp _ hf => absurd hf (hother d hd hp)
      next => exact h.distinct d hd d' hd'
  · intro d hd i
    by_cases heq : d = pageDirIndex v
    · have htable : (s.setDirectoryEntry k v e).table k d = entryFrame e := by
        rw [table, hslot, if_pos heq]
      rw [pageEntry_of_slot_absent (s := s) (heq ▸ habsent), pageEntry, htable,
        setDirectoryEntry_phys_of_ne hne, hempty, ite_self]
    · exact pageEntry_setDirectoryEntry_of_ne h hd heq i

/-- INTERNAL: a slot loses its table. -/
theorem setDirectoryEntry_drop (h : WellMapped k s) (habsent : entryPresent e = false)
    (hv : pageDirIndex v ≠ 768) (hpres : entryPresent (s.slot k (pageDirIndex v))) :
    WellMapped k (s.setDirectoryEntry k v e) ∧
    (∀ d < 1024, ∀ i, (s.setDirectoryEntry k v e).pageEntry k d i =
      if d = pageDirIndex v then 0 else s.pageEntry k d i) ∧
    (∀ f, IsPaging k (s.setDirectoryEntry k v e) f → IsPaging k s f) ∧
    ¬ IsPaging k (s.setDirectoryEntry k v e) (s.table k (pageDirIndex v)) := by
  have hslot := slot_setDirectoryEntry (v := v) (e := e) h.directory_ne
  have hdir := directory_setDirectoryEntry (v := v) (e := e) h.directory_ne
  refine ⟨⟨h.slot_ne, ?_, ?_, ?_⟩, ?_, ?_, ?_⟩
  · unfold table
    rw [hslot, if_neg hv.symm]
    exact h.higherHalf
  · intro d hd
    unfold table
    rw [hslot, hdir]
    split
    next => simp [habsent]
    next => exact h.table_ne d hd
  · intro d hd d' hd'
    unfold table
    rw [hslot, hslot]
    split
    next => simp [habsent]
    next =>
      split
      next => simp [habsent]
      next => exact h.distinct d hd d' hd'
  · intro d hd i
    split
    next heq =>
      apply pageEntry_of_slot_absent
      rw [hslot, if_pos heq, habsent]
    next hne => exact pageEntry_setDirectoryEntry_of_ne h hd hne i
  · intro f hf
    obtain hold | ⟨hpres', -⟩ := isPaging_setDirectoryEntry h.directory_ne hf
    · exact hold
    · exact absurd hpres' (Bool.eq_false_iff.mp habsent)
  · have hlt : pageDirIndex v < 1024 := Nat.mod_lt _ (by decide)
    rintro (heq | ⟨d, hd, hd', htable⟩)
    · exact h.table_ne _ hlt hpres (heq.trans hdir)
    · rw [table, hslot] at htable
      rw [hslot] at hd'
      by_cases hd'' : d = pageDirIndex v
      · rw [if_pos hd''] at hd'
        exact absurd hd' (Bool.eq_false_iff.mp habsent)
      · rw [if_neg hd''] at hd' htable
        exact hd'' (h.distinct d hd _ hlt hd' hpres htable)

end Directory

/-! ## Setting an entry of the table behind the window -/

section Window

variable {d i : ℕ} {e : BitVec 32}

theorem setWindowEntry_phys_of_ne {f j : ℕ} (h : f ≠ s.window k ∨ j ≠ i) :
    (s.setWindowEntry k i e).phys f j = s.phys f j :=
  PhysMemory.setWord_of_ne _ _ h

theorem directory_setWindowEntry (h : s.window k ≠ k.higherHalf ∨ i ≠ k.directorySlot) :
    (s.setWindowEntry k i e).directory k = s.directory k := by
  unfold directory
  rw [setWindowEntry_phys_of_ne (h.imp Ne.symm Ne.symm)]

theorem slot_setWindowEntry (h : s.window k ≠ k.higherHalf ∨ i ≠ k.directorySlot)
    (h' : s.window k ≠ s.directory k) (d : ℕ) :
    (s.setWindowEntry k i e).slot k d = s.slot k d := by
  unfold slot
  rw [directory_setWindowEntry h, setWindowEntry_phys_of_ne (.inl h'.symm)]

/-- INTERNAL: an ordinary page lies in another frame than the two entries through which
the functions reach the tables, or in another entry. -/
theorem WellMapped.ordinary (h : WellMapped k s) (hd : d < 1024) (hpage : Ordinary k d i)
    (hpres : entryPresent (s.slot k d)) :
    s.table k d ≠ k.higherHalf ∨ i ≠ windowSlot ∧ i ≠ k.directorySlot :=
  hpage.imp_left fun hd768 => h.table_ne_higherHalf hd hd768 hpres

/-- INTERNAL: one entry changes, of the slot whose table the window shows. -/
theorem setWindowEntry_spec (h : WellMapped k s) (hd : d < 1024) (hpage : Ordinary k d i)
    (hpres : entryPresent (s.slot k d)) (hwindow : s.window k = s.table k d) :
    WellMapped k (s.setWindowEntry k i e) ∧
    (∀ d', (s.setWindowEntry k i e).slot k d' = s.slot k d') ∧
    (∀ f, IsPaging k (s.setWindowEntry k i e) f ↔ IsPaging k s f) ∧
    ∀ d' < 1024, ∀ j, (s.setWindowEntry k i e).pageEntry k d' j =
      if d' = d ∧ j = i then e else s.pageEntry k d' j := by
  have hhalf : s.window k ≠ k.higherHalf ∨ i ≠ k.directorySlot :=
    hwindow ▸ (h.ordinary hd hpage hpres).imp_right And.right
  have hdir : s.window k ≠ s.directory k := hwindow ▸ h.table_ne d hd hpres
  have hslot := slot_setWindowEntry (i := i) (e := e) hhalf hdir
  have htable : ∀ d', (s.setWindowEntry k i e).table k d' = s.table k d' := fun d' => by
    rw [table, hslot, table]
  have hpres' : ∀ d', entryPresent ((s.setWindowEntry k i e).slot k d') =
      entryPresent (s.slot k d') := fun d' => by rw [hslot]
  refine ⟨h.congr (directory_setWindowEntry hhalf) hpres' htable, hslot,
    isPaging_congr (directory_setWindowEntry hhalf) hpres' htable, ?_⟩
  intro d' hd' j
  by_cases heq : d' = d ∧ j = i
  · obtain ⟨rfl, rfl⟩ := heq
    have hentry : (s.setWindowEntry k j e).phys (s.table k d') j = e := by
      rw [← hwindow]
      exact PhysMemory.setWord_self _ _ _ _
    have hhere : d' = d' ∧ j = j := ⟨rfl, rfl⟩
    rw [if_pos hhere, pageEntry, hslot, htable, hentry, if_pos hpres]
  · rw [if_neg heq, pageEntry, pageEntry, hslot, htable]
    split
    next hpres' =>
      apply setWindowEntry_phys_of_ne
      by_cases hsame : d' = d
      · exact .inr fun hj => heq ⟨hsame, hj⟩
      · refine .inl fun hf => hsame ?_
        exact h.distinct d' hd' d hd hpres' hpres (hf.trans hwindow)
    next => rfl

/-- INTERNAL: the window stays mapped. -/
theorem entryPresent_setWindowEntry (h : WellMapped k s) (hd : d < 1024)
    (hpage : Ordinary k d i) (hpres : entryPresent (s.slot k d))
    (hwindow : s.window k = s.table k d) :
    (s.setWindowEntry k i e).phys k.higherHalf windowSlot =
      s.phys k.higherHalf windowSlot := by
  apply setWindowEntry_phys_of_ne
  rw [hwindow]
  exact (h.ordinary hd hpage hpres).imp Ne.symm fun hi => hi.1.symm

end Window

/-! ## The operations -/

section Operations

variable (A : FrameAllocator α) {v : ℕ}

theorem pageDirIndex_lt (v : ℕ) : pageDirIndex v < 1024 := Nat.mod_lt _ (by decide)

theorem pageTableIndex_lt (v : ℕ) : pageTableIndex v < 1024 := Nat.mod_lt _ (by decide)

/-- The frame can become a page table. -/
def CanBeTable (k : KernelLayout) (s : Vmm α) (frame : ℕ) : Prop :=
  frame ≠ 0 ∧ frame % 0x1000 = 0 ∧ frame < 2 ^ 32 ∧ ¬ IsPaging k s frame

instance (s : Vmm α) (frame : ℕ) : Decidable (CanBeTable k s frame) :=
  inferInstanceAs (Decidable (_ ∧ _))

/-- INTERNAL: looking an address up moves the window at most. -/
theorem virtToPhys_state (s : Vmm α) (v : ℕ) :
    (virtToPhys k v s).2 = s ∨ ∃ frame, (virtToPhys k v s).2 = s.mapWindow k frame := by
  dsimp only [virtToPhys]
  split
  next => exact .inl rfl
  next =>
    right
    split
    next => exact ⟨_, rfl⟩
    next => exact ⟨_, rfl⟩

/-- INTERNAL: looking an address up moves the window at most, so no table moves. -/
theorem virtToPhys_keeps (h : WellMapped k s) (v : ℕ) :
    (virtToPhys k v s).2.directory k = s.directory k ∧
    (∀ d, (virtToPhys k v s).2.slot k d = s.slot k d) ∧
    (∀ f, IsPaging k (virtToPhys k v s).2 f ↔ IsPaging k s f) ∧
    (virtToPhys k v s).2.alloc = s.alloc := by
  obtain hstate | ⟨frame, hstate⟩ := virtToPhys_state (k := k) s v
  · rw [hstate]
    exact ⟨rfl, fun _ => rfl, fun _ => Iff.rfl, rfl⟩
  · rw [hstate]
    refine ⟨directory_mapWindow h.slot_ne _, slot_mapWindow h frame, ?_, rfl⟩
    exact isPaging_congr (directory_mapWindow h.slot_ne _)
      (fun d => by rw [slot_mapWindow h]) (table_mapWindow h _)

/-- INTERNAL: looking an address up reads the translation.
SRCLINE: vmm.c:28-50 -/
theorem virtToPhys_read (h : WellMapped k s)
    (hv : Ordinary k (pageDirIndex v) (pageTableIndex v)) :
    (virtToPhys k v s).1 = s.translation k (pageDirIndex v) (pageTableIndex v) := by
  cases hpres : entryPresent (s.directoryEntry k v) with
  | false =>
      simp only [virtToPhys, hpres, Bool.not_false, if_true]
      exact (translation_of_slot_absent hpres).symm
  | true =>
      have hslot : entryPresent ((s.mapWindow k (entryFrame (s.directoryEntry k v))).slot k
          (pageDirIndex v)) := by
        rw [slot_mapWindow h]
        exact hpres
      have hentry : (s.mapWindow k (entryFrame (s.directoryEntry k v))).windowEntry k
          (pageTableIndex v) = s.pageEntry k (pageDirIndex v) (pageTableIndex v) := by
        rw [← pageEntry_mapWindow h (entryFrame (s.directoryEntry k v)) (pageDirIndex_lt v) hv,
          pageEntry_of_slot_present hslot, table_mapWindow h, windowEntry, window_mapWindow_entry]
        rfl
      simp only [virtToPhys, hpres, hentry, translation_eq, Bool.not_true, Bool.false_eq_true,
        if_false]
      cases entryPresent (s.pageEntry k (pageDirIndex v) (pageTableIndex v)) with
      | false => rfl
      | true => rfl

/-- INTERNAL: looking an address up keeps the page tables. -/
theorem virtToPhys_spec (h : WellMapped k s) (hv : pageDirIndex v ≠ 768) :
    (virtToPhys k v s).1 = s.translation k (pageDirIndex v) (pageTableIndex v) ∧
    WellMapped k (virtToPhys k v s).2 ∧
    ∀ d < 1024, d ≠ 768 → ∀ i,
      (virtToPhys k v s).2.translation k d i = s.translation k d i := by
  refine ⟨virtToPhys_read h (.inl hv), ?_⟩
  obtain hstate | ⟨frame, hstate⟩ := virtToPhys_state (k := k) s v
  · rw [hstate]
    exact ⟨h, fun _ _ _ _ => rfl⟩
  · rw [hstate]
    exact ⟨h.mapWindow frame, fun d hd hd768 i =>
      translation_congr (pageEntry_mapWindow h frame hd (.inl hd768))⟩

/-- INTERNAL: clearing a frame outside the page tables changes no entry. -/
theorem clear_spec (h : WellMapped k s) {f : ℕ} (hf : ¬ IsPaging k s f) :
    let s' : Vmm α := { s with phys := s.phys.clear f }
    WellMapped k s' ∧ (∀ f', IsPaging k s' f' ↔ IsPaging k s f') ∧ s'.window k = s.window k ∧
    (∀ d, s'.slot k d = s.slot k d) ∧
    ∀ d < 1024, ∀ i, s'.pageEntry k d i = s.pageEntry k d i := by
  intro s'
  have hhalf : k.higherHalf ≠ f := fun heq => hf (heq ▸ h.isPaging_higherHalf)
  have hdir : s'.directory k = s.directory k :=
    congrArg entryFrame (PhysMemory.clear_of_ne _ _ hhalf)
  have hslot : ∀ d, s'.slot k d = s.slot k d := by
    intro d
    have hne : s.directory k ≠ f := fun heq => hf (.inl heq.symm)
    rw [slot, hdir]
    exact PhysMemory.clear_of_ne _ _ hne
  have htable : ∀ d, s'.table k d = s.table k d := fun d => by rw [table, hslot, table]
  refine ⟨h.congr hdir (fun d => by rw [hslot]) htable,
    isPaging_congr hdir (fun d => by rw [hslot]) htable,
    congrArg entryFrame (PhysMemory.clear_of_ne _ _ hhalf), hslot, fun d hd i => ?_⟩
  rw [pageEntry, pageEntry, hslot, htable]
  split
  next hpres =>
    apply PhysMemory.clear_of_ne
    exact fun heq => hf (.inr ⟨d, hd, hpres, heq⟩)
  next => rfl

/-- The entry of a new page table. -/
def tableEntry (pde : BitVec 32) (frame : ℕ) : BitVec 32 :=
  entrySetFrame (entryAddAttribute (entryAddAttribute pde pageStructEntryPresent)
    pageStructEntryWriteable) frame

theorem entryPresent_tableEntry (pde : BitVec 32) (frame : ℕ) :
    entryPresent (tableEntry pde frame) := by
  rw [tableEntry, entryPresent_setFrame, entryPresent_addAttribute _ (by decide),
    entryPresent_addPresent]

/-- INTERNAL: a slot without a table gets a cleared one. -/
theorem newTable_spec (h : WellMapped k s) {page : ℕ} (hpage : CanBeTable k s page)
    (habsent : entryPresent (s.directoryEntry k v) = false) :
    let s₁ := s.mapWindow k page
    let s₂ : Vmm α := { s₁ with phys := s₁.phys.clear (s₁.window k) }
    let s' := s₂.setDirectoryEntry k v (tableEntry (s₂.directoryEntry k v) (s₂.window k))
    WellMapped k s' ∧ entryPresent (s'.slot k (pageDirIndex v)) ∧
    s'.window k = s'.table k (pageDirIndex v) ∧
    (∀ d < 1024, ∀ i, Ordinary k d i → s'.pageEntry k d i = s.pageEntry k d i) ∧
    s'.phys k.higherHalf windowSlot = s₁.phys k.higherHalf windowSlot ∧
    ∀ f, IsPaging k s' f → IsPaging k s f ∨ f = page := by
  intro s₁ s₂ s'
  obtain ⟨-, hmod, hlt, hfresh⟩ := hpage
  have hdvd : 0x1000 ∣ page := Nat.dvd_of_mod_eq_zero hmod
  have h₁ : WellMapped k s₁ := h.mapWindow page
  have hwin₁ : s₁.window k = page := window_mapWindow hdvd hlt
  have hpaging₁ : ∀ f, IsPaging k s₁ f ↔ IsPaging k s f :=
    isPaging_congr (directory_mapWindow h.slot_ne page)
      (fun d => by rw [slot_mapWindow h]) (table_mapWindow h page)
  have hfresh₁ : ¬ IsPaging k s₁ (s₁.window k) := by
    rw [hwin₁, hpaging₁]
    exact hfresh
  obtain ⟨h₂, hpaging₂, hwin₂, hslot₂, hread₂⟩ := clear_spec h₁ hfresh₁
  have hentry : entryFrame (tableEntry (s₂.directoryEntry k v) (s₂.window k)) = s₂.window k :=
    entryFrame_setFrame _ (dvd_entryFrame _) (entryFrame_lt _)
  have habsent₂ : entryPresent (s₂.directoryEntry k v) = false := by
    show entryPresent (s₂.slot k (pageDirIndex v)) = false
    rw [hslot₂, slot_mapWindow h]
    exact habsent
  obtain ⟨h', hread'⟩ := setDirectoryEntry_new
    (e := tableEntry (s₂.directoryEntry k v) (s₂.window k)) h₂ habsent₂
    (by rw [hentry, hpaging₂, hwin₂]; exact hfresh₁)
    (by intro i; rw [hentry, hwin₂]; exact PhysMemory.clear_self _ _ _)
  have hslot' : s'.slot k (pageDirIndex v) =
      tableEntry (s₂.directoryEntry k v) (s₂.window k) := by
    rw [slot_setDirectoryEntry h₂.directory_ne, if_pos rfl]
  refine ⟨h', ?_, ?_, fun d hd i hpage => ?_, ?_, fun f hf => ?_⟩
  · rw [hslot']
    exact entryPresent_tableEntry _ _
  · rw [table, hslot', hentry, window, setDirectoryEntry_phys_of_ne h₂.directory_ne.symm]
    rfl
  · rw [hread' d hd, hread₂ d hd, pageEntry_mapWindow h page hd hpage]
  · rw [setDirectoryEntry_phys_of_ne h₂.directory_ne.symm]
    apply PhysMemory.clear_of_ne
    exact fun heq => hfresh₁ (heq ▸ h₁.isPaging_higherHalf)
  · obtain hold | ⟨-, rfl⟩ := isPaging_setDirectoryEntry h₂.directory_ne hf
    · exact .inl ((hpaging₁ f).mp ((hpaging₂ f).mp hold))
    · exact .inr (hentry.trans (hwin₂.trans hwin₁))

/-- What a call that maps a page does to the frames: if the slot of the address has no
table, the frame `alloc_page` returns becomes one. -/
def TakesTable (k : KernelLayout) (v : ℕ) (s s' : Vmm α) : Prop :=
  (entryPresent (s.directoryEntry k v) ∧ s'.alloc = s.alloc ∧
    ∀ f, IsPaging k s' f → IsPaging k s f) ∨
  (entryPresent (s.directoryEntry k v) = false ∧ s'.alloc = (A.allocPage s.alloc).2 ∧
    ∀ f, IsPaging k s' f → IsPaging k s f ∨ f = (A.allocPage s.alloc).1)

/-- INTERNAL: user access on a directory entry changes no page.
SRCLINE: vmm.c:81-82 -/
theorem grantUser_spec (h : WellMapped k s) (ring3 : Bool) :
    let s' := if ring3 then s.setDirectoryEntry k v
      (entryAddAttribute (s.directoryEntry k v) pageStructEntryUserAccess) else s
    WellMapped k s' ∧ (∀ f, IsPaging k s' f ↔ IsPaging k s f) ∧
      entryPresent (s'.directoryEntry k v) = entryPresent (s.directoryEntry k v) ∧
      s'.alloc = s.alloc ∧ s'.phys k.higherHalf windowSlot = s.phys k.higherHalf windowSlot ∧
      ∀ d < 1024, ∀ i, s'.pageEntry k d i = s.pageEntry k d i := by
  cases ring3 with
  | false => exact ⟨h, fun _ => Iff.rfl, rfl, rfl, rfl, fun _ _ _ => rfl⟩
  | true =>
      have hpres := entryPresent_addAttribute (s.directoryEntry k v)
        (a := pageStructEntryUserAccess) (by decide)
      obtain ⟨h', hpaging, hread⟩ := setDirectoryEntry_same (v := v) h hpres
        (entryFrame_addAttribute _ (by decide))
      have hslot := slot_setDirectoryEntry (v := v)
        (e := entryAddAttribute (s.directoryEntry k v) pageStructEntryUserAccess)
        h.directory_ne (pageDirIndex v)
      rw [if_pos rfl] at hslot
      exact ⟨h', hpaging, (congrArg entryPresent hslot).trans hpres, rfl,
        setDirectoryEntry_phys_of_ne h.directory_ne.symm, hread⟩

/-- INTERNAL: the table of an address is present and behind the window afterwards, and no
entry has changed.
SRCLINE: vmm.c:81-103 -/
theorem openTable_spec (h : WellMapped k s) (ring3 : Bool)
    (hnew : entryPresent (s.directoryEntry k v) = false →
      CanBeTable k s (A.allocPage s.alloc).1) :
    let s' := s.openTable k A v ring3
    WellMapped k s' ∧ entryPresent (s'.slot k (pageDirIndex v)) ∧
    s'.window k = s'.table k (pageDirIndex v) ∧
    (∀ d < 1024, ∀ i, Ordinary k d i → s'.pageEntry k d i = s.pageEntry k d i) ∧
    entryPresent (s'.phys k.higherHalf windowSlot) =
      entryPresent (s.phys k.higherHalf windowSlot) ∧
    TakesTable A k v s s' := by
  intro s'
  obtain ⟨s₁, hs₁⟩ : ∃ s₁, s₁ = if ring3 then
      s.setDirectoryEntry k v
        (entryAddAttribute (s.directoryEntry k v) pageStructEntryUserAccess) else s := ⟨_, rfl⟩
  obtain ⟨h₁, hpaging₁, hpres₁, halloc₁, hwin₁, hread₁⟩ := grantUser_spec (v := v) h ring3
  rw [← hs₁] at h₁ hpaging₁ hpres₁ halloc₁ hwin₁ hread₁
  cases hpres : entryPresent (s₁.directoryEntry k v) with
  | false =>
      have hrun : s' = let page := A.allocPage s₁.alloc
          let s₂ := ({ s₁ with alloc := page.2 } : Vmm α).mapWindow k page.1
          let s₃ : Vmm α := { s₂ with phys := s₂.phys.clear (s₂.window k) }
          s₃.setDirectoryEntry k v (tableEntry (s₃.directoryEntry k v) (s₃.window k)) := by
        show s.openTable k A v ring3 = _
        rw [openTable, ← hs₁, hpres]
        rfl
      have hpage : CanBeTable k s₁ (A.allocPage s₁.alloc).1 := by
        obtain ⟨hne, hmod, hlt, hfresh⟩ := hnew (hpres₁ ▸ hpres)
        rw [halloc₁]
        exact ⟨hne, hmod, hlt, fun hf => hfresh ((hpaging₁ _).mp hf)⟩
      obtain ⟨h', hslot', hwin', hread', hwindow', hpaging'⟩ := newTable_spec
        (s := { s₁ with alloc := (A.allocPage s₁.alloc).2 })
        (h₁.congr rfl (fun _ => rfl) fun _ => rfl) hpage hpres
      rw [hrun]
      refine ⟨h', hslot', hwin', fun d hd i hpage => ?_, ?_,
        .inr ⟨hpres₁ ▸ hpres, ?_, fun f hf => ?_⟩⟩
      · rw [hread' d hd i hpage, ← hread₁ d hd]
        rfl
      · dsimp only
        rw [hwindow', entryPresent_mapWindow, ← hwin₁]
      · rw [← halloc₁]
        rfl
      · rw [← halloc₁]
        exact (hpaging' f hf).imp_left (hpaging₁ f).mp
  | true =>
      have hrun : s' = s₁.mapWindow k (s₁.table k (pageDirIndex v)) := by
        show s.openTable k A v ring3 = _
        rw [openTable, ← hs₁, hpres]
        rfl
      rw [hrun]
      refine ⟨h₁.mapWindow _, ?_, ?_, fun d hd i hpage => ?_, ?_,
        .inl ⟨hpres₁ ▸ hpres, halloc₁, fun f hf => ?_⟩⟩
      · rw [slot_mapWindow h₁]
        exact hpres
      · rw [table_mapWindow h₁]
        exact window_mapWindow_entry _
      · rw [pageEntry_mapWindow h₁ _ hd hpage, hread₁ d hd]
      · rw [entryPresent_mapWindow, hwin₁]
      · rw [isPaging_congr (directory_mapWindow h₁.slot_ne _)
          (fun d => by rw [slot_mapWindow h₁]) (table_mapWindow h₁ _)] at hf
        exact (hpaging₁ f).mp hf

theorem entryPresent_addIf (c : Bool) (e : BitVec 32) {a : BitVec 32} (h : a.getLsbD 0 = false) :
    entryPresent (if c then entryAddAttribute e a else e) = entryPresent e := by
  cases c with
  | false => rfl
  | true => exact entryPresent_addAttribute e h

theorem mapEntry_spec (pte : BitVec 32) {paddr : ℕ} (write ring3 : Bool) (hpage : 0x1000 ∣ paddr)
    (hlt : paddr < 2 ^ 32) :
    entryPresent (mapEntry paddr write ring3 pte) ∧
      entryFrame (mapEntry paddr write ring3 pte) = paddr := by
  constructor
  · unfold mapEntry
    rw [entryPresent_setFrame, entryPresent_addIf _ _ rfl, entryPresent_addIf _ _ rfl,
      entryPresent_addPresent]
  · exact entryFrame_setFrame _ hpage hlt

/-- INTERNAL: a slot that is present is opened by moving the window. -/
theorem openTable_present (hpres : entryPresent (s.directoryEntry k v)) :
    s.openTable k A v false = s.mapWindow k (entryFrame (s.directoryEntry k v)) := by
  unfold openTable
  simp only [Bool.false_eq_true, if_false, hpres, Bool.not_true]

/-- INTERNAL: a page of slot 768 changes only `higher_half_page_table`.
SRCLINE: vmm.c:70-118 -/
theorem vmmMapPage_higherHalf
    (hhalf : entryPresent (s.slot k 768) ∧ s.table k 768 = k.higherHalf)
    (hv : pageDirIndex v = 768) (paddr : ℕ) (write : Bool) :
    let s' := vmmMapPage k A paddr v write false s
    s'.alloc = s.alloc ∧
      s'.phys k.higherHalf (pageTableIndex v) = mapEntry paddr write false
        ((s.mapWindow k k.higherHalf).windowEntry k (pageTableIndex v)) ∧
      ∀ f i, f ≠ k.higherHalf ∨ (i ≠ pageTableIndex v ∧ i ≠ windowSlot) →
        s'.phys f i = s.phys f i := by
  have hslot : s.directoryEntry k v = s.slot k 768 := by
    unfold directoryEntry
    rw [hv]
    rfl
  have hframe : entryFrame (s.directoryEntry k v) = k.higherHalf := by
    rw [hslot]
    exact hhalf.2
  have hopen : s.openTable k A v false = s.mapWindow k k.higherHalf := by
    rw [← hframe]
    exact openTable_present A (hslot ▸ hhalf.1)
  have hwindow : (s.mapWindow k k.higherHalf).window k = k.higherHalf := by
    rw [← hframe]
    exact window_mapWindow_entry _
  have hrun : vmmMapPage k A paddr v write false s =
      (s.mapWindow k k.higherHalf).setWindowEntry k (pageTableIndex v) (mapEntry paddr write false
        ((s.mapWindow k k.higherHalf).windowEntry k (pageTableIndex v))) := by
    rw [vmmMapPage, hopen]
  rw [hrun]
  refine ⟨rfl, ?_, fun f i hfi => ?_⟩
  · generalize mapEntry paddr write false
      ((s.mapWindow k k.higherHalf).windowEntry k (pageTableIndex v)) = e
    have hself : ((s.mapWindow k k.higherHalf).setWindowEntry k (pageTableIndex v) e).phys
        ((s.mapWindow k k.higherHalf).window k) (pageTableIndex v) = e :=
      PhysMemory.setWord_self _ _ _ _
    rwa [hwindow] at hself
  · refine (setWindowEntry_phys_of_ne ?_).trans (mapWindow_phys_of_ne (hfi.imp_right And.right))
    rw [hwindow]
    exact hfi.imp_right And.left

/-- INTERNAL: mapping a page changes its own entry.
SRCLINE: vmm.c:70-118 -/
theorem vmmMapPage_entries (h : WellMapped k s)
    (hv : Ordinary k (pageDirIndex v) (pageTableIndex v)) (paddr : ℕ) (write ring3 : Bool)
    (hnew : entryPresent (s.directoryEntry k v) = false →
      CanBeTable k s (A.allocPage s.alloc).1) :
    let s' := vmmMapPage k A paddr v write ring3 s
    WellMapped k s' ∧
    (∀ d < 1024, ∀ i, Ordinary k d i → s'.pageEntry k d i =
      if d = pageDirIndex v ∧ i = pageTableIndex v then
        mapEntry paddr write ring3 (s.pageEntry k d i)
      else s.pageEntry k d i) ∧
    entryPresent (s'.phys k.higherHalf windowSlot) =
      entryPresent (s.phys k.higherHalf windowSlot) ∧
    TakesTable A k v s s' := by
  intro s'
  obtain ⟨h₁, hpres, hwindow, hread₁, hshown, htakes⟩ := openTable_spec A h ring3 hnew
  have hold : (s.openTable k A v ring3).windowEntry k (pageTableIndex v) =
      s.pageEntry k (pageDirIndex v) (pageTableIndex v) := by
    rw [windowEntry, hwindow, ← pageEntry_of_slot_present hpres]
    exact hread₁ _ (pageDirIndex_lt v) _ hv
  obtain ⟨h', -, hpaging, hread⟩ := setWindowEntry_spec
    (e := mapEntry paddr write ring3
      ((s.openTable k A v ring3).windowEntry k (pageTableIndex v)))
    h₁ (pageDirIndex_lt v) hv hpres hwindow
  refine ⟨h', fun d hd i hpage => ?_, ?_, ?_⟩
  · rw [show s'.pageEntry k d i = _ from hread d hd i, hread₁ d hd i hpage, hold]
    split
    next heq => rw [heq.1, heq.2]
    next => rfl
  · rw [← hshown]
    exact congrArg entryPresent
      (entryPresent_setWindowEntry h₁ (pageDirIndex_lt v) hv hpres hwindow)
  · obtain ⟨hslot, halloc, hsub⟩ | ⟨hslot, halloc, hsub⟩ := htakes
    · exact .inl ⟨hslot, halloc, fun f hf => hsub f ((hpaging f).mp hf)⟩
    · exact .inr ⟨hslot, halloc, fun f hf => hsub f ((hpaging f).mp hf)⟩

/-- INTERNAL: so it changes its own translation. -/
theorem vmmMapPage_spec (h : WellMapped k s) (hv : pageDirIndex v ≠ 768) {paddr : ℕ}
    (hpage : 0x1000 ∣ paddr) (hlt : paddr < 2 ^ 32) (write ring3 : Bool)
    (hnew : entryPresent (s.directoryEntry k v) = false →
      CanBeTable k s (A.allocPage s.alloc).1) :
    let s' := vmmMapPage k A paddr v write ring3 s
    WellMapped k s' ∧ (∀ d < 1024, d ≠ 768 → ∀ i, s'.translation k d i =
      if d = pageDirIndex v ∧ i = pageTableIndex v then paddr else s.translation k d i) ∧
    TakesTable A k v s s' := by
  intro s'
  obtain ⟨h', hread, -, htakes⟩ := vmmMapPage_entries A h (.inl hv) paddr write ring3 hnew
  refine ⟨h', fun d hd hd768 i => ?_, htakes⟩
  have hentry := hread d hd i (.inl hd768)
  obtain ⟨hpres, hframe⟩ := mapEntry_spec (s.pageEntry k d i) write ring3 hpage hlt
  split
  next heq =>
    rw [if_pos heq] at hentry
    rw [translation_eq, hentry, if_pos hpres, hframe]
  next hne =>
    rw [if_neg hne] at hentry
    exact translation_congr hentry

/-- The first half of `vmm_unmap_page`: the table is shown in the window, and the entry of the
page loses its present bit.
SRCLINE: vmm.c:120-137 -/
def markAbsent (k : KernelLayout) (v : ℕ) (s : Vmm α) : Vmm α :=
  let s₁ := s.mapWindow k (s.table k (pageDirIndex v))
  s₁.setWindowEntry k (pageTableIndex v)
    (entryDelAttribute (s₁.windowEntry k (pageTableIndex v)) pageStructEntryPresent)

/-- INTERNAL: only the entry of the page changes, and it is no longer present. -/
theorem markAbsent_spec (h : WellMapped k s) (hv : Ordinary k (pageDirIndex v) (pageTableIndex v))
    (hpres : entryPresent (s.slot k (pageDirIndex v))) :
    WellMapped k (markAbsent k v s) ∧
    (∀ d, (markAbsent k v s).slot k d = s.slot k d) ∧
    (markAbsent k v s).window k = (markAbsent k v s).table k (pageDirIndex v) ∧
    (∀ d < 1024, ∀ i, Ordinary k d i →
      if d = pageDirIndex v ∧ i = pageTableIndex v then
        entryPresent ((markAbsent k v s).pageEntry k d i) = false
      else (markAbsent k v s).pageEntry k d i = s.pageEntry k d i) ∧
    entryPresent ((markAbsent k v s).phys k.higherHalf windowSlot) =
      entryPresent (s.phys k.higherHalf windowSlot) ∧
    ∀ f, IsPaging k (markAbsent k v s) f → IsPaging k s f := by
  obtain ⟨s₁, hs₁⟩ : ∃ s₁, s₁ = s.mapWindow k (s.table k (pageDirIndex v)) := ⟨_, rfl⟩
  have h₁ : WellMapped k s₁ := hs₁ ▸ h.mapWindow _
  have hslot₁ : ∀ d, s₁.slot k d = s.slot k d := fun d => by rw [hs₁, slot_mapWindow h]
  have htable₁ : s₁.table k (pageDirIndex v) = s.table k (pageDirIndex v) := by
    rw [table, hslot₁, table]
  have hwin₁ : s₁.window k = s₁.table k (pageDirIndex v) := by
    rw [htable₁, hs₁]
    exact window_mapWindow_entry _
  have hpres₁ : entryPresent (s₁.slot k (pageDirIndex v)) := by rw [hslot₁]; exact hpres
  obtain ⟨s₂, hs₂⟩ : ∃ s₂, s₂ = s₁.setWindowEntry k (pageTableIndex v)
    (entryDelAttribute (s₁.windowEntry k (pageTableIndex v)) pageStructEntryPresent) := ⟨_, rfl⟩
  have hmark : markAbsent k v s = s₂ := by
    rw [hs₂, hs₁]
    rfl
  have hkept := entryPresent_setWindowEntry (i := pageTableIndex v)
    (e := entryDelAttribute (s₁.windowEntry k (pageTableIndex v)) pageStructEntryPresent)
    h₁ (pageDirIndex_lt v) hv hpres₁ hwin₁
  obtain ⟨h₂, hslot₂, hpaging₂, hread₂⟩ := setWindowEntry_spec (i := pageTableIndex v)
    (e := entryDelAttribute (s₁.windowEntry k (pageTableIndex v)) pageStructEntryPresent)
    h₁ (pageDirIndex_lt v) hv hpres₁ hwin₁
  rw [← hs₂] at hkept h₂ hslot₂ hpaging₂ hread₂
  rw [hmark]
  refine ⟨h₂, fun d => (hslot₂ d).trans (hslot₁ d), ?_, fun d hd i hpage => ?_, ?_,
    fun f hf => ?_⟩
  · have htable₂ : s₂.table k (pageDirIndex v) = s₁.table k (pageDirIndex v) := by
      rw [table, hslot₂, table]
    rw [htable₂, ← hwin₁]
    exact congrArg entryFrame hkept
  · have hread := hread₂ d hd i
    split
    next heq =>
      rw [hread, if_pos heq]
      exact entryPresent_delPresent _
    next hne => rw [hread, if_neg hne, hs₁, pageEntry_mapWindow h _ hd hpage]
  · rw [hkept, hs₁, entryPresent_mapWindow]
  · rw [hpaging₂, hs₁, isPaging_congr (directory_mapWindow h.slot_ne _)
      (fun d => by rw [slot_mapWindow h]) (table_mapWindow h _)] at hf
    exact hf

theorem vmmUnmapPage_eq : vmmUnmapPage k A v s =
    if (List.range 1024).any fun i => entryPresent ((markAbsent k v s).windowEntry k i) then
      markAbsent k v s
    else ({ markAbsent k v s with
        alloc := A.freePage ((markAbsent k v s).table k (pageDirIndex v)) s.alloc } :
        Vmm α).setDirectoryEntry k v
          (entryDelAttribute ((markAbsent k v s).directoryEntry k v) pageStructEntryPresent) :=
  rfl

/-- INTERNAL: unmapping a page marks its entry absent, and takes away a page table of
which no entry is present.
SRCLINE: vmm.c:120-149 -/
theorem vmmUnmapPage_entries (h : WellMapped k s)
    (hv : Ordinary k (pageDirIndex v) (pageTableIndex v))
    (hpres : entryPresent (s.slot k (pageDirIndex v)))
    (hshown : pageDirIndex v = 768 → entryPresent (s.phys k.higherHalf windowSlot)) :
    let s' := vmmUnmapPage k A v s
    WellMapped k s' ∧
    (∀ d < 1024, ∀ i < 1024, Ordinary k d i →
      if d = pageDirIndex v ∧ i = pageTableIndex v then
        entryPresent (s'.pageEntry k d i) = false
      else s'.pageEntry k d i = s.pageEntry k d i ∨
        s'.pageEntry k d i = 0 ∧ entryPresent (s.pageEntry k d i) = false) ∧
    entryPresent (s'.phys k.higherHalf windowSlot) =
      entryPresent (s.phys k.higherHalf windowSlot) ∧
    (∀ f, IsPaging k s' f → IsPaging k s f) ∧
    (s'.alloc = s.alloc ∨ s'.alloc = A.freePage (s.table k (pageDirIndex v)) s.alloc ∧
      ¬ IsPaging k s' (s.table k (pageDirIndex v))) := by
  intro s'
  obtain ⟨h₂, hslot₂, hwin₂, hread₂, hshown₂, hpaging₂⟩ := markAbsent_spec h hv hpres
  obtain ⟨s₂, hs₂⟩ : ∃ s₂, s₂ = markAbsent k v s := ⟨_, rfl⟩
  have hrun : s' = _ := vmmUnmapPage_eq A
  rw [← hs₂] at hrun h₂ hslot₂ hwin₂ hread₂ hshown₂ hpaging₂
  have hpres₂ : entryPresent (s₂.slot k (pageDirIndex v)) := by rw [hslot₂]; exact hpres
  have htable₂ : s₂.table k (pageDirIndex v) = s.table k (pageDirIndex v) := by
    rw [table, hslot₂, table]
  rw [hrun]
  split
  next =>
    refine ⟨h₂, fun d hd i _ hpage => ?_, hshown₂, hpaging₂, .inl ?_⟩
    · have hread := hread₂ d hd i hpage
      split
      next heq => rwa [if_pos heq] at hread
      next hne => exact .inl (by rwa [if_neg hne] at hread)
    · rw [hs₂]
      rfl
  next hnone =>
    have hempty : ∀ i < 1024, entryPresent (s₂.pageEntry k (pageDirIndex v) i) = false := by
      intro i hi
      rw [pageEntry_of_slot_present hpres₂, ← hwin₂]
      refine Bool.eq_false_iff.mpr fun hsome => hnone ?_
      exact List.any_eq_true.mpr ⟨i, List.mem_range.mpr hi, hsome⟩
    have hv768 : pageDirIndex v ≠ 768 := by
      -- slot 768 keeps its table, in which the window is mapped
      intro heq
      have hhalf : s₂.table k 768 = k.higherHalf := h₂.higherHalf.2
      have hwindow := hempty windowSlot (by decide)
      rw [heq, pageEntry_of_slot_present h₂.higherHalf.1, hhalf, hshown₂, hshown heq] at hwindow
      exact Bool.noConfusion hwindow
    obtain ⟨h', hread', hpaging', hgone⟩ := setDirectoryEntry_drop (v := v)
      (s := { s₂ with alloc := A.freePage (s₂.table k (pageDirIndex v)) s.alloc })
      (e := entryDelAttribute (s₂.directoryEntry k v) pageStructEntryPresent)
      (h₂.congr rfl (fun _ => rfl) fun _ => rfl) (entryPresent_delPresent _) hv768 hpres₂
    refine ⟨h', fun d hd i hi hpage => ?_, ?_, fun f hf => hpaging₂ f (hpaging' f hf),
      .inr ⟨?_, ?_⟩⟩
    · have hread := hread' d hd i
      have hold := hread₂ d hd i hpage
      split
      next heq =>
        rw [hread, if_pos heq.1]
        rfl
      next hne =>
        rw [if_neg hne] at hold
        by_cases hsame : d = pageDirIndex v
        · rw [if_pos hsame] at hread
          refine .inr ⟨hread, ?_⟩
          rw [← hold, hsame]
          exact hempty i hi
        · rw [if_neg hsame] at hread
          exact .inl (hread.trans hold)
    · refine (congrArg entryPresent (setDirectoryEntry_phys_of_ne ?_)).trans hshown₂
      exact h₂.directory_ne.symm
    · rw [htable₂]
      rfl
    · rw [← htable₂]
      exact hgone

/-- INTERNAL: so it changes its own translation, whether or not its page table goes. -/
theorem vmmUnmapPage_spec (h : WellMapped k s) (hv : pageDirIndex v ≠ 768)
    (hpres : entryPresent (s.slot k (pageDirIndex v))) :
    let s' := vmmUnmapPage k A v s
    WellMapped k s' ∧ (∀ d < 1024, d ≠ 768 → ∀ i < 1024, s'.translation k d i =
      if d = pageDirIndex v ∧ i = pageTableIndex v then 0 else s.translation k d i) ∧
    (∀ f, IsPaging k s' f → IsPaging k s f) ∧
    (s'.alloc = s.alloc ∨ s'.alloc = A.freePage (s.table k (pageDirIndex v)) s.alloc ∧
      ¬ IsPaging k s' (s.table k (pageDirIndex v))) := by
  intro s'
  obtain ⟨h', hread, -, hpaging, halloc⟩ :=
    vmmUnmapPage_entries A h (.inl hv) hpres fun heq => absurd heq hv
  refine ⟨h', fun d hd hd768 i hi => ?_, hpaging, halloc⟩
  have hentry := hread d hd i hi (.inl hd768)
  split
  next heq =>
    rw [if_pos heq] at hentry
    rw [translation_eq, hentry]
    rfl
  next hne =>
    rw [if_neg hne] at hentry
    obtain hsame | ⟨hzero, habsent⟩ := hentry
    · exact translation_congr hsame
    · rw [translation_eq, translation_eq, hzero, habsent]
      rfl

end Operations

end LakeOS.Model.Vmm
