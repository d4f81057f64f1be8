import LakeOS.Model.VmmInit
import LakeOS.Analysis.PagePermissions

/-!
# Changing the permissions of a page

`ENTRY_SET_ATTRIBUTE` masks its value, `0` or `1`, with the attribute, so for every
attribute but `PAGE_STRUCT_ENTRY_PRESENT` it can only delete.  `vmm_new_permissions`
therefore takes write and user access away whatever it is asked for, and user access from
the directory entry of the page as well, which all 1024 pages under it share.
-/

set_option autoImplicit false

namespace LakeOS.Analysis

open LakeOS.Library LakeOS.Model Vmm

/-! ## The entries -/

/-- INTERNAL: the macro deletes.
SRCLINE: vmm.h:82-84 -/
theorem entrySetAttribute_eq (e : BitVec 32) {a : BitVec 32} (h : a.getLsbD 0 = false)
    (value : Bool) : entrySetAttribute e a value = entryDelAttribute e a := by
  have hone : 1#32 &&& a = 0#32 := by
    rw [BitVec.and_comm, BitVec.and_one_eq_setWidth_ofBool_getLsbD, h]
    rfl
  unfold entrySetAttribute entryDelAttribute
  cases value with
  | false => simp
  | true =>
      show e &&& ~~~a ||| 1#32 &&& a = e &&& ~~~a
      rw [hone, BitVec.or_zero]

theorem getLsbD_delAttribute (e a : BitVec 32) {i : ℕ} (hi : i < 32) :
    (entryDelAttribute e a).getLsbD i = (e.getLsbD i && !a.getLsbD i) := by
  rw [entryDelAttribute, BitVec.getLsbD_and, BitVec.getLsbD_not]
  simp [hi]

theorem entryPresent_delAttribute (e : BitVec 32) {a : BitVec 32} (h : a.getLsbD 0 = false) :
    entryPresent (entryDelAttribute e a) = entryPresent e := by
  rw [entryPresent_eq, entryPresent_eq, getLsbD_delAttribute e a (by decide), h]
  exact Bool.and_true _

theorem entryFrame_delAttribute (e : BitVec 32) {a : BitVec 32}
    (h : ~~~a &&& pageStructPageFrame = pageStructPageFrame) :
    entryFrame (entryDelAttribute e a) = entryFrame e := by
  unfold entryFrame entryGetAttribute entryDelAttribute
  rw [BitVec.and_assoc, h]

/-- The entry without write and user access. -/
def revoked (e : BitVec 32) : BitVec 32 :=
  entryDelAttribute (entryDelAttribute e pageStructEntryWriteable) pageStructEntryUserAccess

theorem revoked_attributes (e : BitVec 32) :
    entryWriteable (revoked e) = false ∧ entryUserAccess (revoked e) = false := by
  rw [entryWriteable_eq, entryUserAccess_eq]
  unfold revoked
  rw [getLsbD_delAttribute _ _ (by decide), getLsbD_delAttribute _ _ (by decide),
    getLsbD_delAttribute _ _ (by decide)]
  simp

theorem entryPresent_revoked (e : BitVec 32) : entryPresent (revoked e) = entryPresent e := by
  unfold revoked
  rw [entryPresent_delAttribute _ rfl, entryPresent_delAttribute _ rfl]

theorem entryFrame_revoked (e : BitVec 32) : entryFrame (revoked e) = entryFrame e := by
  unfold revoked
  rw [entryFrame_delAttribute _ (by decide), entryFrame_delAttribute _ (by decide)]

section

variable {α : Type} (k : KernelLayout)

/-- The page is the window. -/
def IsWindow (d i : ℕ) : Prop := d = 768 ∧ i = windowSlot

instance (d i : ℕ) : Decidable (IsWindow d i) := inferInstanceAs (Decidable (_ ∧ _))

/-- Both levels let the page be written to. -/
def writeAccess (s : Vmm α) (d i : ℕ) : Bool :=
  entryWriteable (s.slot k d) && entryWriteable (s.pageEntry k d i)

/-- Both levels let user code reach the page. -/
def userAccess (s : Vmm α) (d i : ℕ) : Bool :=
  entryUserAccess (s.slot k d) && entryUserAccess (s.pageEntry k d i)

/-- What a call should do to the page of `v`, and to all others. -/
structure NewPermissionsOk (v : ℕ) (write ring3 : Bool) (s : Vmm α) : Prop where
  writeable : entryWriteable (entryOf k (vmmNewPermissions k v write ring3 s) v) = write
  userAccess : entryUserAccess (entryOf k (vmmNewPermissions k v write ring3 s) v) = ring3
  frame : entryFrame (entryOf k (vmmNewPermissions k v write ring3 s) v) =
    entryFrame (entryOf k s v)
  present : entryPresent (entryOf k (vmmNewPermissions k v write ring3 s) v) =
    entryPresent (entryOf k s v)
  directory : ring3 → entryUserAccess ((vmmNewPermissions k v write ring3 s).directoryEntry k v)
  others : ∀ d < 1024, ∀ i < 1024, ¬ (d = pageDirIndex v ∧ i = pageTableIndex v) →
    entryPresent (s.pageEntry k d i) →
      entryPresent ((vmmNewPermissions k v write ring3 s).pageEntry k d i) ∧
      writeAccess k (vmmNewPermissions k v write ring3 s) d i = writeAccess k s d i ∧
      Analysis.userAccess k (vmmNewPermissions k v write ring3 s) d i =
        Analysis.userAccess k s d i

/-- The call asks for no permission, user code reaches no other page under the same
directory entry, and if the page is the window it shows `higher_half_page_table`. -/
structure OnlyRevokes (v : ℕ) (write ring3 : Bool) (s : Vmm α) : Prop where
  write : write = false
  ring3 : ring3 = false
  window : IsWindow (pageDirIndex v) (pageTableIndex v) → s.window k = k.higherHalf
  others : ∀ i < 1024, i ≠ pageTableIndex v → entryPresent (s.pageEntry k (pageDirIndex v) i) →
    userAccess k s (pageDirIndex v) i = false

variable {k} {s : Vmm α} {v : ℕ}

/-! ## The writes -/

/-- INTERNAL: the window sees itself move. -/
theorem pageEntry_mapWindow_eq (h : WellMapped k s) (frame : ℕ) {d : ℕ} (hd : d < 1024) (i : ℕ) :
    (s.mapWindow k frame).pageEntry k d i =
      if IsWindow d i then entrySetFrame (s.pageEntry k d i) frame else s.pageEntry k d i := by
  unfold pageEntry
  rw [slot_mapWindow h, table_mapWindow h]
  split
  next hpres =>
    split
    next hwin =>
      obtain ⟨rfl, rfl⟩ := hwin
      rw [h.higherHalf.2]
      exact PhysMemory.setWord_self _ _ _ _
    next hwin =>
      apply mapWindow_phys_of_ne
      by_cases hd768 : d = 768
      · exact .inr fun hi => hwin ⟨hd768, hi⟩
      · exact .inl (h.table_ne_higherHalf hd hd768 hpres)
  next hpres =>
    rw [if_neg]
    rintro ⟨rfl, -⟩
    exact hpres h.higherHalf.1

/-- INTERNAL: an entry of the table that the window shows gets other attributes. -/
theorem setWindowEntry_attributes (h : WellMapped k s) {d i : ℕ} {e : BitVec 32} (hd : d < 1024)
    (hslot : entryPresent (s.slot k d)) (hwindow : s.window k = s.table k d)
    (hframe : entryFrame e = entryFrame (s.windowEntry k i)) :
    WellMapped k (s.setWindowEntry k i e) ∧
    (s.setWindowEntry k i e).window k = s.window k ∧
    (∀ d', (s.setWindowEntry k i e).slot k d' = s.slot k d') ∧
    ∀ d' < 1024, ∀ j, (s.setWindowEntry k i e).pageEntry k d' j =
      if d' = d ∧ j = i then e else s.pageEntry k d' j := by
  have hframes : ∀ f j, entryFrame ((s.setWindowEntry k i e).phys f j) =
      entryFrame (s.phys f j) := by
    intro f j
    by_cases heq : f = s.window k ∧ j = i
    · obtain ⟨rfl, rfl⟩ := heq
      exact (congrArg entryFrame (PhysMemory.setWord_self _ _ _ _)).trans hframe
    · rw [setWindowEntry_phys_of_ne (not_and_or.mp heq)]
  have hdir : (s.setWindowEntry k i e).directory k = s.directory k := hframes _ _
  have hslots : ∀ d', (s.setWindowEntry k i e).slot k d' = s.slot k d' := by
    intro d'
    unfold slot
    rw [hdir]
    apply setWindowEntry_phys_of_ne
    exact .inl fun heq => h.table_ne d hd hslot (hwindow.symm.trans heq.symm)
  have htable : ∀ d', (s.setWindowEntry k i e).table k d' = s.table k d' := by
    intro d'
    rw [table, hslots, table]
  refine ⟨h.congr hdir (fun d' => by rw [hslots]) htable, hframes _ _, hslots, ?_⟩
  intro d' hd' j
  unfold pageEntry
  rw [hslots, htable]
  by_cases heq : d' = d ∧ j = i
  · obtain ⟨rfl, rfl⟩ := heq
    rw [if_pos hslot, if_pos ⟨rfl, rfl⟩, ← hwindow]
    exact PhysMemory.setWord_self _ _ _ _
  · rw [if_neg heq]
    split
    next hpres =>
      apply setWindowEntry_phys_of_ne
      rw [hwindow]
      by_contra hboth
      obtain ⟨hf, hj⟩ := not_or.mp hboth
      exact heq ⟨h.distinct d' hd' d hd hpres hslot (not_not.mp hf), not_not.mp hj⟩
    next => rfl

/-- INTERNAL: the entry in the window loses write access, then user access. -/
theorem revoke_spec (h : WellMapped k s) {d i : ℕ} (hd : d < 1024)
    (hslot : entryPresent (s.slot k d))
    (hwindow : s.window k = s.table k d) :
    let s₁ := s.setWindowEntry k i
      (entryDelAttribute (s.windowEntry k i) pageStructEntryWriteable)
    let s₂ := s₁.setWindowEntry k i
      (entryDelAttribute (s₁.windowEntry k i) pageStructEntryUserAccess)
    (∀ d', s₂.slot k d' = s.slot k d') ∧ ∀ d' < 1024, ∀ j, s₂.pageEntry k d' j =
      if d' = d ∧ j = i then revoked (s.pageEntry k d' j) else s.pageEntry k d' j := by
  intro s₁ s₂
  obtain ⟨hwell₁, hwin₁, hslot₁, hentry₁⟩ := setWindowEntry_attributes (i := i) h hd hslot hwindow
    (entryFrame_delAttribute (a := pageStructEntryWriteable) (s.windowEntry k i) (by decide))
  have hread : s.windowEntry k i = s.pageEntry k d i := by
    rw [windowEntry, hwindow, pageEntry_of_slot_present hslot]
  have hpres₁ : entryPresent (s₁.slot k d) := by
    rw [hslot₁]
    exact hslot
  have hwindow₁ : s₁.window k = s₁.table k d := by
    rw [hwin₁, hwindow, table, table, hslot₁]
  have hread₁ : s₁.windowEntry k i =
      entryDelAttribute (s.pageEntry k d i) pageStructEntryWriteable := by
    rw [windowEntry, hwindow₁, ← pageEntry_of_slot_present hpres₁, hentry₁ _ hd,
      if_pos ⟨rfl, rfl⟩, hread]
  obtain ⟨-, -, hslot₂, hentry₂⟩ := setWindowEntry_attributes (i := i) hwell₁ hd hpres₁ hwindow₁
    (entryFrame_delAttribute (a := pageStructEntryUserAccess) (s₁.windowEntry k i) (by decide))
  refine ⟨fun d' => (hslot₂ d').trans (hslot₁ d'), fun d' hd' j => ?_⟩
  rw [hentry₂ d' hd', hentry₁ d' hd', hread₁]
  split
  next heq =>
    obtain ⟨rfl, rfl⟩ := heq
    rfl
  next => rfl

/-- INTERNAL: what a call does to both levels. -/
theorem vmmNewPermissions_spec (h : WellMapped k s) (hpres : entryPresent (s.directoryEntry k v))
    (write ring3 : Bool) :
    (∀ d, (vmmNewPermissions k v write ring3 s).slot k d =
      if d = pageDirIndex v then entryDelAttribute (s.slot k d) pageStructEntryUserAccess
      else s.slot k d) ∧
    ∀ d < 1024, ∀ i,
      let e := if IsWindow d i then entrySetFrame (s.pageEntry k d i) (s.table k (pageDirIndex v))
        else s.pageEntry k d i
      (vmmNewPermissions k v write ring3 s).pageEntry k d i =
        if d = pageDirIndex v ∧ i = pageTableIndex v then revoked e else e := by
  have hv := pageDirIndex_lt v
  have hbit : pageStructEntryUserAccess.getLsbD 0 = false := rfl
  have hkeep : ~~~pageStructEntryUserAccess &&& pageStructPageFrame = pageStructPageFrame := by
    decide
  unfold vmmNewPermissions
  rw [entrySetAttribute_eq _ hbit]
  -- the directory entry loses user access
  have hpres₁ := entryPresent_delAttribute (s.directoryEntry k v) hbit
  have hframe₁ := entryFrame_delAttribute (s.directoryEntry k v) hkeep
  obtain ⟨hwell₁, -, hentry₁⟩ := setDirectoryEntry_same h hpres₁ hframe₁
  have hslot₁ := slot_setDirectoryEntry (v := v)
    (e := entryDelAttribute (s.directoryEntry k v) pageStructEntryUserAccess) h.directory_ne
  generalize s.setDirectoryEntry k v
    (entryDelAttribute (s.directoryEntry k v) pageStructEntryUserAccess) = s₁ at *
  have hhere : s₁.directoryEntry k v =
      entryDelAttribute (s.directoryEntry k v) pageStructEntryUserAccess :=
    (hslot₁ _).trans (if_pos rfl)
  have hthere : entryPresent (s₁.directoryEntry k v) := by
    rw [hhere, hpres₁, hpres]
  have htable : entryFrame (s₁.directoryEntry k v) = s.table k (pageDirIndex v) := by
    rw [hhere, hframe₁]
    rfl
  simp only [hthere, Bool.not_true, Bool.false_eq_true, if_false]
  -- the window shows the table
  have hwell₂ := hwell₁.mapWindow (entryFrame (s₁.directoryEntry k v))
  have hslot₂ := slot_mapWindow hwell₁ (entryFrame (s₁.directoryEntry k v))
  have hwin₂ : (s₁.mapWindow k (entryFrame (s₁.directoryEntry k v))).window k =
      (s₁.mapWindow k (entryFrame (s₁.directoryEntry k v))).table k (pageDirIndex v) := by
    rw [window_mapWindow_entry, table_mapWindow hwell₁]
    rfl
  have hentry₂ : ∀ d < 1024, ∀ i,
      (s₁.mapWindow k (entryFrame (s₁.directoryEntry k v))).pageEntry k d i =
        if IsWindow d i then entrySetFrame (s.pageEntry k d i) (s.table k (pageDirIndex v))
        else s.pageEntry k d i := by
    intro d hd i
    rw [pageEntry_mapWindow_eq hwell₁ _ hd, hentry₁ d hd, htable]
  generalize s₁.mapWindow k (entryFrame (s₁.directoryEntry k v)) = s₂ at *
  have hslotv₂ : entryPresent (s₂.slot k (pageDirIndex v)) := by
    rw [hslot₂]
    exact hthere
  rw [entrySetAttribute_eq (s₂.windowEntry k (pageTableIndex v)) rfl, entrySetAttribute_eq _ rfl]
  obtain ⟨hslot₄, hentry₄⟩ := revoke_spec (i := pageTableIndex v) hwell₂ hv hslotv₂ hwin₂
  refine ⟨fun d => ?_, fun d hd i => ?_⟩
  · rw [hslot₄, hslot₂, hslot₁]
    split
    next hd => rw [hd]; rfl
    next => rfl
  · rw [hentry₄ d hd, hentry₂ d hd]

/-- INTERNAL: the low bits of the entry of the window stay. -/
theorem window_attributes (e : BitVec 32) (frame : ℕ) (c : Prop) [Decidable c] :
    let e' := if c then entrySetFrame e frame else e
    entryPresent e' = entryPresent e ∧ entryWriteable e' = entryWriteable e ∧
      entryUserAccess e' = entryUserAccess e := by
  intro e'
  simp only [entryWriteable_eq, entryUserAccess_eq]
  dsimp only [e']
  split
  next =>
    rw [entryPresent_setFrame, getLsbD_setFrame _ _ (by decide), getLsbD_setFrame _ _ (by decide)]
    exact ⟨rfl, rfl, rfl⟩
  next => exact ⟨rfl, rfl, rfl⟩

/-- INTERNAL: the page of the call loses both attributes.
SRCLINE: vmm.c:362-367 -/
theorem vmmNewPermissions_page (h : WellMapped k s) (hpres : entryPresent (s.directoryEntry k v))
    (write ring3 : Bool) :
    let e := entryOf k (vmmNewPermissions k v write ring3 s) v
    entryWriteable e = false ∧ entryUserAccess e = false ∧
    entryPresent e = entryPresent (entryOf k s v) ∧
    entryFrame e = if IsWindow (pageDirIndex v) (pageTableIndex v) then k.higherHalf
      else entryFrame (entryOf k s v) := by
  intro e
  have hentry := (vmmNewPermissions_spec h hpres write ring3).2 _ (pageDirIndex_lt v)
    (pageTableIndex v)
  dsimp only at hentry
  rw [if_pos ⟨rfl, rfl⟩] at hentry
  have he : e = revoked _ := hentry
  rw [he]
  refine ⟨(revoked_attributes _).1, (revoked_attributes _).2, ?_, ?_⟩
  · rw [entryPresent_revoked]
    exact (window_attributes _ _ _).1
  · rw [entryFrame_revoked]
    split
    next hwin =>
      rw [hwin.1, h.higherHalf.2, entryFrame_setFrame]
      · rw [← h.higherHalf.2]
        exact dvd_entryFrame _
      · rw [← h.higherHalf.2]
        exact entryFrame_lt _
    next => rfl

/-- INTERNAL: the other pages lose the user access of their directory entry.
SRCLINE: vmm.c:353 -/
theorem vmmNewPermissions_other (h : WellMapped k s) (hpres : entryPresent (s.directoryEntry k v))
    (write ring3 : Bool) {d i : ℕ} (hd : d < 1024)
    (hne : ¬ (d = pageDirIndex v ∧ i = pageTableIndex v)) :
    entryPresent ((vmmNewPermissions k v write ring3 s).pageEntry k d i) =
      entryPresent (s.pageEntry k d i) ∧
    writeAccess k (vmmNewPermissions k v write ring3 s) d i = writeAccess k s d i ∧
    userAccess k (vmmNewPermissions k v write ring3 s) d i =
      if d = pageDirIndex v then false else userAccess k s d i := by
  obtain ⟨hslot, hentry⟩ := vmmNewPermissions_spec h hpres write ring3
  have hpage := hentry d hd i
  dsimp only at hpage
  rw [if_neg hne] at hpage
  obtain ⟨hpresent, hwrite, huser⟩ := window_attributes (s.pageEntry k d i)
    (s.table k (pageDirIndex v)) (IsWindow d i)
  unfold writeAccess userAccess
  rw [hpage, hslot]
  refine ⟨hpresent, ?_, ?_⟩
  · rw [hwrite]
    split
    next =>
      have hbit : pageStructEntryUserAccess.getLsbD 1 = false := rfl
      simp only [entryWriteable_eq, getLsbD_delAttribute _ _ (show 1 < 32 by decide), hbit,
        Bool.not_false, Bool.and_true]
    next => rfl
  · rw [huser]
    by_cases hsame : d = pageDirIndex v
    · rw [if_pos hsame, if_pos hsame, entryUserAccess_eq, getLsbD_delAttribute _ _ (by decide)]
      simp
    · rw [if_neg hsame, if_neg hsame]

/-- **New permissions of a page.**  `vmm_new_permissions` gives a mapped page the
permissions it is asked for, and leaves its frame and the permissions of all other pages
alone, if and only if it is asked for none and user code reaches no other page under the
same directory entry.
SRCLINE: vmm.c:342-370 -/
theorem new_permissions_iff (h : WellMapped k s) (hmapped : entryPresent (entryOf k s v))
    (write ring3 : Bool) :
    NewPermissionsOk k v write ring3 s ↔ OnlyRevokes k v write ring3 s := by
  have hpres : entryPresent (s.directoryEntry k v) := by
    by_contra habsent
    rw [entryOf, pageEntry_of_slot_absent (Bool.not_eq_true _ ▸ habsent)] at hmapped
    exact absurd hmapped (by decide)
  have hv := pageDirIndex_lt v
  obtain ⟨hwrite, huser, hpresent, hframe⟩ := vmmNewPermissions_page h hpres write ring3
  constructor
  · intro hok
    refine ⟨hok.writeable.symm.trans hwrite, hok.userAccess.symm.trans huser, ?_, ?_⟩
    · intro hwin
      have hsame := hok.frame
      rw [hframe, if_pos hwin, entryOf, hwin.1, hwin.2,
        pageEntry_of_slot_present h.higherHalf.1, h.higherHalf.2] at hsame
      exact hsame.symm
    · intro i hi hne hother
      have hne' : ¬ (pageDirIndex v = pageDirIndex v ∧ i = pageTableIndex v) := fun heq => hne heq.2
      rw [← (hok.others _ hv i hi hne' hother).2.2,
        (vmmNewPermissions_other h hpres write ring3 hv hne').2.2, if_pos rfl]
  · intro hrevokes
    refine ⟨hwrite.trans hrevokes.write.symm, huser.trans hrevokes.ring3.symm, ?_, hpresent, ?_, ?_⟩
    · rw [hframe]
      split
      next hwin =>
        rw [entryOf, hwin.1, hwin.2, pageEntry_of_slot_present h.higherHalf.1, h.higherHalf.2]
        exact (hrevokes.window hwin).symm
      next => rfl
    · intro hring3
      exact absurd (hring3.symm.trans hrevokes.ring3) Bool.false_ne_true.symm
    · intro d hd i hi hne hother
      obtain ⟨hpresent', hwrite', huser'⟩ := vmmNewPermissions_other h hpres write ring3 hd hne
      refine ⟨hpresent'.trans hother, hwrite', huser'.trans ?_⟩
      split
      next hslot =>
        subst hslot
        exact (hrevokes.others i hi (fun heq => hne ⟨rfl, heq⟩) hother).symm
      next => rfl

end

/-! ## A page that should become writeable -/

/-- One page is mapped, for user code to write to. -/
def oneUserPage : Vmm (List ℕ) :=
  vmmMapPage twoFrames stackOfFrames 0x5000 0x400000 true true shownDirectory

theorem oneUserPage_wellMapped : WellMapped twoFrames oneUserPage :=
  (map_entries stackOfFrames shownDirectory_ready (by decide) 0x5000 true true
    (by decide +kernel)).1.wellMapped

/-- The page loses both permissions, as asked. -/
theorem new_permissions_iff_none :
    NewPermissionsOk twoFrames 0x400000 false false oneUserPage ↔
      OnlyRevokes twoFrames 0x400000 false false oneUserPage :=
  new_permissions_iff oneUserPage_wellMapped (by decide +kernel) false false

/-- Asked for write access, the call takes it away. -/
theorem new_permissions_revoke_write :
    ¬ ∀ (k : KernelLayout) (s : Vmm (List ℕ)) (v : ℕ) (write ring3 : Bool), WellMapped k s →
      entryPresent (entryOf k s v) → NewPermissionsOk k v write ring3 s := by
  intro hclaim
  have hok := hclaim twoFrames oneUserPage 0x400000 true true oneUserPage_wellMapped
    (by decide +kernel)
  exact absurd hok.writeable (by decide +kernel)

end LakeOS.Analysis
