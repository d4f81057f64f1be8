import LakeOS.Library.Runs
import LakeOS.Analysis.PageMap

/-!
# The permissions of a page

`vmm_map_page` only adds attributes to an entry and `vmm_unmap_page` only takes
`PAGE_STRUCT_ENTRY_PRESENT` away, so an attribute of an earlier mapping stays for as long
as the page table does.  `PermState.last` records for each page how it was last mapped;
the entries agree with it as long as no call leaves out an attribute that is set.
-/

set_option autoImplicit false

namespace LakeOS.Analysis

open LakeOS.Library LakeOS.Model Vmm

/-- `PAGE_STRUCT_ENTRY_WRITEABLE` is set. -/
def entryWriteable (entry : BitVec 32) : Bool :=
  entryGetAttribute entry pageStructEntryWriteable != 0

/-- `PAGE_STRUCT_ENTRY_USER_ACCESS` is set. -/
def entryUserAccess (entry : BitVec 32) : Bool :=
  entryGetAttribute entry pageStructEntryUserAccess != 0

theorem and_one_shift_ne (e : BitVec 32) (n : ℕ) (hn : n < 32) :
    (e &&& BitVec.twoPow 32 n != 0) = e.getLsbD n := by
  rw [BitVec.and_twoPow]
  cases e.getLsbD n with
  | false => rfl
  | true =>
      have hne : BitVec.twoPow 32 n ≠ 0 := by
        intro heq
        have hbit := congrArg (BitVec.getLsbD · n) heq
        simp [hn] at hbit
      simpa using hne

theorem entryWriteable_eq (e : BitVec 32) : entryWriteable e = e.getLsbD 1 :=
  and_one_shift_ne e 1 (by decide)

theorem entryUserAccess_eq (e : BitVec 32) : entryUserAccess e = e.getLsbD 2 :=
  and_one_shift_ne e 2 (by decide)

theorem getLsbD_setFrame (e : BitVec 32) (frame : ℕ) {i : ℕ} (hi : i < 12) :
    (entrySetFrame e frame).getLsbD i = e.getLsbD i := by
  have hbit := pageFrame_bit i (by omega)
  have hlow : ¬ 12 ≤ i := by omega
  have hlt : i < 32 := by omega
  unfold entrySetFrame
  rw [BitVec.getLsbD_or, BitVec.getLsbD_and, BitVec.getLsbD_and, BitVec.getLsbD_not, hbit]
  simp [hlow, hlt]

theorem getLsbD_addIf (c : Bool) (e a : BitVec 32) (i : ℕ) :
    (if c then entryAddAttribute e a else e).getLsbD i =
      (e.getLsbD i || c && a.getLsbD i) := by
  cases c with
  | false => simp
  | true => simp [entryAddAttribute]

/-- INTERNAL: mapping a page adds attributes to those its entry has.
SRCLINE: vmm.c:109-113 -/
theorem mapEntry_attributes (paddr : ℕ) (write ring3 : Bool) (e : BitVec 32) :
    entryWriteable (mapEntry paddr write ring3 e) = (entryWriteable e || write) ∧
    entryUserAccess (mapEntry paddr write ring3 e) = (entryUserAccess e || ring3) := by
  rw [entryWriteable_eq, entryWriteable_eq, entryUserAccess_eq, entryUserAccess_eq]
  unfold mapEntry
  rw [getLsbD_setFrame _ _ (by decide), getLsbD_setFrame _ _ (by decide), getLsbD_addIf,
    getLsbD_addIf, getLsbD_addIf, getLsbD_addIf]
  simp [entryAddAttribute]

theorem mapEntry_present (paddr : ℕ) (write ring3 : Bool) (e : BitVec 32) :
    entryPresent (mapEntry paddr write ring3 e) := by
  unfold mapEntry
  rw [entryPresent_setFrame, entryPresent_addIf _ _ rfl, entryPresent_addIf _ _ rfl,
    entryPresent_addPresent]

section

variable {α : Type} (k : KernelLayout) (A : FrameAllocator α)

/-- The page-table entry of an address, zero where it has no page table. -/
def entryOf (s : Vmm α) (v : ℕ) : BitVec 32 :=
  s.pageEntry k (pageDirIndex v) (pageTableIndex v)

/-- An address of a page that is neither the window nor `curr_page_directory`. -/
def EditedPage (v : ℕ) : Prop :=
  v < 2 ^ 32 ∧ Ordinary k (pageDirIndex v) (pageTableIndex v)

instance (v : ℕ) : Decidable (EditedPage k v) := inferInstanceAs (Decidable (_ ∧ _))

/-- The page tables next to how each page was last mapped: `write` and `ring3`. -/
structure PermState (α : Type) where
  vmm : Vmm α
  last : ℕ → Option (Bool × Bool)

/-- What a call does to the record. -/
def PageCall.recordPermissions :
    PageCall → (ℕ → Option (Bool × Bool)) → ℕ → Option (Bool × Bool)
  | .map _ v write ring3, last => Function.update last (v / 0x1000) (some (write, ring3))
  | .unmap _, last | .lookup _, last => last

/-- One call. -/
def permStep (c : PageCall) (s : PermState α) : PermState α :=
  ⟨c.run k A s.vmm, c.recordPermissions s.last⟩

/-- A page is unmapped only where it has a page table, and where a page table is missing
`alloc_page` returns a frame that can become one. -/
def PageCall.Edits : PageCall → PermState α → Prop
  | .map _ v _ _, s => EditedPage k v ∧
      (entryPresent (s.vmm.directoryEntry k v) = false →
        CanBeTable k s.vmm (A.allocPage s.vmm.alloc).1)
  | .unmap v, s => EditedPage k v ∧ entryPresent (s.vmm.directoryEntry k v)
  | .lookup _, _ => True

instance (c : PageCall) (s : PermState α) : Decidable (c.Edits k A s) :=
  match c with
  | .map .. => inferInstanceAs (Decidable (_ ∧ _))
  | .unmap .. => inferInstanceAs (Decidable (_ ∧ _))
  | .lookup .. => inferInstanceAs (Decidable True)

/-- Every mapped page has the permissions it was last mapped with. -/
def PermissionsFollow (s : PermState α) : Prop :=
  ∀ v, EditedPage k v → ∀ write ring3, s.last (v / 0x1000) = some (write, ring3) →
    entryPresent (entryOf k s.vmm v) →
      entryWriteable (entryOf k s.vmm v) = write ∧ entryUserAccess (entryOf k s.vmm v) = ring3

/-- The call asks for every permission that the entry of its page still has. -/
def NoStalePermission : PageCall → PermState α → Prop
  | .map _ v write ring3, s =>
      (entryWriteable (entryOf k s.vmm v) → write) ∧
      (entryUserAccess (entryOf k s.vmm v) → ring3)
  | .unmap _, _ | .lookup _, _ => True

instance (c : PageCall) (s : PermState α) : Decidable (NoStalePermission k c s) :=
  match c with
  | .map .. => inferInstanceAs (Decidable (_ ∧ _))
  | .unmap .. => inferInstanceAs (Decidable True)
  | .lookup .. => inferInstanceAs (Decidable True)

/-- The page tables lie apart, and the window is mapped. -/
structure PagingReady (s : Vmm α) : Prop where
  wellMapped : WellMapped k s
  shown : entryPresent (s.phys k.higherHalf windowSlot)

variable {k}

/-- INTERNAL: mapping changes the entry of its page. -/
theorem map_entries {s : Vmm α} (h : PagingReady k s) {w : ℕ} (hw : EditedPage k w)
    (paddr : ℕ) (write ring3 : Bool) (hnew : entryPresent (s.directoryEntry k w) = false →
      CanBeTable k s (A.allocPage s.alloc).1) :
    PagingReady k (vmmMapPage k A paddr w write ring3 s) ∧ ∀ v, EditedPage k v →
      entryOf k (vmmMapPage k A paddr w write ring3 s) v =
        if v / 0x1000 = w / 0x1000 then mapEntry paddr write ring3 (entryOf k s v)
        else entryOf k s v := by
  obtain ⟨hwell, hread, hshown, -⟩ :=
    vmmMapPage_entries A h.wellMapped hw.2 paddr write ring3 hnew
  refine ⟨⟨hwell, hshown.trans h.shown⟩, fun v hv => ?_⟩
  have hentry := hread _ (pageDirIndex_lt v) _ hv.2
  simp only [page_eq_iff hw.1 hv.1] at hentry
  exact hentry

/-- INTERNAL: unmapping changes the entry of no page that is mapped afterwards. -/
theorem unmap_entries {s : Vmm α} (h : PagingReady k s) {w : ℕ} (hw : EditedPage k w)
    (hpres : entryPresent (s.directoryEntry k w)) :
    PagingReady k (vmmUnmapPage k A w s) ∧ ∀ v, EditedPage k v →
      entryPresent (entryOf k (vmmUnmapPage k A w s) v) →
        entryOf k (vmmUnmapPage k A w s) v = entryOf k s v := by
  obtain ⟨hwell, hread, hshown, -⟩ :=
    vmmUnmapPage_entries A h.wellMapped hw.2 hpres fun _ => h.shown
  refine ⟨⟨hwell, hshown.trans h.shown⟩, fun v hv hmapped => ?_⟩
  have hentry := hread _ (pageDirIndex_lt v) _ (pageTableIndex_lt v) hv.2
  unfold entryOf at hmapped ⊢
  split at hentry
  next => exact absurd (hentry.symm.trans hmapped) Bool.false_ne_true
  next =>
    obtain hsame | ⟨hzero, -⟩ := hentry
    · exact hsame
    · rw [hzero] at hmapped
      exact absurd hmapped (by decide)

/-- INTERNAL: looking an address up changes no entry. -/
theorem lookup_entries {s : Vmm α} (h : PagingReady k s) (w : ℕ) :
    PagingReady k (virtToPhys k w s).2 ∧ ∀ v, EditedPage k v →
      entryOf k (virtToPhys k w s).2 v = entryOf k s v := by
  obtain hsame | ⟨frame, hmoved⟩ := virtToPhys_state (k := k) s w
  · rw [hsame]
    exact ⟨h, fun _ _ => rfl⟩
  · rw [hmoved]
    refine ⟨⟨h.wellMapped.mapWindow frame, ?_⟩, fun v hv => ?_⟩
    · rw [entryPresent_mapWindow]
      exact h.shown
    · exact pageEntry_mapWindow h.wellMapped frame (pageDirIndex_lt v) hv.2

theorem pagingReady_step {c : PageCall} {s : PermState α} (h : PagingReady k s.vmm)
    (hvalid : c.Edits k A s) : PagingReady k (permStep k A c s).vmm := by
  dsimp only [permStep]
  cases c with
  | map paddr w write ring3 => exact (map_entries A h hvalid.1 paddr write ring3 hvalid.2).1
  | unmap w =>
      dsimp only [PageCall.run]
      exact (unmap_entries A h hvalid.1 hvalid.2).1
  | lookup w => exact (lookup_entries h w).1

/-- INTERNAL: mapping a page keeps the permissions in step with the record exactly when
it leaves none of them stale. -/
theorem permissionsFollow_map {s : PermState α} (h : PagingReady k s.vmm)
    (hfollow : PermissionsFollow k s) {w : ℕ} (hw : EditedPage k w) (paddr : ℕ)
    (write ring3 : Bool) (hnew : entryPresent (s.vmm.directoryEntry k w) = false →
      CanBeTable k s.vmm (A.allocPage s.vmm.alloc).1) :
    PermissionsFollow k (permStep k A (.map paddr w write ring3) s) ↔
      NoStalePermission k (.map paddr w write ring3) s := by
  have hread := (map_entries A h hw paddr write ring3 hnew).2
  obtain ⟨hwrite, hring3⟩ := mapEntry_attributes paddr write ring3 (entryOf k s.vmm w)
  have hhere : entryOf k (permStep k A (.map paddr w write ring3) s).vmm w =
      mapEntry paddr write ring3 (entryOf k s.vmm w) := (hread w hw).trans (if_pos rfl)
  constructor
  · intro hnext
    have hpres := (mapEntry_present paddr write ring3 (entryOf k s.vmm w))
    have hpage := hnext w hw write ring3 (Function.update_self _ _ _)
    rw [hhere, hwrite, hring3] at hpage
    obtain ⟨hwrite', hring3'⟩ := hpage hpres
    exact ⟨fun hold => by rw [← hwrite', hold, Bool.true_or],
      fun hold => by rw [← hring3', hold, Bool.true_or]⟩
  · rintro ⟨hstale, hstale'⟩ v hv write' ring3' hlast hmapped
    by_cases hsame : v / 0x1000 = w / 0x1000
    · obtain ⟨hd, hi⟩ := (page_eq_iff hw.1 hv.1).mpr hsame
      have hentry : entryOf k (permStep k A (.map paddr w write ring3) s).vmm v =
          mapEntry paddr write ring3 (entryOf k s.vmm w) := by
        rw [← hhere, entryOf, hd, hi, entryOf]
      have hargs : some (write, ring3) = some (write', ring3') := by
        have hrecord : (permStep k A (.map paddr w write ring3) s).last (w / 0x1000) =
            some (write, ring3) := Function.update_self _ _ _
        rw [← hrecord, ← hsame]
        exact hlast
      obtain ⟨rfl, rfl⟩ := Prod.mk.inj (Option.some.inj hargs)
      rw [hentry, hwrite, hring3]
      exact ⟨Bool.or_eq_right_iff_imp.mpr hstale, Bool.or_eq_right_iff_imp.mpr hstale'⟩
    · have hentry : entryOf k (permStep k A (.map paddr w write ring3) s).vmm v =
          entryOf k s.vmm v := (hread v hv).trans (if_neg hsame)
      rw [hentry] at hmapped ⊢
      exact hfollow v hv write' ring3'
        ((Function.update_of_ne hsame _ _).symm.trans hlast) hmapped

/-- INTERNAL: every other call keeps them. -/
theorem permissionsFollow_step {c : PageCall} {s : PermState α} (h : PagingReady k s.vmm)
    (hvalid : c.Edits k A s) (hfollow : PermissionsFollow k s) :
    PermissionsFollow k (permStep k A c s) ↔ NoStalePermission k c s := by
  cases c with
  | map paddr w write ring3 =>
      exact permissionsFollow_map A h hfollow hvalid.1 paddr write ring3 hvalid.2
  | unmap w =>
      refine iff_of_true (fun v hv write ring3 hlast hmapped => ?_) trivial
      dsimp only [permStep, PageCall.run] at hmapped ⊢
      have hkeep := (unmap_entries A h hvalid.1 hvalid.2).2 v hv
      have hentry : entryOf k (vmmUnmapPage k A w s.vmm) v = entryOf k s.vmm v := by
        apply hkeep
        exact hmapped
      rw [hentry] at hmapped ⊢
      exact hfollow v hv write ring3 hlast hmapped
  | lookup w =>
      refine iff_of_true (fun v hv write ring3 hlast hmapped => ?_) trivial
      dsimp only [permStep, PageCall.run] at hmapped ⊢
      rw [(lookup_entries h w).2 v hv] at hmapped ⊢
      exact hfollow v hv write ring3 hlast hmapped

/-- **Permissions of a page.**  In a run of calls, every mapped page has after every step
exactly the permissions it was last mapped with if and only if no call maps a page whose
entry has a permission that the call does not ask for.
SRCLINE: vmm.c:70-149 -/
theorem permissions_follow_iff {s₀ : Vmm α} (hready : PagingReady k s₀) (calls : List PageCall)
    (hvalid : EachCall (permStep k A) (PageCall.Edits k A) calls ⟨s₀, fun _ => none⟩) :
    Throughout (permStep k A) (PermissionsFollow k) calls ⟨s₀, fun _ => none⟩ ↔
      EachCall (permStep k A) (NoStalePermission k) calls ⟨s₀, fun _ => none⟩ := by
  apply throughout_iff_eachCall (I := fun s : PermState α => PagingReady k s.vmm)
    (fun c s h hc => pagingReady_step A h hc)
    (fun c s h hc hfollow => permissionsFollow_step A h hc hfollow) hready ?_ hvalid
  intro v hv write ring3 hlast
  exact absurd hlast (Option.some_ne_none _).symm

end

/-- Physical memory with an empty directory and the window mapped. -/
def shownDirectory : Vmm (List ℕ) where
  phys := emptyDirectory.phys.setWord 0x1000 windowSlot 0x3
  alloc := emptyDirectory.alloc

/-- A writeable page is unmapped while its page table keeps another page, and mapped
again. -/
def remapCalls (write ring3 : Bool) : List PageCall :=
  [.map 0x5000 0x400000 true true, .map 0x6000 0x401000 true true, .unmap 0x400000,
    .map 0x7000 0x400000 write ring3]

theorem shownDirectory_ready : PagingReady twoFrames shownDirectory := by
  have habsent : ∀ d < 1024, d ≠ 768 → entryPresent (shownDirectory.slot twoFrames d) = false := by
    decide +kernel
  have heq : ∀ d < 1024, entryPresent (shownDirectory.slot twoFrames d) → d = 768 := by
    intro d hd hpres
    by_contra hne
    exact Bool.false_ne_true ((habsent d hd hne).symm.trans hpres)
  refine ⟨⟨by decide, by decide, fun d hd hpres => ?_, fun d hd e he hpres hpres' _ => ?_⟩,
    by decide⟩
  · rw [heq d hd hpres]
    decide
  · rw [heq d hd hpres, heq e he hpres']

/-- A page that asks for both permissions has them. -/
theorem permissions_follow_iff_kept :
    Throughout (permStep twoFrames stackOfFrames) (PermissionsFollow twoFrames)
      (remapCalls true true) ⟨shownDirectory, fun _ => none⟩ := by
  apply (permissions_follow_iff stackOfFrames shownDirectory_ready (remapCalls true true)
    (by decide +kernel)).mpr
  exact ⟨by decide +kernel, by decide +kernel, trivial, by decide +kernel, trivial⟩

/-- A page that asks for neither has both, from its earlier mapping. -/
theorem permissions_survive_remap :
    EachCall (permStep twoFrames stackOfFrames) (PageCall.Edits twoFrames stackOfFrames)
      (remapCalls false false) ⟨shownDirectory, fun _ => none⟩ ∧
    ¬ Throughout (permStep twoFrames stackOfFrames) (PermissionsFollow twoFrames)
      (remapCalls false false) ⟨shownDirectory, fun _ => none⟩ := by
  refine ⟨by decide +kernel, fun h => ?_⟩
  have hlast := h.last 0x400000 (by decide) false false (by decide +kernel) (by decide +kernel)
  exact absurd hlast.1 (by decide +kernel)

end LakeOS.Analysis
