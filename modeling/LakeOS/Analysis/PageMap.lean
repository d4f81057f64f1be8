import Mathlib.Logic.Relation
import LakeOS.Analysis.PageTables

/-!
# Page tables are a finite map

The abstract object is a map from page numbers to frames, with `0` for a page that is
not mapped.  `PageCall.record` says what each call should do to it; `HoldsMap` says that
the page tables hold it, and every valid call keeps that.
-/

set_option autoImplicit false

namespace LakeOS.Analysis

open LakeOS.Library LakeOS.Model Vmm

section

variable {α : Type} (k : KernelLayout) (A : FrameAllocator α)

/-- The calls that reach the page tables. -/
inductive PageCall where
  | map (paddr v : ℕ) (write ring3 : Bool)
  | unmap (v : ℕ)
  | lookup (v : ℕ)
  deriving DecidableEq

/-- What a call does to the page tables. -/
def PageCall.run : PageCall → Vmm α → Vmm α
  | .map paddr v write ring3, s => vmmMapPage k A paddr v write ring3 s
  | .unmap v, s => vmmUnmapPage k A v s
  | .lookup v, s => (virtToPhys k v s).2

/-- The address a call is about. -/
def PageCall.addr : PageCall → ℕ
  | .map _ v _ _ | .unmap v | .lookup v => v

/-- What a call should do to the map from page numbers to frames. -/
def PageCall.record : PageCall → (ℕ → ℕ) → ℕ → ℕ
  | .map paddr v _ _, m => Function.update m (v / 0x1000) paddr
  | .unmap v, m => Function.update m (v / 0x1000) 0
  | .lookup _, m => m

/-- A virtual address outside the 4 MiB region of the window. -/
def OutsideWindow (v : ℕ) : Prop := v < 2 ^ 32 ∧ pageDirIndex v ≠ 768

/-- A page-aligned frame is mapped, or a mapped page unmapped.  Where a page table is
missing, `alloc_page` returns a frame that can become one. -/
def PageCall.Valid : PageCall → Vmm α → Prop
  | .map paddr v _ _, s => OutsideWindow v ∧ paddr % 0x1000 = 0 ∧ paddr ≠ 0 ∧ paddr < 2 ^ 32 ∧
      (entryPresent (s.directoryEntry k v) = false → CanBeTable k s (A.allocPage s.alloc).1)
  | .unmap v, s => OutsideWindow v ∧ (virtToPhys k v s).1 ≠ 0
  | .lookup v, _ => OutsideWindow v

instance (v : ℕ) : Decidable (OutsideWindow v) := inferInstanceAs (Decidable (_ ∧ _))

instance (c : PageCall) (s : Vmm α) : Decidable (c.Valid k A s) :=
  match c with
  | .map .. => inferInstanceAs (Decidable (_ ∧ _))
  | .unmap .. => inferInstanceAs (Decidable (_ ∧ _))
  | .lookup .. => inferInstanceAs (Decidable (OutsideWindow _))

/-- The page tables next to the map they should hold. -/
structure PageState (α : Type) where
  vmm : Vmm α
  map : ℕ → ℕ

/-- One valid call. -/
def PageStep (s s' : PageState α) : Prop :=
  ∃ c : PageCall, c.Valid k A s.vmm ∧ s' = ⟨c.run k A s.vmm, c.record s.map⟩

/-- The page tables hold the map. -/
def HoldsMap (s : PageState α) : Prop :=
  WellMapped k s.vmm ∧ ∀ v, OutsideWindow v →
    s.vmm.translation k (pageDirIndex v) (pageTableIndex v) = s.map (v / 0x1000)

/-- A directory of which only slot 768 is present, in which it names
`higher_half_page_table`. -/
structure StartsEmpty (s : Vmm α) : Prop where
  slot_ne : k.directorySlot ≠ windowSlot
  directory_ne : s.directory k ≠ k.higherHalf
  higherHalf : entryPresent (s.slot k 768) ∧ s.table k 768 = k.higherHalf
  empty : ∀ d < 1024, d ≠ 768 → entryPresent (s.slot k d) = false

variable {k}

/-- INTERNAL: the two indices of an address are its page number. -/
theorem page_eq_iff {v w : ℕ} (hv : v < 2 ^ 32) (hw : w < 2 ^ 32) :
    pageDirIndex w = pageDirIndex v ∧ pageTableIndex w = pageTableIndex v ↔
      w / 0x1000 = v / 0x1000 := by
  unfold pageDirIndex pageTableIndex
  omega

theorem StartsEmpty.eq_768 {s : Vmm α} (h : StartsEmpty k s) {d : ℕ} (hd : d < 1024)
    (hpres : entryPresent (s.slot k d)) : d = 768 := by
  by_contra hne
  exact Bool.false_ne_true ((h.empty d hd hne).symm.trans hpres)

/-- INTERNAL: an empty directory holds the empty map. -/
theorem StartsEmpty.holdsMap {s : Vmm α} (h : StartsEmpty k s) :
    HoldsMap k ⟨s, fun _ => 0⟩ := by
  refine ⟨⟨h.slot_ne, h.higherHalf, fun d hd hpres => ?_, fun d hd e he hpres hpres' _ => ?_⟩, ?_⟩
  · rw [h.eq_768 hd hpres, h.higherHalf.2]
    exact h.directory_ne.symm
  · rw [h.eq_768 hd hpres, h.eq_768 he hpres']
  · intro v hv
    exact translation_of_slot_absent (h.empty _ (pageDirIndex_lt v) hv.2)

theorem HoldsMap.virtToPhys {s : PageState α} (h : HoldsMap k s) {v : ℕ} (hv : OutsideWindow v) :
    (virtToPhys k v s.vmm).1 = s.map (v / 0x1000) :=
  (virtToPhys_spec h.1 hv.2).1.trans (h.2 v hv)

/-- INTERNAL: every call keeps the map. -/
theorem holdsMap_step {s s' : PageState α} (h : HoldsMap k s) (hstep : PageStep k A s s') :
    HoldsMap k s' := by
  obtain ⟨hwell, hmap⟩ := h
  obtain ⟨c, hvalid, rfl⟩ := hstep
  dsimp only [HoldsMap]
  cases c with
  | map paddr v write ring3 =>
      obtain ⟨hv, hmod, -, hlt, hfresh⟩ := hvalid
      obtain ⟨hwell', htrans, -⟩ := vmmMapPage_spec A hwell hv.2
        (Nat.dvd_of_mod_eq_zero hmod) hlt write ring3 hfresh
      refine ⟨hwell', fun w hw => ?_⟩
      simp only [PageCall.run, PageCall.record, htrans _ (pageDirIndex_lt w) hw.2,
        Function.update_apply, page_eq_iff hv.1 hw.1, hmap w hw]
  | unmap v =>
      obtain ⟨hv, hmapped⟩ := hvalid
      have hpres : entryPresent (s.vmm.slot k (pageDirIndex v)) := by
        by_contra habsent
        rw [(virtToPhys_spec hwell hv.2).1,
          translation_of_slot_absent (Bool.not_eq_true _ ▸ habsent)] at hmapped
        exact hmapped rfl
      obtain ⟨hwell', htrans, -⟩ := vmmUnmapPage_spec A hwell hv.2 hpres
      refine ⟨hwell', fun w hw => ?_⟩
      simp only [PageCall.run, PageCall.record,
        htrans _ (pageDirIndex_lt w) hw.2 _ (pageTableIndex_lt w), Function.update_apply,
        page_eq_iff hv.1 hw.1, hmap w hw]
  | lookup v =>
      obtain ⟨-, hwell', htrans⟩ := virtToPhys_spec hwell hvalid.2
      refine ⟨hwell', fun w hw => ?_⟩
      exact (htrans _ (pageDirIndex_lt w) hw.2 _).trans (hmap w hw)

/-- **Page tables refine a finite map.**  In every run of valid calls from an empty
directory, `virt_to_phys` returns for each page the frame it was last mapped to, `0`
where it is not mapped, and a further valid call leaves the other pages as they are.
SRCLINE: vmm.c:28-149 -/
theorem pageTables_hold_map {s₀ : Vmm α} (hstart : StartsEmpty k s₀) {s : PageState α}
    (hrun : Relation.ReflTransGen (PageStep k A) ⟨s₀, fun _ => 0⟩ s) :
    (∀ v, OutsideWindow v → (virtToPhys k v s.vmm).1 = s.map (v / 0x1000)) ∧
    ∀ c : PageCall, c.Valid k A s.vmm → ∀ v, OutsideWindow v →
      v / 0x1000 ≠ c.addr / 0x1000 →
        (virtToPhys k v (c.run k A s.vmm)).1 = (virtToPhys k v s.vmm).1 := by
  have hholds : HoldsMap k s := by
    induction hrun with
    | refl => exact hstart.holdsMap
    | tail _ hstep ih => exact holdsMap_step A ih hstep
  refine ⟨fun v hv => hholds.virtToPhys hv, fun c hvalid v hv hne => ?_⟩
  have hafter := (holdsMap_step A hholds ⟨c, hvalid, rfl⟩).virtToPhys hv
  rw [hholds.virtToPhys hv, ← show c.record s.map (v / 0x1000) = s.map (v / 0x1000) from ?_]
  · exact hafter
  · cases c with
    | map => exact Function.update_of_ne hne _ _
    | unmap => exact Function.update_of_ne hne _ _
    | lookup => rfl

end

/-- `higher_half_page_table` in frame 1, the directory in frame 2. -/
def twoFrames : KernelLayout := ⟨0x1000, 2⟩

/-- Frames are handed out from 3 on, the last one given back first. -/
def stackOfFrames : FrameAllocator (List ℕ) where
  allocPage
    | [] => (0, [])
    | f :: rest => (f, rest)
  freePage f rest := f :: rest

/-- Physical memory with an empty directory. -/
def emptyDirectory : Vmm (List ℕ) where
  phys f i :=
    if f = 0x1000 ∧ i = 2 then 0x2003
    else if f = 0x2000 ∧ i = 768 then 0x1003
    else 0
  alloc := [0x3000, 0x4000]

/-- A page is mapped and unmapped, and the frame of its page table is used again. -/
theorem pageTables_hold_map_reused :
    ∃ s : PageState (List ℕ), s.vmm.table twoFrames 2 = 0x3000 ∧
      (virtToPhys twoFrames 0x400000 s.vmm).1 = 0 ∧
      (virtToPhys twoFrames 0x800000 s.vmm).1 = 0x6000 := by
  have hstart : StartsEmpty twoFrames emptyDirectory :=
    ⟨by decide, by decide, by decide, by decide +kernel⟩
  let step (c : PageCall) (s : PageState (List ℕ)) : PageState (List ℕ) :=
    ⟨c.run twoFrames stackOfFrames s.vmm, c.record s.map⟩
  let s₁ := step (.map 0x5000 0x400000 true true) ⟨emptyDirectory, fun _ => 0⟩
  let s₂ := step (.unmap 0x400000) s₁
  let s₃ := step (.map 0x6000 0x800000 true true) s₂
  have hstep₁ : PageStep twoFrames stackOfFrames ⟨emptyDirectory, fun _ => 0⟩ s₁ :=
    ⟨.map 0x5000 0x400000 true true, by decide +kernel, rfl⟩
  have hstep₂ : PageStep twoFrames stackOfFrames s₁ s₂ :=
    ⟨.unmap 0x400000, by decide +kernel, rfl⟩
  have hstep₃ : PageStep twoFrames stackOfFrames s₂ s₃ :=
    ⟨.map 0x6000 0x800000 true true, by decide +kernel, rfl⟩
  have hrun := ((Relation.ReflTransGen.single hstep₁).tail hstep₂).tail hstep₃
  have hmap := (pageTables_hold_map stackOfFrames hstart hrun).1
  exact ⟨s₃, by decide +kernel, hmap 0x400000 (by decide), hmap 0x800000 (by decide)⟩

end LakeOS.Analysis
