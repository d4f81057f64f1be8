import LakeOS.Library.Runs
import LakeOS.Model.VfmList
import LakeOS.Analysis.VnodeCache
import LakeOS.Analysis.HeapOperations

/-!
# The list of virtual files over a run

The list should hold the files that were created and not removed, in this order.  A name is
copied with its terminator into a block without room for it, names are compared up to the end of
the shorter one, the first file is never found by the search for the file in front of it, and a
file that was never written to has a null pointer freed.
-/

set_option autoImplicit false

namespace LakeOS.Analysis

open LakeOS.Library LakeOS.Model

/-- The state after a call; where it fails there is none. -/
def vfmAfter (c : VfmListCall) (files : List VfmEntry) : List VfmEntry :=
  ((vfmListCall c files).map Prod.snd).getD files

/-- What a call should do: a file is appended, the first file of that very name is found, a file
leaves the list. -/
def vfmSpec : VfmListCall → List VfmEntry → Option ℕ × List VfmEntry
  | .create ptr nameBlock name, files => (some ptr, files ++ [⟨ptr, name, nameBlock, 0⟩])
  | .lookup name, files => ((files.find? fun f => f.name = name).map VfmEntry.ptr, files)
  | .write ptr block, files => (none, vfmGiveContent ptr block files)
  | .remove ptr, files => (none, files.filter fun f => f.ptr ≠ ptr)

/-- No call writes outside the blocks of the heap: a name with its terminator fits its block, and
`kfree`, which makes a free block of what it is given, is given no null pointer. -/
def StaysInside : VfmListCall → List VfmEntry → Prop
  | .create _ _ name, _ => name.length + 1 ≤ usableBytes name.length
  | .remove ptr, files => ∀ f ∈ files, f.ptr = ptr → ∀ p ∈ vfmFreeFile f, p ≠ 0
  | _, _ => True

/-- The call does what it should and writes where it may. -/
def VfmRight (c : VfmListCall) (files : List VfmEntry) : Prop :=
  vfmListCall c files = some (vfmSpec c files) ∧ StaysInside c files

/-- The calls that a caller can make: `kmalloc` returned new blocks, and a file that is written
to or removed is in the list. -/
def VfmValid : VfmListCall → List VfmEntry → Prop
  | .create ptr nameBlock _, files => ptr ≠ 0 ∧ nameBlock ≠ 0 ∧ ∀ f ∈ files, f.ptr ≠ ptr
  | .write ptr block, files => block ≠ 0 ∧ ∃ f ∈ files, f.ptr = ptr
  | .remove ptr, files => ∃ f ∈ files, f.ptr = ptr
  | .lookup _, _ => True

/-- Short names are created, the first name that compares equal to one looked up is the name
itself, and what is removed is not the first file and has been written to. -/
def VfmCondition : VfmListCall → List VfmEntry → Prop
  | .create _ _ name, _ => name.length < 8
  | .lookup name, files => ∀ f, files.find? (fun f => strcmp f.name name = 0) = some f → f.name = name
  | .write _ _, _ => True
  | .remove ptr, files => (files.map VfmEntry.ptr).head? ≠ some ptr ∧
      ∀ f ∈ files, f.ptr = ptr → f.content ≠ 0

/-- The files have different addresses, and blocks for themselves and their names. -/
structure VfmFilesApart (files : List VfmEntry) : Prop where
  apart : (files.map VfmEntry.ptr).Nodup
  blocks : ∀ f ∈ files, f.ptr ≠ 0 ∧ f.nameBlock ≠ 0

section

variable {files : List VfmEntry} {ptr : ℕ} {name : CString}

/-- INTERNAL: the block of a name has room for its terminator if it was rounded up. -/
theorem fits_usable_iff (n : ℕ) : n + 1 ≤ usableBytes n ↔ n < 8 := by
  unfold usableBytes allocBytes add32 sizeofFreeBlock sizeofSizeT
  split
  · omega
  · omega

/-- INTERNAL: the search of the list by index. -/
theorem find_range (files : List VfmEntry) (name : CString) :
    ((List.range files.length).find? fun i =>
      strcmp ((files.map VfmEntry.name).getD i []) name = 0).bind (fun i => files[i]?) =
        files.find? fun f => strcmp f.name name = 0 := by
  induction files with
  | nil => rfl
  | cons f files ih =>
      rw [List.length_cons, List.range_succ_eq_map, List.find?_cons, List.find?_cons,
        List.map_cons, List.getD_cons_zero]
      by_cases hf : strcmp f.name name = 0
      · simp [hf]
      · simp only [hf, decide_false]
        rw [List.find?_map, Option.bind_map, ← ih]
        rfl

theorem vfmLookupPtr_eq (name : CString) (files : List VfmEntry) :
    vfmLookupPtr name files =
      (files.find? fun f => strcmp f.name name = 0).map VfmEntry.ptr := by
  rw [← find_range]
  unfold vfmLookupPtr vfmLookup
  rw [if_neg (by simp), List.length_map]
  cases (List.range files.length).find? fun i =>
      strcmp ((files.map VfmEntry.name).getD i []) name = 0 with
  | none => rfl
  | some i => rfl

/-- INTERNAL: the name itself compares equal. -/
theorem strcmp_self (name : CString) : strcmp name name = 0 :=
  (strcmp_eq_zero_iff name name).mpr (.inl (List.prefix_refl name))

/-- INTERNAL: **the first file of a name is found** if no other name compares equal first. -/
theorem vfmLookupPtr_iff (h : VfmFilesApart files) (name : CString) :
    vfmLookupPtr name files = (files.find? fun f => f.name = name).map VfmEntry.ptr ↔
      ∀ f, files.find? (fun f => strcmp f.name name = 0) = some f → f.name = name := by
  rw [vfmLookupPtr_eq]
  have hdistinct : ∀ f ∈ files, ∀ g ∈ files, f.ptr = g.ptr → f = g :=
    fun f hf g hg => List.inj_on_of_nodup_map h.apart hf hg
  constructor
  · intro heq f hfind
    have hmem := List.mem_of_find?_eq_some hfind
    rw [hfind, Option.map_some] at heq
    obtain ⟨g, hg, hptr⟩ := Option.map_eq_some_iff.mp heq.symm
    have hgmem := List.mem_of_find?_eq_some hg
    have hname := List.find?_some hg
    rw [hdistinct f hmem g hgmem hptr.symm]
    simpa using hname
  · intro hexact
    congr 1
    cases hfind : files.find? (fun f => strcmp f.name name = 0) with
    | none =>
        symm
        rw [List.find?_eq_none] at hfind ⊢
        intro f hf hname
        simp only [decide_eq_true_eq] at hname
        have hself := strcmp_self name
        have hnot := hfind f hf
        rw [hname] at hnot
        simp [hself] at hnot
    | some f =>
        have hname := hexact f hfind
        symm
        rw [List.find?_eq_some_iff_append] at hfind ⊢
        obtain ⟨-, before, behind, hsplit, hbefore⟩ := hfind
        refine ⟨by simpa using hname, before, behind, hsplit, fun g hg => ?_⟩
        have hg' := hbefore g hg
        simp only [Bool.not_eq_true', decide_eq_false_iff_not] at hg' ⊢
        intro hgname
        apply hg'
        rw [hgname]
        exact strcmp_self name

/-- INTERNAL: **a file is removed** unless it is the first one.
SRCLINE: vfm.c:112-117 -/
theorem vfmRemove_eq (h : VfmFilesApart files) (hlive : ∃ f ∈ files, f.ptr = ptr) :
    vfmRemove ptr files = if (files.map VfmEntry.ptr).head? = some ptr then none
      else some (files.filter fun f => f.ptr ≠ ptr) := by
  obtain ⟨f, hf, hptr⟩ := hlive
  have hone : files.Pairwise fun a b => ¬ ((a.ptr == ptr) = true ∧ (b.ptr == ptr) = true) := by
    refine (List.pairwise_map.mp h.apart).imp fun hne hboth => hne ?_
    rw [beq_iff_eq.mp hboth.1, beq_iff_eq.mp hboth.2]
  have hhead : (files.head?.any fun f => f.ptr == ptr) = true ↔
      (files.map VfmEntry.ptr).head? = some ptr := by
    cases files with
    | nil => simp
    | cons a files => simp
  have herase : files.eraseP (·.ptr == ptr) = files.filter fun f => f.ptr ≠ ptr := by
    clear hhead hf h
    induction files with
    | nil => rfl
    | cons a files ih =>
        rw [List.pairwise_cons] at hone
        by_cases ha : a.ptr = ptr
        · have hrest : files.filter (fun f => f.ptr ≠ ptr) = files := by
            rw [List.filter_eq_self]
            intro b hb
            have hnot := hone.1 b hb
            simpa [ha] using hnot
          rw [List.eraseP_cons_of_pos (by simpa using ha), List.filter_cons_of_neg (by simpa using ha),
            hrest]
        · rw [List.eraseP_cons_of_neg (by simpa using ha),
            List.filter_cons_of_pos (by simpa using ha), ih hone.2]
  rw [vfmRemove, unlinkNext_eq hone hf (by simpa using hptr), herase]
  by_cases hfirst : (files.map VfmEntry.ptr).head? = some ptr
  · rw [if_pos hfirst, if_pos (hhead.mpr hfirst)]
  · rw [if_neg hfirst, if_neg fun hany => hfirst (hhead.mp hany)]

/-- INTERNAL: a new file is another one. -/
theorem VfmFilesApart.append (h : VfmFilesApart files) {f : VfmEntry}
    (hblocks : f.ptr ≠ 0 ∧ f.nameBlock ≠ 0) (hfresh : ∀ g ∈ files, g.ptr ≠ f.ptr) :
    VfmFilesApart (files ++ [f]) := by
  refine ⟨?_, ?_⟩
  · rw [List.map_append, List.nodup_append]
    refine ⟨h.apart, by simp, ?_⟩
    rintro a ha b hb rfl
    obtain ⟨g, hg, rfl⟩ := List.mem_map.mp ha
    simp at hb
    exact hfresh g hg hb
  · intro g hg
    rcases List.mem_append.mp hg with hold | hnew
    · exact h.blocks g hold
    · rw [List.mem_singleton.mp hnew]
      exact hblocks

/-- INTERNAL: a write moves no file. -/
theorem VfmFilesApart.giveContent (h : VfmFilesApart files) (ptr block : ℕ) :
    VfmFilesApart (vfmGiveContent ptr block files) := by
  have hptrs : (vfmGiveContent ptr block files).map VfmEntry.ptr = files.map VfmEntry.ptr := by
    unfold vfmGiveContent
    rw [List.map_map]
    apply List.map_congr_left
    intro f _
    simp only [Function.comp_apply]
    split
    · rfl
    · rfl
  refine ⟨by rw [hptrs]; exact h.apart, ?_⟩
  intro f hf
  obtain ⟨g, hg, rfl⟩ := List.mem_map.mp hf
  have hblocks := h.blocks g hg
  split
  · exact hblocks
  · exact hblocks

theorem VfmFilesApart.filter (h : VfmFilesApart files) (p : VfmEntry → Bool) :
    VfmFilesApart (files.filter p) :=
  ⟨h.apart.sublist (List.filter_sublist.map _),
    fun f hf => h.blocks f (List.mem_of_mem_filter hf)⟩

/-- INTERNAL: a valid call keeps the files apart. -/
theorem VfmFilesApart.step {c : VfmListCall} (h : VfmFilesApart files)
    (hvalid : VfmValid c files) : VfmFilesApart (vfmAfter c files) := by
  cases c with
  | create ptr nameBlock name =>
      obtain ⟨hptr, hblock, hfresh⟩ := hvalid
      exact h.append (f := ⟨ptr, name, nameBlock, 0⟩) ⟨hptr, hblock⟩ hfresh
  | lookup name => exact h
  | write ptr block => exact h.giveContent ptr block
  | remove ptr =>
      have hcall : vfmListCall (.remove ptr) files =
          (vfmRemove ptr files).map fun files => (none, files) := rfl
      rw [vfmAfter, hcall, vfmRemove_eq h hvalid]
      split
      · exact h
      · exact h.filter fun f => f.ptr ≠ ptr

/-- INTERNAL: **a call is right** under its condition. -/
theorem vfmRight_iff {c : VfmListCall} (h : VfmFilesApart files) (hvalid : VfmValid c files) :
    VfmRight c files ↔ VfmCondition c files := by
  cases c with
  | create ptr nameBlock name =>
      have hcall : vfmListCall (.create ptr nameBlock name) files =
          some (vfmSpec (.create ptr nameBlock name) files) := rfl
      unfold VfmRight
      rw [and_iff_right hcall]
      exact fits_usable_iff name.length
  | lookup name =>
      have hiff := vfmLookupPtr_iff h name
      unfold VfmRight vfmListCall vfmSpec StaysInside VfmCondition
      simpa using hiff
  | write ptr block => exact iff_of_true ⟨rfl, trivial⟩ trivial
  | remove ptr =>
      have hcall : vfmListCall (.remove ptr) files =
          (vfmRemove ptr files).map fun files => (none, files) := rfl
      rw [VfmRight, hcall, vfmRemove_eq h hvalid]
      by_cases hfirst : (files.map VfmEntry.ptr).head? = some ptr
      · simp [hfirst, VfmCondition]
      · rw [if_neg hfirst]
        have hcontent : StaysInside (.remove ptr) files ↔
            ∀ f ∈ files, f.ptr = ptr → f.content ≠ 0 := by
          unfold StaysInside vfmFreeFile
          constructor
          · intro hall f hf hptr
            exact hall f hf hptr _ List.mem_cons_self
          · intro hall f hf hptr p hp
            have hblocks := h.blocks f hf
            simp only [List.mem_cons, List.not_mem_nil, or_false] at hp
            rcases hp with rfl | rfl | rfl
            · exact hall f hf hptr
            · exact hblocks.2
            · exact hblocks.1
        have hspec : (some (files.filter fun f => f.ptr ≠ ptr)).map
            (fun files => ((none : Option ℕ), files)) = some (vfmSpec (.remove ptr) files) := rfl
        rw [hspec, hcontent, VfmCondition]
        exact ⟨fun hright => ⟨hfirst, hright.2⟩, fun hcond => ⟨rfl, hcond.2⟩⟩

end

/-- **The list of virtual files is right** in the runs whose calls all meet the condition: it
holds the files that were created and not removed, in the order in which they were created.
SRCLINE: vfm.c:39-50, vfm.c:76-120, strcmp.c:3-7 -/
theorem vfmFiles_iff (calls : List VfmListCall) (hvalid : EachCall vfmAfter VfmValid calls []) :
    (EachCall vfmAfter VfmRight calls [] ↔ EachCall vfmAfter VfmCondition calls []) ∧
      (EachCall vfmAfter VfmCondition calls [] →
        after vfmAfter calls [] = after (fun c files => (vfmSpec c files).2) calls []) := by
  have hnone : VfmFilesApart [] := ⟨List.nodup_nil, by simp⟩
  have hiff : EachCall vfmAfter VfmRight calls [] ↔ EachCall vfmAfter VfmCondition calls [] :=
    eachCall_congr_valid (fun _ _ h hv => VfmFilesApart.step h hv)
      (fun _ _ h hv => vfmRight_iff h hv) hnone hvalid
  refine ⟨hiff, fun hcond => ?_⟩
  have hright := hiff.mpr hcond
  have hrun : ∀ (calls : List VfmListCall) (files : List VfmEntry),
      EachCall vfmAfter VfmRight calls files →
        after vfmAfter calls files = after (fun c files => (vfmSpec c files).2) calls files := by
    intro calls
    induction calls with
    | nil => exact fun _ _ => rfl
    | cons c calls ih =>
        rintro files ⟨⟨hcall, -⟩, hrest⟩
        have hstep : vfmAfter c files = (vfmSpec c files).2 := by
          rw [vfmAfter, hcall]
          rfl
        rw [after, after, ← hstep]
        exact ih _ hrest
  exact hrun calls [] hright

/-- Two files, of which the second is written to and removed. -/
def twoFilesRun : List VfmListCall :=
  [.create 0x10 0x20 [0x41], .create 0x30 0x40 [0x42], .write 0x30 0x50, .remove 0x30,
    .lookup [0x41]]

theorem twoFilesRun_valid : EachCall vfmAfter VfmValid twoFilesRun [] := by
  refine ⟨⟨by decide, by decide, by simp⟩, ⟨by decide, by decide, ?_⟩, ⟨by decide, ?_⟩, ?_, trivial,
    trivial⟩
  · decide
  · decide
  · show ∃ f ∈ _, _
    decide

theorem twoFilesRun_right :
    (EachCall vfmAfter VfmRight twoFilesRun [] ↔ EachCall vfmAfter VfmCondition twoFilesRun []) ∧
      (EachCall vfmAfter VfmCondition twoFilesRun [] →
        after vfmAfter twoFilesRun [] =
          after (fun c files => (vfmSpec c files).2) twoFilesRun []) :=
  vfmFiles_iff twoFilesRun twoFilesRun_valid

/-- A name of eight characters is written past its block; the only file is removed through a null
pointer, and `AB` is found under the name `A`. -/
theorem vfmFiles_fail :
    (EachCall vfmAfter VfmValid [.create 0x10 0x20 (List.replicate 8 0x41)] [] ∧
      ¬ EachCall vfmAfter VfmRight [.create 0x10 0x20 (List.replicate 8 0x41)] []) ∧
    (EachCall vfmAfter VfmValid [.create 0x10 0x20 [0x41], .remove 0x10] [] ∧
      ¬ EachCall vfmAfter VfmRight [.create 0x10 0x20 [0x41], .remove 0x10] []) ∧
    EachCall vfmAfter VfmValid [.create 0x10 0x20 [0x41, 0x42], .lookup [0x41]] [] ∧
      ¬ EachCall vfmAfter VfmRight [.create 0x10 0x20 [0x41, 0x42], .lookup [0x41]] [] := by
  refine ⟨⟨⟨⟨by decide, by decide, by simp⟩, trivial⟩, fun h => ?_⟩,
    ⟨⟨⟨by decide, by decide, by simp⟩, ?_, trivial⟩, fun h => ?_⟩,
    ⟨⟨by decide, by decide, by simp⟩, trivial, trivial⟩, fun h => ?_⟩
  · have hfits := (fits_usable_iff (List.replicate 8 (0x41 : Byte)).length).mp h.1.2
    simp at hfits
  · show ∃ f ∈ _, _
    decide
  · exact absurd h.2.1.1 (by decide)
  · exact absurd h.2.1.1 (by decide)

end LakeOS.Analysis
