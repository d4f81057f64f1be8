import LakeOS.Analysis.DirMap

/-!
# The end of a directory

An entry whose name begins with `0x00` says that all entries behind it are free, and other
implementations stop reading there.  `FAT_create` stores at the first free entry and keeps
this; `FAT_remove` clears the whole entry, and so puts the mark wherever the file was.
-/

set_option autoImplicit false

namespace LakeOS.Analysis

open LakeOS.Library LakeOS.Model

/-! ## Directories with an end -/

section

variable (ctx : FatContext) (cs : List ℕ) (d : Disk)

/-- The entry ends the directory.
SRCLINE: fat.h:443-466 -/
def isEndMark (k : ℕ) : Bool := (dirSlot ctx cs d k).head? = some 0x00

/-- No live entry follows an entry that ends the directory. -/
def EndMarked : Prop :=
  ∀ j k, j < k → k < slotCount ctx cs → isEndMark ctx cs d j → entryIsFree (dirSlot ctx cs d k)

/-- The live entries. -/
def liveSlots : List ℕ :=
  (List.range (slotCount ctx cs)).filter fun k => !entryIsFree (dirSlot ctx cs d k)

/-- The live entries that a reader sees who stops at the end. -/
def slotsToEnd : List ℕ :=
  ((List.range (slotCount ctx cs)).takeWhile fun k => !isEndMark ctx cs d k).filter fun k =>
    !entryIsFree (dirSlot ctx cs d k)

end

/-- The directory keeps its end: a reader who stops there sees exactly the live entries. -/
def EndSeen (ctx : FatContext) (cs : List ℕ) (d : Disk) : Prop :=
  EndMarked ctx cs d ∧ slotsToEnd ctx cs d = liveSlots ctx cs d

/-! ## Changes that keep the end -/

/-- There is a free cluster, which the search of `num_sectors` finds, and a free entry whose
computed address is its own. -/
structure CreateKeepsEnd (ctx : FatContext) (cs : List ℕ) (start : ℕ) (d : Disk)
    (name : CString) (attribs : ℕ) : Prop where
  chars : ∀ c ∈ name, c ≠ 0
  fields : FieldsFit ctx
  cluster : (freeClusters ctx d).Nonempty
  entry : ∃ k < slotCount ctx cs, entryIsFree (dirSlot ctx cs d k) ∧
    (∀ j < k, ¬ entryIsFree (dirSlot ctx cs d j)) ∧
    add32 (fatClusToOff ctx start) (mul32 k sizeofShortDirEntry) = slotStart ctx cs k
  scan : hasFlag attribs fileAttribDirectory → cs = [] → ∀ j < slotCount ctx [],
    slotStart ctx [] j + 32 ≤ clusterStart ctx (findFreeCluster ctx d)

/-- The files of the name can be removed, and no other live entry follows one of them. -/
structure RemoveKeepsEnd (ctx : FatContext) (cs : List ℕ) (start : ℕ) (d : Disk)
    (handle : FatHandle) : Prop where
  dir : handle.dirCluster = start
  valid : ValidName handle.name
  removable : ∃ chainOf, Removable ctx cs (fatConvFname handle.name) chainOf 0 d
  last : ∀ j k, j < k → k < slotCount ctx cs →
    slotName ctx cs d j = fatConvFname handle.name →
      slotName ctx cs d k = fatConvFname handle.name ∨ entryIsFree (dirSlot ctx cs d k)

variable {ctx : FatContext} {d d' : Disk} {start k : ℕ} {cs : List ℕ} {junk : Uninit}
  {name : CString}

/-! ## What a reader sees -/

/-- INTERNAL: nothing that is looked for lies behind the end. -/
theorem filter_takeWhile {α : Type} {p q : α → Bool} {l : List α}
    (hself : ∀ a ∈ l, ¬ p a → ¬ q a) (hbehind : l.Pairwise fun a b => ¬ p a → ¬ q b) :
    (l.takeWhile p).filter q = l.filter q := by
  induction l with
  | nil => rfl
  | cons a l ih =>
    rw [List.pairwise_cons] at hbehind
    by_cases hp : p a
    · rw [List.takeWhile_cons_of_pos hp, List.filter_cons, List.filter_cons,
        ih (fun b hb => hself b (List.mem_cons_of_mem a hb)) hbehind.2]
    · have hnone : (a :: l).filter q = [] := by
        apply List.filter_eq_nil_iff.mpr
        intro b hb
        rcases List.mem_cons.mp hb with rfl | hb
        · exact hself b List.mem_cons_self hp
        · exact hbehind.1 b hb hp
      rw [List.takeWhile_cons_of_neg hp, hnone, List.filter_nil]

theorem entryIsFree_of_endMark (h : isEndMark ctx cs d k) : entryIsFree (dirSlot ctx cs d k) := by
  unfold isEndMark at h
  unfold entryIsFree
  rw [of_decide_eq_true h]
  rfl

/-- **A reader who stops at the end** sees all live entries. -/
theorem EndMarked.seen (h : EndMarked ctx cs d) : EndSeen ctx cs d := by
  refine ⟨h, filter_takeWhile (fun k _ hk => ?_) ?_⟩
  · have hend : isEndMark ctx cs d k := by simpa using hk
    simp [entryIsFree_of_endMark hend]
  · refine (List.pairwise_lt_range (n := slotCount ctx cs)).imp_of_mem ?_
    intro j k hj hk hlt hend
    have hend' : isEndMark ctx cs d j := by simpa using hend
    simp [h j k hlt (List.mem_range.mp hk) hend']

/-! ## The steps -/

/-- INTERNAL: the name of a new file does not begin with `0x00`. -/
theorem fatConvFname_head (hchars : ∀ c ∈ name, c ≠ 0) (rest : List Byte) :
    (fatConvFname name ++ rest).head? ≠ some 0x00 := by
  unfold fatConvFname
  by_cases hdots : name.head? = some dot ∧ name.length < 3
  · rw [if_pos hdots]
    cases name with
    | nil => simp at hdots
    | cons c name => simpa using hchars c (by simp)
  · rw [if_neg hdots]
    dsimp only
    cases name with
    | nil => simp
    | cons c name =>
      have hc := hchars c (by simp)
      by_cases hdot : c = dot
      · simp [hdot]
      · have hbase : ((c :: name).take 8).takeWhile (· != dot) =
            c :: (name.take 7).takeWhile (· != dot) := by
          rw [List.take_succ_cons, List.takeWhile_cons, if_pos (bne_iff_ne.mpr hdot)]
        rw [hbase]
        simpa using hc

/-- **A new entry keeps the end.** It is stored at the first free entry. -/
theorem EndMarked.create {entry : List Byte} {cluster : ℕ} (hmarked : EndMarked ctx cs d)
    (hadd : EntryAdded ctx cs k entry cluster d d')
    (hfirst : ∀ j < k, ¬ entryIsFree (dirSlot ctx cs d j)) (hentry : entry.head? ≠ some 0x00) :
    EndMarked ctx cs d' := by
  intro i j hij hj hend
  by_cases hi : i = k
  · subst hi
    unfold isEndMark at hend
    rw [hadd.stored] at hend
    exact absurd (of_decide_eq_true hend) hentry
  · have hend' : isEndMark ctx cs d i := by
      unfold isEndMark at hend ⊢
      rwa [hadd.others i (by omega) hi] at hend
    by_cases hjk : j = k
    · -- the entries before the first free one end nothing
      subst hjk
      exact absurd (entryIsFree_of_endMark hend') (hfirst i hij)
    · rw [hadd.others j hj hjk]
      exact hmarked i j hij hj hend'

/-- INTERNAL: the first byte says whether an entry is free, and whether it ends the
directory. -/
theorem head?_dirSlot (ctx : FatContext) (cs : List ℕ) (d : Disk) (k : ℕ) :
    (dirSlot ctx cs d k).head? = some (d (slotStart ctx cs k)) := by
  rw [dirSlot, List.head?_eq_getElem?]
  simp [Store.read]

/-- INTERNAL: an entry that is not removed. -/
theorem Removed.head? {conv : List Byte} {chainOf : ℕ → List ℕ}
    (hremoved : Removed ctx cs conv chainOf 0 d d') (hk : k < slotCount ctx cs)
    (hname : slotName ctx cs d k ≠ conv) :
    (dirSlot ctx cs d' k).head? = (dirSlot ctx cs d k).head? := by
  have hbyte := hremoved.others k hk (fun hand => hname hand.2) 0 (.inl (by decide))
  rw [Nat.add_zero] at hbyte
  rw [head?_dirSlot, head?_dirSlot, hbyte]

/-- **Removing the last files keeps the end.** -/
theorem EndMarked.remove {conv : List Byte} {chainOf : ℕ → List ℕ}
    (hmarked : EndMarked ctx cs d) (hremoved : Removed ctx cs conv chainOf 0 d d')
    (hlast : ∀ j k, j < k → k < slotCount ctx cs → slotName ctx cs d j = conv →
      slotName ctx cs d k = conv ∨ entryIsFree (dirSlot ctx cs d k)) : EndMarked ctx cs d' := by
  intro j k hjk hk hend
  by_cases hname : slotName ctx cs d k = conv
  · exact hremoved.freed k (Nat.zero_le k) hk hname
  · have hfree : entryIsFree (dirSlot ctx cs d k) := by
      by_cases hnamej : slotName ctx cs d j = conv
      · exact (hlast j k hjk hk hnamej).resolve_left hname
      · refine hmarked j k hjk hk ?_
        unfold isEndMark at hend ⊢
        rwa [hremoved.head? (by omega) hnamej] at hend
    unfold entryIsFree at hfree ⊢
    rwa [hremoved.head? hk hname]

/-! ## Runs on a device -/

/-- A file is created or removed. -/
inductive DirChange where
  | create (time : RtcTime) (name : CString) (attribs : ℕ)
  | remove (handle : FatHandle)

/-- The disk after a change to the directory. -/
def dirChange (v : FatDevice) (junk : Uninit) (dir : FatHandle) (d : Disk) :
    DirChange → Option Disk
  | .create time name attribs => v.fatCreate junk time dir name attribs d
  | .remove handle => v.fatRemove junk handle d

/-- The directory keeps its end in all states of a run. -/
def StaysMarked (v : FatDevice) (junk : Uninit) (cs : List ℕ) (dir : FatHandle) :
    Disk → List DirChange → Prop
  | d, [] => EndSeen v.toFatContext cs d
  | d, c :: calls => EndSeen v.toFatContext cs d ∧
      ∃ d', dirChange v junk dir d c = some d' ∧ StaysMarked v junk cs dir d' calls

/-- The change keeps the end of the directory, and sets no FAT entry that runs over the end of a
sector. -/
def KeepsEnd (v : FatDevice) (cs : List ℕ) (start : ℕ) (d : Disk) : DirChange → Prop
  | .create _ name attribs =>
      CreateKeepsEnd v.toFatContext cs start d name attribs ∧ TakesInside v d [] 1
  | .remove handle => RemoveKeepsEnd v.toFatContext cs start d handle ∧
      FreesInside v cs (fatConvFname handle.name) d

/-- So does every change of the run, and the chain of the directory is read as it is. -/
def AllKeepEnd (v : FatDevice) (junk : Uninit) (cs : List ℕ) (dir : FatHandle) :
    Disk → List DirChange → Prop
  | _, [] => True
  | d, c :: calls => ReadsEntries v d cs ∧ KeepsEnd v cs dir.startCluster d c ∧
      ∀ d', dirChange v junk dir d c = some d' → AllKeepEnd v junk cs dir d' calls

variable {v : FatDevice}

/-- INTERNAL: **one change.** -/
theorem DirLayout.keepsEnd (h : DirLayout v) {dir : FatHandle} {c : DirChange}
    (hdir : DirClusters v.toFatContext d dir.startCluster cs)
    (hjunk : dir.startCluster < 2 → junk.lastFreeCluster ≠ 0)
    (hmarked : EndMarked v.toFatContext cs d) (hreads : ReadsEntries v d cs)
    (hkeeps : KeepsEnd v cs dir.startCluster d c) :
    ∃ d', dirChange v junk dir d c = some d' ∧
      DirClusters v.toFatContext d' dir.startCluster cs ∧ EndMarked v.toFatContext cs d' := by
  cases c with
  | create time name attribs =>
    obtain ⟨⟨hchars, hfields, hcluster, ⟨k, hk, hslot, hfirst, hplace⟩, hscan⟩, hinside⟩ := hkeeps
    obtain ⟨d', hrun, hadd⟩ := h.fatCreate_spec junk hdir hfields hcluster hk hslot hfirst hplace
      name time hscan
    refine ⟨d', ?_, ?_, hmarked.create hadd hfirst (fatConvFname_head hchars _)⟩
    · rw [dirChange, FatDevice.fatCreate_eq h hdir hreads hinside hk hslot hfirst hplace,
        hrun]
    · rcases hdir with hroot | ⟨hhead, hchain⟩
      · exact .inl hroot
      · exact .inr ⟨hhead, (hadd.chain h.toFatLayout hchain).2⟩
  | remove handle =>
    obtain ⟨⟨hstart, hvalid, ⟨chainOf, hremovable⟩, hlast⟩, hinside⟩ := hkeeps
    rw [← hstart] at hdir hjunk ⊢
    obtain ⟨d', hrun, hdir', hremoved⟩ := h.fatRemove_spec hdir hjunk hvalid hremovable
    refine ⟨d', ?_, hdir', hmarked.remove hremoved hlast⟩
    rw [dirChange, FatDevice.fatRemove_eq h hdir hjunk hvalid hreads hremovable hinside, hrun]

/-- The root directory has the files `A` and `B`, in the clusters 2 and 3. -/
def twoFiles : Disk := fun x =>
  match x with
  | 515 => 0xFF
  | 516 => 0xFF
  | 517 => 0xFF
  | 9728 => 0x41
  | 9754 => 0x02
  | 9760 => 0x42
  | 9786 => 0x03
  | x => if 9729 ≤ x ∧ x < 9739 ∨ 9761 ≤ x ∧ x < 9771 then 0x20 else 0

/-- Behind the two files all entries are free. -/
theorem twoFiles_marked : EndMarked floppy [] twoFiles := by
  intro j k hjk hk hend
  have hstart : ∀ i, slotStart floppy [] i = 9728 + i * 32 := fun i => rfl
  have hbyte : ∀ i, 2 ≤ i → twoFiles (9728 + i * 32) = 0 := by
    intro i hi
    unfold twoFiles
    split <;> first | omega | skip
    rw [if_neg (by omega)]
  by_cases hj : 2 ≤ k
  · rw [entryIsFree, head?_dirSlot, hstart, hbyte k hj]
    rfl
  · have h0 : j = 0 := by omega
    subst h0
    exact absurd hend (by decide)

/-- INTERNAL: `A` is the name of the first entry only. -/
theorem twoFiles_slot (hname : slotName floppy [] twoFiles k = fatConvFname [0x41]) : k = 0 := by
  have hhead : (slotName floppy [] twoFiles k).head? = (dirSlot floppy [] twoFiles k).head? := by
    rw [slotName, List.head?_take, if_neg (by decide)]
  rw [hname, head?_dirSlot] at hhead
  have hbyte : twoFiles (9728 + k * 32) = 0x41 := (Option.some.inj hhead).symm
  unfold twoFiles at hbyte
  split at hbyte <;> first | omega | skip
  · cases hbyte
  · split at hbyte <;> cases hbyte

/-- INTERNAL: it has the cluster 2 alone. -/
theorem twoFiles_chain : FatChain floppy twoFiles [2] :=
  ⟨show fatIsEoc floppy (fatGetEntry floppy 0 2 twoFiles) = true by decide, fun e he => by
    rw [List.mem_singleton.mp he]
    exact floppy_dataCluster (Nat.le_refl 2) (by decide)⟩

/-- INTERNAL: so it can be removed. -/
theorem twoFiles_removable :
    Removable floppy [] (fatConvFname [0x41]) (fun _ => [2]) 0 twoFiles where
  chain := fun _ _ _ _ => twoFiles_chain
  head := fun k _ _ hname => by
    rw [twoFiles_slot hname]
    decide
  outside := fun _ _ _ _ => List.disjoint_nil_right _
  spares := fun k _ _ _ _ j hj o ho => by
    -- the entry of the end mark lies in the file size of the entry 47
    rintro ⟨i, hi, hlow, hhigh⟩
    have hstart : slotStart floppy [] j = 9728 + j * 32 := rfl
    have hmark : fatGetEntry floppy 0 2 twoFiles = 4095 := by decide
    rw [List.getLast_singleton, hmark] at hlow hhigh
    have hoff : ∀ i < 2, fatEntryOffset floppy i 4095 = 6654 + i * 4608 := by decide
    rw [hoff i hi] at hlow hhigh
    unfold UsedByte at ho
    have hi : i < 2 := hi
    omega
  apart := fun j k _ hjk _ hnamej hnamek => by
    have hj := twoFiles_slot hnamej
    have hk := twoFiles_slot hnamek
    omega

/-- INTERNAL: and its FAT entries lie inside of sectors. -/
theorem twoFiles_frees : FreesInside floppyDrive [] (fatConvFname [0x41]) twoFiles := by
  intro k _ hname fs hchain hhead
  rw [twoFiles_slot hname] at hhead
  have hfirst : fs.head? = some 2 := hhead
  obtain ⟨rest, rfl⟩ := List.head?_eq_some_iff.mp hfirst
  obtain rfl : [] = rest := twoFiles_chain.1.unique hchain.1
  have hfits : ∀ c < 5, EntryFits floppyDrive c := by decide
  have hmark : fatGetEntry floppy 0 2 twoFiles = 4095 := by decide
  have hmarkFits : EntryFits floppyDrive 4095 := by decide +kernel
  refine ⟨fun e he => ?_, fun hne => ?_⟩
  · rw [List.mem_singleton.mp he]
    exact hfits 2 (by decide)
  · rw [List.getLast_singleton, show fatGetEntry floppyDrive.toFatContext 0 2 twoFiles = 4095
      from hmark]
    exact hmarkFits

end LakeOS.Analysis
