import LakeOS.Analysis.FreeChain
import LakeOS.Analysis.VnodeCache

/-!
# Scans of a directory

`FAT_file_entry`, `FAT_write_entry` and `FAT_remove` go through the entries of a directory
one by one.  Each stops where its own condition holds: at an entry of the name that is no
volume label, at a free entry, at every entry of the name.
-/

set_option autoImplicit false

namespace LakeOS.Analysis

open LakeOS.Library LakeOS.Model

/-! ## Names -/

/-- A base of one to eight characters and an extension of at most three.  A name that
begins with `0xE5` is stored otherwise.
SRCLINE: fat.h:443-465 -/
def ValidName (name : CString) : Prop :=
  ∃ base ext : List Byte, 1 ≤ base.length ∧ base.length ≤ 8 ∧ ext.length ≤ 3 ∧
    (∀ c ∈ base ++ ext, c ≠ 0 ∧ c ≠ dot) ∧ base.head? ≠ some 0xE5 ∧
    (name = base ∧ ext = [] ∨ name = base ++ dot :: ext)

theorem ValidName.length_le {name : CString} (h : ValidName name) : name.length ≤ 12 := by
  obtain ⟨base, ext, -, hbase, hext, -, -, ⟨rfl, -⟩ | rfl⟩ := h
  · omega
  · rw [List.length_append, List.length_cons]
    omega

/-- INTERNAL: the base of a name. -/
theorem takeWhile_base {base tail : List Byte} (hlen : base.length ≤ 8)
    (hbase : ∀ c ∈ base, c ≠ dot) (htail : tail = [] ∨ ∃ ext, tail = dot :: ext) :
    ((base ++ tail).take 8).takeWhile (· != dot) = base := by
  have hall : ∀ c ∈ base, (c != dot) = true := fun c hc => bne_iff_ne.mpr (hbase c hc)
  rw [List.take_append, List.take_of_length_le hlen, List.takeWhile_append_of_pos hall]
  obtain rfl | ⟨ext, rfl⟩ := htail
  · simp
  · cases 8 - base.length with
    | zero => simp
    | succ n => simp

/-- **The stored name** has eleven bytes, and is not that of a free entry. -/
theorem ValidName.conv {name : CString} (h : ValidName name) :
    (fatConvFname name).length = 11 ∧ entryIsFree (fatConvFname name) = false := by
  obtain ⟨base, ext, hpos, hbase, hext, hchars, hfirst, hname⟩ := h
  obtain ⟨tail, rfl, htail, hle⟩ : ∃ tail, name = base ++ tail ∧
      (tail = [] ∨ ∃ ext, tail = dot :: ext) ∧ tail.length ≤ 4 := by
    obtain ⟨rfl, -⟩ | rfl := hname
    · exact ⟨[], (List.append_nil _).symm, .inl rfl, Nat.zero_le _⟩
    · exact ⟨dot :: ext, rfl, .inr ⟨ext, rfl⟩, by rw [List.length_cons]; omega⟩
  obtain ⟨b, base, rfl⟩ := List.exists_cons_of_length_pos hpos
  have hb := hchars b (by simp)
  have hwhile := takeWhile_base hbase (fun c hc => (hchars c (List.mem_append_left _ hc)).2) htail
  have hsecond : ¬ ((b :: base ++ tail).head? = some dot ∧ (b :: base ++ tail).length < 3) := by
    rintro ⟨hdot, -⟩
    exact hb.2 (Option.some.inj hdot)
  unfold fatConvFname
  rw [if_neg hsecond]
  dsimp only
  rw [hwhile]
  constructor
  · simp only [List.length_append, List.length_cons, List.length_replicate, List.length_drop,
      List.length_take] at *
    omega
  · have hne : b ≠ 0xE5 := fun heq => hfirst (congrArg some heq)
    simp [entryIsFree]
    exact ⟨hb.1, hne⟩

/-- The base of a name. -/
def baseOf (name : CString) : List Byte := (name.take 8).takeWhile (· != dot)

/-- The length of what is written.  The extension is not bounded by what is left of the
buffer. -/
theorem length_fatConvFname (name : CString) :
    (fatConvFname name).length =
      max 11 (8 + (min 11 name.length - ((baseOf name).length + 1))) := by
  unfold fatConvFname
  by_cases hdots : name.head? = some dot ∧ name.length < 3
  · rw [if_pos hdots]
    simp
    omega
  · have hbase : (baseOf name).length ≤ 8 :=
      (List.takeWhile_prefix _).length_le.trans (List.length_take_le 8 name)
    rw [if_neg hdots]
    simp only [List.length_append, List.length_replicate, List.length_drop, List.length_take]
    rw [baseOf] at *
    omega

/-- INTERNAL: `FAT_lookup` copies eleven characters of the name, and no other counts. -/
theorem fatConvFname_take (name : CString) :
    fatConvFname (name.take 11) = fatConvFname name := by
  by_cases hdots : name.head? = some dot ∧ name.length < 3
  · rw [List.take_of_length_le (show name.length ≤ 11 by omega)]
  · have hdots' : ¬ ((name.take 11).head? = some dot ∧ (name.take 11).length < 3) := by
      rw [List.head?_take, if_neg (by decide), List.length_take]
      exact fun hand => hdots ⟨hand.1, by omega⟩
    unfold fatConvFname
    rw [if_neg hdots, if_neg hdots']
    simp only [List.take_take]
    rfl

/-! ## Entries with a name -/

section

variable (ctx : FatContext) (cs : List ℕ) (d : Disk) (k : ℕ)

/-- The name of an entry. -/
def slotName : List Byte := (dirSlot ctx cs d k).take 11

/-- The entry is a volume label. -/
def isLabel : Bool := hasFlag (entryAttributes (dirSlot ctx cs d k)) entryAttrVolumeId

/-- An entry that `FAT_file_entry` takes for the file. -/
def IsNamed (name : CString) (k : ℕ) : Prop :=
  slotName ctx cs d k = fatConvFname name ∧ isLabel ctx cs d k = false

/-- An entry of a file, and the file's first cluster. -/
structure FileAt (name : CString) (c : ℕ) : Prop where
  valid : ValidName name
  isNamed : IsNamed ctx cs d name k
  cluster : entryFirstClusterLow (dirSlot ctx cs d k) = c

/-- The first entry of a file. -/
structure FirstFileAt (name : CString) (c : ℕ) : Prop extends FileAt ctx cs d k name c where
  first : ∀ j < k, ∀ c', ¬ FileAt ctx cs d j name c'

end

/-- The bytes of an entry that `FAT_file_entry` and `FAT_lookup` use: its name, attributes
and first cluster. -/
def UsedByte (o : ℕ) : Prop := o < 12 ∨ o = 26 ∨ o = 27

variable {ctx : FatContext} {d d' : Disk} {start k : ℕ} {cs : List ℕ} {junk : Uninit}

theorem slotName_eq (ctx : FatContext) (cs : List ℕ) (d : Disk) (k : ℕ) :
    slotName ctx cs d k = d.read (slotStart ctx cs k) 11 := by
  have hread := drop_take_read d (a := slotStart ctx cs k) (show 0 + 11 ≤ 32 by decide)
  rwa [List.drop_zero, Nat.add_zero] at hread

theorem entryField_slot {off len : ℕ} (h : off + len ≤ 32) (ctx : FatContext) (cs : List ℕ)
    (d : Disk) (k : ℕ) :
    entryField (dirSlot ctx cs d k) off len = leValue (d.read (slotStart ctx cs k + off) len) := by
  rw [entryField, dirSlot, drop_take_read d h]

/-- Only the bytes that are used count. -/
theorem slot_congr (hsame : ∀ o, UsedByte o →
    d' (slotStart ctx cs k + o) = d (slotStart ctx cs k + o)) :
    slotName ctx cs d' k = slotName ctx cs d k ∧ isLabel ctx cs d' k = isLabel ctx cs d k ∧
      entryFirstClusterLow (dirSlot ctx cs d' k) = entryFirstClusterLow (dirSlot ctx cs d k) := by
  have hread : ∀ off len, (∀ o, off ≤ o → o < off + len → UsedByte o) →
      d'.read (slotStart ctx cs k + off) len = d.read (slotStart ctx cs k + off) len := by
    intro off len hused
    refine Store.read_congr fun x hx hx' => ?_
    have hbyte := hsame (x - slotStart ctx cs k) (hused _ (by omega) (by omega))
    rwa [Nat.add_sub_of_le (by omega)] at hbyte
  have hname := hread 0 11 fun o _ ho => .inl (by omega)
  rw [Nat.add_zero] at hname
  refine ⟨?_, ?_, ?_⟩
  · rw [slotName_eq, slotName_eq, hname]
  · unfold isLabel entryAttributes
    rw [entryField_slot (by decide), entryField_slot (by decide),
      hread 11 1 fun o _ ho => .inl (by omega)]
  · unfold entryFirstClusterLow
    rw [entryField_slot (by decide), entryField_slot (by decide),
      hread 26 2 fun o _ ho => .inr (by omega)]

theorem FileAt.congr {name : CString} {c : ℕ} (hsame : ∀ o, UsedByte o →
    d' (slotStart ctx cs k + o) = d (slotStart ctx cs k + o)) :
    FileAt ctx cs d' k name c ↔ FileAt ctx cs d k name c := by
  obtain ⟨hname, hlabel, hcluster⟩ := slot_congr hsame
  constructor
  · rintro ⟨hvalid, ⟨h₁, h₂⟩, h₃⟩
    exact ⟨hvalid, ⟨hname ▸ h₁, hlabel ▸ h₂⟩, hcluster ▸ h₃⟩
  · rintro ⟨hvalid, ⟨h₁, h₂⟩, h₃⟩
    exact ⟨hvalid, ⟨hname.trans h₁, hlabel.trans h₂⟩, hcluster.trans h₃⟩

/-- A free entry is free by its name. -/
theorem entryIsFree_slot (ctx : FatContext) (cs : List ℕ) (d : Disk) (k : ℕ) :
    entryIsFree (dirSlot ctx cs d k) = entryIsFree (slotName ctx cs d k) := by
  unfold entryIsFree slotName
  rw [List.head?_take, if_neg (by decide)]

theorem FileAt.not_free {name : CString} {c : ℕ} (h : FileAt ctx cs d k name c) :
    entryIsFree (dirSlot ctx cs d k) = false := by
  rw [entryIsFree_slot, h.isNamed.1]
  exact h.valid.conv.2

/-- INTERNAL: how the scans compare names. -/
theorem memcmp_slot {name : CString} (hvalid : ValidName name) (ctx : FatContext) (cs : List ℕ)
    (d : Disk) (k : ℕ) :
    memcmp (dirSlot ctx cs d k) (fatConvFname name) 11 = 0 ↔
      slotName ctx cs d k = fatConvFname name := by
  rw [memcmp_eq_zero_iff _ _ _ (by rw [length_dirSlot]; decide) hvalid.conv.1.ge,
    List.take_of_length_le hvalid.conv.1.le]
  rfl

/-! ## `FAT_file_entry` -/

namespace SectorLayout

variable (h : SectorLayout ctx)
include h

/-- INTERNAL: `FAT_file_entry` from an entry on. -/
theorem fatFileEntryLoop_spec (hdir : DirClusters ctx d start cs)
    (hjunk : start < 2 → junk.lastFreeCluster ≠ 0) {name : CString} (hvalid : ValidName name)
    {fuel : ℕ} (hk : k < slotCount ctx cs) (hfuel : slotCount ctx cs - k < fuel) :
    ∃ e, fatFileEntryLoop ctx junk start (fatConvFname name) d fuel k 0 (dirSlot ctx cs d k) =
        some e ∧
      ((∃ j < slotCount ctx cs, e = dirSlot ctx cs d j ∧ IsNamed ctx cs d name j ∧
          ∀ i, k ≤ i → i < j → ¬ IsNamed ctx cs d name i) ∨
        e = zeroEntry ∧ ∀ i, k ≤ i → i < slotCount ctx cs → ¬ IsNamed ctx cs d name i) := by
  have hcount := h.slotCount_lt hdir
  induction fuel generalizing k with
  | zero => exact absurd hfuel (Nat.not_lt_zero _)
  | succ fuel ih =>
      rw [fatFileEntryLoop, if_neg (by decide)]
      by_cases hmatch : IsNamed ctx cs d name k
      · rw [if_pos ⟨(memcmp_slot hvalid ctx cs d k).mpr hmatch.1, by
          rw [Bool.not_eq_true']; exact hmatch.2⟩]
        exact ⟨_, rfl, .inl ⟨k, hk, rfl, hmatch, fun i hi hlt => absurd hi (by omega)⟩⟩
      · have hpassed : ∀ i, k ≤ i → (k + 1 ≤ i → ¬ IsNamed ctx cs d name i) →
            ¬ IsNamed ctx cs d name i := by
          intro i hi hrest
          obtain rfl | hgt := Nat.eq_or_lt_of_le hi
          · exact hmatch
          · exact hrest hgt
        rw [if_neg fun hand => hmatch ⟨(memcmp_slot hvalid ctx cs d k).mp hand.1, by
          have hlabel := hand.2
          rw [Bool.not_eq_true'] at hlabel
          exact hlabel⟩, add32_eq (by omega)]
        by_cases hnext : k + 1 < slotCount ctx cs
        · obtain ⟨e, hloop, hcases⟩ := ih hnext (by omega)
          rw [h.fatDirEntry_slot hdir hnext, Option.bind_eq_bind, Option.bind_some]
          refine ⟨e, hloop, hcases.imp ?_ ?_⟩
          · rintro ⟨j, hj, he, hnamed, hbefore⟩
            exact ⟨j, hj, he, hnamed, fun i hi hlt =>
              hpassed i hi fun hgt => hbefore i hgt hlt⟩
          · rintro ⟨he, hnone⟩
            exact ⟨he, fun i hi hlt => hpassed i hi fun hgt => hnone i hgt hlt⟩
        · obtain hend : k + 1 = slotCount ctx cs := by omega
          obtain ⟨fail, hfail, hpast⟩ := h.fatDirEntry_end hdir hjunk
          obtain ⟨fuel, rfl⟩ := Nat.exists_eq_add_of_le' (show 1 ≤ fuel by omega)
          rw [hend, hpast, Option.bind_eq_bind, Option.bind_some, fatFileEntryLoop, if_pos hfail]
          exact ⟨_, rfl, .inr ⟨rfl, fun i hi hlt =>
            hpassed i hi fun hgt => absurd hgt (by omega)⟩⟩

/-- **`FAT_lookup`.**  It finds the first cluster of the first entry of the name, unless it has
none or there is no such entry.
SRCLINE: fat.c:812-835 -/
theorem fatLookup_spec {dir : FatHandle} (hdir : DirClusters ctx d dir.startCluster cs)
    (hjunk : dir.startCluster < 2 → junk.lastFreeCluster ≠ 0) {name : CString}
    (hvalid : ValidName name) :
    ∃ found, fatLookup ctx junk dir name d = some found ∧
      ((∃ j < slotCount ctx cs, ∃ c, FirstFileAt ctx cs d j name c ∧
          found.map (·.startCluster) = if c ≠ 0 then some c else none) ∨
        found = none ∧ ∀ j < slotCount ctx cs, ∀ c, ¬ FileAt ctx cs d j name c) := by
  have hcount := h.slotCount_lt hdir
  have hpos := h.slotCount_pos hdir
  obtain ⟨e, hloop, hcases⟩ := h.fatFileEntryLoop_spec hdir hjunk hvalid hpos
    (show slotCount ctx cs - 0 < fatFuel by unfold fatFuel; omega)
  have hentry : fatFileEntry ctx junk ⟨dir.startCluster, 0, 0, name.take 11⟩ d = some e := by
    rw [fatFileEntry, h.fatDirEntry_slot hdir hpos, Option.bind_eq_bind, Option.bind_some,
      fatConvFname_take]
    exact hloop
  rw [fatLookup, hentry, Option.bind_eq_bind, Option.bind_some]
  refine ⟨_, rfl, ?_⟩
  obtain ⟨j, hj, rfl, hnamed, hbefore⟩ | ⟨rfl, hnone⟩ := hcases
  · refine .inl ⟨j, hj, _, ⟨⟨hvalid, hnamed, rfl⟩, fun i hi c' hfile => ?_⟩, ?_⟩
    · exact hbefore i (Nat.zero_le i) hi hfile.isNamed
    · split
      next => rfl
      next => rfl
  · exact .inr ⟨rfl, fun j hj c hfile => hnone j (Nat.zero_le j) hj hfile.isNamed⟩

/-! ## `FAT_write_entry` -/

omit h in
/-- INTERNAL: of the free entries one is the first. -/
theorem exists_first_free
    (hfree : ∃ k < slotCount ctx cs, entryIsFree (dirSlot ctx cs d k)) :
    ∃ k < slotCount ctx cs, entryIsFree (dirSlot ctx cs d k) ∧
      ∀ j < k, ¬ entryIsFree (dirSlot ctx cs d j) := by
  classical
  obtain ⟨hk, hfreek⟩ := Nat.find_spec hfree
  refine ⟨Nat.find hfree, hk, hfreek, fun j hj hfreej => ?_⟩
  exact Nat.find_min hfree hj ⟨hj.trans hk, hfreej⟩

/-- INTERNAL: `FAT_write_entry` at an entry that is taken. -/
theorem fatWriteEntryLoop_taken (hdir : DirClusters ctx d start cs) (hk : k < slotCount ctx cs)
    (htaken : ¬ entryIsFree (dirSlot ctx cs d k)) (entry read : List Byte) (fuel : ℕ) :
    fatWriteEntryLoop ctx junk start entry (fuel + 1) k 0 read d =
      fatWriteEntryLoop ctx junk start entry fuel (k + 1) 0 (dirSlot ctx cs d k) d := by
  have hcount := h.slotCount_lt hdir
  rw [fatWriteEntryLoop, fatExtendAtEnd, if_neg (by decide), Option.bind_eq_bind,
    Option.bind_some, h.fatDirEntry_slot hdir hk, Option.bind_eq_bind, Option.bind_some,
    Option.getD_some, if_neg htaken, add32_eq (by omega)]

/-- INTERNAL: `FAT_write_entry` goes past the entries that are taken. -/
theorem fatWriteEntryLoop_passes (junk : Uninit) (hdir : DirClusters ctx d start cs)
    (entry : List Byte) {i n : ℕ} (hn : i + n ≤ slotCount ctx cs)
    (htaken : ∀ j, i ≤ j → j < i + n → ¬ entryIsFree (dirSlot ctx cs d j)) (read : List Byte) :
    ∃ read', (entryIsFree read' → entryIsFree read) ∧ ∀ fuel,
      fatWriteEntryLoop ctx junk start entry (fuel + n) i 0 read d =
        fatWriteEntryLoop ctx junk start entry fuel (i + n) 0 read' d := by
  induction n generalizing i read with
  | zero => exact ⟨read, id, fun fuel => rfl⟩
  | succ n ih =>
      have hnot := htaken i le_rfl (by omega)
      obtain ⟨read', hread', hrun⟩ := ih (show i + 1 + n ≤ slotCount ctx cs by omega)
        (fun j hj hlt => htaken j (by omega) (by omega)) (dirSlot ctx cs d i)
      refine ⟨read', fun hfree => absurd (hread' hfree) hnot, fun fuel => ?_⟩
      rw [← Nat.add_assoc, h.fatWriteEntryLoop_taken hdir (by omega) hnot, hrun,
        Nat.add_right_comm i 1 n, Nat.add_assoc i n 1]

/-- INTERNAL: `FAT_write_entry` at a free entry. -/
theorem fatWriteEntryLoop_free (hdir : DirClusters ctx d start cs) (hk : k < slotCount ctx cs)
    (hfree : entryIsFree (dirSlot ctx cs d k)) (entry read : List Byte) (fuel : ℕ) :
    fatWriteEntryLoop ctx junk start entry (fuel + 1) k 0 read d =
      some (d.write (add32 (fatClusToOff ctx start) (mul32 k sizeofShortDirEntry)) entry) := by
  rw [fatWriteEntryLoop, fatExtendAtEnd, if_neg (by decide), Option.bind_eq_bind,
    Option.bind_some, h.fatDirEntry_slot hdir hk, Option.bind_eq_bind, Option.bind_some,
    Option.getD_some, if_pos hfree]

/-- INTERNAL: `FAT_write_entry` from the first entry on. -/
theorem fatWriteEntry_eq (hdir : DirClusters ctx d start cs) (entry : List Byte) :
    fatWriteEntry ctx junk start entry d =
      fatWriteEntryLoop ctx junk start entry fatFuel 0 0 (dirSlot ctx cs d 0) d := by
  rw [fatWriteEntry, h.fatDirEntry_slot hdir (h.slotCount_pos hdir), Option.bind_eq_bind,
    Option.bind_some]
  rfl

/-- **`FAT_write_entry`** looks for the first free entry, and stores behind the first cluster.
SRCLINE: fat.c:558-579 -/
theorem fatWriteEntry_first (hdir : DirClusters ctx d start cs) (hk : k < slotCount ctx cs)
    (hfree : entryIsFree (dirSlot ctx cs d k))
    (hfirst : ∀ j < k, ¬ entryIsFree (dirSlot ctx cs d j)) (entry : List Byte) :
    fatWriteEntry ctx junk start entry d =
      some (d.write (add32 (fatClusToOff ctx start) (mul32 k sizeofShortDirEntry)) entry) := by
  have hcount := h.slotCount_lt hdir
  obtain ⟨read, -, hrun⟩ := h.fatWriteEntryLoop_passes junk hdir entry
    (show 0 + k ≤ slotCount ctx cs by omega) (fun j _ hlt => hfirst j (by omega))
    (dirSlot ctx cs d 0)
  obtain ⟨fuel, hfuel⟩ : ∃ fuel, fatFuel = fuel + 1 + k :=
    ⟨fatFuel - 1 - k, by unfold fatFuel; omega⟩
  rw [h.fatWriteEntry_eq hdir, hfuel, hrun, Nat.zero_add]
  exact h.fatWriteEntryLoop_free hdir hk hfree entry read fuel

/-- INTERNAL: where the entry is read and where it is stored are the same. -/
theorem fatWriteEntry_spec (hdir : DirClusters ctx d start cs) (hk : k < slotCount ctx cs)
    (hfree : entryIsFree (dirSlot ctx cs d k))
    (hfirst : ∀ j < k, ¬ entryIsFree (dirSlot ctx cs d j))
    (hplace : add32 (fatClusToOff ctx start) (mul32 k sizeofShortDirEntry) = slotStart ctx cs k)
    (entry : List Byte) :
    fatWriteEntry ctx junk start entry d = some (d.write (slotStart ctx cs k) entry) := by
  rw [h.fatWriteEntry_first hdir hk hfree hfirst, hplace]

end SectorLayout

end LakeOS.Analysis
