import LakeOS.Library.Nibble
import LakeOS.Analysis.FatEntryMap
import Mathlib.Tactic.IntervalCases

/-!
# The nibbles of FAT entries

An entry of a FAT12 table is three nibbles and one of a FAT16 table four, wherever the number
of the cluster puts it, in the table or behind it.  Setting an entry changes its nibbles in
every copy of the table and no others.
-/

set_option autoImplicit false

namespace LakeOS.Analysis

open LakeOS.Library LakeOS.Model

/-! ## Where an entry lies -/

/-- The nibbles of an entry. -/
def entryNibbles (ctx : FatContext) : ℕ :=
  match ctx.type with
  | .fat12 => 3
  | _ => 4

/-- The first nibble of an entry in one copy of the table. -/
def nibbleStart (ctx : FatContext) (k c : ℕ) : ℕ :=
  match ctx.type with
  | .fat12 => 2 * fatEntryOffset ctx k c + c % 2
  | _ => 2 * fatEntryOffset ctx k c

/-- The nibble belongs to the entry in one copy of the table. -/
def CopyNibble (ctx : FatContext) (k c n : ℕ) : Prop :=
  nibbleStart ctx k c ≤ n ∧ n < nibbleStart ctx k c + entryNibbles ctx

/-- The nibble belongs to the entry in some copy of the table. -/
def EntryNibble (ctx : FatContext) (c n : ℕ) : Prop :=
  ∃ k < ctx.bootSector.numFat, CopyNibble ctx k c n

instance (ctx : FatContext) (k c n : ℕ) : Decidable (CopyNibble ctx k c n) :=
  inferInstanceAs (Decidable (_ ∧ _))

instance (ctx : FatContext) (c n : ℕ) : Decidable (EntryNibble ctx c n) :=
  inferInstanceAs (Decidable (∃ k < _, _))

variable {ctx : FatContext} {k k' c c' n v x : ℕ} {d d' : Disk}

/-! ## Entries that are set -/

/-- INTERNAL: the word that is written to a FAT12 table.
SRCLINE: fat.c:81-93 -/
theorem fat12Word_digit (c v : ℕ) {w : ℕ} (hw : w < 65536) {j : ℕ} (hj : j < 4) :
    hexDigit (fat12Word c v w) j =
      if c % 2 ≤ j ∧ j < c % 2 + 3 then hexDigit v (j - c % 2) else hexDigit w j := by
  obtain hpar | hpar := Nat.mod_two_eq_zero_or_one c
  · rw [hpar, fat12Word_even v hpar hw]
    unfold hexDigit
    interval_cases j
    all_goals
      simp
      try omega
  · have hword := fat12Word_odd v w hpar
    rw [hpar]
    generalize fat12Word c v w = word at *
    unfold hexDigit
    interval_cases j
    all_goals
      simp
      omega

/-- **One copy of an entry is set**: its nibbles are the digits of the number.
SRCLINE: fat.c:70-117 -/
theorem nibble_setEntry (htype : ctx.type = .fat12 ∨ ctx.type = .fat16) (k c v : ℕ) (d : Disk)
    (n : ℕ) : (fatSetEntry ctx k c v d).2.nibble n =
      if CopyNibble ctx k c n then hexDigit v (n - nibbleStart ctx k c) else d.nibble n := by
  unfold fatSetEntry CopyNibble nibbleStart entryNibbles
  rcases htype with htype | htype
  · simp only [htype]
    generalize fatEntryOffset ctx k c = off
    rw [Store.nibble_save]
    by_cases hin : 2 * off ≤ n ∧ n < 2 * (off + 2)
    · have hload : d.load 2 off < 65536 := Store.load_lt d 2 off
      have hdigit : hexDigit (d.load 2 off) (n - 2 * off) = d.nibble n := by
        obtain ⟨j, rfl⟩ : ∃ j, n = 2 * off + j := ⟨n - 2 * off, by omega⟩
        have hnibble := fun i => Store.nibble_lt d (2 * off + i)
        have h₀ := hnibble 0
        have h₁ := hnibble 1
        have h₂ := hnibble 2
        have h₃ := hnibble 3
        rw [Nat.add_zero] at h₀
        rw [Nat.add_sub_cancel_left, Store.load_two_eq_nibbles]
        unfold hexDigit
        have hj : j < 4 := by omega
        interval_cases j
        all_goals
          simp
          omega
      rw [if_pos hin, fat12Word_digit c v hload (by omega), hdigit]
      have hiff : (c % 2 ≤ n - 2 * off ∧ n - 2 * off < c % 2 + 3) ↔
          (2 * off + c % 2 ≤ n ∧ n < 2 * off + c % 2 + 3) := by omega
      rw [if_congr hiff rfl rfl, Nat.sub_sub]
    · rw [if_neg hin, if_neg (by omega)]
  · simp only [htype]
    rw [Store.nibble_save]
    have hiff : (2 * fatEntryOffset ctx k c ≤ n ∧ n < 2 * (fatEntryOffset ctx k c + 2)) ↔
        (2 * fatEntryOffset ctx k c ≤ n ∧ n < 2 * fatEntryOffset ctx k c + 4) := by omega
    rw [if_congr hiff rfl rfl]

/-- **All copies of an entry are set to a number of equal digits.** Copies that lie over each
other do not matter then.
SRCLINE: fat.c:119-122 -/
theorem nibble_setEntries (htype : ctx.type = .fat12 ∨ ctx.type = .fat16)
    (hdigits : ∀ j < 4, hexDigit v j = x) (c : ℕ) (d : Disk) (n : ℕ) :
    (fatSetEntries ctx c v d).nibble n = if EntryNibble ctx c n then x else d.nibble n := by
  have hstep : ∀ (d : Disk) (k : ℕ), (fatSetEntry ctx k c v d).2.nibble n =
      if CopyNibble ctx k c n then x else d.nibble n := by
    intro d k
    rw [nibble_setEntry htype]
    by_cases hin : CopyNibble ctx k c n
    · have hlen : entryNibbles ctx ≤ 4 := by
        unfold entryNibbles
        split <;> omega
      have hlt := hin.2
      rw [if_pos hin, if_pos hin, hdigits _ (by omega)]
    · rw [if_neg hin, if_neg hin]
  have hiff : (∃ i ∈ List.range ctx.bootSector.numFat, CopyNibble ctx i c n) ↔
      EntryNibble ctx c n := by
    simp [EntryNibble]
  rw [fatSetEntries, Store.nibble_foldl hstep, if_congr hiff rfl rfl]

theorem nibble_setEntries_zero (htype : ctx.type = .fat12 ∨ ctx.type = .fat16) (c : ℕ)
    (d : Disk) (n : ℕ) : (fatSetEntries ctx c 0x0 d).nibble n =
      if EntryNibble ctx c n then 0 else d.nibble n :=
  nibble_setEntries htype (fun j _ => hexDigit_zero j) c d n

theorem nibble_setEntries_ones (htype : ctx.type = .fat12 ∨ ctx.type = .fat16) (c : ℕ)
    (d : Disk) (n : ℕ) : (fatSetEntries ctx c 0xFFFFFFFF d).nibble n =
      if EntryNibble ctx c n then 15 else d.nibble n := by
  refine nibble_setEntries htype (fun j hj => ?_) c d n
  unfold hexDigit
  interval_cases j
  all_goals rfl

/-! ## Entries that are read -/

/-- An entry is its nibbles.
SRCLINE: fat.c:128-163 -/
theorem fatGetEntry_eq_nibbles (htype : ctx.type = .fat12 ∨ ctx.type = .fat16) (k c : ℕ)
    (d : Disk) : fatGetEntry ctx k c d = d.nibble (nibbleStart ctx k c) +
      16 * d.nibble (nibbleStart ctx k c + 1) + 256 * d.nibble (nibbleStart ctx k c + 2) +
        if entryNibbles ctx = 4 then 4096 * d.nibble (nibbleStart ctx k c + 3) else 0 := by
  unfold fatGetEntry nibbleStart entryNibbles
  have hnibble := Store.nibble_lt d
  rcases htype with htype | htype
  · simp only [htype]
    generalize fatEntryOffset ctx k c = off
    have h₀ := hnibble (2 * off)
    have h₁ := hnibble (2 * off + 1)
    have h₂ := hnibble (2 * off + 2)
    rw [Store.load_two_eq_nibbles]
    obtain hpar | hpar := Nat.mod_two_eq_zero_or_one c
    · have hmask := fun e : ℕ => Nat.and_two_pow_sub_one_eq_mod e 12
      rw [if_neg (by omega), hpar, hmask]
      simp
      omega
    · rw [if_pos (by omega), hpar, Nat.shiftRight_eq_div_pow,
        show 2 * off + 1 + 1 = 2 * off + 2 from rfl, show 2 * off + 1 + 2 = 2 * off + 3 from rfl]
      simp
      omega
  · simp only [htype]
    rw [Store.load_two_eq_nibbles]
    simp

/-- Only the nibbles of an entry count. -/
theorem fatGetEntry_congr_nibbles (htype : ctx.type = .fat12 ∨ ctx.type = .fat16)
    (hsame : ∀ n, CopyNibble ctx k c n → d'.nibble n = d.nibble n) :
    fatGetEntry ctx k c d' = fatGetEntry ctx k c d := by
  have hlen : 3 ≤ entryNibbles ctx := by
    unfold entryNibbles
    split <;> omega
  rw [fatGetEntry_eq_nibbles htype, fatGetEntry_eq_nibbles htype, hsame _ ⟨by omega, by omega⟩,
    hsame _ ⟨by omega, by omega⟩, hsame _ ⟨by omega, by omega⟩]
  congr 1
  split
  next hfour => rw [hsame _ ⟨by omega, by omega⟩]
  next => rfl

/-- And they are what is read. -/
theorem nibble_of_get_eq (htype : ctx.type = .fat12 ∨ ctx.type = .fat16)
    (hsame : fatGetEntry ctx k c d' = fatGetEntry ctx k c d) (hn : CopyNibble ctx k c n) :
    d'.nibble n = d.nibble n := by
  rw [fatGetEntry_eq_nibbles htype, fatGetEntry_eq_nibbles htype] at hsame
  obtain ⟨j, rfl⟩ := Nat.exists_eq_add_of_le hn.1
  have hlt := hn.2
  have hlen : entryNibbles ctx = 3 ∨ entryNibbles ctx = 4 := by
    unfold entryNibbles
    split <;> omega
  have hdigit := fun (m : Disk) (i : ℕ) => Store.nibble_lt m (nibbleStart ctx k c + i)
  have h₀ := hdigit d 0
  have h₁ := hdigit d 1
  have h₂ := hdigit d 2
  have h₃ := hdigit d 3
  have h₀' := hdigit d' 0
  have h₁' := hdigit d' 1
  have h₂' := hdigit d' 2
  have h₃' := hdigit d' 3
  rw [Nat.add_zero] at h₀ h₀'
  rcases hlen with hlen | hlen
  · rw [hlen] at hsame hlt
    have hj : j < 3 := by omega
    interval_cases j
    all_goals
      simp at hsame ⊢
      omega
  · rw [hlen] at hsame hlt
    have hj : j < 4 := by omega
    interval_cases j
    all_goals
      simp at hsame ⊢
      omega

/-! ## Entries in the table -/

namespace FatTables

/-- INTERNAL: the entries of a table follow each other. -/
theorem nibbleStart_eq (h : FatTables ctx) (hk : k < ctx.bootSector.numFat)
    (hc : InTable ctx c) :
    nibbleStart ctx k c = 2 * copyStart ctx k + entryNibbles ctx * c := by
  have hoff := h.fatEntryOffset_eq hk hc
  unfold nibbleStart entryNibbles
  unfold entryStart at hoff
  rcases h.type with htype | htype
  · simp only [htype] at hoff ⊢
    omega
  · simp only [htype] at hoff ⊢
    omega

/-- INTERNAL: an entry ends within its table. -/
theorem nibbles_le (h : FatTables ctx) (hc : InTable ctx c) :
    entryNibbles ctx * c + entryNibbles ctx ≤ 2 * fatBytes ctx := by
  unfold InTable entryStart at hc
  unfold entryNibbles
  rcases h.type with htype | htype
  · simp only [htype] at hc ⊢
    omega
  · simp only [htype] at hc ⊢
    omega

/-- **The entries of the tables have no nibble in common.** -/
theorem nibble_apart (h : FatTables ctx) (hk : k < ctx.bootSector.numFat)
    (hk' : k' < ctx.bootSector.numFat) (hc : InTable ctx c) (hc' : InTable ctx c')
    (hn : CopyNibble ctx k c n) (hn' : CopyNibble ctx k' c' n) : k = k' ∧ c = c' := by
  have hlen : entryNibbles ctx = 3 ∨ entryNibbles ctx = 4 := by
    unfold entryNibbles
    split <;> omega
  have hend := h.nibbles_le hc
  have hend' := h.nibbles_le hc'
  unfold CopyNibble at hn hn'
  rw [h.nibbleStart_eq hk hc] at hn
  rw [h.nibbleStart_eq hk' hc'] at hn'
  have hcopy : k = k' := by
    rcases Nat.lt_trichotomy k k' with hlt | heq | hgt
    · have := copyStart_le ctx hlt
      omega
    · exact heq
    · have := copyStart_le ctx hgt
      omega
  subst hcopy
  refine ⟨rfl, ?_⟩
  rcases hlen with hlen | hlen
  · rw [hlen] at hn hn'
    omega
  · rw [hlen] at hn hn'
    omega

end FatTables

end LakeOS.Analysis
