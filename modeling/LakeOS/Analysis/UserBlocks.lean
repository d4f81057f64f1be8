import LakeOS.Library.Extent
import LakeOS.Model.Mmap

/-!
# The list of user blocks

A well-formed list is in address order, its blocks are disjoint, page-aligned, nonempty
and below `0xC0000000`.  The operations of `umm.c` are described on such lists: where
`umap_pages` puts a block, what `ualloc_pages` finds, which block `umm_unmap_pages`
removes, and what `umm_unmap_page` leaves of a block.
-/

set_option autoImplicit false

namespace LakeOS.Analysis

open LakeOS.Library LakeOS.Model

/-- The addresses of a block. -/
def ummExtent (b : UmmBlock) : Extent := ⟨b.start, b.len⟩

/-- A block on its own: page-aligned, nonempty and in user memory. -/
structure PageBlock (b : UmmBlock) : Prop where
  start_dvd : 0x1000 ∣ b.start
  len_dvd : 0x1000 ∣ b.len
  len_pos : 0 < b.len
  stop_le : b.start + b.len ≤ userMemoryEnd

/-- The list of a process. -/
structure WellFormed (blocks : List UmmBlock) : Prop where
  pages : ∀ b ∈ blocks, PageBlock b
  ascending : Extent.Ascending (blocks.map ummExtent)

variable {blocks as bs : List UmmBlock} {b new : UmmBlock}

theorem wellFormed_nil : WellFormed [] := ⟨by simp, List.Pairwise.nil⟩

theorem wellFormed_singleton (hb : PageBlock b) : WellFormed [b] :=
  ⟨by simpa using hb, List.pairwise_singleton _ _⟩

/-- INTERNAL: address order around one block. -/
theorem ascending_blocks_middle : Extent.Ascending ((as ++ b :: bs).map ummExtent) ↔
    Extent.Ascending ((as ++ bs).map ummExtent) ∧
      (∀ a ∈ as, a.start + a.len ≤ b.start) ∧ ∀ c ∈ bs, b.start + b.len ≤ c.start := by
  rw [List.map_append, List.map_cons, Extent.ascending_middle, List.map_append]
  simp [Extent.stop, ummExtent]

/-- INTERNAL: what holds of all blocks, around one of them. -/
theorem forall_blocks_middle (P : UmmBlock → Prop) :
    (∀ c ∈ as ++ b :: bs, P c) ↔ (∀ c ∈ as ++ bs, P c) ∧ P b := by
  simp only [List.forall_mem_append, List.forall_mem_cons]
  tauto

/-- A list around one of its blocks. -/
theorem wellFormed_middle :
    WellFormed (as ++ b :: bs) ↔
      WellFormed (as ++ bs) ∧ PageBlock b ∧ (∀ a ∈ as, a.start + a.len ≤ b.start) ∧
        ∀ c ∈ bs, b.start + b.len ≤ c.start := by
  constructor
  · rintro ⟨hp, ha⟩
    obtain ⟨hp', hb⟩ := (forall_blocks_middle _).mp hp
    obtain ⟨ha', hrest⟩ := ascending_blocks_middle.mp ha
    exact ⟨⟨hp', ha'⟩, hb, hrest⟩
  · rintro ⟨⟨hp, ha⟩, hb, hrest⟩
    exact ⟨(forall_blocks_middle _).mpr ⟨hp, hb⟩, ascending_blocks_middle.mpr ⟨ha, hrest⟩⟩

theorem wellFormed_cons :
    WellFormed (b :: bs) ↔ WellFormed bs ∧ PageBlock b ∧ ∀ c ∈ bs, b.start + b.len ≤ c.start := by
  have h : WellFormed ([] ++ b :: bs) ↔ _ := wellFormed_middle
  simpa using h

theorem WellFormed.stop_eq (h : WellFormed blocks) (hb : b ∈ blocks) :
    add32 b.start b.len = b.start + b.len := by
  have := (h.pages b hb).stop_le
  exact add32_eq (by unfold userMemoryEnd at this; omega)

/-- Blocks anywhere in the address space: page-aligned, nonempty, in address order and
disjoint, and none of them wraps around. -/
structure Ordered (blocks : List UmmBlock) : Prop where
  aligned : ∀ b ∈ blocks, 0x1000 ∣ b.start ∧ 0x1000 ∣ b.len
  len_pos : ∀ b ∈ blocks, 0 < b.len
  stop_lt : ∀ b ∈ blocks, b.start + b.len < 2 ^ 32
  ascending : Extent.Ascending (blocks.map ummExtent)

theorem WellFormed.ordered (h : WellFormed blocks) : Ordered blocks where
  aligned b hb := ⟨(h.pages b hb).start_dvd, (h.pages b hb).len_dvd⟩
  len_pos b hb := (h.pages b hb).len_pos
  stop_lt b hb := Nat.lt_of_le_of_lt (h.pages b hb).stop_le (by decide)
  ascending := h.ascending

theorem ordered_middle :
    Ordered (as ++ b :: bs) ↔ Ordered (as ++ bs) ∧
      (0x1000 ∣ b.start ∧ 0x1000 ∣ b.len) ∧ 0 < b.len ∧ b.start + b.len < 2 ^ 32 ∧
        (∀ a ∈ as, a.start + a.len ≤ b.start) ∧ ∀ c ∈ bs, b.start + b.len ≤ c.start := by
  constructor
  · rintro ⟨haligned, hpos, hstop, hascending⟩
    obtain ⟨hrest, hbelow, habove⟩ := ascending_blocks_middle.mp hascending
    obtain ⟨haligned', hb⟩ := (forall_blocks_middle _).mp haligned
    obtain ⟨hpos', hbpos⟩ := (forall_blocks_middle _).mp hpos
    obtain ⟨hstop', hbstop⟩ := (forall_blocks_middle _).mp hstop
    exact ⟨⟨haligned', hpos', hstop', hrest⟩, hb, hbpos, hbstop, hbelow, habove⟩
  · rintro ⟨⟨haligned, hpos, hstop, hascending⟩, hb, hbpos, hbstop, hbelow, habove⟩
    exact ⟨(forall_blocks_middle _).mpr ⟨haligned, hb⟩, (forall_blocks_middle _).mpr ⟨hpos, hbpos⟩,
      (forall_blocks_middle _).mpr ⟨hstop, hbstop⟩,
      ascending_blocks_middle.mpr ⟨hascending, hbelow, habove⟩⟩

theorem ordered_cons : Ordered (b :: bs) ↔ Ordered bs ∧ (0x1000 ∣ b.start ∧ 0x1000 ∣ b.len) ∧
    0 < b.len ∧ b.start + b.len < 2 ^ 32 ∧ ∀ c ∈ bs, b.start + b.len ≤ c.start := by
  have h : Ordered ([] ++ b :: bs) ↔ _ := ordered_middle
  simpa using h

theorem ordered_nil : Ordered [] := ⟨by simp, by simp, by simp, List.Pairwise.nil⟩

theorem ordered_append : Ordered (as ++ bs) ↔
    Ordered as ∧ Ordered bs ∧ ∀ a ∈ as, ∀ c ∈ bs, a.start + a.len ≤ c.start := by
  have hasc : Extent.Ascending ((as ++ bs).map ummExtent) ↔
      Extent.Ascending (as.map ummExtent) ∧ Extent.Ascending (bs.map ummExtent) ∧
        ∀ a ∈ as, ∀ c ∈ bs, a.start + a.len ≤ c.start := by
    rw [List.map_append]
    simp [Extent.Ascending, List.pairwise_append, Extent.stop, ummExtent]
  constructor
  · rintro ⟨haligned, hpos, hstop, hascending⟩
    rw [List.forall_mem_append] at haligned hpos hstop
    obtain ⟨has, hbs, hbetween⟩ := hasc.mp hascending
    exact ⟨⟨haligned.1, hpos.1, hstop.1, has⟩, ⟨haligned.2, hpos.2, hstop.2, hbs⟩, hbetween⟩
  · rintro ⟨has, hbs, hbetween⟩
    exact ⟨List.forall_mem_append.mpr ⟨has.aligned, hbs.aligned⟩,
      List.forall_mem_append.mpr ⟨has.len_pos, hbs.len_pos⟩,
      List.forall_mem_append.mpr ⟨has.stop_lt, hbs.stop_lt⟩,
      hasc.mpr ⟨has.ascending, hbs.ascending, hbetween⟩⟩

/-! ## Inserting a block -/

/-- The block `new` does not meet a block of the list. -/
def FreeRange (blocks : List UmmBlock) (lo hi : ℕ) : Prop :=
  ∀ b ∈ blocks, b.start + b.len ≤ lo ∨ hi ≤ b.start

/-- INTERNAL: the walk of `umap_pages` stops where the new block belongs.
SRCLINE: umm.c:23-31 -/
theorem insertBehind_spec (h : Ordered (b :: bs)) (hb : b.start + b.len ≤ new.start)
    (hfree : FreeRange bs new.start (new.start + new.len)) :
    ∃ cs ds, b :: bs = cs ++ ds ∧ insertBehind new b bs = cs ++ new :: ds ∧
      (∀ c ∈ cs, c.start + c.len ≤ new.start) ∧ ∀ d ∈ ds, new.start + new.len ≤ d.start := by
  induction bs generalizing b with
  | nil => exact ⟨[b], [], rfl, rfl, by simpa using hb, by simp⟩
  | cons next rest ih =>
      have hnext := hfree next List.mem_cons_self
      obtain ⟨hrest, -, -, -, -⟩ := ordered_cons.mp h
      obtain ⟨-, -, hlen, hlt, habove⟩ := ordered_cons.mp hrest
      rw [insertBehind, add32_eq hlt]
      split
      next hle =>
        obtain ⟨cs, ds, hsplit, hins, hcs, hds⟩ := ih hrest hle
          fun c hc => hfree c (List.mem_cons_of_mem next hc)
        exact ⟨b :: cs, ds, by rw [hsplit]; rfl, by rw [hins]; rfl,
          List.forall_mem_cons.mpr ⟨hb, hcs⟩, hds⟩
      next hle =>
        have hge : new.start + new.len ≤ next.start := by omega
        refine ⟨[b], next :: rest, rfl, rfl, by simpa using hb,
          List.forall_mem_cons.mpr ⟨hge, fun c hc => ?_⟩⟩
        have := habove c hc
        omega

/-- INTERNAL: a block of a free range goes between the blocks below and above it.
SRCLINE: umm.c:22-40 -/
theorem insertBlock_spec (h : Ordered blocks) (hpos : 0 < new.len)
    (hfree : FreeRange blocks new.start (new.start + new.len)) :
    ∃ as bs, blocks = as ++ bs ∧ insertBlock new blocks = as ++ new :: bs ∧
      (∀ a ∈ as, a.start + a.len ≤ new.start) ∧ ∀ b ∈ bs, new.start + new.len ≤ b.start := by
  cases blocks with
  | nil => exact ⟨[], [], rfl, rfl, by simp, by simp⟩
  | cons first rest =>
      have hfirst := hfree first List.mem_cons_self
      obtain ⟨-, -, hlen, -, habove⟩ := ordered_cons.mp h
      rw [insertBlock]
      split
      next hlt =>
        exact insertBehind_spec h (by omega) fun c hc => hfree c (List.mem_cons_of_mem first hc)
      next hlt =>
        have hge : new.start + new.len ≤ first.start := by omega
        rw [if_pos (by omega)]
        refine ⟨[], first :: rest, rfl, rfl, by simp, List.forall_mem_cons.mpr ⟨hge, ?_⟩⟩
        intro c hc
        have := habove c hc
        omega

/-- **A block of a free range** keeps the list well-formed.
SRCLINE: umm.c:22-40 -/
theorem insertBlock_wellFormed (h : WellFormed blocks) (hnew : PageBlock new)
    (hfree : FreeRange blocks new.start (new.start + new.len)) :
    WellFormed (insertBlock new blocks) ∧
      ∀ b, b ∈ insertBlock new blocks ↔ b = new ∨ b ∈ blocks := by
  obtain ⟨as, bs, rfl, hins, has, hbs⟩ := insertBlock_spec h.ordered hnew.len_pos hfree
  rw [hins]
  refine ⟨wellFormed_middle.mpr ⟨h, hnew, has, hbs⟩, fun b => ?_⟩
  simp only [List.mem_append, List.mem_cons]
  tauto

/-! ## Finding a gap -/

/-- INTERNAL: the end of a block found by the loop is the start of a gap.
SRCLINE: umm.c:82-91 -/
theorem findGap_spec {len start : ℕ} (h : WellFormed (as ++ b :: bs))
    (hgap : findGap len b bs = some start) :
    0x1000 ∣ start ∧ start + len ≤ userMemoryEnd ∧
      FreeRange (as ++ b :: bs) start (start + len) := by
  induction bs generalizing as b with
  | nil =>
      have hpage := h.pages b (by simp)
      have hstop := hpage.stop_le
      have hlt := hpage.len_pos
      obtain ⟨-, -, has, -⟩ := wellFormed_middle.mp h
      rw [findGap, h.stop_eq (by simp), sub32_eq hstop (by decide)] at hgap
      split at hgap
      next hle =>
        obtain rfl : b.start + b.len = start := Option.some.inj hgap
        refine ⟨Nat.dvd_add hpage.start_dvd hpage.len_dvd, by omega, ?_⟩
        intro c hc
        rcases List.mem_append.mp hc with hc | hc
        · have := has c hc
          omega
        · obtain rfl := List.mem_singleton.mp hc
          omega
      next => simp at hgap
  | cons next rest ih =>
      have hpage := h.pages b (by simp)
      have hstop := hpage.stop_le
      have hnext := (h.pages next (by simp)).stop_le
      obtain ⟨-, -, has, hbs⟩ := wellFormed_middle.mp h
      have hbn := hbs next List.mem_cons_self
      unfold userMemoryEnd at hnext
      rw [findGap, h.stop_eq (by simp), sub32_eq hbn (by omega)] at hgap
      have h' : WellFormed ((as ++ [b]) ++ next :: rest) := by rwa [List.append_assoc]
      split at hgap
      next hle =>
        obtain rfl : b.start + b.len = start := Option.some.inj hgap
        have hrest := (wellFormed_middle.mp h').2.2.2
        refine ⟨Nat.dvd_add hpage.start_dvd hpage.len_dvd, by unfold userMemoryEnd; omega, ?_⟩
        intro c hc
        simp only [List.mem_append, List.mem_cons] at hc
        rcases hc with hc | rfl | rfl | hc
        · have := has c hc
          omega
        · omega
        · omega
        · have := hrest c hc
          omega
      next => simpa [List.append_assoc] using ih h' hgap

/-- **First fit** finds a free range; only with an empty list it does not look where user
memory ends.
SRCLINE: umm.c:71-92 -/
theorem firstFitStart_spec {len start : ℕ} (h : WellFormed blocks)
    (hfit : firstFitStart len blocks = some start) :
    0x1000 ∣ start ∧ (blocks = [] ∧ start = 0 ∨ start + len ≤ userMemoryEnd) ∧
      FreeRange blocks start (start + len) := by
  cases blocks with
  | nil =>
      obtain rfl : userMemoryStart = start := Option.some.inj hfit
      exact ⟨Nat.dvd_zero _, .inl ⟨rfl, rfl⟩, by simp [FreeRange]⟩
  | cons first rest =>
      have h' : WellFormed ([] ++ first :: rest) := h
      have hstop := (h.pages first List.mem_cons_self).stop_le
      unfold userMemoryEnd at hstop
      rw [firstFitStart, sub32_zero (by omega)] at hfit
      split at hfit
      next hle =>
        obtain rfl : 0 = start := Option.some.inj hfit
        refine ⟨Nat.dvd_zero _, .inr (by unfold userMemoryEnd; omega), ?_⟩
        refine List.forall_mem_cons.mpr ⟨.inr (by omega), fun c hc => ?_⟩
        have := (wellFormed_cons.mp h).2.2 c hc
        omega
      next =>
        obtain ⟨hdvd, hend, hfree⟩ := findGap_spec h' hfit
        exact ⟨hdvd, .inr hend, hfree⟩

/-! ## Removing a block -/

section

variable {σ : Type} (pages : PageOps σ)

/-- INTERNAL: the loop of `umm_unmap_pages` passes blocks that start elsewhere.
SRCLINE: umm.c:51-65 -/
theorem ummUnmapPagesLoop_of_ne {vaddr : ℕ} {s : σ} (hne : ∀ c ∈ bs, c.start ≠ vaddr) :
    ummUnmapPagesLoop pages vaddr b bs s = some (b :: bs, s) := by
  induction bs generalizing b with
  | nil => rfl
  | cons next rest ih =>
      rw [ummUnmapPagesLoop, if_neg (hne next List.mem_cons_self),
        ih fun c hc => hne c (List.mem_cons_of_mem next hc)]
      rfl

/-- The pages of a block are unmapped.
SRCLINE: umm.c:58-61 -/
def unmapBlock (b : UmmBlock) (s : σ) : σ :=
  (pageRange b.start (add32 b.start b.len)).foldl (fun s i => pages.vmmUnmapPage i s) s

/-- INTERNAL: the loop of `umm_unmap_pages` unlinks the block that starts at `vaddr`; it
goes on behind the block that followed it.
SRCLINE: umm.c:51-65 -/
theorem ummUnmapPagesLoop_middle {a c : UmmBlock} {s : σ} (has : ∀ d ∈ as, d.start ≠ b.start)
    (hbs : ∀ d ∈ bs, d.start ≠ b.start) :
    ummUnmapPagesLoop pages b.start a (as ++ b :: c :: bs) s =
      some (a :: as ++ c :: bs, unmapBlock pages b s) := by
  induction as generalizing a with
  | nil =>
      rw [List.nil_append, ummUnmapPagesLoop, if_pos rfl]
      simp only [ummUnmapPagesLoop_of_ne pages hbs]
      rfl
  | cons d as ih =>
      rw [List.cons_append, ummUnmapPagesLoop, if_neg (has d List.mem_cons_self),
        ih fun e he => has e (List.mem_cons_of_mem d he)]
      rfl

theorem WellFormed.start_lt {c : UmmBlock} (h : WellFormed (as ++ b :: bs)) (hc : c ∈ bs) :
    b.start < c.start := by
  obtain ⟨-, hb, -, hbs⟩ := wellFormed_middle.mp h
  have := hbs c hc
  have := hb.len_pos
  omega

theorem WellFormed.lt_start {a : UmmBlock} (h : WellFormed (as ++ b :: bs)) (ha : a ∈ as) :
    a.start < b.start := by
  obtain ⟨hrest, -, has, -⟩ := wellFormed_middle.mp h
  have := has a ha
  have := (hrest.pages a (List.mem_append_left bs ha)).len_pos
  omega

/-- INTERNAL: `umm_unmap_pages` at a block that is neither first nor last.
SRCLINE: umm.c:50-66 -/
theorem ummUnmapPages_middle {a c : UmmBlock} {s : σ}
    (h : WellFormed (a :: as ++ b :: c :: bs)) :
    ummUnmapPages pages b.start (a :: as ++ b :: c :: bs) s =
      some (a :: as ++ c :: bs, unmapBlock pages b s) := by
  refine ummUnmapPagesLoop_middle pages (fun d hd => ?_) fun d hd => ?_
  · exact Nat.ne_of_lt (h.lt_start (List.mem_cons_of_mem a hd))
  · exact Nat.ne_of_gt (h.start_lt (List.mem_cons_of_mem c hd))

/-- INTERNAL: `umm_unmap_pages` never looks at the start of the first block.
SRCLINE: umm.c:50-66 -/
theorem ummUnmapPages_first {s : σ} (h : WellFormed (b :: bs)) :
    ummUnmapPages pages b.start (b :: bs) s = some (b :: bs, s) := by
  exact ummUnmapPagesLoop_of_ne pages fun d hd =>
    Nat.ne_of_gt (WellFormed.start_lt (show WellFormed ([] ++ b :: bs) from h) hd)

/-! ## Unmapping a page -/

/-- What a call that names the addresses from `lo` to `hi` keeps of a list: a block apart
from them stays as it is, and what is outside of them of another block stays on the list
with its prot and flags. -/
def KeepsOutside (lo hi : ℕ) (old new : List UmmBlock) : Prop :=
  ∀ b ∈ old, (b.start + b.len ≤ lo ∨ hi ≤ b.start → b ∈ new) ∧
    ∀ x ∈ ummExtent b, x < lo ∨ hi ≤ x →
      ∃ c ∈ new, x ∈ ummExtent c ∧ c.prot = b.prot ∧ c.flags = b.flags

theorem KeepsOutside.refl (lo hi : ℕ) (blocks : List UmmBlock) :
    KeepsOutside lo hi blocks blocks :=
  fun b hb => ⟨fun _ => hb, fun _ hx _ => ⟨b, hb, hx, rfl, rfl⟩⟩

theorem KeepsOutside.of_subset {lo hi : ℕ} {old new : List UmmBlock} (h : ∀ b ∈ old, b ∈ new) :
    KeepsOutside lo hi old new :=
  fun b hb => ⟨fun _ => h b hb, fun _ hx _ => ⟨b, h b hb, hx, rfl, rfl⟩⟩

/-- The converse: every block of the new list keeps what it has from a block of the old
one, and is apart from the named addresses. -/
def ComesFrom (lo hi : ℕ) (old new : List UmmBlock) : Prop :=
  ∀ c ∈ new, ∀ x ∈ ummExtent c, (x < lo ∨ hi ≤ x) ∧
    ∃ b ∈ old, x ∈ ummExtent b ∧ b.prot = c.prot ∧ b.flags = c.flags

/-- The first block would not be split at `page`. -/
def NoSplit (blocks : List UmmBlock) (page : ℕ) : Prop :=
  ∀ first ∈ blocks.head?, ¬ (first.start < page ∧ page + 0x1000 < first.start + first.len)

/-- INTERNAL: the first block is replaced by pieces of it. -/
theorem ordered_pieces {iter : UmmBlock} {rest pieces : List UmmBlock}
    (h : Ordered (iter :: rest)) (hpieces : Ordered pieces)
    (hin : ∀ c ∈ pieces, iter.start ≤ c.start ∧ c.start + c.len ≤ iter.start + iter.len) :
    Ordered (pieces ++ rest) ∧ ∀ c ∈ pieces ++ rest, ∃ b ∈ iter :: rest, b.start ≤ c.start := by
  obtain ⟨hrest, -, -, -, hbs⟩ := ordered_cons.mp h
  constructor
  · refine ordered_append.mpr ⟨hpieces, hrest, fun a ha c hc => ?_⟩
    exact Nat.le_trans (hin a ha).2 (hbs c hc)
  · intro c hc
    cases List.mem_append.mp hc with
    | inl hc => exact ⟨iter, List.mem_cons_self, (hin c hc).1⟩
    | inr hc => exact ⟨c, List.mem_cons_of_mem iter hc, Nat.le_refl _⟩

/-- INTERNAL: the pieces cover what is outside of the named addresses. -/
theorem keepsOutside_pieces {lo hi : ℕ} {iter : UmmBlock} {rest : List UmmBlock}
    (pieces : List UmmBlock) (hmeet : lo < iter.start + iter.len ∧ iter.start < hi)
    (hcover : ∀ x, iter.start ≤ x → x < iter.start + iter.len → x < lo ∨ hi ≤ x →
      ∃ c ∈ pieces, (c.start ≤ x ∧ x < c.start + c.len) ∧ c.prot = iter.prot ∧
        c.flags = iter.flags) :
    KeepsOutside lo hi (iter :: rest) (pieces ++ rest) := by
  refine List.forall_mem_cons.mpr ⟨⟨fun hout => by omega, fun x hx hout => ?_⟩, fun b hb => ?_⟩
  · obtain ⟨c, hc, hin, hattr⟩ := hcover x hx.1 hx.2 hout
    exact ⟨c, List.mem_append_left rest hc, hin, hattr⟩
  · have hb' : b ∈ pieces ++ rest := List.mem_append_right pieces hb
    exact ⟨fun _ => hb', fun x hx _ => ⟨b, hb', hx, rfl, rfl⟩⟩

/-- INTERNAL: nothing else is in the pieces. -/
theorem comesFrom_pieces {lo hi : ℕ} {iter : UmmBlock} {rest : List UmmBlock}
    (pieces : List UmmBlock) (hrest : ∀ c ∈ rest, hi ≤ c.start)
    (hin : ∀ c ∈ pieces, (iter.start ≤ c.start ∧ c.start + c.len ≤ iter.start + iter.len) ∧
      (c.start + c.len ≤ lo ∨ hi ≤ c.start) ∧ iter.prot = c.prot ∧ iter.flags = c.flags) :
    ComesFrom lo hi (iter :: rest) (pieces ++ rest) := by
  intro c hc x hx
  have hlo : c.start ≤ x := hx.1
  have hhi : x < c.start + c.len := hx.2
  cases List.mem_append.mp hc with
  | inl hc =>
      obtain ⟨⟨hstart, hstop⟩, hout, hattr⟩ := hin c hc
      have hlo' : iter.start ≤ x := by omega
      have hhi' : x < iter.start + iter.len := by omega
      exact ⟨by omega, iter, List.mem_cons_self, ⟨hlo', hhi'⟩, hattr⟩
  | inr hc =>
      have := hrest c hc
      exact ⟨by omega, c, List.mem_cons_of_mem iter hc, hx, rfl, rfl⟩

/-- INTERNAL: a block loses its first or its last page, and leaves the list when nothing
is left.
SRCLINE: umm.c:183-186, umm.c:192-206 -/
theorem dropEmpty_spec {iter : UmmBlock} {rest : List UmmBlock} (page : ℕ) (iter' : UmmBlock)
    (h : Ordered (iter :: rest)) (hlen : iter'.len = iter.len - 0x1000)
    (hattr : iter'.prot = iter.prot ∧ iter'.flags = iter.flags)
    (hends : iter.start = page ∧ iter'.start = page + 0x1000 ∨
      iter.start + iter.len = page + 0x1000 ∧ iter'.start = iter.start) :
    Ordered (dropEmpty [] iter' rest) ∧
      KeepsOutside page (page + 0x1000) (iter :: rest) (dropEmpty [] iter' rest) ∧
      ComesFrom page (page + 0x1000) (iter :: rest) (dropEmpty [] iter' rest) ∧
      (∀ c ∈ dropEmpty [] iter' rest, ∃ b ∈ iter :: rest, b.start ≤ c.start) ∧
      NoSplit (dropEmpty [] iter' rest) (page + 0x1000) := by
  obtain ⟨-, ⟨hstart, hdvd⟩, hpos, hstop, hbs⟩ := ordered_cons.mp h
  have habove : ∀ c ∈ rest, page + 0x1000 ≤ c.start := by
    intro c hc
    have := hbs c hc
    omega
  have hsplit : NoSplit rest (page + 0x1000) := by
    intro b hb
    have := hbs b (List.mem_of_mem_head? hb)
    omega
  unfold dropEmpty
  split
  next hzero =>
    obtain ⟨hord, hlow⟩ := ordered_pieces h ordered_nil (by simp)
    refine ⟨hord, keepsOutside_pieces [] (by omega) ?_,
      comesFrom_pieces [] habove (by simp), hlow, hsplit⟩
    intro x hlo hhi hout
    omega
  next hzero =>
    have hpiece : Ordered [iter'] :=
      ordered_cons.mpr ⟨ordered_nil, by omega, by omega, by omega, by simp⟩
    obtain ⟨hord, hlow⟩ := ordered_pieces h hpiece
      (by simp only [List.mem_singleton, forall_eq]; omega)
    refine ⟨hord, keepsOutside_pieces [iter'] (by omega) ?_,
      comesFrom_pieces [iter'] habove ?_, hlow, ?_⟩
    · intro x hlo hhi hout
      exact ⟨iter', List.mem_singleton_self _, by omega, hattr⟩
    · simp only [List.mem_singleton, forall_eq]
      exact ⟨by omega, by omega, hattr.1.symm, hattr.2.symm⟩
    · intro b hb
      obtain rfl : iter' = b := by simpa using hb
      omega

/-- INTERNAL: a block loses a page between its first and its last.
SRCLINE: umm.c:188-191 -/
theorem split_spec {iter lower upper : UmmBlock} {rest : List UmmBlock} {page : ℕ}
    (h : Ordered (iter :: rest)) (hdvd : 0x1000 ∣ page) (hlo : iter.start < page)
    (hhi : page + 0x1000 < iter.start + iter.len)
    (hlower : lower = { iter with len := page - iter.start })
    (hupper : upper = { iter with
      start := page + 0x1000
      len := iter.len - (page + 0x1000 - iter.start) }) :
    Ordered (dropEmpty [lower] upper rest) ∧
      KeepsOutside page (page + 0x1000) (iter :: rest) (dropEmpty [lower] upper rest) ∧
      ComesFrom page (page + 0x1000) (iter :: rest) (dropEmpty [lower] upper rest) ∧
      ∀ c ∈ dropEmpty [lower] upper rest, ∃ b ∈ iter :: rest, b.start ≤ c.start := by
  obtain ⟨-, ⟨hstart, hlen⟩, hpos, hstop, hbs⟩ := ordered_cons.mp h
  have hlow : lower.start = iter.start ∧ lower.len = page - iter.start := by simp [hlower]
  have hupp : upper.start = page + 0x1000 ∧
      upper.len = iter.len - (page + 0x1000 - iter.start) := by simp [hupper]
  have hpieces : Ordered [lower, upper] := by
    have hpieceUpp : Ordered [upper] :=
      ordered_cons.mpr ⟨ordered_nil, by omega, by omega, by omega, by simp⟩
    refine ordered_cons.mpr ⟨hpieceUpp, by omega, by omega, by omega, ?_⟩
    simp only [List.mem_singleton, forall_eq]
    omega
  obtain ⟨hord, hbelow⟩ := ordered_pieces h hpieces (by simp; omega)
  rw [dropEmpty, if_neg (by omega)]
  refine ⟨hord, keepsOutside_pieces [lower, upper] (by omega) ?_,
    comesFrom_pieces [lower, upper] ?_ ?_, hbelow⟩
  · intro x hx hx' hout
    by_cases hlt : x < page
    · exact ⟨lower, by simp, by omega, by simp [hlower]⟩
    · exact ⟨upper, by simp, by omega, by simp [hupper]⟩
  · intro c hc
    have := hbs c hc
    omega
  · refine List.forall_mem_cons.mpr ⟨?_, List.forall_mem_singleton.mpr ?_⟩
    · exact ⟨by omega, by omega, by simp [hlower]⟩
    · exact ⟨by omega, by omega, by simp [hupper]⟩

/-- An address of one of the blocks. -/
def Covered (blocks : List UmmBlock) (x : ℕ) : Prop := ∃ b ∈ blocks, x ∈ ummExtent b

/-- Of `n` pages from `lo` on, those that lie in a block are freed, some of them twice:
`umm_split_block` frees a page, and `umm_unmap_page` behind it once more. -/
def FreesCovered (lo n : ℕ) (blocks : List UmmBlock) (s s' : σ) : Prop :=
  ∃ vs : List ℕ, s' = vs.foldl (fun s v => pages.vfreePage v s) s ∧
    ∀ v, v ∈ vs ↔ v ∈ List.range' lo n 0x1000 ∧ Covered blocks v

/-- INTERNAL: the page lies in the block that the loop stops at. -/
theorem FreesCovered.of_mem {page : ℕ} {s s' : σ} (hlo : b.start ≤ page)
    (hhi : page < b.start + b.len)
    (h : s' = pages.vfreePage page s ∨ s' = pages.vfreePage page (pages.vfreePage page s)) :
    FreesCovered pages page 1 (b :: bs) s s' := by
  have hcovered : Covered (b :: bs) page := ⟨b, List.mem_cons_self, hlo, hhi⟩
  have hiff : ∀ v, v = page ↔ v ∈ List.range' page 1 0x1000 ∧ Covered (b :: bs) v := by
    intro v
    rw [List.range'_one, List.mem_singleton]
    exact ⟨fun h => ⟨h, h ▸ hcovered⟩, And.left⟩
  cases h with
  | inl h => exact ⟨[page], h, fun v => List.mem_singleton.trans (hiff v)⟩
  | inr h =>
      refine ⟨[page, page], h, fun v => ?_⟩
      rw [← hiff, List.mem_cons, List.mem_singleton, or_self]

/-- INTERNAL: the page lies in none of the blocks that the loop passes. -/
theorem FreesCovered.cons {page : ℕ} {s s' : σ} (hout : page ∉ ummExtent b)
    (h : FreesCovered pages page 1 bs s s') : FreesCovered pages page 1 (b :: bs) s s' := by
  obtain ⟨vs, hs', hmem⟩ := h
  refine ⟨vs, hs', fun v => (hmem v).trans (and_congr_right fun hv => ?_)⟩
  rw [List.range'_one, List.mem_singleton] at hv
  unfold Covered
  simp only [List.exists_mem_cons_iff, hv, hout, false_or]

/-- INTERNAL: a block that the loop passes keeps its addresses. -/
theorem KeepsOutside.cons {lo hi : ℕ} {old new : List UmmBlock} (h : KeepsOutside lo hi old new)
    (b : UmmBlock) : KeepsOutside lo hi (b :: old) (b :: new) := by
  refine List.forall_mem_cons.mpr ⟨⟨fun _ => List.mem_cons_self, fun x hx _ =>
    ⟨b, List.mem_cons_self, hx, rfl, rfl⟩⟩, fun c hc => ⟨fun hout => ?_, fun x hx hout => ?_⟩⟩
  · exact List.mem_cons_of_mem b ((h c hc).1 hout)
  · obtain ⟨d, hd, hattr⟩ := (h c hc).2 x hx hout
    exact ⟨d, List.mem_cons_of_mem b hd, hattr⟩

/-- INTERNAL: so the new blocks come from the old ones, where it lies apart from the range. -/
theorem ComesFrom.cons {lo hi : ℕ} {old new : List UmmBlock} (h : ComesFrom lo hi old new)
    (hout : b.start + b.len ≤ lo ∨ hi ≤ b.start) : ComesFrom lo hi (b :: old) (b :: new) := by
  refine List.forall_mem_cons.mpr ⟨fun x hx => ?_, fun c hc x hx => ?_⟩
  · have hlo : b.start ≤ x := hx.1
    have hhi : x < b.start + b.len := hx.2
    exact ⟨by omega, b, List.mem_cons_self, hx, rfl, rfl⟩
  · obtain ⟨hapart, d, hd, hattr⟩ := h c hc x hx
    exact ⟨hapart, d, List.mem_cons_of_mem b hd, hattr⟩

/-- INTERNAL: the loop of `umm_unmap_page`.
SRCLINE: umm.c:179-208 -/
theorem ummUnmapPageLoop_spec {page : ℕ} {first : Bool} {s : σ} (h : Ordered bs)
    (hdvd : 0x1000 ∣ page) (hfirst : first = true → NoSplit bs page) :
    ∃ r s', ummUnmapPageLoop pages page first bs s = some (r, s') ∧ Ordered r ∧
      KeepsOutside page (page + 0x1000) bs r ∧ ComesFrom page (page + 0x1000) bs r ∧
      FreesCovered pages page 1 bs s s' ∧ (∀ c ∈ r, ∃ b ∈ bs, b.start ≤ c.start) ∧
      (NoSplit bs page → NoSplit r (page + 0x1000)) := by
  induction bs generalizing first s with
  | nil =>
      exact ⟨[], s, rfl, h, .refl _ _ _, by simp [ComesFrom], ⟨[], rfl, by simp [Covered]⟩,
        by simp, by simp [NoSplit]⟩
  | cons iter rest ih =>
      obtain ⟨hrest, ⟨hstart, hlen⟩, hpos, hstop, hbs⟩ := ordered_cons.mp h
      have hend : add32 iter.start iter.len = iter.start + iter.len := add32_eq hstop
      have hlast : sub32 (iter.start + iter.len) 0x1000 = iter.start + iter.len - 0x1000 :=
        sub32_eq (by omega) (by omega)
      have hadd : add32 iter.start 0x1000 = iter.start + 0x1000 := add32_eq (by omega)
      have hsub : sub32 iter.len 0x1000 = iter.len - 0x1000 := sub32_eq (by omega) (by omega)
      rw [ummUnmapPageLoop, hend, hlast]
      simp only [hadd, hsub]
      split
      next heq =>
        obtain ⟨hord, hkeep, hfrom, hlow, hno⟩ := dropEmpty_spec page
          { iter with start := iter.start + 0x1000, len := iter.len - 0x1000 } h rfl ⟨rfl, rfl⟩
          (.inl ⟨heq, by simp only; omega⟩)
        exact ⟨_, _, rfl, hord, hkeep, hfrom, .of_mem pages heq.le (by omega) (.inl rfl), hlow,
          fun _ => hno⟩
      next hne =>
      split
      next hmid =>
        have hstrict : iter.start < page ∧ page + 0x1000 < iter.start + iter.len := by omega
        -- the first block is not split
        have hfirst' : first = false := by
          cases first with
          | false => rfl
          | true => exact absurd hstrict (hfirst rfl iter rfl)
        have haddp : add32 page 0x1000 = page + 0x1000 := add32_eq (by omega)
        have hsubp : sub32 page iter.start = page - iter.start := sub32_eq (by omega) (by omega)
        have hsub₁ : sub32 (page + 0x1000) iter.start = page + 0x1000 - iter.start :=
          sub32_eq (by omega) (by omega)
        have hsub₂ : sub32 iter.len (page + 0x1000 - iter.start) =
            iter.len - (page + 0x1000 - iter.start) := sub32_eq (by omega) (by omega)
        have hone : pageRange page (page + 0x1000) = [page] := by
          unfold pageRange
          rw [show (page + 0x1000 - page + 0xFFF) / 0x1000 = 1 by omega]
          rfl
        obtain ⟨hord, hkeep, hfrom, hlow⟩ := split_spec h hdvd hstrict.1 hstrict.2 rfl rfl
        rw [haddp, hfirst', ummSplitBlock, hone]
        simp only [Bool.false_eq_true, if_false, Option.map_some, hsubp, hsub₁, hsub₂]
        exact ⟨_, _, rfl, hord, hkeep, hfrom, .of_mem pages hstrict.1.le (by omega) (.inr rfl),
          hlow, fun hno => absurd hstrict (hno iter rfl)⟩
      next hmid =>
      split
      next hlastPage =>
        obtain ⟨hord, hkeep, hfrom, hlow, hno⟩ := dropEmpty_spec page
          { iter with len := iter.len - 0x1000 } h rfl ⟨rfl, rfl⟩ (.inr ⟨by omega, rfl⟩)
        exact ⟨_, _, rfl, hord, hkeep, hfrom, .of_mem pages (by omega) (by omega) (.inl rfl),
          hlow, fun _ => hno⟩
      next hother =>
        have hpageOut : iter.start + iter.len ≤ page ∨ page + 0x1000 ≤ iter.start := by omega
        have hnotMem : page ∉ ummExtent iter := by
          rintro ⟨hlo, hhi⟩
          simp only [Extent.stop, ummExtent] at hlo hhi
          omega
        obtain ⟨r, s', hr, hord, hkeep, hfrom, hfreed, hlow, -⟩ :
            ∃ r s', ummUnmapPageLoop pages page false rest s = some (r, s') ∧ _ :=
          ih hrest (by simp)
        rw [hr]
        refine ⟨iter :: r, s', rfl, ?_, hkeep.cons iter, hfrom.cons hpageOut,
          hfreed.cons pages hnotMem, ?_, ?_⟩
        · refine ordered_cons.mpr ⟨hord, ⟨hstart, hlen⟩, hpos, hstop, fun c hc => ?_⟩
          obtain ⟨b, hb, hbc⟩ := hlow c hc
          exact Nat.le_trans (hbs b hb) hbc
        · refine List.forall_mem_cons.mpr
            ⟨⟨iter, List.mem_cons_self, Nat.le_refl _⟩, fun c hc => ?_⟩
          obtain ⟨b, hb, hbc⟩ := hlow c hc
          exact ⟨b, List.mem_cons_of_mem iter hb, hbc⟩
        · intro hno b hb
          obtain rfl : iter = b := by simpa using hb
          have := hno iter rfl
          omega

theorem KeepsOutside.trans {lo mid hi : ℕ} {old new new' : List UmmBlock}
    (h : KeepsOutside lo mid old new) (h' : KeepsOutside mid hi new new') (hlo : lo ≤ mid)
    (hhi : mid ≤ hi) : KeepsOutside lo hi old new' := by
  intro b hb
  refine ⟨fun hout => ?_, fun x hx hout => ?_⟩
  · have hnew := (h b hb).1 (by omega)
    exact (h' b hnew).1 (by omega)
  · obtain ⟨c, hc, hxc, hprot, hflags⟩ := (h b hb).2 x hx (by omega)
    obtain ⟨d, hd, hxd, hprot', hflags'⟩ := (h' c hc).2 x hxc (by omega)
    exact ⟨d, hd, hxd, hprot'.trans hprot, hflags'.trans hflags⟩

theorem ComesFrom.trans {lo mid hi : ℕ} {old new new' : List UmmBlock}
    (h : ComesFrom lo mid old new) (h' : ComesFrom mid hi new new') : ComesFrom lo hi old new' := by
  intro c hc x hx
  obtain ⟨hout', d, hd, hxd, hprot', hflags'⟩ := h' c hc x hx
  obtain ⟨hout, b, hb, hxb, hprot, hflags⟩ := h d hd x hxd
  exact ⟨by omega, b, hb, hxb, hprot.trans hprot', hflags.trans hflags'⟩

/-- INTERNAL: what is covered, with its prot and flags, is what was covered outside of the
named addresses. -/
theorem covered_iff {lo hi : ℕ} {old new : List UmmBlock} (hkeep : KeepsOutside lo hi old new)
    (hfrom : ComesFrom lo hi old new) (x prot flags : ℕ) :
    (∃ c ∈ new, x ∈ ummExtent c ∧ c.prot = prot ∧ c.flags = flags) ↔
      (x < lo ∨ hi ≤ x) ∧ ∃ b ∈ old, x ∈ ummExtent b ∧ b.prot = prot ∧ b.flags = flags := by
  constructor
  · rintro ⟨c, hc, hx, rfl, rfl⟩
    exact hfrom c hc x hx
  · rintro ⟨hout, b, hb, hx, rfl, rfl⟩
    exact (hkeep b hb).2 x hx hout

/-- INTERNAL: the pages of a longer range. -/
theorem FreesCovered.succ {page n : ℕ} {s s' s'' : σ} {r : List UmmBlock}
    (h : FreesCovered pages page 1 blocks s s')
    (h' : FreesCovered pages (page + 0x1000) n r s' s'')
    (hkeep : KeepsOutside page (page + 0x1000) blocks r)
    (hfrom : ComesFrom page (page + 0x1000) blocks r) :
    FreesCovered pages page (n + 1) blocks s s'' := by
  obtain ⟨vs, rfl, hvs⟩ := h
  obtain ⟨vs', rfl, hvs'⟩ := h'
  have hcovered : ∀ v ∈ List.range' (page + 0x1000) n 0x1000, (Covered r v ↔ Covered blocks v) := by
    intro v hv
    obtain ⟨i, -, rfl⟩ := List.mem_range'.mp hv
    constructor
    · rintro ⟨c, hc, hx⟩
      obtain ⟨-, b, hb, hxb, -⟩ := hfrom c hc _ hx
      exact ⟨b, hb, hxb⟩
    · rintro ⟨b, hb, hx⟩
      obtain ⟨c, hc, hxc, -⟩ := (hkeep b hb).2 _ hx (.inr (by omega))
      exact ⟨c, hc, hxc⟩
  refine ⟨vs ++ vs', by rw [List.foldl_append], fun v => ?_⟩
  rw [List.mem_append, hvs, hvs', and_congr_right (hcovered v), ← or_and_right,
    List.range'_one, List.mem_singleton, List.range'_succ, List.mem_cons]

/-- INTERNAL: what is left of a list in user memory is in user memory. -/
theorem WellFormed.of_comesFrom {lo hi : ℕ} {old new : List UmmBlock} (h : WellFormed old)
    (hnew : Ordered new) (hfrom : ComesFrom lo hi old new) : WellFormed new := by
  refine ⟨fun c hc => ?_, hnew.ascending⟩
  obtain ⟨hstart, hlen⟩ := hnew.aligned c hc
  have hpos := hnew.len_pos c hc
  refine ⟨hstart, hlen, hpos, ?_⟩
  have hlo : c.start ≤ c.start + c.len - 1 := by omega
  have hhi : c.start + c.len - 1 < c.start + c.len := by omega
  -- its last byte is in a block of the old list
  obtain ⟨-, b, hb, ⟨-, hlast⟩, -⟩ := hfrom c hc _ ⟨hlo, hhi⟩
  change c.start + c.len - 1 < b.start + b.len at hlast
  have hstop := (h.pages b hb).stop_le
  omega

theorem pageRange_add (lo n : ℕ) : pageRange lo (lo + n * 0x1000) = List.range' lo n 0x1000 := by
  unfold pageRange
  congr 1
  omega

theorem pageRange_of_le {lo hi : ℕ} (h : hi ≤ lo) : pageRange lo hi = [] := by
  unfold pageRange
  rw [show (hi - lo + 0xFFF) / 0x1000 = 0 by omega]
  rfl

/-- **Unmapping a range** of pages in a list whose first block is not split.
SRCLINE: umm.c:211-214 -/
theorem unmapPages_spec {vaddr n : ℕ} {s : σ} (h : Ordered blocks) (hdvd : 0x1000 ∣ vaddr)
    (hno : n = 0 ∨ NoSplit blocks vaddr) :
    ∃ r s', (List.range' vaddr n 0x1000).foldlM
        (fun r addr => ummUnmapPage pages addr r.1 r.2) (blocks, s) = some (r, s') ∧
      Ordered r ∧ KeepsOutside vaddr (vaddr + n * 0x1000) blocks r ∧
      ComesFrom vaddr (vaddr + n * 0x1000) blocks r ∧ FreesCovered pages vaddr n blocks s s' := by
  induction n generalizing vaddr blocks s with
  | zero =>
      refine ⟨blocks, s, rfl, h, .refl _ _ _, fun c hc x hx => ⟨?_, c, hc, hx, rfl, rfl⟩,
        [], rfl, by simp⟩
      omega
  | succ n ih =>
      have hno := hno.resolve_left n.succ_ne_zero
      obtain ⟨r, s', hr, hord, hkeep, hfrom, hfreed, -, hno'⟩ :
          ∃ r s', ummUnmapPage pages vaddr blocks s = some (r, s') ∧ _ :=
        ummUnmapPageLoop_spec pages h hdvd fun _ => hno
      obtain ⟨r', s'', hr', hord', hkeep', hfrom', hfreed'⟩ :
          ∃ r' s'', (List.range' (vaddr + 0x1000) n 0x1000).foldlM
            (fun r addr => ummUnmapPage pages addr r.1 r.2) (r, s') = some (r', s'') ∧ _ :=
        ih hord (by omega) (.inr (hno' hno))
      have hstop : vaddr + 0x1000 + n * 0x1000 = vaddr + (n + 1) * 0x1000 := by omega
      rw [hstop] at hkeep' hfrom'
      refine ⟨r', s'', ?_, hord', hkeep.trans hkeep' (by omega) (by omega),
        hfrom.trans hfrom', hfreed.succ pages hfreed' hkeep hfrom⟩
      rw [List.range'_succ, List.foldlM_cons]
      simp only [hr, Option.bind_eq_bind, Option.bind_some]
      exact hr'

end

end LakeOS.Analysis
