import Mathlib.Order.Bounds.Basic
import LakeOS.Analysis.UserCalls

/-!
# First fit

`ualloc_pages` looks at the gap below the first block, at the gaps between neighbours and
at the gap behind the last block.  On a list that is not empty it finds the lowest address
at which a range of user memory is free.  It returns `NULL` where there is none; but the
lowest address of user memory is `NULL` too.
-/

set_option autoImplicit false

namespace LakeOS.Analysis

open LakeOS.Library LakeOS.Model

variable {blocks rest : List UmmBlock} {first b : UmmBlock} {len : ℕ}

/-- A range of user memory at `a` meets no block. -/
def FitsAt (blocks : List UmmBlock) (len a : ℕ) : Prop :=
  a + len ≤ userMemoryEnd ∧ FreeRange blocks a (a + len)

/-- INTERNAL: behind a block the other blocks decide. -/
theorem fitsAt_cons {a : ℕ} (ha : b.start + b.len ≤ a) :
    FitsAt (b :: rest) len a ↔ FitsAt rest len a := by
  unfold FitsAt FreeRange
  rw [List.forall_mem_cons]
  exact and_congr_right fun _ => and_iff_right (.inl ha)

/-- INTERNAL: the loop finds the lowest address behind the block that it is at.
SRCLINE: umm.c:82-91 -/
theorem findGap_least (len : ℕ) (h : WellFormed (b :: rest)) :
    match findGap len b rest with
    | some a => IsLeast {a | b.start + b.len ≤ a ∧ FitsAt (b :: rest) len a} a
    | none => ∀ a, b.start + b.len ≤ a → ¬ FitsAt (b :: rest) len a := by
  induction rest generalizing b with
  | nil =>
      have hstop := (h.pages b List.mem_cons_self).stop_le
      have heq := h.stop_eq List.mem_cons_self
      rw [findGap, heq, sub32_eq hstop (by decide)]
      split
      next hle =>
        split at hle
        next hroom =>
          obtain rfl := Option.some.inj hle
          refine ⟨⟨le_rfl, (fitsAt_cons le_rfl).mpr ⟨by omega, ?_⟩⟩, fun a ha => ha.1⟩
          simp [FreeRange]
        next => cases hle
      next hnone =>
        split at hnone
        next => cases hnone
        next hroom =>
          intro a ha hfits
          have := hfits.1
          omega
  | cons next rest ih =>
      obtain ⟨hrest, hb, habove⟩ := wellFormed_cons.mp h
      obtain ⟨-, hnext, hbehind⟩ := wellFormed_cons.mp hrest
      have hbn := habove next List.mem_cons_self
      have hstop := hb.stop_le
      have hnextstop := hnext.stop_le
      have hnextlen := hnext.len_pos
      have heq := h.stop_eq List.mem_cons_self
      have hgap : sub32 next.start (b.start + b.len) = next.start - (b.start + b.len) := by
        apply sub32_eq hbn
        unfold userMemoryEnd at hnextstop
        omega
      rw [findGap, heq, hgap]
      by_cases hle : len ≤ next.start - (b.start + b.len)
      · -- the gap in front of `next`
        rw [if_pos hle]
        refine ⟨⟨le_rfl, (fitsAt_cons le_rfl).mpr ⟨by omega, ?_⟩⟩, fun a ha => ha.1⟩
        refine List.forall_mem_cons.mpr ⟨.inr (by omega), fun c hc => ?_⟩
        have := hbehind c hc
        omega
      · have hskip : ∀ a, b.start + b.len ≤ a → (FitsAt (b :: next :: rest) len a ↔
            next.start + next.len ≤ a ∧ FitsAt (next :: rest) len a) := by
          intro a ha
          rw [fitsAt_cons ha]
          refine ⟨fun hfits => ⟨?_, hfits⟩, fun hfits => hfits.2⟩
          have hapart := hfits.2 next List.mem_cons_self
          omega
        have hlater := ih hrest
        rw [if_neg hle]
        cases hfind : findGap len next rest with
        | none =>
            rw [hfind] at hlater
            intro a ha hfits
            have hbehind := (hskip a ha).mp hfits
            exact hlater a hbehind.1 hbehind.2
        | some a =>
            rw [hfind] at hlater
            have hle : b.start + b.len ≤ a := by
              have := hlater.1.1
              omega
            refine ⟨⟨hle, (hskip a hle).mpr hlater.1⟩, fun a' ha' => hlater.2 ?_⟩
            exact (hskip a' ha'.1).mp ha'.2

/-- INTERNAL: **first fit** on a list that is not empty.
SRCLINE: umm.c:79-92 -/
theorem firstFitStart_least (len : ℕ) (h : WellFormed (first :: rest)) :
    match firstFitStart len (first :: rest) with
    | some a => IsLeast {a | FitsAt (first :: rest) len a} a
    | none => ∀ a, ¬ FitsAt (first :: rest) len a := by
  obtain ⟨-, hfirst, habove⟩ := wellFormed_cons.mp h
  have hstop := hfirst.stop_le
  have hpos := hfirst.len_pos
  have hbegin : sub32 first.start userMemoryStart = first.start := by
    apply sub32_zero
    unfold userMemoryEnd at hstop
    omega
  rw [firstFitStart, hbegin]
  by_cases hle : len ≤ first.start
  · rw [if_pos hle]
    refine ⟨⟨by unfold userMemoryStart; omega, ?_⟩, fun a _ => Nat.zero_le a⟩
    refine List.forall_mem_cons.mpr ⟨.inr (by unfold userMemoryStart; omega), fun c hc => .inr ?_⟩
    have := habove c hc
    unfold userMemoryStart
    omega
  · have hbehind : ∀ a, FitsAt (first :: rest) len a → first.start + first.len ≤ a := by
      intro a hfits
      have := hfits.2 first List.mem_cons_self
      omega
    have hgap := findGap_least len h
    rw [if_neg hle]
    cases hfind : findGap len first rest with
    | none =>
        rw [hfind] at hgap
        exact fun a hfits => hgap a (hbehind a hfits) hfits
    | some a =>
        rw [hfind] at hgap
        exact ⟨hgap.1.2, fun a' ha' => hgap.2 ⟨hbehind a' ha', ha'⟩⟩

section

variable {σ : Type} (pages : PageOps σ)

/-- `ualloc_pages` maps the range at the lowest address where it fits, and returns `NULL`,
with nothing mapped, exactly where it fits nowhere. -/
structure FirstFitOk (len prot flags : ℕ) (blocks : List UmmBlock) (s : σ) : Prop where
  lowest : ∀ a, IsLeast {a | FitsAt blocks len a} a →
    uallocPages pages len prot flags blocks s = (a, umapPages pages a len prot flags blocks s)
  failure : (uallocPages pages len prot flags blocks s).1 = 0 ↔ ∀ a, ¬ FitsAt blocks len a
  unchanged : (∀ a, ¬ FitsAt blocks len a) →
    (uallocPages pages len prot flags blocks s).2 = (blocks, s)

variable {prot flags : ℕ} {s : σ}

/-- INTERNAL: an empty list: address 0, whatever the length.
SRCLINE: umm.c:74-77 -/
theorem not_firstFitOk_nil : ¬ FirstFitOk pages len prot flags [] s := by
  intro hok
  have hnone := hok.failure.mp rfl
  have hlist := congrArg Prod.fst (hok.unchanged hnone)
  cases hlist

/-- **First fit** does what it should exactly on a list that is not empty and whose first
block leaves no room below it: elsewhere it succeeds at `NULL`, or maps a range that user
memory has no room for.
SRCLINE: umm.c:68-96 -/
theorem first_fit_iff (h : WellFormed blocks) :
    FirstFitOk pages len prot flags blocks s ↔
      ∃ first rest, blocks = first :: rest ∧ first.start < len := by
  cases blocks with
  | nil =>
      refine iff_of_false (not_firstFitOk_nil pages) ?_
      rintro ⟨first, rest, hnil, -⟩
      cases hnil
  | cons first rest =>
      have hleast := firstFitStart_least len h
      constructor
      · intro hok
        refine ⟨first, rest, rfl, ?_⟩
        by_contra hle
        have hzero : FitsAt (first :: rest) len 0 := by
          obtain ⟨-, hfirst, habove⟩ := wellFormed_cons.mp h
          have hstop := hfirst.stop_le
          refine ⟨by omega, List.forall_mem_cons.mpr ⟨.inr (by omega), fun c hc => .inr ?_⟩⟩
          have := habove c hc
          omega
        have hlow := hok.lowest 0 ⟨hzero, fun a _ => Nat.zero_le a⟩
        exact hok.failure.mp (congrArg Prod.fst hlow) 0 hzero
      · rintro ⟨first', rest', heq, hlt⟩
        obtain ⟨rfl, rfl⟩ := List.cons.inj heq
        have hpos : ∀ a, FitsAt (first :: rest) len a → a ≠ 0 := by
          rintro a hfits rfl
          have hstart := (h.pages first List.mem_cons_self).len_pos
          have := hfits.2 first List.mem_cons_self
          omega
        cases hfind : firstFitStart len (first :: rest) with
        | none =>
            rw [hfind] at hleast
            have hrun : uallocPages pages len prot flags (first :: rest) s =
                (0, first :: rest, s) := by
              rw [uallocPages, hfind]
            refine ⟨fun a ha => absurd ha.1 (hleast a), ?_, fun _ => ?_⟩
            · rw [hrun]
              exact iff_of_true rfl hleast
            · rw [hrun]
        | some a =>
            rw [hfind] at hleast
            have hrun : uallocPages pages len prot flags (first :: rest) s =
                (a, umapPages pages a len prot flags (first :: rest) s) := by
              rw [uallocPages, hfind]
            refine ⟨fun a' ha' => ?_, ?_, fun hnone => absurd hleast.1 (hnone a)⟩
            · rw [hrun, ha'.unique hleast]
            · rw [hrun]
              exact iff_of_false (hpos a hleast.1) fun hnone => hnone a hleast.1

end

/-- One block at the start of user memory. -/
def pageAtZero : List UmmBlock := [⟨0, 0x1000, 3, 0x22⟩]

theorem pageAtZero_wellFormed : WellFormed pageAtZero :=
  wellFormed_singleton ⟨by decide, by decide, by decide, by decide⟩

theorem first_fit_iff_page : FirstFitOk noPages 0x2000 3 0x22 pageAtZero () ↔
    ∃ first rest, pageAtZero = first :: rest ∧ first.start < 0x2000 :=
  first_fit_iff noPages pageAtZero_wellFormed

/-- More than user memory, for a process that has none: it is mapped at address 0. -/
theorem ualloc_maps_kernel_half : ¬ FirstFitOk noPages 0xD0000000 3 0x22 [] () :=
  not_firstFitOk_nil noPages

end LakeOS.Analysis
