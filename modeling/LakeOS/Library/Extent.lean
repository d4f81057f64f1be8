import Mathlib.Tactic.Common
import Mathlib.Algebra.BigOperators.Group.List.Basic
import Mathlib.Algebra.GroupWithZero.Nat
import Mathlib.Data.List.Sort

/-!
# Extents

An extent is a run of addresses.  `Packed lo hi l` says that the extents of `l` lie in
`[lo, hi)` and are pairwise apart; it depends on `l` up to order, and it is kept when an
extent shrinks, is split in two or is merged with the one it touches.

A list in address order that fills `[lo, hi)` without two extents touching is one extent
(`eq_singleton_of_total`).
-/

set_option autoImplicit false

namespace LakeOS.Library

/-- The addresses from `start` on, `len` of them. -/
@[ext]
structure Extent where
  start : ℕ
  len : ℕ
deriving DecidableEq, Repr

namespace Extent

/-- The first address behind an extent. -/
def stop (e : Extent) : ℕ := e.start + e.len

/-- No address is in both. -/
def Apart (a b : Extent) : Prop := a.stop ≤ b.start ∨ b.stop ≤ a.start

instance : Membership ℕ Extent := ⟨fun e x => e.start ≤ x ∧ x < e.stop⟩

theorem mem_def {x : ℕ} {e : Extent} : x ∈ e ↔ e.start ≤ x ∧ x < e.stop := Iff.rfl

theorem Apart.symm {a b : Extent} (h : a.Apart b) : b.Apart a := Or.symm h

/-- All the addresses of a list of extents, counted. -/
def total (l : List Extent) : ℕ := (l.map len).sum

@[simp] theorem total_nil : total [] = 0 := rfl

@[simp] theorem total_cons (e : Extent) (l : List Extent) : total (e :: l) = e.len + total l := rfl

@[simp] theorem total_append (l k : List Extent) : total (l ++ k) = total l + total k := by
  simp [total]

/-- The extents of `l` lie in `[lo, hi)` and no two share an address. -/
structure Packed (lo hi : ℕ) (l : List Extent) : Prop where
  inside : ∀ e ∈ l, lo ≤ e.start ∧ e.stop ≤ hi
  apart : l.Pairwise Apart

variable {lo hi : ℕ} {l k : List Extent}

theorem Packed.perm (h : Packed lo hi l) (hperm : l.Perm k) : Packed lo hi k where
  inside e he := h.inside e (hperm.mem_iff.mpr he)
  apart := hperm.pairwise h.apart Apart.symm

theorem packed_cons {e : Extent} :
    Packed lo hi (e :: l) ↔
      (lo ≤ e.start ∧ e.stop ≤ hi) ∧ (∀ a ∈ l, e.Apart a) ∧ Packed lo hi l := by
  constructor
  · intro h
    have hp := List.pairwise_cons.mp h.apart
    exact ⟨h.inside e List.mem_cons_self, hp.1,
      fun a ha => h.inside a (List.mem_cons_of_mem e ha), hp.2⟩
  · rintro ⟨hin, hap, hl⟩
    refine ⟨?_, List.pairwise_cons.mpr ⟨hap, hl.apart⟩⟩
    intro a ha
    cases List.mem_cons.mp ha with
    | inl h => exact h ▸ hin
    | inr h => exact hl.inside a h

theorem Packed.of_cons {e : Extent} (h : Packed lo hi (e :: l)) : Packed lo hi l :=
  (packed_cons.mp h).2.2

/-- An extent shrinks. -/
theorem Packed.shrink {e e' : Extent} (h : Packed lo hi (e :: l)) (hstart : e.start ≤ e'.start)
    (hstop : e'.stop ≤ e.stop) : Packed lo hi (e' :: l) := by
  obtain ⟨hin, hap, hl⟩ := packed_cons.mp h
  refine packed_cons.mpr ⟨by omega, ?_, hl⟩
  intro a ha
  have := hap a ha
  unfold Apart at this ⊢
  omega

/-- An extent is split in two. -/
theorem Packed.split {e a b : Extent} (h : Packed lo hi (e :: l)) (hstart : a.start = e.start)
    (hmid : a.stop = b.start) (hstop : b.stop = e.stop) : Packed lo hi (a :: b :: l) := by
  have hlen : a.start ≤ a.stop ∧ b.start ≤ b.stop := by
    unfold stop
    omega
  have ha : Packed lo hi (a :: l) := h.shrink (by omega) (by omega)
  have hb : Packed lo hi (b :: l) := h.shrink (by omega) (by omega)
  obtain ⟨hin, hap, -⟩ := packed_cons.mp ha
  refine packed_cons.mpr ⟨hin, ?_, hb⟩
  intro c hc
  cases List.mem_cons.mp hc with
  | inl h => exact .inl (by rw [h]; omega)
  | inr h => exact hap c h

/-- Two nonempty extents that touch are merged. -/
theorem Packed.merge {e a b : Extent} (h : Packed lo hi (a :: b :: l))
    (hstart : e.start = a.start) (hmid : a.stop = b.start) (hstop : e.stop = b.stop)
    (hpos : ∀ c ∈ l, 0 < c.len) : Packed lo hi (e :: l) := by
  obtain ⟨hina, hapa, hb⟩ := packed_cons.mp h
  obtain ⟨hinb, hapb, hl⟩ := packed_cons.mp hb
  refine packed_cons.mpr ⟨by omega, ?_, hl⟩
  intro c hc
  have h₁ := hapa c (List.mem_cons_of_mem b hc)
  have h₂ := hapb c hc
  have h₃ := hpos c hc
  unfold Apart at h₁ h₂ ⊢
  unfold stop at *
  omega

/-- The border between two extents that touch moves. -/
theorem Packed.reborder {e x e' y : Extent} (h : Packed lo hi (e :: x :: l))
    (htouch : e.stop = x.start) (hstart : e'.start = e.start) (hborder : e'.stop = y.start)
    (hstop : y.stop = x.stop) (hpos : ∀ c ∈ l, 0 < c.len) : Packed lo hi (e' :: y :: l) := by
  have hmerged : Packed lo hi (⟨e.start, e.len + x.len⟩ :: l) := by
    refine h.merge rfl htouch ?_ hpos
    unfold stop at *
    simp only
    omega
  refine hmerged.split hstart hborder ?_
  unfold stop at *
  simp only
  omega

/-- The extents of `l` come in address order. -/
def Ascending (l : List Extent) : Prop := l.Pairwise fun a b => a.stop ≤ b.start

theorem ascending_middle {e : Extent} :
    Ascending (l ++ e :: k) ↔
      Ascending (l ++ k) ∧ (∀ a ∈ l, a.stop ≤ e.start) ∧ ∀ b ∈ k, e.stop ≤ b.start := by
  unfold Ascending
  simp only [List.pairwise_append, List.pairwise_cons, List.mem_cons, forall_eq_or_imp]
  constructor
  · rintro ⟨hl, ⟨hek, hk⟩, hlk⟩
    exact ⟨⟨hl, hk, fun a ha => (hlk a ha).2⟩, fun a ha => (hlk a ha).1, hek⟩
  · rintro ⟨⟨hl, hk, hlk⟩, hle, hek⟩
    exact ⟨hl, ⟨hek, hk⟩, fun a ha => ⟨hle a ha, hlk a ha⟩⟩

/-- An extent is inserted between two neighbours. -/
theorem Ascending.insert {a e : Extent} (h : Ascending (l ++ a :: k)) (hae : a.stop ≤ e.start)
    (hek : ∀ b ∈ k, e.stop ≤ b.start) : Ascending (l ++ a :: e :: k) := by
  obtain ⟨hlk, hla, hak⟩ := ascending_middle.mp h
  have hle : ∀ b ∈ l, b.stop ≤ e.start := by
    intro b hb
    have := hla b hb
    unfold stop at *
    omega
  refine ascending_middle.mpr ⟨ascending_middle.mpr ⟨hlk, hle, hek⟩, hla, ?_⟩
  exact List.forall_mem_cons.mpr ⟨hae, hak⟩

theorem total_le_of_ascending (hasc : Ascending l) (hin : ∀ e ∈ l, lo ≤ e.start ∧ e.stop ≤ hi)
    (hle : lo ≤ hi) : lo + total l ≤ hi := by
  induction l generalizing lo with
  | nil => simpa using hle
  | cons e l ih =>
      obtain ⟨hhead, htail⟩ := List.pairwise_cons.mp hasc
      have he := hin e List.mem_cons_self
      have : e.stop + total l ≤ hi := ih htail
        (fun a ha => ⟨hhead a ha, (hin a (List.mem_cons_of_mem e ha)).2⟩) he.2
      rw [total_cons]
      unfold stop at this
      omega

theorem total_perm (h : l.Perm k) : total l = total k := (h.map len).sum_eq

/-- **Extents that are packed into an interval are no longer than it.** -/
theorem Packed.total_le (h : Packed lo hi l) (hpos : ∀ e ∈ l, 0 < e.len) (hle : lo ≤ hi) :
    lo + total l ≤ hi := by
  let sorted := l.insertionSort fun a b => a.start ≤ b.start
  have hperm : sorted.Perm l := List.perm_insertionSort _ l
  have hpacked : Packed lo hi sorted := h.perm hperm.symm
  have hstart : sorted.Pairwise fun a b => a.start ≤ b.start :=
    List.pairwise_insertionSort _ l
  have hasc : Ascending sorted := by
    refine (hstart.and hpacked.apart).imp_of_mem ?_
    intro a b ha hb hab
    have hlen := hpos b (hperm.mem_iff.mp hb)
    unfold Apart stop at *
    omega
  rw [← total_perm hperm]
  exact total_le_of_ascending hasc hpacked.inside hle

theorem mul_length_le_total {w : ℕ} (hw : ∀ e ∈ l, w ≤ e.len) : w * l.length ≤ total l := by
  induction l with
  | nil => simp
  | cons e l ih =>
      have he := hw e List.mem_cons_self
      have := ih fun a ha => hw a (List.mem_cons_of_mem e ha)
      rw [total_cons, List.length_cons, Nat.mul_succ]
      omega

/-- The extents of `l` come in address order and no two touch. -/
def Spaced (l : List Extent) : Prop := l.Pairwise fun a b => a.stop < b.start

theorem spaced_middle {e : Extent} :
    Spaced (l ++ e :: k) ↔
      Spaced (l ++ k) ∧ (∀ a ∈ l, a.stop < e.start) ∧ ∀ b ∈ k, e.stop < b.start := by
  unfold Spaced
  simp only [List.pairwise_append, List.pairwise_cons, List.mem_cons, forall_eq_or_imp]
  constructor
  · rintro ⟨hl, ⟨hek, hk⟩, hlk⟩
    exact ⟨⟨hl, hk, fun a ha => (hlk a ha).2⟩, fun a ha => (hlk a ha).1, hek⟩
  · rintro ⟨⟨hl, hk, hlk⟩, hle, hek⟩
    exact ⟨hl, ⟨hek, hk⟩, fun a ha => ⟨hle a ha, hlk a ha⟩⟩

theorem Spaced.stop_ne_start (h : Spaced l) (hpos : ∀ e ∈ l, 0 < e.len) :
    ∀ a ∈ l, ∀ b ∈ l, a.stop ≠ b.start := by
  intro a ha b hb heq
  obtain ⟨as, bs, rfl⟩ := List.append_of_mem ha
  obtain ⟨-, hbefore, hafter⟩ := spaced_middle.mp h
  have hlen := hpos a ha
  simp only [List.mem_append, List.mem_cons] at hb
  unfold stop at *
  rcases hb with hb | rfl | hb
  · have := hbefore b hb
    omega
  · omega
  · have := hafter b hb
    omega

/-- **A gapless list in which no two extents touch is one extent.** -/
theorem eq_singleton_of_total (hspaced : Spaced l) (hin : ∀ e ∈ l, lo ≤ e.start ∧ e.stop ≤ hi)
    (hlt : lo < hi) (htotal : lo + total l = hi) : l = [⟨lo, hi - lo⟩] := by
  cases l with
  | nil => simp at htotal; omega
  | cons a l =>
      obtain ⟨hhead, htail⟩ := List.pairwise_cons.mp hspaced
      have ha := hin a List.mem_cons_self
      cases l with
      | nil =>
          rw [total_cons, total_nil] at htotal
          unfold stop at ha
          congr 1
          ext
          · simp only
            omega
          · simp only
            omega
      | cons b l =>
          -- one byte behind `a` is in no extent
          have hab := hhead b List.mem_cons_self
          have hb := hin b (by simp)
          have hrest : a.stop + 1 + total (b :: l) ≤ hi := by
            refine total_le_of_ascending (htail.imp Nat.le_of_lt) ?_ (by unfold stop at *; omega)
            intro e he
            exact ⟨hhead e he, (hin e (List.mem_cons_of_mem a he)).2⟩
          rw [total_cons] at htotal
          unfold stop at hrest ha
          omega

end Extent

/-- Extents that do not overlap have no address in common. -/
theorem notMem_of_apart {a b : Extent} (hap : a.Apart b) {y : ℕ} (hy : y ∈ a) : y ∉ b := by
  intro hyb
  rw [Extent.mem_def] at hy hyb
  unfold Extent.Apart at hap
  omega

end LakeOS.Library
