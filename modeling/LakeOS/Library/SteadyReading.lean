import Mathlib.Algebra.Order.Group.Nat

/-!
# Reading the registers of a device that runs on

The registers are read one after the other while their values may change.  A reading can be torn:
it can have some registers from before a change and others from after it.  Two readings in a row
that agree are from one moment when there was at most one change meanwhile.
-/

set_option autoImplicit false

namespace LakeOS.Library

section

variable {ι α : Type} (value : ℕ → ι → α) (rs : List ι)

/-- The registers `rs` one after the other, the first of them at the access `t`. -/
def reading : List ι → ℕ → List α
  | [], _ => []
  | r :: rs, t => value t r :: reading rs (t + 1)

/-- No register changes from the access `s` on until before the access `u`. -/
def Steady (s u : ℕ) : Prop := ∀ t, s ≤ t → t < u → ∀ r ∈ rs, value t r = value s r

/-- The registers change at most once in that time. -/
def ChangesOnce (s u : ℕ) : Prop := ∃ c, Steady value rs s c ∧ Steady value rs c u

variable {value rs}

theorem Steady.mono {s u s' u' : ℕ} (h : Steady value rs s u) (hs : s ≤ s') (hu : u' ≤ u) :
    Steady value rs s' u' := by
  intro t ht htu r hr
  rw [h t (hs.trans ht) (htu.trans_le hu) r hr,
    h s' hs (ht.trans_lt (htu.trans_le hu)) r hr]

theorem ChangesOnce.mono {s u s' u' : ℕ} (h : ChangesOnce value rs s u) (hs : s ≤ s')
    (hu : u' ≤ u) : ChangesOnce value rs s' u' := by
  obtain ⟨c, hbefore, hafter⟩ := h
  rcases le_total s' c with hc | hc
  · exact ⟨c, hbefore.mono hs le_rfl, hafter.mono le_rfl hu⟩
  · exact ⟨s', fun t ht htu => absurd htu ht.not_gt, hafter.mono hc hu⟩

/-- INTERNAL: a reading of registers that have the values `f` throughout. -/
theorem reading_eq_map {f : ι → α} {t : ℕ}
    (h : ∀ t', t ≤ t' → t' < t + rs.length → ∀ r ∈ rs, value t' r = f r) :
    reading value rs t = rs.map f := by
  induction rs generalizing t with
  | nil => rfl
  | cons r rs ih =>
    rw [List.length_cons] at h
    rw [reading, List.map_cons, h t le_rfl (by omega) r List.mem_cons_self, ih]
    intro t' ht ht' q hq
    exact h t' (by omega) (by omega) q (List.mem_cons_of_mem r hq)

/-- A reading of registers that stand still from an access `s` on shows them as they were then. -/
theorem Steady.reading_eq {s t : ℕ} (h : Steady value rs s (t + rs.length)) (hs : s ≤ t) :
    reading value rs t = rs.map (value s) :=
  reading_eq_map fun t' ht ht' => h t' (hs.trans ht) ht'

/-- Two readings that agree are from one moment, that of the first access of one of them, when the
registers change at most once from the begin of the first to the end of the second. -/
theorem reading_snapshot {s u : ℕ} (hsu : s + rs.length ≤ u)
    (honce : ChangesOnce value rs s (u + rs.length))
    (heq : reading value rs s = reading value rs u) :
    ∃ m, s ≤ m ∧ m ≤ u ∧ reading value rs u = rs.map (value m) := by
  obtain ⟨c, hbefore, hafter⟩ := honce
  rcases le_or_gt c u with hc | hc
  · -- the second reading is behind the change
    exact ⟨u, by omega, le_rfl, (hafter.mono hc le_rfl).reading_eq le_rfl⟩
  · -- the first one is before it
    have hfirst := (hbefore.mono le_rfl (by omega : s + rs.length ≤ c)).reading_eq le_rfl
    exact ⟨s, le_rfl, by omega, heq.symm.trans hfirst⟩

/-- Of four readings in a row two neighbours agree when the registers change at most once. -/
theorem reading_agrees {s₀ s₁ s₂ s₃ : ℕ} (h₁ : s₀ + rs.length ≤ s₁) (h₂ : s₁ + rs.length ≤ s₂)
    (h₃ : s₂ + rs.length ≤ s₃) (honce : ChangesOnce value rs s₀ (s₃ + rs.length)) :
    reading value rs s₀ = reading value rs s₁ ∨ reading value rs s₂ = reading value rs s₃ := by
  obtain ⟨c, hbefore, hafter⟩ := honce
  rcases le_or_gt c s₂ with hc | hc
  · -- the last two are behind the change
    right
    have hsteady := hafter.mono hc le_rfl
    rw [(hsteady.mono le_rfl (by omega : s₂ + rs.length ≤ _)).reading_eq le_rfl,
      hsteady.reading_eq (by omega)]
  · -- the first two are before it
    left
    rw [(hbefore.mono le_rfl (by omega : s₀ + rs.length ≤ c)).reading_eq le_rfl,
      (hbefore.mono le_rfl (by omega : s₁ + rs.length ≤ c)).reading_eq (by omega)]

end

end LakeOS.Library
