import Mathlib.Data.Set.Insert
import Mathlib.Logic.Nontrivial.Basic

/-!
# Partial functions that overwrite a fixed set of cells

`Overwrites F W`: what `F` stores does not depend on the memory it starts from.  It
replaces the cells of `W`, by values that are the same for every memory, and keeps all
others; or it fails on every memory.

Two runs of such a function from memories that differ in the cells of a set `S` end with
the same values in a set `V` exactly when `W` covers the cells of `V` that are in `S`
(`Overwrites.indistinguishable_iff`).
-/

set_option autoImplicit false

namespace LakeOS.Library

variable {ι β : Type}

open Classical in
/-- `F` fails on every memory, or replaces the cells of `W` by fixed values. -/
def Overwrites (F : (ι → β) → Option (ι → β)) (W : Set ι) : Prop :=
  (∀ m, F m = none) ∨ ∃ g : ι → β, ∀ m, F m = some fun i => if i ∈ W then g i else m i

variable {F G : (ι → β) → Option (ι → β)} {W U : Set ι} {m m' m₁ m₂ : ι → β} {i : ι}

theorem overwrites_none : Overwrites (fun _ : ι → β => none) W := .inl fun _ => rfl

theorem overwrites_some [Nonempty β] : Overwrites (some : (ι → β) → Option (ι → β)) ∅ :=
  .inr ⟨fun _ => Classical.choice inferInstance, fun m => by simp⟩

theorem overwrites_update [DecidableEq ι] (i : ι) (b : β) :
    Overwrites (fun m : ι → β => some (Function.update m i b)) {i} := by
  refine .inr ⟨fun _ => b, fun m => ?_⟩
  apply congrArg some
  funext j
  simp [Function.update_apply]

/-- One after the other. -/
theorem Overwrites.bind (hF : Overwrites F W) (hG : Overwrites G U) :
    Overwrites (fun m => (F m).bind G) (W ∪ U) := by
  rcases hF with hF | ⟨g, hF⟩
  · exact .inl fun m => by dsimp only; rw [hF]; rfl
  classical
  rcases hG with hG | ⟨g', hG⟩
  · exact .inl fun m => by dsimp only; rw [hF]; exact hG _
  refine .inr ⟨fun i => if i ∈ U then g' i else g i, fun m => ?_⟩
  dsimp only
  rw [hF, Option.bind_some, hG]
  apply congrArg some
  funext i
  by_cases hU : i ∈ U
  · simp [hU]
  · by_cases hW : i ∈ W <;> simp [hU, hW]

/-- Whether it fails does not depend on the memory. -/
theorem Overwrites.exists_some (hF : Overwrites F W) (h : F m = some m₁) (m' : ι → β) :
    ∃ m₂, F m' = some m₂ := by
  rcases hF with hF | ⟨g, hF⟩
  · rw [hF] at h
    cases h
  · exact ⟨_, hF m'⟩

theorem Overwrites.eq_of_mem (hF : Overwrites F W) (h : F m = some m₁) (h' : F m' = some m₂)
    (hi : i ∈ W) : m₁ i = m₂ i := by
  rcases hF with hF | ⟨g, hF⟩
  · rw [hF] at h
    cases h
  · rw [hF] at h h'
    cases h
    cases h'
    simp [hi]

theorem Overwrites.eq_of_notMem (hF : Overwrites F W) (h : F m = some m₁) (hi : i ∉ W) :
    m₁ i = m i := by
  rcases hF with hF | ⟨g, hF⟩
  · rw [hF] at h
    cases h
  · rw [hF] at h
    cases h
    simp [hi]

/-- The cells of `V` tell nothing of those of `S` exactly when the common ones are
replaced. -/
theorem Overwrites.indistinguishable_iff [Nontrivial β] (hF : Overwrites F W)
    (h : F m = some m₁) (V S : Set ι) :
    (∀ m', (∀ i, i ∉ S → m' i = m i) → ∃ m₂, F m' = some m₂ ∧ ∀ i ∈ V, m₂ i = m₁ i) ↔
      ∀ i ∈ V, i ∈ S → i ∈ W := by
  classical
  constructor
  · intro hall i hV hS
    by_contra hW
    -- a memory that differs in this cell only
    obtain ⟨b, hb⟩ := exists_ne (m i)
    obtain ⟨m₂, h₂, hV₂⟩ := hall (Function.update m i b) fun j hj =>
      Function.update_of_ne (by rintro rfl; exact hj hS) _ _
    have hsame := hV₂ i hV
    rw [hF.eq_of_notMem h₂ hW, hF.eq_of_notMem h hW, Function.update_self] at hsame
    exact hb hsame
  · intro hcover m' hsame
    obtain ⟨m₂, h₂⟩ := hF.exists_some h m'
    refine ⟨m₂, h₂, fun i hV => ?_⟩
    by_cases hW : i ∈ W
    · exact hF.eq_of_mem h₂ h hW
    · rw [hF.eq_of_notMem h₂ hW, hF.eq_of_notMem h hW]
      exact hsame i fun hS => hW (hcover i hV hS)

end LakeOS.Library
