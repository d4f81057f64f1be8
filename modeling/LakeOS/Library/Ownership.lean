import Mathlib.Data.Set.Lattice
import Mathlib.Data.List.Perm.Basic
import Mathlib.Order.CompletePartialOrder

/-!
# Ownership ledgers

A resource is a set of items; some of them are reserved from the start, and the rest
is handed out to holders and taken back.  `Sound reserved taken owned` says the books
are right: what is reserved or held is taken, nothing held is reserved, and no item
has two holders.  `Sound.grant` and `Sound.release` are the two moves; an allocator
that only makes these moves keeps its books right.
-/

set_option autoImplicit false

namespace LakeOS.Library

/-- The books of a resource: `owned` lists the item set of every holder. -/
structure Sound {α : Type} (reserved taken : Set α) (owned : List (Set α)) : Prop where
  reserved_taken : reserved ⊆ taken
  owned_taken : ∀ h ∈ owned, h ⊆ taken
  owned_fresh : ∀ h ∈ owned, Disjoint h reserved
  exclusive : owned.Pairwise Disjoint

namespace Sound

variable {α : Type} {reserved taken : Set α} {owned : List (Set α)}

/-- INTERNAL: nobody holds anything at the start. -/
theorem nil (h : reserved ⊆ taken) : Sound reserved taken [] :=
  ⟨h, by simp, by simp, .nil⟩

/-- INTERNAL: the order in which the holders are listed does not matter. -/
theorem perm {owned' : List (Set α)} (hs : Sound reserved taken owned)
    (hp : owned.Perm owned') : Sound reserved taken owned' where
  reserved_taken := hs.reserved_taken
  owned_taken h hh := hs.owned_taken h (hp.mem_iff.mpr hh)
  owned_fresh h hh := hs.owned_fresh h (hp.mem_iff.mpr hh)
  exclusive := hs.exclusive.perm hp fun h => h.symm

/-- INTERNAL: **granting** items that were not taken. -/
theorem grant {items : Set α} (hs : Sound reserved taken owned) (hfree : Disjoint items taken) :
    Sound reserved (taken ∪ items) (items :: owned) where
  reserved_taken := hs.reserved_taken.trans Set.subset_union_left
  owned_taken := by
    rintro h (_ | ⟨_, hh⟩)
    · exact Set.subset_union_right
    · exact (hs.owned_taken h hh).trans Set.subset_union_left
  owned_fresh := by
    rintro h (_ | ⟨_, hh⟩)
    · exact hfree.mono_right hs.reserved_taken
    · exact hs.owned_fresh h hh
  exclusive := List.Pairwise.cons (fun h hh => hfree.mono_right (hs.owned_taken h hh)) hs.exclusive

/-- INTERNAL: **releasing** what the first holder holds. -/
theorem release {items : Set α} (hs : Sound reserved taken (items :: owned)) :
    Sound reserved (taken \ items) owned where
  reserved_taken := by
    have hfresh := hs.owned_fresh items List.mem_cons_self
    exact Set.subset_sdiff.mpr ⟨hs.reserved_taken, hfresh.symm⟩
  owned_taken h hh := by
    have hother := List.rel_of_pairwise_cons hs.exclusive hh
    exact Set.subset_sdiff.mpr ⟨hs.owned_taken h (List.mem_cons_of_mem _ hh), hother.symm⟩
  owned_fresh h hh := hs.owned_fresh h (List.mem_cons_of_mem _ hh)
  exclusive := hs.exclusive.of_cons

end Sound

end LakeOS.Library
