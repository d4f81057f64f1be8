import Mathlib.Data.List.Basic

/-!
# Unlinking from a singly linked list

An element of a singly linked list is unlinked by the one in front of it.  A search for that
one which begins at the head never finds an element that is the head itself, and runs off the
end of the list.
-/

set_option autoImplicit false

namespace LakeOS.Library

variable {α : Type*} (p : α → Bool)

/-- The list without the first element behind the head that satisfies `p`, `none` if the search
runs off the end. -/
def unlinkNext : List α → Option (List α)
  | a :: b :: rest => if p b then some (a :: rest) else (unlinkNext (b :: rest)).map (a :: ·)
  | _ => none

variable {p} {l : List α}

theorem unlinkNext_none (h : ∀ a ∈ l, ¬ p a) : unlinkNext p l = none := by
  induction l with
  | nil => rfl
  | cons a l ih =>
      cases l with
      | nil => rfl
      | cons b l =>
          rw [unlinkNext, if_neg (h b (by simp)), ih fun x hx => h x (List.mem_cons_of_mem _ hx)]
          rfl

/-- **One element is unlinked** unless it is the head. -/
theorem unlinkNext_eq (hone : l.Pairwise fun a b => ¬ (p a ∧ p b)) {x : α} (hx : x ∈ l)
    (hp : p x) : unlinkNext p l = if l.head?.any p then none else some (l.eraseP p) := by
  induction l with
  | nil => exact absurd hx List.not_mem_nil
  | cons a l ih =>
      rw [List.pairwise_cons] at hone
      by_cases ha : p a
      · -- the search begins behind the element
        have hrest : ∀ b ∈ l, ¬ p b := fun b hb hpb => hone.1 b hb ⟨ha, hpb⟩
        have hnone : unlinkNext p (a :: l) = none := by
          cases l with
          | nil => rfl
          | cons b l =>
              rw [unlinkNext, if_neg (hrest b (by simp)), unlinkNext_none hrest]
              rfl
        simp [hnone, ha]
      · have hmem : x ∈ l := by
          rcases List.mem_cons.mp hx with rfl | hmem
          · exact absurd hp ha
          · exact hmem
        cases l with
        | nil => exact absurd hmem List.not_mem_nil
        | cons b l =>
            have htail := ih hone.2 hmem
            rw [List.head?_cons] at htail ⊢
            rw [unlinkNext, List.eraseP_cons_of_neg ha]
            by_cases hb : p b
            · simp [hb, ha]
            · rw [if_neg hb, htail]
              simp [hb, ha]

end LakeOS.Library
