import Mathlib.Tactic.Common
import Mathlib.Data.List.Basic

/-!
# Chains

The links of singly linked lists are one map from nodes to nodes; some values of the map
are no nodes and end a list.  A nonempty list of nodes is a chain when every node names
its successor and the last one names an end.

A chain is determined by its first node (`Chain.unique`), so no chain meets itself
(`Chain.nodup`).  `Chain.snoc` and `Chain.link` hang a new node behind the last one.
-/

set_option autoImplicit false

namespace LakeOS.Library

variable {α : Type}

/-- Every node of the list names the next one, and the last one names an end. -/
def Chain (next : α → α) (stop : α → Prop) : List α → Prop
  | [] => False
  | [a] => stop (next a)
  | a :: b :: l => next a = b ∧ ¬ stop b ∧ Chain next stop (b :: l)

namespace Chain

variable {next next' : α → α} {stop : α → Prop} {l l' : List α} {a b : α}

theorem ne_nil (h : Chain next stop l) : l ≠ [] := by
  rintro rfl
  exact h

theorem tail (h : Chain next stop (a :: b :: l)) : Chain next stop (b :: l) := h.2.2

/-- INTERNAL: a chain only reads the links of its nodes. -/
theorem congr (h : Chain next stop l) (hsame : ∀ c ∈ l, next' c = next c) :
    Chain next' stop l := by
  induction l with
  | nil => exact h
  | cons a l ih =>
      cases l with
      | nil =>
          have hlast : next' a = next a := hsame a List.mem_cons_self
          unfold Chain
          rw [hlast]
          exact h
      | cons b l =>
          obtain ⟨hnext, hstop, hrest⟩ := h
          exact ⟨(hsame a List.mem_cons_self).trans hnext, hstop,
            ih hrest fun c hc => hsame c (List.mem_cons_of_mem a hc)⟩

/-- INTERNAL: **the first node determines the chain.** -/
theorem unique (h : Chain next stop (a :: l)) (h' : Chain next stop (a :: l')) : l = l' := by
  induction l generalizing a l' with
  | nil =>
      cases l' with
      | nil => rfl
      | cons b l' =>
          obtain ⟨hnext, hstop, -⟩ := h'
          exact absurd (hnext ▸ h) hstop
  | cons b l ih =>
      obtain ⟨hnext, hstop, hrest⟩ := h
      cases l' with
      | nil => exact absurd (hnext ▸ h') hstop
      | cons c l' =>
          obtain ⟨hnext', -, hrest'⟩ := h'
          obtain rfl : b = c := hnext.symm.trans hnext'
          rw [ih hrest hrest']

/-- INTERNAL: a chain read from one of its nodes. -/
theorem suffix (h : Chain next stop (l ++ a :: l')) : Chain next stop (a :: l') := by
  induction l with
  | nil => exact h
  | cons b l ih =>
      cases l with
      | nil => exact h.tail
      | cons c l => exact ih h.tail

/-- INTERNAL: the last node but one names the last one. -/
theorem next_last (h : Chain next stop (l ++ [a] ++ [b])) : next a = b := by
  rw [List.append_assoc] at h
  exact (suffix (show Chain next stop (l ++ a :: [b]) from h)).1

/-- INTERNAL: no node of a chain comes back. -/
theorem nodup (h : Chain next stop l) : l.Nodup := by
  induction l with
  | nil => exact List.nodup_nil
  | cons a l ih =>
      have hmem : a ∉ l := by
        intro hmem
        obtain ⟨before, behind, rfl⟩ := List.append_of_mem hmem
        have hsuffix : Chain next stop (a :: behind) :=
          suffix (show Chain next stop ((a :: before) ++ a :: behind) from h)
        have hlength := congrArg List.length (h.unique hsuffix)
        rw [List.length_append, List.length_cons] at hlength
        omega
      cases l with
      | nil => exact List.nodup_cons.mpr ⟨hmem, List.nodup_nil⟩
      | cons b l => exact List.nodup_cons.mpr ⟨hmem, ih h.tail⟩

/-- INTERNAL: **a new node behind the last one.** -/
theorem snoc (h : Chain next stop (l ++ [a])) (hb : ¬ stop b) (ha : next' a = b)
    (hend : stop (next' b)) (hsame : ∀ c ∈ l, next' c = next c) :
    Chain next' stop (l ++ [a] ++ [b]) := by
  induction l with
  | nil => exact ⟨ha, hb, hend⟩
  | cons c l ih =>
      have hc : next' c = next c := hsame c List.mem_cons_self
      have hrest := fun d hd => hsame d (List.mem_cons_of_mem c hd)
      cases l with
      | nil =>
          obtain ⟨hnext, hstop, hlast⟩ := h
          exact ⟨hc.trans hnext, hstop, ih hlast hrest⟩
      | cons d l =>
          obtain ⟨hnext, hstop, hlast⟩ := h
          exact ⟨hc.trans hnext, hstop, ih hlast hrest⟩

/-- INTERNAL: another end for the last node. -/
theorem replaceEnd (h : Chain next stop (l ++ [a])) (hend : stop (next' a))
    (hsame : ∀ c ∈ l, next' c = next c) : Chain next' stop (l ++ [a]) := by
  induction l with
  | nil => exact hend
  | cons c l ih =>
      have hc : next' c = next c := hsame c List.mem_cons_self
      have hrest := fun d hd => hsame d (List.mem_cons_of_mem c hd)
      cases l with
      | nil =>
          obtain ⟨hnext, hstop, -⟩ := h
          exact ⟨hc.trans hnext, hstop, hend⟩
      | cons d l =>
          obtain ⟨hnext, hstop, hlast⟩ := h
          exact ⟨hc.trans hnext, hstop, ih hlast hrest⟩

/-- INTERNAL: nothing but nodes and ends is named. -/
theorem next_ne (h : Chain next stop l) (hb : ¬ stop b) (hnot : b ∉ l) : ∀ c ∈ l, next c ≠ b := by
  rintro c hc rfl
  obtain ⟨before, behind, rfl⟩ := List.append_of_mem hc
  have hsuffix := h.suffix
  cases behind with
  | nil => exact hb hsuffix
  | cons d behind =>
      apply hnot
      rw [hsuffix.1]
      simp

/-- INTERNAL: a node names an end or another node. -/
theorem next_mem (h : Chain next stop l) (ha : a ∈ l) : stop (next a) ∨ next a ∈ l := by
  by_cases hstop : stop (next a)
  · exact .inl hstop
  · refine .inr ?_
    by_contra hnot
    exact h.next_ne hstop hnot a ha rfl

/-- INTERNAL: **a new node is linked** by two names that change, its own and that of the last
node. -/
theorem link [DecidableEq α] {v : α} (h : Chain next stop (l ++ [a])) (hb : ¬ stop b)
    (hnot : b ∉ l ++ [a]) (hend : stop v)
    (hnext : ∀ c ∈ l ++ [a] ++ [b], next' c = if c = b then v else if c = a then b else next c) :
    Chain next' stop (l ++ [a] ++ [b]) := by
  have hne : ∀ c ∈ l ++ [a], c ≠ b := fun c hc heq => hnot (heq ▸ hc)
  have ha : a ∈ l ++ [a] := by simp
  refine h.snoc hb ?_ ?_ fun c hc => ?_
  · rw [hnext a (by simp), if_neg (hne a ha), if_pos rfl]
  · rw [hnext b (by simp), if_pos rfl]
    exact hend
  · have hlast : c ≠ a := by
      rintro rfl
      exact (List.nodup_append.mp h.nodup).2.2 c hc c (by simp) rfl
    rw [hnext c (by simp [hc]), if_neg (hne c (by simp [hc])), if_neg hlast]

end Chain

end LakeOS.Library
