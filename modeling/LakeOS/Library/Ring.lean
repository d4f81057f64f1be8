import Mathlib.Tactic.Common
import Mathlib.Data.List.Chain

/-!
# Doubly linked rings

The links of a circular doubly linked list are two maps from nodes to nodes.  A list of
nodes is a ring of the links when every node and its successor, the first after the
last, name each other.

A ring can be read from any of its nodes (`ring_append_comm`), so the two surgeries
are proved at its front (`Ring.link`, `Ring.unlink`) and stated for any place in it
(`Ring.linkAt`, `Ring.unlinkAt`).  They ask about the new links at the nodes of the ring
only.
-/

set_option autoImplicit false

namespace LakeOS.Library

/-- The links of a doubly linked list. -/
structure Links (α : Type) where
  next : α → α
  prev : α → α

namespace Links

variable {α : Type}

/-- `x` and `y` name each other. -/
def Adjacent (L : Links α) (x y : α) : Prop := L.next x = y ∧ L.prev y = x

/-- The nodes of `l` in a circle. -/
def Ring (L : Links α) : List α → Prop
  | [] => True
  | h :: l => List.IsChain L.Adjacent (h :: (l ++ [h]))

variable {L L' : Links α}

theorem isChain_congr {l : List α} (hchain : l.IsChain L.Adjacent)
    (hnext : ∀ x ∈ l.dropLast, L'.next x = L.next x)
    (hprev : ∀ x ∈ l.tail, L'.prev x = L.prev x) : l.IsChain L'.Adjacent := by
  induction l with
  | nil => exact List.isChain_nil
  | cons x l ih =>
      cases l with
      | nil => exact List.isChain_singleton x
      | cons y l =>
          rw [List.isChain_cons_cons] at hchain ⊢
          obtain ⟨⟨hxy, hyx⟩, hrest⟩ := hchain
          refine ⟨⟨?_, ?_⟩, ih hrest ?_ ?_⟩
          · rw [hnext x (by simp), hxy]
          · rw [hprev y (by simp), hyx]
          · intro z hz
            exact hnext z (by simp [hz])
          · intro z hz
            exact hprev z (List.mem_of_mem_tail hz)

/-- **A ring is read from any of its nodes.** -/
theorem ring_append_comm {as bs : List α} (h : L.Ring (as ++ bs)) : L.Ring (bs ++ as) := by
  cases as with
  | nil => simpa using h
  | cons a as =>
      cases bs with
      | nil => simpa using h
      | cons b bs =>
          simp only [List.cons_append, Ring, List.append_assoc] at h ⊢
          rw [← List.cons_append, List.isChain_split] at h ⊢
          exact ⟨h.2, h.1⟩

theorem Ring.next_prev {p x : α} {l : List α} (h : L.Ring (p :: x :: l)) :
    L.next p = x ∧ L.prev x = p := by
  simp only [Ring, List.cons_append, List.isChain_cons_cons] at h
  exact h.1

theorem Ring.next_prev_head {p : α} {l : List α} (h : L.Ring (p :: l)) :
    L.next p = (l ++ [p]).head (by simp) ∧ L.prev ((l ++ [p]).head (by simp)) = p := by
  cases l with
  | nil =>
      simp only [Ring, List.nil_append, List.isChain_cons_cons] at h
      exact h.1
  | cons x l => exact h.next_prev

/-- The successor of a node is a node. -/
theorem Ring.next_mem {l : List α} {x : α} (h : L.Ring l) (hx : x ∈ l) : L.next x ∈ l := by
  obtain ⟨as, bs, rfl⟩ := List.append_of_mem hx
  have hnext := (ring_append_comm h).next_prev_head.1
  have hmem : L.next x ∈ bs ++ as ++ [x] := by
    rw [hnext]
    exact List.head_mem _
  simp only [List.mem_append, List.mem_cons, List.not_mem_nil, or_false] at hmem ⊢
  tauto

/-- A node is the predecessor of its successor. -/
theorem Ring.prev_next {l : List α} {x : α} (h : L.Ring l) (hx : x ∈ l) :
    L.prev (L.next x) = x := by
  obtain ⟨as, bs, rfl⟩ := List.append_of_mem hx
  obtain ⟨hnext, hprev⟩ := (ring_append_comm h).next_prev_head
  rw [hnext, hprev]

/-- Links that agree on the nodes of a ring have the same ring. -/
theorem Ring.congr {l : List α} (h : L.Ring l) (hnext : ∀ x ∈ l, L'.next x = L.next x)
    (hprev : ∀ x ∈ l, L'.prev x = L.prev x) : L'.Ring l := by
  cases l with
  | nil => trivial
  | cons p l =>
      refine isChain_congr h ?_ ?_
      · intro x hx
        rw [← List.cons_append, List.dropLast_concat] at hx
        exact hnext x hx
      · intro x hx
        exact hprev x (by simpa [or_comm] using hx)

/-- The chain from the second node of a ring back to the first survives a change of the
first node's `next` and of the second node's `prev`. -/
theorem isChain_return {p n : α} {l b : List α} (hb : l ++ [p] = n :: b)
    (hchain : (n :: b).IsChain L.Adjacent) (hnd : (p :: l).Nodup)
    (hnext : ∀ x ∈ l, L'.next x = L.next x)
    (hprev : ∀ x ∈ p :: l, x ≠ n → L'.prev x = L.prev x) : (n :: b).IsChain L'.Adjacent := by
  have hperm : (n :: b).Perm (p :: l) := hb ▸ List.perm_append_singleton p l
  refine isChain_congr hchain ?_ ?_
  · intro x hx
    rw [← hb, List.dropLast_concat] at hx
    exact hnext x hx
  · intro x hx
    refine hprev x (hperm.mem_iff.mp (List.mem_cons_of_mem n hx)) ?_
    rintro rfl
    exact (List.nodup_cons.mp (hperm.nodup_iff.mpr hnd)).1 hx

/-- **Linking a node in** after the first one. -/
theorem Ring.link {p x : α} {l : List α} (h : L.Ring (p :: l)) (hnd : (p :: l).Nodup)
    (hnextp : L'.next p = x) (hnextx : L'.next x = L.next p)
    (hprevx : L'.prev x = p) (hprevn : L'.prev (L.next p) = x)
    (hnext : ∀ y ∈ l, L'.next y = L.next y)
    (hprev : ∀ y ∈ p :: l, y ≠ L.next p → L'.prev y = L.prev y) :
    L'.Ring (p :: x :: l) := by
  obtain ⟨n, b, hb⟩ : ∃ n b, l ++ [p] = n :: b := List.exists_cons_of_ne_nil (by simp)
  have hchain : (p :: n :: b).IsChain L.Adjacent := by rw [← hb]; exact h
  rw [List.isChain_cons_cons] at hchain
  obtain ⟨⟨rfl, -⟩, hchain⟩ := hchain
  simp only [Ring, List.cons_append, hb, List.isChain_cons_cons]
  exact ⟨⟨hnextp, hprevx⟩, ⟨hnextx, hprevn⟩, isChain_return hb hchain hnd hnext hprev⟩

/-- **Unlinking the node** after the first one. -/
theorem Ring.unlink {p x : α} {l : List α} (h : L.Ring (p :: x :: l)) (hnd : (p :: l).Nodup)
    (hnextp : L'.next p = L.next x) (hprevn : L'.prev (L.next x) = p)
    (hnext : ∀ y ∈ l, L'.next y = L.next y)
    (hprev : ∀ y ∈ p :: l, y ≠ L.next x → L'.prev y = L.prev y) :
    L'.Ring (p :: l) := by
  obtain ⟨n, b, hb⟩ : ∃ n b, l ++ [p] = n :: b := List.exists_cons_of_ne_nil (by simp)
  have hchain : (p :: x :: n :: b).IsChain L.Adjacent := by rw [← hb]; exact h
  simp only [List.isChain_cons_cons] at hchain
  obtain ⟨-, ⟨rfl, -⟩, hchain⟩ := hchain
  simp only [Ring, hb, List.isChain_cons_cons]
  exact ⟨⟨hnextp, hprevn⟩, isChain_return hb hchain hnd hnext hprev⟩

section Anywhere

variable [DecidableEq α] {as bs : List α} {p x : α}

/-- **Linking a node in** behind `p`. -/
theorem Ring.linkAt (h : L.Ring (as ++ p :: bs)) (hnd : (as ++ p :: x :: bs).Nodup)
    (hnext : ∀ y ∈ as ++ p :: x :: bs,
      L'.next y = if y = x then L.next p else if y = p then x else L.next y)
    (hprev : ∀ y ∈ as ++ p :: x :: bs,
      L'.prev y = if y = x then p else if y = L.next p then x else L.prev y) :
    L'.Ring (as ++ p :: x :: bs) := by
  have hperm : (as ++ p :: x :: bs).Perm (p :: x :: (bs ++ as)) := List.perm_append_comm
  simp only [hperm.mem_iff, List.mem_cons, forall_eq_or_imp] at hnext hprev
  obtain ⟨hnextp, hnextx, hnext⟩ := hnext
  obtain ⟨hprevp, hprevx, hprev⟩ := hprev
  have hnd' := hperm.nodup_iff.mp hnd
  simp only [List.nodup_cons, List.mem_cons, not_or] at hnd'
  obtain ⟨⟨hpx, hp⟩, hx, hrest⟩ := hnd'
  have hring : L.Ring (p :: (bs ++ as)) := ring_append_comm h
  have hlinked : L'.Ring (p :: x :: bs ++ as) := by
    refine hring.link (List.nodup_cons.mpr ⟨hp, hrest⟩) ?_ ?_ ?_ ?_ ?_ ?_
    · rw [hnextp, if_neg hpx, if_pos trivial]
    · rw [hnextx, if_pos trivial]
    · rw [hprevx, if_pos trivial]
    · cases List.mem_cons.mp (hring.next_mem List.mem_cons_self) with
      | inl heq => rw [heq, hprevp, if_neg hpx, if_pos heq.symm]
      | inr hmem => rw [hprev _ hmem, if_neg (ne_of_mem_of_not_mem hmem hx), if_pos rfl]
    · intro y hy
      rw [hnext y hy, if_neg (ne_of_mem_of_not_mem hy hx), if_neg (ne_of_mem_of_not_mem hy hp)]
    · intro y hy hne
      cases List.mem_cons.mp hy with
      | inl heq => rw [heq, hprevp, if_neg hpx, if_neg (heq ▸ hne)]
      | inr hmem => rw [hprev y hmem, if_neg (ne_of_mem_of_not_mem hmem hx), if_neg hne]
  exact ring_append_comm hlinked

/-- **Unlinking the node** behind `p`. -/
theorem Ring.unlinkAt (h : L.Ring (as ++ p :: x :: bs)) (hnd : (as ++ p :: x :: bs).Nodup)
    (hnext : ∀ y ∈ as ++ p :: bs, L'.next y = if y = p then L.next x else L.next y)
    (hprev : ∀ y ∈ as ++ p :: bs, L'.prev y = if y = L.next x then p else L.prev y) :
    L'.Ring (as ++ p :: bs) := by
  have hperm : (as ++ p :: bs).Perm (p :: (bs ++ as)) := List.perm_append_comm
  simp only [hperm.mem_iff, List.mem_cons, forall_eq_or_imp] at hnext hprev
  obtain ⟨hnextp, hnext⟩ := hnext
  obtain ⟨hprevp, hprev⟩ := hprev
  have hperm' : (as ++ p :: x :: bs).Perm (p :: x :: (bs ++ as)) := List.perm_append_comm
  have hnd' := hperm'.nodup_iff.mp hnd
  simp only [List.nodup_cons, List.mem_cons, not_or] at hnd'
  obtain ⟨⟨hpx, hp⟩, hx, hrest⟩ := hnd'
  have hring : L.Ring (p :: x :: (bs ++ as)) := ring_append_comm h
  have hfrom : L.Ring (x :: (bs ++ as) ++ [p]) :=
    ring_append_comm (show L.Ring ([p] ++ x :: (bs ++ as)) from hring)
  obtain ⟨n, b, hb⟩ : ∃ n b, bs ++ as ++ [p] = n :: b := List.exists_cons_of_ne_nil (by simp)
  have hxn : L.next x = n := by
    rw [List.cons_append, hb] at hfrom
    exact hfrom.next_prev.1
  have hn : n = p ∨ n ∈ bs ++ as := by
    have : n ∈ bs ++ as ++ [p] := hb ▸ List.mem_cons_self
    simpa only [List.mem_append, List.mem_singleton, or_comm] using this
  have hunlinked : L'.Ring (p :: bs ++ as) := by
    refine hring.unlink (List.nodup_cons.mpr ⟨hp, hrest⟩) ?_ ?_ ?_ ?_
    · rw [hnextp, if_pos trivial]
    · cases hn with
      | inl heq => rw [hxn, heq, hprevp, if_pos (hxn.trans heq).symm]
      | inr hmem => rw [hxn, hprev n hmem, if_pos hxn.symm]
    · intro y hy
      rw [hnext y hy, if_neg (ne_of_mem_of_not_mem hy hp)]
    · intro y hy hne
      cases List.mem_cons.mp hy with
      | inl heq => rw [heq, hprevp, if_neg (heq ▸ hne)]
      | inr hmem => rw [hprev y hmem, if_neg hne]
  exact ring_append_comm hunlinked

/-- **Putting a node in the place** of the one behind `p`. -/
theorem Ring.replaceAt {y : α} (h : L.Ring (as ++ p :: x :: bs)) (hnd : (as ++ p :: x :: bs).Nodup)
    (hnd' : (as ++ p :: y :: bs).Nodup)
    (hnext : ∀ z ∈ as ++ p :: y :: bs,
      L'.next z = if z = y then L.next x else if z = p then y else L.next z)
    (hprev : ∀ z ∈ as ++ p :: y :: bs,
      L'.prev z = if z = y then p else if z = L.next x then y else L.prev z) :
    L'.Ring (as ++ p :: y :: bs) := by
  -- the ring in between, without `x` and without `y`
  let M : Links α := ⟨fun z => if z = p then L.next x else L.next z,
    fun z => if z = L.next x then p else L.prev z⟩
  have hbetween : M.Ring (as ++ p :: bs) := h.unlinkAt hnd (fun _ _ => rfl) fun _ _ => rfl
  have hnextp : M.next p = L.next x := if_pos rfl
  refine hbetween.linkAt hnd' (fun z hz => ?_) fun z hz => ?_
  · rw [hnext z hz, hnextp]
    by_cases hzp : z = p
    · rw [if_pos hzp, if_pos hzp]
    · rw [if_neg hzp, if_neg hzp]
      simp only [M, if_neg hzp]
  · rw [hprev z hz, hnextp]
    by_cases hzn : z = L.next x
    · rw [if_pos hzn, if_pos hzn]
    · rw [if_neg hzn, if_neg hzn]
      simp only [M, if_neg hzn]

end Anywhere

end Links

end LakeOS.Library
