import Mathlib.Data.Finset.Card
import Mathlib.Data.Finset.Insert
import Mathlib.Logic.Function.Iterate
import Mathlib.Tactic.Common

/-!
# Walks that stop

From every node a walk goes on to the node that it names, until it comes to one where it
stops.  Nothing is said about the graph: there may be cycles, and then a walk that does not
stop early never does.

An erasing walk forgets what a node names when it leaves it; a node that was erased names a
fixed one.  Such a walk stops if the plain walk from its start does, or the one from the fixed
node.
-/

set_option autoImplicit false

namespace LakeOS.Library

variable {α : Type}

/-- The walk stops after this many steps. -/
def ReachesIn (next : α → α) (stop : α → Prop) : ℕ → α → Prop
  | 0, a => stop a
  | n + 1, a => ¬ stop a ∧ ReachesIn next stop n (next a)

/-- The walk stops. -/
def Reaches (next : α → α) (stop : α → Prop) (a : α) : Prop := ∃ n, ReachesIn next stop n a

variable {next next' : α → α} {stop : α → Prop} {a b z : α} {n m : ℕ}

theorem Reaches.step (h : Reaches next stop (next a)) : Reaches next stop a := by
  by_cases hstop : stop a
  · exact ⟨0, hstop⟩
  · obtain ⟨n, hn⟩ := h
    exact ⟨n + 1, hstop, hn⟩

namespace ReachesIn

/-- A walk stops once. -/
theorem unique (h : ReachesIn next stop n a) (h' : ReachesIn next stop m a) : n = m := by
  induction n generalizing m a with
  | zero =>
    cases m with
    | zero => rfl
    | succ m => exact absurd h h'.1
  | succ n ih =>
    cases m with
    | zero => exact absurd h' h.1
    | succ m => rw [ih h.2 h'.2]

/-- A walk after some of its steps. -/
theorem iterate (h : ReachesIn next stop n a) {k : ℕ} (hk : k ≤ n) :
    ReachesIn next stop (n - k) (next^[k] a) := by
  induction k generalizing n a with
  | zero => exact h
  | succ k ih =>
    obtain ⟨n, rfl⟩ := Nat.exists_eq_add_of_le' (show 1 ≤ n by omega)
    rw [Function.iterate_succ_apply, Nat.add_sub_add_right]
    exact ih h.2 (by omega)

/-- INTERNAL: **the nodes of a walk that stops are distinct**, so it is shorter than a set that
it does not leave. -/
theorem lt_card {s : Finset α} (h : ReachesIn next stop n a) (ha : a ∈ s)
    (hclosed : ∀ b ∈ s, next b ∈ s) : n < s.card := by
  have hmem : ∀ k, next^[k] a ∈ s := by
    intro k
    induction k with
    | zero => exact ha
    | succ k ih =>
      rw [Function.iterate_succ_apply']
      exact hclosed _ ih
  have hcard : (Finset.range (n + 1)).card ≤ s.card := by
    apply Finset.card_le_card_of_injOn (fun k => next^[k] a) (fun k _ => hmem k)
    intro j hj k hk hjk
    have hj' : j ≤ n := Nat.lt_succ_iff.mp (Finset.mem_range.mp hj)
    have hk' : k ≤ n := Nat.lt_succ_iff.mp (Finset.mem_range.mp hk)
    have hdist := (h.iterate hj').unique ((show next^[j] a = next^[k] a from hjk) ▸ h.iterate hk')
    omega
  rw [Finset.card_range] at hcard
  omega

/-- A walk reads the nodes from which it stops. -/
theorem congr (h : ReachesIn next stop n a)
    (hsame : ∀ b k, k ≤ n → ReachesIn next stop k b → next' b = next b) :
    ReachesIn next' stop n a := by
  induction n generalizing a with
  | zero => exact h
  | succ n ih =>
    refine ⟨h.1, ?_⟩
    rw [hsame a (n + 1) (Nat.le_refl _) h]
    exact ih h.2 fun b k hk => hsame b k (by omega)

end ReachesIn

/-! ## Walks that erase -/

variable [DecidableEq α]

/-- The walk stops within some rounds; each node names `z` after it was left. -/
def ErasingEnds (stop : α → Prop) (z : α) : (fuel : ℕ) → α → (α → α) → Prop
  | 0, _, _ => False
  | fuel + 1, a, next => stop a ∨ ErasingEnds stop z fuel (next a) (Function.update next a z)

theorem ErasingEnds.mono {fuel fuel' : ℕ} (h : ErasingEnds stop z fuel a next)
    (hle : fuel ≤ fuel') : ErasingEnds stop z fuel' a next := by
  induction fuel generalizing fuel' a next with
  | zero => exact h.elim
  | succ fuel ih =>
    obtain ⟨fuel', rfl⟩ := Nat.exists_eq_add_of_le' (show 1 ≤ fuel' by omega)
    exact h.imp_right fun h => ih h (by omega)

/-- INTERNAL: what was erased does not let the walk stop where it would not. -/
theorem ErasingEnds.reaches {fuel : ℕ} (h : ErasingEnds stop z fuel a next')
    (hsame : ∀ b, next' b = next b ∨ next' b = z) :
    Reaches next stop a ∨ Reaches next stop z := by
  induction fuel generalizing a next' with
  | zero => exact h.elim
  | succ fuel ih =>
    rcases h with hstop | hrest
    · exact .inl ⟨0, hstop⟩
    · have hnext := ih hrest fun b => by
        by_cases hb : b = a
        · subst hb
          exact .inr (Function.update_self _ _ _)
        · rw [Function.update_of_ne hb]
          exact hsame b
      rcases hnext with hreach | hreach
      · rcases hsame a with heq | heq
        · rw [heq] at hreach
          exact .inl hreach.step
        · rw [heq] at hreach
          exact .inr hreach
      · exact .inr hreach

/-- INTERNAL: a walk that stops does not come back to what it erases. -/
theorem ReachesIn.erasing (h : ReachesIn next stop n a) (z : α) :
    ErasingEnds stop z (n + 1) a next := by
  induction n generalizing a next with
  | zero => exact .inl h
  | succ n ih =>
    refine .inr (ih (h.2.congr fun b k hk hb => ?_))
    have hne : b ≠ a := by
      rintro rfl
      have := hb.unique h
      omega
    exact Function.update_of_ne hne _ _

/-- INTERNAL: from a node that was erased the walk goes on from the fixed node. -/
theorem erasing_of_erased (hz : ReachesIn next stop n z) (ha : next a = z) :
    ErasingEnds stop z (n + 2) a next := by
  have hupdate : Function.update next a z = next := by
    rw [Function.update_eq_self_iff, ha]
  refine .inr ?_
  rw [hupdate, ha]
  exact hz.erasing z

/-- INTERNAL: a walk that comes back does the same.  The induction is on the nodes that are
not erased. -/
theorem erasing_of_reaches {s : Finset α} (hclosed : ∀ b ∈ s, next b ∈ s) {v : Finset α}
    (hv : ∀ b ∈ v, ¬ Reaches next stop b) (hz : ReachesIn next stop n z) (ha : a ∈ s)
    (hnext : ∀ b, next' b = if b ∈ v then z else next b) :
    ErasingEnds stop z ((s \ v).card + 1 + (n + 1) + s.card) a next' := by
  have hkeep : ∀ {k b}, ReachesIn next stop k b → ReachesIn next' stop k b := fun hb =>
    hb.congr fun c j _ hc => by rw [hnext, if_neg fun hmem => hv c hmem ⟨j, hc⟩]
  generalize hm : (s \ v).card = m
  induction m generalizing v a next' with
  | zero =>
    have hin : a ∈ v := by
      by_contra hnot
      have := Finset.card_pos.mpr ⟨a, Finset.mem_sdiff.mpr ⟨ha, hnot⟩⟩
      omega
    have herased : next' a = z := by rw [hnext, if_pos hin]
    exact (erasing_of_erased (hkeep hz) herased).mono (by omega)
  | succ m ih =>
    by_cases hin : a ∈ v
    · have herased : next' a = z := by rw [hnext, if_pos hin]
      exact (erasing_of_erased (hkeep hz) herased).mono (by omega)
    · by_cases hreach : Reaches next stop a
      · obtain ⟨k, hk⟩ := hreach
        have hlt := hk.lt_card ha hclosed
        exact ((hkeep hk).erasing z).mono (by omega)
      · -- the node is erased and never needed again
        have hv' : ∀ b ∈ insert a v, ¬ Reaches next stop b := by
          intro b hb
          rcases Finset.mem_insert.mp hb with rfl | hb
          · exact hreach
          · exact hv b hb
        have hnext' : ∀ b, Function.update next' a z b = if b ∈ insert a v then z else next b := by
          intro b
          by_cases hb : b = a
          · subst hb
            rw [Function.update_self, if_pos (Finset.mem_insert_self b v)]
          · rw [Function.update_of_ne hb, hnext]
            simp [hb]
        have hcard : (s \ insert a v).card = m := by
          rw [Finset.sdiff_insert, Finset.card_erase_of_mem (Finset.mem_sdiff.mpr ⟨ha, hin⟩), hm]
          rfl
        have hrest := ih hv' (hclosed a ha) hnext'
          (fun hb => hb.congr fun c j _ hc => by
            rw [hnext', if_neg fun hmem => hv' c hmem ⟨j, hc⟩]) hcard
        have hstep : next' a = next a := by rw [hnext, if_neg hin]
        rw [← hstep] at hrest
        have hends : ErasingEnds stop z (m + 1 + (n + 1) + s.card + 1) a next' := .inr hrest
        exact hends.mono (by omega)

/-- **An erasing walk stops** if and only if the plain walk does, from its start or from the
node that erased ones name. -/
theorem erasingEnds_iff {s : Finset α} (hclosed : ∀ b ∈ s, next b ∈ s) (ha : a ∈ s) (hz : z ∈ s)
    {fuel : ℕ} (hfuel : 3 * s.card + 2 ≤ fuel) :
    ErasingEnds stop z fuel a next ↔ Reaches next stop a ∨ Reaches next stop z := by
  constructor
  · exact fun h => h.reaches fun b => .inl rfl
  · rintro (⟨n, hn⟩ | ⟨n, hn⟩)
    · have hlt := hn.lt_card ha hclosed
      exact (hn.erasing z).mono (by omega)
    · have hlt := hn.lt_card hz hclosed
      have hnone : ∀ b ∈ (∅ : Finset α), ¬ Reaches next stop b := by simp
      have hsame : ∀ b, next b = if b ∈ (∅ : Finset α) then z else next b := by simp
      have hends := erasing_of_reaches hclosed hnone hn ha hsame
      rw [Finset.sdiff_empty] at hends
      exact hends.mono (by omega)

end LakeOS.Library
