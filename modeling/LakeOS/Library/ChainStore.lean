import Mathlib.Logic.Function.Basic
import LakeOS.Library.Chain

/-!
# Chains that share no node

A table of links has many chains.  Each is named by its first node, and `files` has the chains by
their names.  A node is in use if its link is not `free`, and then it is in exactly one chain.

Three moves keep this: a new chain of an unused node, an unused node behind the last one of a
chain, and a chain that is given back.
-/

set_option autoImplicit false

namespace LakeOS.Library

variable {α : Type}

/-- The nodes in use are those of the chains, and no two chains share a node. -/
structure ChainStore (next : α → α) (stop node : α → Prop) (free : α)
    (files : α → Option (List α)) : Prop where
  chain : ∀ {a l}, files a = some l → Chain next stop l
  head : ∀ {a l}, files a = some l → l.head? = some a
  nodes : ∀ {a l}, files a = some l → ∀ c ∈ l, node c
  apart : ∀ {a b l l'}, files a = some l → files b = some l' → a ≠ b → ∀ c ∈ l, c ∉ l'
  covers : ∀ {c}, node c → next c ≠ free → ∃ a l, files a = some l ∧ c ∈ l

namespace ChainStore

variable {next next' : α → α} {stop node : α → Prop} {free a b c last v : α}
  {files : α → Option (List α)} {l lead : List α}

/-- INTERNAL: only the links of the nodes matter. -/
theorem congr (h : ChainStore next stop node free files)
    (hsame : ∀ c, node c → next' c = next c) : ChainStore next' stop node free files where
  chain hl := (h.chain hl).congr fun c hc => hsame c (h.nodes hl c hc)
  head := h.head
  nodes := h.nodes
  apart := h.apart
  covers hc hused := h.covers hc (hsame _ hc ▸ hused)

section

variable (hstop : ¬ stop free) (hnode : ¬ node free)

include hstop hnode

/-- INTERNAL: a node of a chain is in use. -/
theorem in_use (h : ChainStore next stop node free files) (hl : files a = some l) (hc : c ∈ l) :
    next c ≠ free :=
  (h.chain hl).next_ne hstop (fun hmem => hnode (h.nodes hl free hmem)) c hc

/-- INTERNAL: an unused node is in no chain. -/
theorem notMem (h : ChainStore next stop node free files) (hunused : next b = free)
    (hl : files a = some l) : b ∉ l :=
  fun hb => h.in_use hstop hnode hl hb hunused

/-- INTERNAL: an unused node names no chain. -/
theorem not_named (h : ChainStore next stop node free files) (hunused : next b = free) :
    files b = none := by
  cases hb : files b with
  | none => rfl
  | some l =>
    exact absurd (List.mem_of_mem_head? (h.head hb)) (h.notMem hstop hnode hunused hb)

variable [DecidableEq α]

/-- **A new chain** of an unused node. -/
theorem create (h : ChainStore next stop node free files) (hb : node b) (hunused : next b = free)
    (hend : stop (next' b)) (hsame : ∀ c, node c → c ≠ b → next' c = next c) :
    ChainStore next' stop node free (Function.update files b (some [b])) := by
  have hold : ∀ {a l}, a ≠ b → Function.update files b (some [b]) a = some l → files a = some l :=
    fun hne hl => (Function.update_of_ne hne _ _).symm.trans hl
  have hnew : ∀ {l}, Function.update files b (some [b]) b = some l → l = [b] := by
    intro l hl
    rw [Function.update_self] at hl
    exact (Option.some.inj hl).symm
  refine ⟨fun {a l} hl => ?_, fun {a l} hl => ?_, fun {a l} hl => ?_,
    fun {a a' l l'} hl hl' hne => ?_, fun {c} hc hused => ?_⟩
  · by_cases hab : a = b
    · subst hab
      rw [hnew hl]
      exact hend
    · have hfile := hold hab hl
      refine (h.chain hfile).congr fun c hc => hsame c (h.nodes hfile c hc) ?_
      rintro rfl
      exact h.notMem hstop hnode hunused hfile hc
  · by_cases hab : a = b
    · subst hab
      rw [hnew hl]
      rfl
    · exact h.head (hold hab hl)
  · by_cases hab : a = b
    · subst hab
      rw [hnew hl]
      intro c hc
      exact List.mem_singleton.mp hc ▸ hb
    · exact h.nodes (hold hab hl)
  · by_cases hab : a = b
    · subst hab
      rw [hnew hl]
      intro c hc
      rw [List.mem_singleton.mp hc]
      exact h.notMem hstop hnode hunused (hold hne.symm hl')
    · by_cases hab' : a' = b
      · subst hab'
        rw [hnew hl']
        intro c hc hmem
        rw [List.mem_singleton.mp hmem] at hc
        exact h.notMem hstop hnode hunused (hold hab hl) hc
      · exact h.apart (hold hab hl) (hold hab' hl') hne
  · by_cases hcb : c = b
    · exact ⟨b, [b], Function.update_self _ _ _, hcb ▸ List.mem_singleton_self c⟩
    · obtain ⟨a, l, hl, hmem⟩ := h.covers hc (hsame c hc hcb ▸ hused)
      refine ⟨a, l, ?_, hmem⟩
      rw [Function.update_of_ne, hl]
      rintro rfl
      rw [h.not_named hstop hnode hunused] at hl
      cases hl

/-- **A chain grows** by an unused node behind its last one. -/
theorem append (h : ChainStore next stop node free files) (hl : files a = some (lead ++ [last]))
    (hb : node b) (hunused : next b = free) (hlink : ¬ stop b) (hend : stop v)
    (hnext : ∀ c, node c → next' c = if c = b then v else if c = last then b else next c) :
    ChainStore next' stop node free (Function.update files a (some (lead ++ [last] ++ [b]))) := by
  have hold : ∀ {a' l}, a' ≠ a →
      Function.update files a (some (lead ++ [last] ++ [b])) a' = some l → files a' = some l :=
    fun hne hl => (Function.update_of_ne hne _ _).symm.trans hl
  have hnew : ∀ {l}, Function.update files a (some (lead ++ [last] ++ [b])) a = some l →
      l = lead ++ [last] ++ [b] := by
    intro l hl
    rw [Function.update_self] at hl
    exact (Option.some.inj hl).symm
  have hnot := h.notMem hstop hnode hunused hl
  have hnodes : ∀ c ∈ lead ++ [last] ++ [b], node c := by
    intro c hc
    rcases List.mem_append.mp hc with hc | hc
    · exact h.nodes hl c hc
    · exact List.mem_singleton.mp hc ▸ hb
  have hothers : ∀ {a' l'}, a' ≠ a → files a' = some l' → ∀ c ∈ lead ++ [last] ++ [b], c ∉ l' := by
    intro a' l' hne hl' c hc
    rcases List.mem_append.mp hc with hc | hc
    · exact h.apart hl hl' hne.symm c hc
    · rw [List.mem_singleton.mp hc]
      exact h.notMem hstop hnode hunused hl'
  refine ⟨fun {a' l} hl' => ?_, fun {a' l} hl' => ?_, fun {a' l} hl' => ?_,
    fun {a' a'' l l'} hl' hl'' hne => ?_, fun {c} hc hused => ?_⟩
  · by_cases haa : a' = a
    · subst haa
      rw [hnew hl']
      exact (h.chain hl).link hlink hnot hend fun c hc => hnext c (hnodes c hc)
    · have hfile := hold haa hl'
      refine (h.chain hfile).congr fun c hc => ?_
      have hcb : c ≠ b := by
        rintro rfl
        exact hothers haa hfile c (by simp) hc
      have hcl : c ≠ last := by
        rintro rfl
        exact hothers haa hfile c (by simp) hc
      rw [hnext c (h.nodes hfile c hc), if_neg hcb, if_neg hcl]
  · by_cases haa : a' = a
    · subst haa
      rw [hnew hl', List.head?_append, h.head hl]
      rfl
    · exact h.head (hold haa hl')
  · by_cases haa : a' = a
    · subst haa
      rw [hnew hl']
      exact hnodes
    · exact h.nodes (hold haa hl')
  · by_cases haa : a' = a
    · subst haa
      rw [hnew hl']
      exact hothers hne.symm (hold hne.symm hl'')
    · by_cases haa' : a'' = a
      · subst haa'
        rw [hnew hl'']
        exact fun c hc hmem => hothers haa (hold haa hl') c hmem hc
      · exact h.apart (hold haa hl') (hold haa' hl'') hne
  · by_cases hmem : c ∈ lead ++ [last] ++ [b]
    · exact ⟨a, _, Function.update_self _ _ _, hmem⟩
    · have hcb : c ≠ b := by
        rintro rfl
        exact hmem (by simp)
      have hcl : c ≠ last := by
        rintro rfl
        exact hmem (by simp)
      rw [hnext c hc, if_neg hcb, if_neg hcl] at hused
      obtain ⟨a', l', hl', hc'⟩ := h.covers hc hused
      refine ⟨a', l', ?_, hc'⟩
      rw [Function.update_of_ne, hl']
      rintro rfl
      cases Option.some.inj (hl.symm.trans hl')
      exact hmem (List.mem_append_left _ hc')

omit hstop hnode in
/-- **A chain is given back.** -/
theorem remove (h : ChainStore next stop node free files) (hl : files a = some l)
    (hnext : ∀ c, node c → next' c = if c ∈ l then free else next c) :
    ChainStore next' stop node free (Function.update files a none) := by
  have hold : ∀ {a' l'}, Function.update files a none a' = some l' → a' ≠ a ∧ files a' = some l' := by
    intro a' l' hl'
    have hne : a' ≠ a := by
      rintro rfl
      rw [Function.update_self] at hl'
      cases hl'
    exact ⟨hne, (Function.update_of_ne hne _ _).symm.trans hl'⟩
  refine ⟨fun hl' => ?_, fun hl' => h.head (hold hl').2, fun hl' => h.nodes (hold hl').2,
    fun hl' hl'' => h.apart (hold hl').2 (hold hl'').2, fun {c} hc hused => ?_⟩
  · obtain ⟨hne, hfile⟩ := hold hl'
    refine (h.chain hfile).congr fun c hc => ?_
    rw [hnext c (h.nodes hfile c hc), if_neg (h.apart hfile hl hne c hc)]
  · have hmem : c ∉ l := fun hmem => hused (by rw [hnext c hc, if_pos hmem])
    rw [hnext c hc, if_neg hmem] at hused
    obtain ⟨a', l', hl', hc'⟩ := h.covers hc hused
    refine ⟨a', l', ?_, hc'⟩
    rw [Function.update_of_ne, hl']
    rintro rfl
    exact hmem (Option.some.inj (hl.symm.trans hl') ▸ hc')

end

end ChainStore

end LakeOS.Library
