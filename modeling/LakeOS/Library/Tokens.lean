import Mathlib.Data.List.Basic
import Mathlib.Data.Nat.Init

/-!
# Tokens of a list

The tokens of a list are its longest nonempty spans without separators.  A scanner may end a token
at the wrong separator: it looks for each one in the order of a list of them and takes the first
one that is anywhere ahead.  That gives the tokens if every separator that ends one comes, in that
order, before all of those behind it.
-/

set_option autoImplicit false

namespace LakeOS.Library

section

variable {α : Type} [DecidableEq α] (seps s : List α)

/-- A separator stands at a place. -/
def SepAt (k : ℕ) : Prop := ∃ c ∈ seps, s[k]? = some c

/-- A longest nonempty span without separators. -/
structure IsToken (i n : ℕ) : Prop where
  pos : 0 < n
  fits : i + n ≤ s.length
  free : ∀ k, i ≤ k → k < i + n → ¬ SepAt seps s k
  left : i = 0 ∨ SepAt seps s (i - 1)
  right : i + n = s.length ∨ SepAt seps s (i + n)

/-- Behind the place `p`, a separator that ends a token comes before all those that follow it. -/
def EndsFirstFrom (p : ℕ) : Prop :=
  ∀ i c j d, p ≤ i → ¬ SepAt seps s i → c ∈ seps → s[i + 1]? = some c → i + 1 < j → d ∈ seps →
    s[j]? = some d → seps.idxOf c ≤ seps.idxOf d

/-- Every separator that ends a token comes before all those that follow it. -/
def EndsFirst : Prop := EndsFirstFrom seps s 0

/-- The spans that a scanner takes which, behind the separators in front, looks for the separators
one after the other. -/
inductive Cuts : ℕ → List (ℕ × ℕ) → Prop
  | done {p : ℕ} (hseps : ∀ k, p ≤ k → k < s.length → SepAt seps s k) : Cuts p []
  | last {p i : ℕ} (hpi : p ≤ i) (hi : i < s.length) (hseps : ∀ k, p ≤ k → k < i → SepAt seps s k)
      (hfree : ∀ k, i ≤ k → ¬ SepAt seps s k) : Cuts p [(i, s.length - i)]
  | cut {p i e : ℕ} {d : α} {ts : List (ℕ × ℕ)} (hpi : p ≤ i) (hie : i < e)
      (hseps : ∀ k, p ≤ k → k < i → SepAt seps s k) (hstart : ¬ SepAt seps s i)
      (hd : d ∈ seps) (hend : s[e]? = some d) (hfirst : ∀ k, i ≤ k → k < e → s[k]? ≠ some d)
      (hleast : ∀ c ∈ seps, ∀ k, i ≤ k → s[k]? = some c → seps.idxOf d ≤ seps.idxOf c)
      (hrest : Cuts (e + 1) ts) : Cuts p ((i, e - i) :: ts)

end

section

variable {α : Type} [DecidableEq α] {seps s : List α} {p : ℕ} {ts : List (ℕ × ℕ)}

omit [DecidableEq α] in
theorem SepAt.lt {k : ℕ} (h : SepAt seps s k) : k < s.length := by
  obtain ⟨c, -, hk⟩ := h
  exact (List.getElem?_eq_some_iff.mp hk).1

namespace IsToken

variable {i j n m : ℕ}

omit [DecidableEq α] in
/-- INTERNAL: a token has one end. -/
theorem length_eq (h : IsToken seps s i n) (h' : IsToken seps s i m) : n = m := by
  have hle : ∀ {n m}, IsToken seps s i n → IsToken seps s i m → n ≤ m := by
    intro n m h h'
    by_contra hlt
    have hfits := h.fits
    rcases h'.right with hend | hsep
    · omega
    · exact h.free (i + m) (by omega) (by omega) hsep
  exact Nat.le_antisymm (hle h h') (hle h' h)

omit [DecidableEq α] in
/-- INTERNAL: a token that begins behind `p` and before the end of the first one there is the
first one. -/
theorem start_eq (h : IsToken seps s i n) (h' : IsToken seps s j m)
    (hseps : ∀ k, p ≤ k → k < j → SepAt seps s k) (hp : p ≤ i) (hi : i < j + m) : i = j := by
  have hpos := h.pos
  by_contra hne
  obtain hlt | hgt : i < j ∨ j < i := by omega
  · exact h.free i (Nat.le_refl i) (by omega) (hseps i hp hlt)
  · rcases h.left with hzero | hsep
    · omega
    · exact h'.free (i - 1) (by omega) (by omega) hsep

omit [DecidableEq α] in
/-- INTERNAL: a span behind separators begins like a token. -/
theorem left_of_seps (hp : p = 0 ∨ SepAt seps s (p - 1)) (hpj : p ≤ j)
    (hseps : ∀ k, p ≤ k → k < j → SepAt seps s k) : j = 0 ∨ SepAt seps s (j - 1) := by
  by_cases heq : j = p
  · rw [heq]
    exact hp
  · exact Or.inr (hseps (j - 1) (by omega) (by omega))

end IsToken

namespace Cuts

/-- INTERNAL: the spans are one behind the other. -/
theorem sorted (h : Cuts seps s p ts) :
    (∀ t ∈ ts, p ≤ t.1) ∧ ts.Pairwise fun t u => t.1 < u.1 := by
  induction h with
  | done => exact ⟨fun t ht => (List.not_mem_nil ht).elim, List.Pairwise.nil⟩
  | last hpi =>
    refine ⟨fun t ht => ?_, List.pairwise_singleton _ _⟩
    rw [List.mem_singleton.mp ht]
    exact hpi
  | @cut p i e d ts hpi hie _ _ _ _ _ _ _ ih =>
    refine ⟨fun t ht => ?_, List.pairwise_cons.mpr ⟨fun t ht => ?_, ih.2⟩⟩
    · rcases List.mem_cons.mp ht with rfl | ht
      · exact hpi
      · have hle := ih.1 t ht
        omega
    · have hle := ih.1 t ht
      exact Nat.lt_of_lt_of_le (by omega : i < e + 1) hle

/-- INTERNAL: they are inside the list. -/
theorem fits (h : Cuts seps s p ts) : ∀ t ∈ ts, t.1 + t.2 ≤ s.length := by
  induction h with
  | done => exact fun t ht => (List.not_mem_nil ht).elim
  | last _ hi =>
    intro t ht
    rw [List.mem_singleton.mp ht]
    omega
  | cut _ hie _ _ _ hend _ _ _ ih =>
    intro t ht
    have hlt := (List.getElem?_eq_some_iff.mp hend).1
    rcases List.mem_cons.mp ht with rfl | ht
    · omega
    · exact ih t ht

/-- INTERNAL: **the scanner takes no separator into a token** exactly if the separators that end
tokens come first. -/
theorem free_iff (h : Cuts seps s p ts) :
    (∀ t ∈ ts, ∀ k, t.1 ≤ k → k < t.1 + t.2 → ¬ SepAt seps s k) ↔ EndsFirstFrom seps s p := by
  induction h with
  | @done p hseps =>
    refine ⟨fun _ i c j d hi hfree _ hc _ _ _ => ?_, fun _ t ht => (List.not_mem_nil ht).elim⟩
    have hlt := (List.getElem?_eq_some_iff.mp hc).1
    exact absurd (hseps i hi (by omega)) hfree
  | @last p i hpi hi hseps hfree =>
    refine ⟨fun _ x c j d hx hxfree hcsep hc _ _ _ => ?_, fun _ t ht k hk _ => ?_⟩
    · by_cases hxi : x < i
      · exact absurd (hseps x hx hxi) hxfree
      · exact absurd ⟨c, hcsep, hc⟩ (hfree (x + 1) (by omega))
    · rw [List.mem_singleton.mp ht] at hk
      exact hfree k hk
  | @cut p i e d ts hpi hie hseps hstart hd hend hfirst hleast hrest ih =>
    have hspan : i + (e - i) = e := by omega
    constructor
    · intro hfree x c j d' hx hxfree hc hxc hj hd' hjd
      have hhead := hfree _ List.mem_cons_self
      rw [hspan] at hhead
      obtain hbefore | hin | heq | hon | hbehind :
          x < i ∨ i ≤ x ∧ x + 1 < e ∨ x + 1 = e ∨ x = e ∨ e + 1 ≤ x := by omega
      · exact absurd (hseps x hx hbefore) hxfree
      · exact absurd ⟨c, hc, hxc⟩ (hhead (x + 1) (by omega) hin.2)
      · rw [heq, hend] at hxc
        obtain rfl := Option.some.inj hxc
        exact hleast d' hd' j (by omega) hjd
      · rw [hon] at hxfree
        exact absurd ⟨d, hd, hend⟩ hxfree
      · exact ih.mp (fun t ht => hfree t (List.mem_cons_of_mem _ ht)) x c j d' hbehind hxfree hc hxc
          hj hd' hjd
    · intro hends t ht
      rcases List.mem_cons.mp ht with rfl | ht
      · -- The first separator inside the token would come before the one that ends it.
        intro k hk
        dsimp only at hk ⊢
        rw [hspan]
        induction k, hk using Nat.le_induction with
        | base => exact fun _ => hstart
        | succ k hk ihk =>
          rintro hke ⟨c, hc, hkc⟩
          have hle := hends k c e d (by omega) (ihk (by omega)) hc hkc (by omega) hd hend
          have hge := hleast c hc (k + 1) (by omega) hkc
          have heq : c = d := (List.idxOf_inj hc).mp (Nat.le_antisymm hle hge)
          rw [heq] at hkc
          exact hfirst (k + 1) (by omega) (by omega) hkc
      · exact ih.mpr (fun x c j d' hx => hends x c j d' (by omega)) t ht

/-- INTERNAL: **spans without separators are the tokens.** -/
theorem mem_iff (h : Cuts seps s p ts)
    (hfree : ∀ t ∈ ts, ∀ k, t.1 ≤ k → k < t.1 + t.2 → ¬ SepAt seps s k)
    (hp : p = 0 ∨ SepAt seps s (p - 1)) (i n : ℕ) :
    (i, n) ∈ ts ↔ p ≤ i ∧ IsToken seps s i n := by
  induction h with
  | @done p hseps =>
    refine iff_of_false List.not_mem_nil fun ⟨hi, htoken⟩ => ?_
    have hpos := htoken.pos
    have hfits := htoken.fits
    exact htoken.free i (Nat.le_refl i) (by omega) (hseps i hi (by omega))
  | @last p j hpj hj hseps hrest =>
    have htoken : IsToken seps s j (s.length - j) :=
      ⟨by omega, by omega, fun k hk _ => hrest k hk, IsToken.left_of_seps hp hpj hseps,
        Or.inl (by omega)⟩
    rw [List.mem_singleton, Prod.mk.injEq]
    constructor
    · rintro ⟨rfl, rfl⟩
      exact ⟨hpj, htoken⟩
    · rintro ⟨hi, h⟩
      have hfits := h.fits
      have hpos := h.pos
      obtain rfl := h.start_eq htoken hseps hi (by omega)
      exact ⟨rfl, h.length_eq htoken⟩
  | @cut p j e d ts hpj hje hseps hstart hd hend hfirst hleast hrest ih =>
    have he : SepAt seps s e := ⟨d, hd, hend⟩
    have hlen := he.lt
    have hspan : j + (e - j) = e := by omega
    have htoken : IsToken seps s j (e - j) := by
      refine ⟨by omega, by omega, hfree _ List.mem_cons_self, IsToken.left_of_seps hp hpj hseps,
        Or.inr ?_⟩
      rw [hspan]
      exact he
    rw [List.mem_cons, Prod.mk.injEq,
      ih (fun t ht => hfree t (List.mem_cons_of_mem _ ht)) (Or.inr he)]
    constructor
    · rintro (⟨rfl, rfl⟩ | ⟨hi, h⟩)
      · exact ⟨hpj, htoken⟩
      · exact ⟨by omega, h⟩
    · rintro ⟨hi, h⟩
      by_cases hie : i < e
      · obtain rfl := h.start_eq htoken hseps hi (by omega)
        exact Or.inl ⟨rfl, h.length_eq htoken⟩
      · refine Or.inr ⟨?_, h⟩
        have hpos := h.pos
        have hne : i ≠ e := fun heq => h.free i (Nat.le_refl i) (by omega) (heq ▸ he)
        omega

end Cuts

end

/-! ## Places -/

section

variable {α : Type}

/-- INTERNAL: where the first elements with a property end. -/
theorem takeWhile_stops (q : α → Bool) (l : List α) :
    (∀ k x, k < (l.takeWhile q).length → l[k]? = some x → q x = true) ∧
      ∀ x, l[(l.takeWhile q).length]? = some x → q x = false := by
  induction l with
  | nil => simp
  | cons y l ih =>
    by_cases hy : q y = true
    · rw [List.takeWhile_cons_of_pos hy, List.length_cons]
      refine ⟨fun k x hk hx => ?_, fun x hx => ih.2 x (by simpa using hx)⟩
      cases k with
      | zero =>
        rw [List.getElem?_cons_zero] at hx
        rw [← Option.some.inj hx]
        exact hy
      | succ k => exact ih.1 k x (by omega) (by simpa using hx)
    · rw [List.takeWhile_cons_of_neg hy]
      refine ⟨fun k x hk => absurd hk (Nat.not_lt_zero k), fun x hx => ?_⟩
      rw [List.length_nil, List.getElem?_cons_zero] at hx
      rw [← Option.some.inj hx]
      exact Bool.eq_false_iff.mpr hy

/-- INTERNAL: what is left of a list behind them. -/
theorem dropWhile_eq_drop (q : α → Bool) (l : List α) :
    l.dropWhile q = l.drop (l.takeWhile q).length := by
  induction l with
  | nil => rfl
  | cons y l ih =>
    by_cases hy : q y = true
    · rw [List.dropWhile_cons_of_pos hy, List.takeWhile_cons_of_pos hy, List.length_cons,
        List.drop_succ_cons, ih]
    · rw [List.dropWhile_cons_of_neg hy, List.takeWhile_cons_of_neg hy]
      rfl

/-- INTERNAL: the first place of an element of a list. -/
theorem firstPlace {d : α} [DecidableEq α] {l : List α} (hd : d ∈ l) :
    l[(l.takeWhile (· != d)).length]? = some d ∧
      ∀ k, k < (l.takeWhile (· != d)).length → l[k]? ≠ some d := by
  obtain ⟨hbefore, hstop⟩ := takeWhile_stops (· != d) l
  have hne : ∀ k, k < (l.takeWhile (· != d)).length → l[k]? ≠ some d := by
    intro k hk hkd
    simpa using hbefore k d hk hkd
  refine ⟨?_, hne⟩
  obtain ⟨k, hk, hkd⟩ := List.getElem_of_mem hd
  have hle : (l.takeWhile (· != d)).length ≤ k := by
    by_contra hlt
    exact hne k (by omega) (List.getElem?_eq_some_iff.mpr ⟨hk, hkd⟩)
  obtain ⟨x, hx⟩ : ∃ x, l[(l.takeWhile (· != d)).length]? = some x :=
    ⟨_, List.getElem?_eq_getElem (by omega)⟩
  have heq : x = d := by simpa using hstop x hx
  rw [hx, heq]

/-- INTERNAL: the separator that is found comes before all others that are there. -/
theorem find?_least [DecidableEq α] {seps l : List α} {d : α}
    (h : seps.find? (· ∈ l) = some d) :
    d ∈ seps ∧ d ∈ l ∧ ∀ c ∈ seps, c ∈ l → seps.idxOf d ≤ seps.idxOf c := by
  obtain ⟨hd, front, back, rfl, hfront⟩ := List.find?_eq_some_iff_append.mp h
  refine ⟨by simp, by simpa using hd, fun c hc hcl => ?_⟩
  have hcfront : c ∉ front := fun hmem => by simpa [hcl] using hfront c hmem
  have hdfront : d ∉ front := fun hmem => by
    have hnot := hfront d hmem
    rw [hd] at hnot
    exact absurd hnot (by decide)
  rw [List.idxOf_append_of_notMem hdfront, List.idxOf_append_of_notMem hcfront, List.idxOf_cons_self]
  omega

end

end LakeOS.Library
