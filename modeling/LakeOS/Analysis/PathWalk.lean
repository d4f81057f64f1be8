import Mathlib.Data.List.TakeWhile
import LakeOS.Analysis.VnodeCache

/-!
# Walking a path

`strtok` yields the nonempty pieces of a path between its slashes, so `VFS_walk_path`
looks them up one after the other.  Where the cache has the right name at each step, the
walk reaches the file that the driver resolves the pieces to, and reaches it again when it
is repeated.
-/

set_option autoImplicit false

namespace LakeOS.Analysis

open LakeOS.Library LakeOS.Model

/-! ## The pieces of a path -/

/-- The nonempty pieces between the slashes. -/
def components (path : CString) : List CString :=
  (path.splitOn slash).filter fun piece => !piece.isEmpty

/-- The pieces that `strtok` has yet to return. -/
def remaining : Option CString → List CString
  | none => []
  | some path => components path

theorem components_append (lead last : CString) :
    components (lead ++ slash :: last) = components lead ++ components last := by
  rw [components, List.splitOn_append_cons_self, List.filter_append, components, components]

theorem components_singleton {name : CString} (hslash : slash ∉ name) (hne : name ≠ []) :
    components name = [name] := by
  rw [components, List.splitOn_eq_singleton hslash, List.filter_eq_self]
  simp [hne]

theorem components_nil : components [] = [] := rfl

theorem components_dropWhile (path : CString) :
    components (path.dropWhile (· == slash)) = components path := by
  induction path with
  | nil => rfl
  | cons a path ih =>
      rw [List.dropWhile_cons]
      split
      next ha =>
        obtain rfl := beq_iff_eq.mp ha
        have hcons := components_append [] path
        rw [components_nil, List.nil_append, List.nil_append] at hcons
        rw [ih, hcons]
      next => rfl

theorem splitOn_length_le (path : CString) :
    (path.splitOn slash).length ≤ path.length + 1 := by
  induction path with
  | nil => exact le_rfl
  | cons a path ih =>
      rw [List.splitOn_cons_eq_if_modifyHead, List.length_cons]
      split
      next => simpa using ih
      next =>
        rw [List.length_modifyHead]
        exact ih.trans (Nat.le_succ _)

theorem components_length_le (path : CString) : (components path).length ≤ path.length + 1 :=
  (List.length_filter_le _ _).trans (splitOn_length_le path)

/-- INTERNAL: `strtok` returns the pieces in their order.
SRCLINE: strtok.c:3-27 -/
theorem strtok_spec (last : Option CString) :
    (remaining last = [] ∧ (strtok last).1 = none) ∨
    ∃ piece, (strtok last).1 = some piece ∧ remaining last = piece :: remaining (strtok last).2 := by
  cases last with
  | none => exact .inl ⟨rfl, rfl⟩
  | some path =>
      obtain ⟨start, hstart⟩ : ∃ start, start = path.dropWhile (· == slash) := ⟨_, rfl⟩
      have hpieces : remaining (some path) = components start := by
        rw [hstart, components_dropWhile]
        rfl
      have hhead : ∀ a rest, start = a :: rest → a ≠ slash := by
        intro a rest heq ha
        have hnot := List.head?_dropWhile_not (· == slash) path
        rw [← hstart, heq] at hnot
        simp [ha] at hnot
      rw [hpieces]
      unfold strtok
      dsimp only
      rw [← hstart]
      by_cases hempty : start = []
      · rw [if_pos hempty, hempty]
        exact .inl ⟨rfl, rfl⟩
      · right
        rw [if_neg hempty]
        by_cases hslash : slash ∈ start
        · rw [if_pos hslash]
          refine ⟨_, rfl, ?_⟩
          obtain ⟨a, rest, hcons⟩ := List.exists_cons_of_ne_nil hempty
          have hne : (a != slash) = true := by simpa using hhead a rest hcons
          have hpiece : start.takeWhile (· != slash) ≠ [] := by
            rw [hcons, List.takeWhile_cons, if_pos hne]
            exact List.cons_ne_nil _ _
          have hmem : slash ∉ start.takeWhile (· != slash) := fun h => by
            simpa using List.mem_takeWhile_imp h
          have hsplit : start = start.takeWhile (· != slash) ++
              slash :: (start.dropWhile (· != slash)).tail := by
            have hdrop : start.dropWhile (· != slash) ≠ [] := by
              intro hnil
              rw [List.dropWhile_eq_nil_iff] at hnil
              simpa using hnil slash hslash
            obtain ⟨b, rest', hrest⟩ := List.exists_cons_of_ne_nil hdrop
            have hb : b = slash := by
              have hnot := List.head?_dropWhile_not (· != slash) start
              rw [hrest] at hnot
              simpa using hnot
            have happ := List.takeWhile_append_dropWhile (p := (· != slash)) (l := start)
            rw [hrest, hb] at happ
            rw [hrest, List.tail_cons]
            exact happ.symm
          have hcomp := components_append (start.takeWhile (· != slash))
            (start.dropWhile (· != slash)).tail
          rw [← hsplit, components_singleton hmem hpiece] at hcomp
          exact hcomp
        · rw [if_neg hslash]
          exact ⟨start, rfl, components_singleton hslash hempty⟩

/-! ## The walk -/

section

variable {H F δ : Type}

/-- The pieces are looked up one after the other. -/
def walkPieces (s : Vfs H F δ) (iter : ℕ) : List CString → Option ℕ × Vfs H F δ
  | [] => (some iter, s)
  | piece :: pieces =>
      match vfsLookup s iter piece with
      | (none, s) => (none, s)
      | (some iter, s) => walkPieces s iter pieces

theorem walkPieces_cons (s : Vfs H F δ) (iter : ℕ) (piece : CString) (pieces : List CString) :
    walkPieces s iter (piece :: pieces) =
      match vfsLookup s iter piece with
      | (none, s) => (none, s)
      | (some iter, s) => walkPieces s iter pieces := rfl

/-- INTERNAL: the loop of `VFS_walk_path` looks up the pieces of its string. -/
theorem vfsWalkLoop_eq (fuel : ℕ) (s : Vfs H F δ) (iter : ℕ) (last : Option CString)
    (hfuel : (remaining last).length ≤ fuel) :
    vfsWalkLoop fuel s iter (strtok last) = walkPieces s iter (remaining last) := by
  induction fuel generalizing s iter last with
  | zero =>
      rw [List.eq_nil_of_length_eq_zero (Nat.le_zero.mp hfuel)]
      rfl
  | succ fuel ih =>
      obtain ⟨hnil, htok⟩ | ⟨piece, htok, hcons⟩ := strtok_spec last
      · rw [hnil, ← Prod.mk.eta (p := strtok last), htok]
        rfl
      · rw [hcons, walkPieces_cons, ← Prod.mk.eta (p := strtok last), htok, vfsWalkLoop]
        rw [hcons, List.length_cons] at hfuel
        have hrest := fun s iter =>
          ih s iter (strtok last).2 (Nat.le_of_succ_le_succ hfuel)
        obtain ⟨found, s'⟩ := vfsLookup s iter piece
        cases found with
        | none => rfl
        | some iter' => exact hrest s' iter'

/-- INTERNAL: `VFS_walk_path` looks up the pieces of the path from the root.
SRCLINE: vfs.c:176-189 -/
theorem vfsWalkPath_eq (s : Vfs H F δ) (path : CString) :
    vfsWalkPath s path = walkPieces s vfsRoot (components path) :=
  vfsWalkLoop_eq _ s vfsRoot (some path) (components_length_le path)

theorem walkPieces_append (s : Vfs H F δ) (iter : ℕ) (lead rest : List CString) :
    walkPieces s iter (lead ++ rest) =
      match walkPieces s iter lead with
      | (none, s) => (none, s)
      | (some iter, s) => walkPieces s iter rest := by
  induction lead generalizing s iter with
  | nil => rfl
  | cons piece lead ih =>
      rw [List.cons_append, walkPieces_cons, walkPieces_cons]
      obtain ⟨found, s'⟩ := vfsLookup s iter piece
      cases found with
      | none => rfl
      | some iter' => exact ih s' iter'

/-! ## Splitting off the last piece -/

theorem lastSlash_of_notMem {path : CString} {n : ℕ} (h : ∀ i < n, path[i]? ≠ some slash) :
    lastSlash path n = -1 := by
  induction n with
  | zero => rfl
  | succ n ih =>
      rw [lastSlash, if_neg (h n (Nat.lt_succ_self n))]
      exact ih fun i hi => h i (hi.trans (Nat.lt_succ_self n))

theorem lastSlash_of_last {path : CString} {i n : ℕ} (hi : path[i]? = some slash) (hlt : i < n)
    (h : ∀ j, i < j → j < n → path[j]? ≠ some slash) : lastSlash path n = i := by
  induction n with
  | zero => exact absurd hlt (Nat.not_lt_zero i)
  | succ n ih =>
      rw [lastSlash]
      obtain hlt' | rfl := Nat.lt_succ_iff_lt_or_eq.mp hlt
      · rw [if_neg (h n hlt' (Nat.lt_succ_self n))]
        exact ih hlt' fun j hj hjn => h j hj (hjn.trans (Nat.lt_succ_self n))
      · rw [if_pos hi]

/-- INTERNAL: a path with a slash is cut at the last one.
SRCLINE: vfs.c:191-209 -/
theorem vfsGetDirAndFname_slash (s : Vfs H F δ) (lead : CString) {last : CString}
    (h : slash ∉ last) :
    vfsGetDirAndFname s (lead ++ slash :: last) =
      (((vfsWalkPath s lead).1, last), (vfsWalkPath s lead).2) := by
  have hhere : (lead ++ slash :: last)[lead.length]? = some slash := by simp
  have hlater : ∀ j, lead.length < j → j < (lead ++ slash :: last).length →
      (lead ++ slash :: last)[j]? ≠ some slash := by
    intro j hj _ heq
    obtain ⟨d, rfl⟩ := Nat.exists_eq_add_of_lt hj
    rw [List.getElem?_append_right (by omega),
      show lead.length + d + 1 - lead.length = d + 1 by omega, List.getElem?_cons_succ] at heq
    exact h (List.mem_of_getElem? heq)
  have hscan : lastSlash (lead ++ slash :: last) (lead ++ slash :: last).length = lead.length :=
    lastSlash_of_last hhere (by simp) hlater
  unfold vfsGetDirAndFname
  dsimp only
  rw [hscan, if_pos (Int.natCast_nonneg _), Int.toNat_natCast, List.take_left]
  have hdrop : (lead ++ slash :: last).drop (((lead.length : ℕ) : ℤ) + 1).toNat = last := by
    rw [show (((lead.length : ℕ) : ℤ) + 1).toNat = lead.length + 1 by omega,
      ← List.drop_drop, List.drop_left]
    rfl
  rw [hdrop]

/-- INTERNAL: a path without one is walked as a whole, and is the name as a whole. -/
theorem vfsGetDirAndFname_no_slash (s : Vfs H F δ) {path : CString} (h : slash ∉ path) :
    vfsGetDirAndFname s path = (((vfsWalkPath s path).1, path), (vfsWalkPath s path).2) := by
  have hscan : lastSlash path path.length = -1 :=
    lastSlash_of_notMem fun i _ heq => h (List.mem_of_getElem? heq)
  unfold vfsGetDirAndFname
  dsimp only
  rw [hscan]
  rfl

end

end LakeOS.Analysis
