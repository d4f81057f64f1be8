import LakeOS.Analysis.PathWalk

/-!
# Removing a vnode

`VFS_remove` looks for the child in front of the vnode, so it cannot remove the first one.
The handle is freed behind `f_Remove`, which the driver of virtual files has freed it in.
Elsewhere the vnode leaves the children of its parent and is not found again.
-/

set_option autoImplicit false

namespace LakeOS.Analysis

open LakeOS.Library LakeOS.Model

/-! ## Vnode trees -/

/-- Every vnode but the root is a child of at most one vnode, once. -/
structure VnodeTree {H F δ : Type} (s : Vfs H F δ) : Prop where
  child_lt : ∀ (p : ℕ) (dir : VfsNode H F δ), s.nodes[p]? = some dir →
    ∀ c ∈ dir.children, c < s.nodes.length
  nodup : ∀ (p : ℕ) (dir : VfsNode H F δ), s.nodes[p]? = some dir → dir.children.Nodup
  parent : ∀ (p q : ℕ) (dir dir' : VfsNode H F δ), s.nodes[p]? = some dir →
    s.nodes[q]? = some dir' → ∀ c ∈ dir.children, c ∈ dir'.children → p = q

/-- The vnode is a child of `p`. -/
def ChildOf {H F δ : Type} (s : Vfs H F δ) (p c : ℕ) : Prop :=
  ∃ dir : VfsNode H F δ, s.nodes[p]? = some dir ∧ c ∈ dir.children

section

variable {H F δ : Type} {s : Vfs H F δ} {p q c : ℕ} {dir : VfsNode H F δ}

/-- INTERNAL: the parent of a vnode is the one whose child it is. -/
theorem VnodeTree.vfsParent_eq (h : VnodeTree s) (hdir : s.nodes[p]? = some dir)
    (hc : c ∈ dir.children) : vfsParent s c = some p := by
  have hlt := (List.getElem?_eq_some_iff.mp hdir).1
  cases hfind : vfsParent s c with
  | none =>
      unfold vfsParent at hfind
      have hnot := List.find?_eq_none.mp hfind p (List.mem_range.mpr hlt)
      simp [hdir, hc] at hnot
  | some q =>
      have hq := List.find?_some hfind
      cases hdir' : s.nodes[q]? with
      | none => simp [hdir'] at hq
      | some dir' =>
          simp [hdir'] at hq
          rw [h.parent q p dir' dir hdir' hdir c hq hc]

theorem VnodeTree.childOf_lt (h : VnodeTree s) (hc : ChildOf s q c) : c < s.nodes.length := by
  obtain ⟨dir, hdir, hmem⟩ := hc
  exact h.child_lt q dir hdir c hmem

theorem VnodeTree.childOf_unique (h : VnodeTree s) (hp : ChildOf s p c) (hq : ChildOf s q c) :
    p = q := by
  obtain ⟨dir, hdir, hmem⟩ := hp
  obtain ⟨dir', hdir', hmem'⟩ := hq
  exact h.parent p q dir dir' hdir hdir' c hmem hmem'

/-! ### One more child -/

theorem length_withChild (s : Vfs H F δ) (p : ℕ) (dir : VfsNode H F δ) (handle : H) :
    (withChild s p dir handle).nodes.length = s.nodes.length + 1 := by
  simp [withChild, vfsInsertVnode, vfsMakeVnode]

/-- INTERNAL: the new vnode is a child of the one that it was cached in; the others stay where
they were. -/
theorem childOf_withChild (hdir : s.nodes[p]? = some dir) (handle : H) (q c : ℕ) :
    ChildOf (withChild s p dir handle) q c ↔ ChildOf s q c ∨ q = p ∧ c = s.nodes.length := by
  constructor
  · rintro ⟨dir', hdir', hc⟩
    obtain ⟨dir₀, hdir₀, -, -, hchildren⟩ | rfl := withChild_cases hdir hdir'
    · rcases hchildren c hc with hold | ⟨hq, hnew⟩
      · exact .inl ⟨dir₀, hdir₀, hold⟩
      · exact .inr ⟨hq.symm, hnew⟩
    · exact absurd hc List.not_mem_nil
  · rintro (⟨dir', hdir', hc⟩ | ⟨rfl, rfl⟩)
    · have hq := (List.getElem?_eq_some_iff.mp hdir').1
      refine ⟨_, by rw [withChild_old hq, hdir']; rfl, ?_⟩
      split
      · exact List.mem_append_left _ hc
      · exact hc
    · exact ⟨_, withChild_parent hdir, List.mem_append_right _ (List.mem_singleton.mpr rfl)⟩

theorem nodup_withChild (h : VnodeTree s) (hdir : s.nodes[p]? = some dir) {handle : H}
    {dir' : VfsNode H F δ} (hdir' : (withChild s p dir handle).nodes[q]? = some dir') :
    dir'.children.Nodup := by
  by_cases hq : q < s.nodes.length
  · rw [withChild_old hq, Option.map_eq_some_iff] at hdir'
    obtain ⟨dir₀, hdir₀, rfl⟩ := hdir'
    have hnodup := h.nodup q dir₀ hdir₀
    split
    · rw [List.nodup_append]
      refine ⟨hnodup, by simp, ?_⟩
      intro a ha b hb
      have hlt := h.child_lt q dir₀ hdir₀ a ha
      rw [List.mem_singleton] at hb
      omega
    · exact hnodup
  · have hlt := (List.getElem?_eq_some_iff.mp hdir').1
    rw [length_withChild] at hlt
    have heq : q = s.nodes.length := by omega
    rw [heq, withChild_new hdir] at hdir'
    cases hdir'
    exact List.nodup_nil

/-- INTERNAL: a new child keeps the tree. -/
theorem vnodeTree_withChild (h : VnodeTree s) (hdir : s.nodes[p]? = some dir) (handle : H) :
    VnodeTree (withChild s p dir handle) := by
  have hiff := childOf_withChild hdir handle
  refine ⟨fun q dir' hdir' c hc => ?_, fun q dir' hdir' => nodup_withChild h hdir hdir',
    fun a b dirA dirB hA hB c hcA hcB => ?_⟩
  · rw [length_withChild]
    rcases (hiff q c).mp ⟨dir', hdir', hc⟩ with hold | ⟨-, rfl⟩
    · exact Nat.lt_succ_of_lt (h.childOf_lt hold)
    · exact Nat.lt_succ_self _
  · rcases (hiff a c).mp ⟨dirA, hA, hcA⟩ with holdA | ⟨rfl, hnewA⟩
    · rcases (hiff b c).mp ⟨dirB, hB, hcB⟩ with holdB | ⟨-, hnewB⟩
      · exact h.childOf_unique holdA holdB
      · have hlt := h.childOf_lt holdA
        omega
    · rcases (hiff b c).mp ⟨dirB, hB, hcB⟩ with holdB | ⟨rfl, -⟩
      · have hlt := h.childOf_lt holdB
        omega
      · rfl

/-- INTERNAL: a lookup keeps the tree, and gives a child. -/
theorem VnodeTree.vfsLookup (h : VnodeTree s) (p : ℕ) (name : CString) :
    VnodeTree (vfsLookup s p name).2 ∧
      (∀ q c, ChildOf s q c → ChildOf (Model.vfsLookup s p name).2 q c) ∧
      ∀ c, (Model.vfsLookup s p name).1 = some c → ChildOf (Model.vfsLookup s p name).2 p c := by
  cases hdir : s.nodes[p]? with
  | none =>
      have hsame : Model.vfsLookup s p name = (none, s) := by rw [Model.vfsLookup, hdir]
      rw [hsame]
      exact ⟨h, fun _ _ hc => hc, by simp⟩
  | some dir =>
      obtain ⟨child, hfind, hlook⟩ | ⟨-, -, hlook⟩ | ⟨handle, -, -, hlook⟩ :=
        vfsLookup_cases hdir name
      · rw [hlook]
        refine ⟨h, fun _ _ hc => hc, ?_⟩
        rintro c hc
        cases hc
        exact ⟨dir, hdir, List.mem_of_find?_eq_some hfind⟩
      · rw [hlook]
        exact ⟨h, fun _ _ hc => hc, by simp⟩
      · have hiff := childOf_withChild hdir handle
        rw [hlook]
        refine ⟨vnodeTree_withChild h hdir handle, fun q c hc => (hiff q c).mpr (.inl hc), ?_⟩
        intro c hc
        cases hc
        exact (hiff p s.nodes.length).mpr (.inr ⟨rfl, rfl⟩)

/-- INTERNAL: a walk keeps the tree, and ends at a child of some vnode unless it goes nowhere. -/
theorem VnodeTree.walkPieces (h : VnodeTree s) (iter : ℕ) (pieces : List CString) :
    VnodeTree (walkPieces s iter pieces).2 ∧
      (∀ q c, ChildOf s q c → ChildOf (Analysis.walkPieces s iter pieces).2 q c) ∧
      ∀ c, (Analysis.walkPieces s iter pieces).1 = some c → c = iter ∨
        ∃ p, ChildOf (Analysis.walkPieces s iter pieces).2 p c := by
  induction pieces generalizing s iter with
  | nil => exact ⟨h, fun _ _ hc => hc, fun c hc => .inl (Option.some.inj hc).symm⟩
  | cons piece pieces ih =>
      obtain ⟨htree, hkeep, hchild⟩ := h.vfsLookup iter piece
      rw [walkPieces_cons]
      generalize Model.vfsLookup s iter piece = r at *
      obtain ⟨found, s'⟩ := r
      cases found with
      | none => exact ⟨htree, hkeep, by simp⟩
      | some next =>
          obtain ⟨htree', hkeep', hend⟩ := ih htree next
          refine ⟨htree', fun q c hc => hkeep' q c (hkeep q c hc), fun c hc => .inr ?_⟩
          rcases hend c hc with rfl | hp
          · exact ⟨iter, hkeep' iter c (hchild c rfl)⟩
          · exact hp

end

/-! ## The list of children -/

/-- INTERNAL: **a child is unlinked** unless it is the first one.
SRCLINE: vfs.c:308-313 -/
theorem vfsUnlink_eq {l : List ℕ} (hnodup : l.Nodup) {c : ℕ} (hc : c ∈ l) :
    vfsUnlink c l = if l.head? = some c then none else some (l.erase c) := by
  have hone : l.Pairwise fun a b => ¬ ((a == c) = true ∧ (b == c) = true) := by
    refine hnodup.imp fun hne hboth => hne ?_
    rw [beq_iff_eq.mp hboth.1, beq_iff_eq.mp hboth.2]
  rw [vfsUnlink, unlinkNext_eq hone hc (beq_self_eq_true c), List.erase_eq_eraseP']
  cases l.head? with
  | none => rfl
  | some a => simp

/-! ## Removing -/

section

variable {H F δ : Type} [DecidableEq H]

/-- The file was removed: the driver was called, its vnode left the children of its parent, the
others kept their order, the handle was freed once, and no run of lookups finds the vnode. -/
def RemovesFile (s : Vfs H F δ) (path : CString) : Prop :=
  ∃ (freed : List H) (t : Vfs H F δ) (vnode p : ℕ) (node dir : VfsNode H F δ)
    (fRemove : H → δ → Option (List H × δ)) (own : List H),
    vfsRemove s path = some (freed, t) ∧ (vfsWalkPath s path).1 = some vnode ∧
      (vfsWalkPath s path).2.nodes[vnode]? = some node ∧
      (vfsWalkPath s path).2.nodes[p]? = some dir ∧ vnode ∈ dir.children ∧
      node.driver.fRemove = some fRemove ∧
      fRemove node.handle (vfsWalkPath s path).2.volumes = some (own, t.volumes) ∧
      t.nodes = (vfsWalkPath s path).2.nodes.modify p
        (fun dir => { dir with children := dir.children.erase vnode }) ∧
      freed = own ++ [node.handle] ∧ freed.count node.handle = 1 ∧
      ∀ (lookups : List (ℕ × CString)) (q : ℕ) (name : CString),
        (vfsLookup (lookups.foldl (fun u c => lookupStep c u) t) q name).1 ≠ some vnode

/-- The vnode is not the first child of its parent, and its driver removes the file without
freeing the handle. -/
def VnodeRemovable (s : Vfs H F δ) (vnode : ℕ) : Prop :=
  (∀ (p : ℕ) (dir : VfsNode H F δ), s.nodes[p]? = some dir → dir.children.head? ≠ some vnode) ∧
    ∀ node : VfsNode H F δ, s.nodes[vnode]? = some node → ∃ fRemove own volumes,
      node.driver.fRemove = some fRemove ∧ fRemove node.handle s.volumes = some (own, volumes) ∧
        node.handle ∉ own

variable {s : Vfs H F δ} {vnode : ℕ} {path : CString}

omit [DecidableEq H] in
/-- INTERNAL: a vnode without a parent is not found. -/
theorem lookups_miss {t : Vfs H F δ} (hlt : vnode < t.nodes.length)
    (hnone : ∀ p, ¬ ChildOf t p vnode) (lookups : List (ℕ × CString)) (q : ℕ) (name : CString) :
    (vfsLookup (lookups.foldl (fun u c => lookupStep c u) t) q name).1 ≠ some vnode := by
  have hstep : ∀ (u : Vfs H F δ) (p : ℕ) (name : CString), vnode < u.nodes.length →
      (∀ p, ¬ ChildOf u p vnode) → (vfsLookup u p name).1 ≠ some vnode ∧
        vnode < (vfsLookup u p name).2.nodes.length ∧
          ∀ q, ¬ ChildOf (vfsLookup u p name).2 q vnode := by
    intro u p name hlt hnone
    cases hdir : u.nodes[p]? with
    | none =>
        have hsame : vfsLookup u p name = (none, u) := by rw [vfsLookup, hdir]
        rw [hsame]
        exact ⟨by simp, hlt, hnone⟩
    | some dir =>
        obtain ⟨child, hfind, hlook⟩ | ⟨-, -, hlook⟩ | ⟨handle, -, -, hlook⟩ :=
          vfsLookup_cases hdir name
        · rw [hlook]
          refine ⟨fun heq => ?_, hlt, hnone⟩
          cases heq
          exact hnone p ⟨dir, hdir, List.mem_of_find?_eq_some hfind⟩
        · rw [hlook]
          exact ⟨by simp, hlt, hnone⟩
        · rw [hlook]
          have hiff := childOf_withChild hdir handle
          have hlen := length_withChild u p dir handle
          refine ⟨fun heq => ?_, ?_, ?_⟩
          · have heq' : u.nodes.length = vnode := Option.some.inj heq
            omega
          · change vnode < (withChild u p dir handle).nodes.length
            omega
          · intro q hq
            rcases (hiff q vnode).mp hq with hold | ⟨-, hnew⟩
            · exact hnone q hold
            · omega
  induction lookups generalizing t with
  | nil => exact (hstep t q name hlt hnone).1
  | cons c lookups ih =>
      obtain ⟨-, hlt', hnone'⟩ := hstep t c.1 c.2 hlt hnone
      exact ih hlt' hnone'

omit [DecidableEq H] in
/-- INTERNAL: `VFS_remove`, for a vnode with a parent.
SRCLINE: vfs.c:303-316 -/
theorem vfsRemove_eq (h : VnodeTree (vfsWalkPath s path).2)
    (hfound : (vfsWalkPath s path).1 = some vnode) {p : ℕ} {dir : VfsNode H F δ}
    (hdir : (vfsWalkPath s path).2.nodes[p]? = some dir) (hc : vnode ∈ dir.children) :
    vfsRemove s path = do
      let node ← (vfsWalkPath s path).2.nodes[vnode]?
      let fRemove ← node.driver.fRemove
      let removed ← fRemove node.handle (vfsWalkPath s path).2.volumes
      let children ← (if dir.children.head? = some vnode then none
        else some (dir.children.erase vnode))
      return (removed.1 ++ [node.handle],
        { nodes := (vfsWalkPath s path).2.nodes.modify p fun dir =>
            { dir with children := children }
          volumes := removed.2 }) := by
  have hunlink := vfsUnlink_eq (h.nodup p dir hdir) hc
  have hparent := h.vfsParent_eq hdir hc
  unfold vfsRemove
  simp only [hfound, Option.bind_eq_bind, Option.bind_some, hparent, hdir, hunlink]

omit [DecidableEq H] in
/-- INTERNAL: an unlinked vnode has no parent. -/
theorem not_childOf_erase {w t : Vfs H F δ} (h : VnodeTree w) {p : ℕ} {dir : VfsNode H F δ}
    (hdir : w.nodes[p]? = some dir) (hc : vnode ∈ dir.children)
    (ht : t.nodes = w.nodes.modify p fun dir =>
      { dir with children := dir.children.erase vnode }) (q : ℕ) : ¬ ChildOf t q vnode := by
  rintro ⟨dir', hdir', hc'⟩
  rw [ht, List.getElem?_modify] at hdir'
  obtain ⟨dir₀, hdir₀, rfl⟩ := Option.map_eq_some_iff.mp hdir'
  by_cases hp : p = q
  · rw [if_pos hp] at hc'
    exact (h.nodup q dir₀ hdir₀).not_mem_erase hc'
  · rw [if_neg hp] at hc'
    exact hp (h.parent p q dir dir₀ hdir hdir₀ vnode hc hc')

end

/-- **A file is removed** if its vnode is not the first child of its parent and its driver does
not free the handle, and not otherwise.
SRCLINE: vfs.c:303-316, vfm.c:112-120, vfm.c:33-37 -/
theorem vfsRemove_iff {H F δ : Type} [DecidableEq H] {s : Vfs H F δ} (htree : VnodeTree s)
    {path : CString} {vnode : ℕ} (hfound : (vfsWalkPath s path).1 = some vnode)
    (hroot : vnode ≠ vfsRoot) :
    RemovesFile s path ↔ VnodeRemovable (vfsWalkPath s path).2 vnode := by
  have hwalk := htree.walkPieces vfsRoot (components path)
  rw [← vfsWalkPath_eq] at hwalk
  obtain ⟨h, -, hchild⟩ := hwalk
  obtain ⟨p, dir, hdir, hc⟩ := (hchild vnode hfound).resolve_left hroot
  have heq := vfsRemove_eq h hfound hdir hc
  have hlt := h.child_lt p dir hdir vnode hc
  obtain ⟨node, hnode⟩ : ∃ node, (vfsWalkPath s path).2.nodes[vnode]? = some node :=
    ⟨_, List.getElem?_eq_getElem hlt⟩
  constructor
  · rintro ⟨freed, t, vnode', p', node', dir', fRemove, own, hremove, hfound', hnode', hdir', hc',
      hfRemove, hown, -, hfreed, hcount, -⟩
    obtain rfl := Option.some.inj (hfound.symm.trans hfound')
    obtain rfl := Option.some.inj (hnode.symm.trans hnode')
    rw [heq] at hremove
    simp only [hnode, hfRemove, hown, Option.bind_eq_bind, Option.bind_some] at hremove
    refine ⟨fun q dirq hdirq hhead => ?_, fun node' hnode' => ?_⟩
    · have hq := h.parent p q dir dirq hdir hdirq vnode hc (List.mem_of_mem_head? hhead)
      rw [← hq, hdir] at hdirq
      cases hdirq
      rw [if_pos hhead] at hremove
      cases hremove
    · obtain rfl := Option.some.inj (hnode.symm.trans hnode')
      refine ⟨fRemove, own, t.volumes, hfRemove, hown, ?_⟩
      rw [hfreed, List.count_append, List.count_singleton_self] at hcount
      exact List.count_eq_zero.mp (by omega)
  · rintro ⟨hfirst, hdriver⟩
    obtain ⟨fRemove, own, volumes, hfRemove, hown, hkept⟩ := hdriver node hnode
    have hhead := hfirst p dir hdir
    have hmodify : (vfsWalkPath s path).2.nodes.modify p
        (fun d => { d with children := dir.children.erase vnode }) =
          (vfsWalkPath s path).2.nodes.modify p
            (fun d => { d with children := d.children.erase vnode }) := by
      apply List.ext_getElem?
      intro i
      rw [List.getElem?_modify, List.getElem?_modify]
      by_cases hi : p = i
      · rw [← hi, hdir]
        simp
      · simp [hi]
    refine ⟨own ++ [node.handle], { nodes := (vfsWalkPath s path).2.nodes.modify p fun d =>
      { d with children := d.children.erase vnode }, volumes := volumes }, vnode, p, node, dir,
      fRemove, own, ?_, hfound, hnode, hdir, hc, hfRemove, hown, rfl, rfl, ?_, ?_⟩
    · rw [heq]
      simp only [hnode, hfRemove, hown, Option.bind_eq_bind, Option.bind_some, if_neg hhead, hmodify]
      rfl
    · rw [List.count_append, List.count_singleton_self, List.count_eq_zero.mpr hkept]
    · apply lookups_miss
      · simpa using hlt
      · exact not_childOf_erase h hdir hc rfl

/-! A driver that removes every file, and leaves the handles to its caller or frees them. -/

/-- Every name is that of a file, whose handle is freed with it if `frees` says so. -/
def namesRemoved (frees : Bool) : VfsOperations CString CString Unit :=
  { namesOnly with fRemove := some fun handle v => some (if frees then [handle] else [], v) }

/-- The root of that driver, with the files of two names below it. -/
def twoNames (frees : Bool) : Vfs CString CString Unit :=
  ⟨[⟨[], namesRemoved frees, [1, 2]⟩, ⟨[0x41], namesRemoved frees, []⟩,
    ⟨[0x42], namesRemoved frees, []⟩], ()⟩

theorem twoNames_children (frees : Bool) {p : ℕ} {dir : VfsNode CString CString Unit}
    (hdir : (twoNames frees).nodes[p]? = some dir) :
    p = 0 ∧ dir.children = [1, 2] ∨ dir.children = [] := by
  match p with
  | 0 =>
      cases hdir
      exact .inl ⟨rfl, rfl⟩
  | 1 =>
      cases hdir
      exact .inr rfl
  | 2 =>
      cases hdir
      exact .inr rfl
  | p + 3 => cases hdir

theorem twoNames_tree (frees : Bool) : VnodeTree (twoNames frees) := by
  refine ⟨fun p dir hdir c hc => ?_, fun p dir hdir => ?_, fun p q dir dir' hdir hdir' c hc hc' => ?_⟩
  · obtain ⟨-, h⟩ | h := twoNames_children frees hdir
    · rw [h] at hc
      have hlen : (twoNames frees).nodes.length = 3 := rfl
      simp at hc
      omega
    · simp [h] at hc
  · obtain ⟨-, h⟩ | h := twoNames_children frees hdir
    · rw [h]
      decide
    · rw [h]
      exact List.nodup_nil
  · obtain ⟨hp, -⟩ | h := twoNames_children frees hdir
    · obtain ⟨hq, -⟩ | h' := twoNames_children frees hdir'
      · rw [hp, hq]
      · simp [h'] at hc'
    · simp [h] at hc

/-- The second of two files is removed. -/
theorem vfsRemove_second : RemovesFile (twoNames false) [0x42] ↔
    VnodeRemovable (vfsWalkPath (twoNames false) [0x42]).2 2 :=
  vfsRemove_iff (twoNames_tree false) rfl (by decide)

/-- The first one is not: the loop follows a null pointer.  A handle that the driver frees is
freed twice. -/
theorem vfsRemove_first_fails :
    VnodeTree (twoNames false) ∧ (vfsWalkPath (twoNames false) [0x41]).1 = some 1 ∧
      vfsRemove (twoNames false) [0x41] = none ∧ ¬ RemovesFile (twoNames false) [0x41] ∧
      (vfsRemove (twoNames true) [0x42]).map Prod.fst = some [[0x42], [0x42]] ∧
      ¬ RemovesFile (twoNames true) [0x42] := by
  have hnone : vfsRemove (twoNames false) [0x41] = none := rfl
  refine ⟨twoNames_tree false, rfl, hnone, ?_, rfl, ?_⟩
  · rintro ⟨freed, t, vnode, p, node, dir, fRemove, own, hremove, -⟩
    rw [hnone] at hremove
    cases hremove
  · rintro ⟨freed, t, vnode, p, node, dir, fRemove, own, hremove, hfound, hnode, -, -, -, -, -, -,
      hcount, -⟩
    cases hfound
    cases hnode
    cases hremove
    exact absurd hcount (by decide)

end LakeOS.Analysis
