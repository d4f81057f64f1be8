import Mathlib.Data.List.Find
import LakeOS.Analysis.PathWalk
import LakeOS.Model.VfsEntry

/-!
# Creating a file by its path

`VFS_create` cuts a path at its last slash; a path without one is not cut, so the directory
is looked up by the name of the file itself.  With a slash the right directory is asked,
and the file found afterwards, when the cache has the right vnodes on the way and the driver
finds the new file by its name.

The directories belong to several drivers: other file systems are mounted in the root, where
they are vnodes that its driver knows nothing of.
-/

set_option autoImplicit false

namespace LakeOS.Analysis

open LakeOS.Library LakeOS.Model

section

variable {H F δ : Type}

/-! ## The tree of directories -/

/-- A file: its driver, and its handle there. -/
abbrev Place (H F δ : Type) := VfsOperations H F δ × H

/-- The file that a vnode stands for. -/
def placeOf (node : VfsNode H F δ) : Place H F δ := (node.driver, node.handle)

/-- The entry of a directory by a name: what is mounted there, or the file that the driver
finds. -/
def namedEntry (mounts : Place H F δ → CString → Option (Place H F δ)) (volumes : δ)
    (dir : Place H F δ) (name : CString) : Option (Place H F δ) :=
  (mounts dir name).or ((dir.1.fLookup dir.2 name volumes).map fun file => (dir.1, file))

/-- The file that a list of names leads to. -/
def resolve (mounts : Place H F δ → CString → Option (Place H F δ)) (volumes : δ) :
    Place H F δ → List CString → Option (Place H F δ)
  | dir, [] => some dir
  | dir, name :: names =>
      (namedEntry mounts volumes dir name).bind fun next => resolve mounts volumes next names

/-- The driver finds files whose name begins with the name that was looked up, or the other
way round, as `strcmp` has it; a FAT handle keeps 13 bytes of that name. -/
def FindsComparable (driver : VfsOperations H F δ) (volumes : δ) : Prop :=
  ∀ dir name file, driver.fLookup dir name volumes = some file →
    driver.fNodeName file volumes <+: name ∨ name <+: driver.fNodeName file volumes

/-- What is in a directory, under some name. -/
def IsEntry (mounts : Place H F δ → CString → Option (Place H F δ)) (volumes : δ)
    (dir file : Place H F δ) : Prop :=
  ∃ name, mounts dir name = some file ∨
    ∃ handle, dir.1.fLookup dir.2 name volumes = some handle ∧ file = (dir.1, handle)

/-- The file itself, or one that entries lead to from it. -/
abbrev Below (mounts : Place H F δ → CString → Option (Place H F δ)) (volumes : δ) :
    Place H F δ → Place H F δ → Prop :=
  Relation.ReflTransGen (IsEntry mounts volumes)

/-- Below the root every file is in one directory, the root in none, and what is mounted in a
directory is no file that its driver finds there. -/
structure IsTree (mounts : Place H F δ → CString → Option (Place H F δ)) (volumes : δ)
    (root : Place H F δ) : Prop where
  parent : ∀ dir dir' file, Below mounts volumes root dir → Below mounts volumes root dir' →
    IsEntry mounts volumes dir file → IsEntry mounts volumes dir' file → dir = dir'
  root_ne : ∀ dir, Below mounts volumes root dir → ¬ IsEntry mounts volumes dir root
  apart : ∀ dir name file name' handle, Below mounts volumes root dir →
    mounts dir name = some file → dir.1.fLookup dir.2 name' volumes = some handle →
    file ≠ (dir.1, handle)

/-- `n` entries lead from the first file to the second. -/
def Leads (mounts : Place H F δ → CString → Option (Place H F δ)) (volumes : δ) :
    ℕ → Place H F δ → Place H F δ → Prop
  | 0, dir, file => dir = file
  | n + 1, dir, file => ∃ next, IsEntry mounts volumes dir next ∧ Leads mounts volumes n next file

variable {mounts : Place H F δ → CString → Option (Place H F δ)} {volumes : δ}
  {p q r : Place H F δ}

theorem isEntry_of_namedEntry {name : CString} (h : namedEntry mounts volumes p name = some q) :
    IsEntry mounts volumes p q := by
  unfold namedEntry at h
  cases hmount : mounts p name with
  | some file =>
      rw [hmount, Option.some_or] at h
      exact ⟨name, .inl (hmount.trans h)⟩
  | none =>
      rw [hmount, Option.none_or] at h
      obtain ⟨handle, hlook, rfl⟩ := Option.map_eq_some_iff.mp h
      exact ⟨name, .inr ⟨handle, hlook, rfl⟩⟩

theorem leads_of_resolve {names : List CString} (h : resolve mounts volumes p names = some q) :
    Leads mounts volumes names.length p q := by
  induction names generalizing p with
  | nil => exact Option.some.inj h
  | cons name names ih =>
      obtain ⟨next, hnext, hrest⟩ := Option.bind_eq_some_iff.mp h
      exact ⟨next, isEntry_of_namedEntry hnext, ih hrest⟩

/-- INTERNAL: in a tree there is one way back. -/
theorem IsTree.leads_injective {root : Place H F δ} (h : IsTree mounts volumes root) {n : ℕ}
    (hbelow : Below mounts volumes root p) (hbelow' : Below mounts volumes root q)
    (hp : Leads mounts volumes n p r) (hq : Leads mounts volumes n q r) : p = q := by
  induction n generalizing p q with
  | zero => exact (show p = r from hp).trans (show q = r from hq).symm
  | succ n ih =>
      obtain ⟨next, hentry, hrest⟩ := hp
      obtain ⟨next', hentry', hrest'⟩ := hq
      obtain rfl := ih (hbelow.tail hentry) (hbelow'.tail hentry') hrest hrest'
      exact h.parent _ _ _ hbelow hbelow' hentry hentry'

/-! ## The cache on the way -/

/-- The children of a vnode are vnodes. -/
def ChildrenIn (s : Vfs H F δ) : Prop :=
  ∀ (i : ℕ) (dir : VfsNode H F δ), s.nodes[i]? = some dir → ∀ c ∈ dir.children,
    c < s.nodes.length

/-- The children of a vnode are entries of the directory. -/
def ChildrenEntries (mounts : Place H F δ → CString → Option (Place H F δ)) (s : Vfs H F δ) :
    Prop :=
  ∀ (i : ℕ) (dir : VfsNode H F δ), s.nodes[i]? = some dir → ∀ c ∈ dir.children,
    ∃ node, s.nodes[c]? = some node ∧ IsEntry mounts s.volumes (placeOf dir) (placeOf node)

theorem ChildrenEntries.childrenIn {s : Vfs H F δ} (h : ChildrenEntries mounts s) :
    ChildrenIn s := by
  intro i dir hdir c hc
  obtain ⟨node, hnode, -⟩ := h i dir hdir c hc
  exact (List.getElem?_eq_some_iff.mp hnode).1

/-- Nothing is mounted on the way that the driver leads. -/
def Unmounted (mounts : Place H F δ → CString → Option (Place H F δ)) (volumes : δ) :
    Place H F δ → List CString → Prop
  | _, [] => True
  | dir, name :: names => mounts dir name = none ∧
      ∀ file, dir.1.fLookup dir.2 name volumes = some file →
        Unmounted mounts volumes (dir.1, file) names

/-- Wherever the cache has an answer on the way, the first child that compares equal is the
entry; where it has none, nothing is mounted. -/
def PathExact (mounts : Place H F δ → CString → Option (Place H F δ)) (s : Vfs H F δ) :
    ℕ → List CString → Prop
  | _, [] => True
  | iter, piece :: pieces => ∀ dir, s.nodes[iter]? = some dir →
      (∀ child, dir.children.find? (comparable s piece) = some child →
        ∃ node, s.nodes[child]? = some node ∧
          namedEntry mounts s.volumes (placeOf dir) piece = some (placeOf node) ∧
          PathExact mounts s child pieces) ∧
      (dir.children.find? (comparable s piece) = none →
        Unmounted mounts s.volumes (placeOf dir) (piece :: pieces))

/-- The cache has an answer at each step. -/
def Cached (s : Vfs H F δ) : ℕ → List CString → ℕ → Prop
  | iter, [], i => iter = i
  | iter, piece :: pieces, i => ∃ (dir : VfsNode H F δ) (child : ℕ),
      s.nodes[iter]? = some dir ∧ dir.children.find? (comparable s piece) = some child ∧
      Cached s child pieces i

/-- The name of a cached vnode. -/
def cachedName (s : Vfs H F δ) (child : ℕ) : Option CString :=
  s.nodes[child]?.map fun node => nodeName node s.volumes

theorem comparable_congr {s t : Vfs H F δ} {child : ℕ} (h : cachedName t child = cachedName s child)
    (name : CString) : comparable t name child = comparable s name child := by
  unfold cachedName at h
  unfold comparable
  cases hs : s.nodes[child]? with
  | none =>
      rw [hs, Option.map_none, Option.map_eq_none_iff] at h
      rw [h]
  | some node =>
      rw [hs, Option.map_some, Option.map_eq_some_iff] at h
      obtain ⟨node', hnode', hname⟩ := h
      rw [hnode']
      dsimp only
      rw [hname]

/-- Vnodes have at most got more children, behind those they had, which keep their names. -/
structure Extends (s t : Vfs H F δ) : Prop where
  node : ∀ (i : ℕ) (node : VfsNode H F δ), s.nodes[i]? = some node →
    ∃ node' : VfsNode H F δ, t.nodes[i]? = some node' ∧ node.children <+: node'.children
  child : ∀ (i : ℕ) (node : VfsNode H F δ), s.nodes[i]? = some node →
    ∀ c ∈ node.children, cachedName t c = cachedName s c

theorem Extends.refl (s : Vfs H F δ) : Extends s s :=
  ⟨fun _ node h => ⟨node, h, List.prefix_rfl⟩, fun _ _ _ _ _ => rfl⟩

theorem Extends.trans {s t u : Vfs H F δ} (h : Extends s t) (h' : Extends t u) : Extends s u := by
  refine ⟨fun i node hnode => ?_, fun i node hnode c hc => ?_⟩
  · obtain ⟨node', hnode', hpre⟩ := h.node i node hnode
    obtain ⟨node'', hnode'', hpre'⟩ := h'.node i node' hnode'
    exact ⟨node'', hnode'', hpre.trans hpre'⟩
  · obtain ⟨node', hnode', hpre⟩ := h.node i node hnode
    exact (h'.child i node' hnode' c (hpre.subset hc)).trans (h.child i node hnode c hc)

/-- INTERNAL: children that were found first are found first among more of them. -/
theorem Extends.find {s t : Vfs H F δ} (h : Extends s t) {i child : ℕ} {dir dir' : VfsNode H F δ}
    {name : CString} (hdir : s.nodes[i]? = some dir) (hdir' : t.nodes[i]? = some dir')
    (hfind : dir.children.find? (comparable s name) = some child) :
    dir'.children.find? (comparable t name) = some child := by
  obtain ⟨dir'', hdir'', more, hmore⟩ := h.node i dir hdir
  obtain rfl := Option.some.inj (hdir''.symm.trans hdir')
  have hsame : dir.children.find? (comparable t name) = dir.children.find? (comparable s name) :=
    List.find?_congr fun c hc => comparable_congr (h.child i dir hdir c hc) name
  rw [← hmore, List.find?_append, hsame, hfind, Option.some_or]

theorem Cached.extends {s t : Vfs H F δ} (h : Extends s t) {iter i : ℕ} {pieces : List CString}
    (hc : Cached s iter pieces i) : Cached t iter pieces i := by
  induction pieces generalizing iter with
  | nil => exact hc
  | cons piece pieces ih =>
      obtain ⟨dir, child, hdir, hfind, hrest⟩ := hc
      obtain ⟨dir', hdir', -⟩ := h.node iter dir hdir
      exact ⟨dir', child, hdir', h.find hdir hdir' hfind, ih hrest⟩

theorem Cached.walk {s : Vfs H F δ} {iter i : ℕ} {pieces : List CString}
    (h : Cached s iter pieces i) : walkPieces s iter pieces = (some i, s) := by
  induction pieces generalizing iter with
  | nil => rw [show iter = i from h]; rfl
  | cons piece pieces ih =>
      obtain ⟨dir, child, hdir, hfind, hrest⟩ := h
      rw [walkPieces_cons, vfsLookup_of_find hdir hfind]
      exact ih hrest

/-- INTERNAL: a new child goes behind the others. -/
theorem ChildrenIn.extends_withChild {s : Vfs H F δ} (h : ChildrenIn s) {parent : ℕ}
    {dir : VfsNode H F δ} {handle : H} : Extends s (withChild s parent dir handle) := by
  refine ⟨fun i node hnode => ?_, fun i node hnode c hc => ?_⟩
  · rw [withChild_old (List.getElem?_eq_some_iff.mp hnode).1, hnode]
    refine ⟨_, rfl, ?_⟩
    split
    next => exact List.prefix_append _ _
    next => exact List.prefix_rfl
  · have hnode' := List.getElem?_eq_getElem (h i node hnode c hc)
    obtain ⟨node'', hnode'', -, -, hname⟩ := withChild_keeps parent dir handle hnode'
    rw [cachedName, hnode'', cachedName, hnode', Option.map_some, Option.map_some, ← hname]
    rfl

theorem ChildrenIn.withChild {s : Vfs H F δ} (h : ChildrenIn s) {parent : ℕ}
    {dir : VfsNode H F δ} (hdir : s.nodes[parent]? = some dir) (handle : H) :
    ChildrenIn (withChild s parent dir handle) := by
  have hlen : (LakeOS.Analysis.withChild s parent dir handle).nodes.length =
      s.nodes.length + 1 := by
    simp [LakeOS.Analysis.withChild, vfsInsertVnode, vfsMakeVnode]
  intro i node hnode c hc
  rw [hlen]
  obtain ⟨node₀, hnode₀, -, -, hchildren⟩ | rfl := withChild_cases hdir hnode
  · obtain hold | ⟨-, rfl⟩ := hchildren c hc
    · exact Nat.lt_succ_of_lt (h i node₀ hnode₀ c hold)
    · exact Nat.lt_succ_self _
  · cases hc

/-- INTERNAL: a new child that the driver found is an entry. -/
theorem ChildrenEntries.withChild {s : Vfs H F δ} (h : ChildrenEntries mounts s) {parent : ℕ}
    {dir : VfsNode H F δ} {name : CString} {handle : H} (hdir : s.nodes[parent]? = some dir)
    (hlook : dir.driver.fLookup dir.handle name s.volumes = some handle) :
    ChildrenEntries mounts (withChild s parent dir handle) := by
  intro i node hnode c hc
  obtain ⟨node₀, hnode₀, hhandle, hdriver, hchildren⟩ | rfl := withChild_cases hdir hnode
  · have hplace : placeOf node = placeOf node₀ := Prod.ext hdriver hhandle
    rw [hplace]
    obtain hold | ⟨rfl, rfl⟩ := hchildren c hc
    · obtain ⟨child, hchild, hentry⟩ := h i node₀ hnode₀ c hold
      obtain ⟨child', hchild', hhandle', hdriver', -⟩ := withChild_keeps parent dir handle hchild
      refine ⟨child', hchild', ?_⟩
      rw [show placeOf child' = placeOf child from Prod.ext hdriver' hhandle']
      exact hentry
    · obtain rfl := Option.some.inj (hnode₀.symm.trans hdir)
      exact ⟨_, withChild_new hdir handle, name, .inr ⟨handle, hlook, rfl⟩⟩
  · cases hc

/-- INTERNAL: vnodes have the drivers of those before. -/
theorem findsComparable_withChild {s : Vfs H F δ}
    (h : ∀ node ∈ s.nodes, FindsComparable node.driver s.volumes) {parent : ℕ}
    {dir : VfsNode H F δ} (hdir : s.nodes[parent]? = some dir) (handle : H) :
    ∀ node ∈ (withChild s parent dir handle).nodes, FindsComparable node.driver s.volumes := by
  intro node hnode
  obtain ⟨i, hi⟩ := List.mem_iff_getElem?.mp hnode
  obtain ⟨node₀, hnode₀, -, hdriver, -⟩ | rfl := withChild_cases hdir hi
  · rw [hdriver]
    exact h node₀ (List.mem_of_getElem? hnode₀)
  · exact h dir (List.mem_of_getElem? hdir)

/-! ## One walk -/

/-- INTERNAL: walking on from a vnode without children leads to one. -/
theorem walkPieces_no_children {s s' : Vfs H F δ} {iter i : ℕ} {dir : VfsNode H F δ}
    (hdir : s.nodes[iter]? = some dir) (hchildren : dir.children = []) {pieces : List CString}
    (hwalk : walkPieces s iter pieces = (some i, s')) :
    ∃ node, s'.nodes[i]? = some node ∧ node.children = [] := by
  induction pieces generalizing s iter dir with
  | nil =>
      obtain ⟨hi, rfl⟩ := Prod.mk.inj hwalk
      obtain rfl := Option.some.inj hi
      exact ⟨dir, hdir, hchildren⟩
  | cons piece pieces ih =>
      rw [walkPieces_cons] at hwalk
      obtain ⟨child, hfind, -⟩ | ⟨-, -, hrun⟩ | ⟨handle, -, -, hrun⟩ :=
        vfsLookup_cases hdir piece
      · rw [hchildren] at hfind
        cases hfind
      · rw [hrun] at hwalk
        cases (Prod.mk.inj hwalk).1
      · rw [hrun] at hwalk
        exact ih (withChild_new hdir handle) rfl hwalk

/-- INTERNAL: what a walk leaves behind: it is cached afterwards, and was before if the vnode
that it leads to has children. -/
theorem walkPieces_spec {s t : Vfs H F δ} (h : ChildrenIn s)
    (hfinds : ∀ node ∈ s.nodes, FindsComparable node.driver s.volumes) {iter i : ℕ}
    {dir : VfsNode H F δ} (hdir : s.nodes[iter]? = some dir) {pieces : List CString}
    (hwalk : walkPieces s iter pieces = (some i, t)) :
    ChildrenIn t ∧ t.volumes = s.volumes ∧ Extends s t ∧ Cached t iter pieces i ∧
      ∃ node, t.nodes[i]? = some node ∧
        (Cached s iter pieces i ∧ t = s ∨ node.children = []) := by
  induction pieces generalizing s iter dir with
  | nil =>
      obtain ⟨hi, rfl⟩ := Prod.mk.inj hwalk
      obtain rfl := Option.some.inj hi
      exact ⟨h, rfl, .refl s, rfl, dir, hdir, .inl ⟨rfl, rfl⟩⟩
  | cons piece pieces ih =>
      rw [walkPieces_cons] at hwalk
      obtain ⟨child, hfind, hrun⟩ | ⟨-, -, hrun⟩ | ⟨handle, hfind, hlook, hrun⟩ :=
        vfsLookup_cases hdir piece
      · rw [hrun] at hwalk
        have hchild := List.getElem?_eq_getElem
          (h iter dir hdir child (List.mem_of_find?_eq_some hfind))
        obtain ⟨hin, hvol, hext, hcached, node, hnode, hend⟩ := ih h hfinds hchild hwalk
        obtain ⟨dir', hdir', -⟩ := hext.node iter dir hdir
        refine ⟨hin, hvol, hext, ⟨dir', child, hdir', hext.find hdir hdir' hfind, hcached⟩, node,
          hnode, hend.imp_left fun hall => ⟨⟨dir, child, hdir, hfind, hall.1⟩, hall.2⟩⟩
      · rw [hrun] at hwalk
        cases (Prod.mk.inj hwalk).1
      · rw [hrun] at hwalk
        obtain ⟨node, hnode, hchildren⟩ :=
          walkPieces_no_children (withChild_new hdir handle) rfl hwalk
        obtain ⟨hin, hvol, hext, hcached, -⟩ := ih (h.withChild hdir handle)
          (findsComparable_withChild hfinds hdir handle) (withChild_new hdir handle) hwalk
        obtain ⟨dir', hdir', -⟩ := hext.node iter _ (withChild_parent hdir)
        have hname := hfinds dir (List.mem_of_getElem? hdir) _ _ _ hlook
        refine ⟨hin, hvol, h.extends_withChild.trans hext,
          ⟨dir', s.nodes.length, hdir', ?_, hcached⟩, node, hnode, .inr hchildren⟩
        exact hext.find (withChild_parent hdir) hdir'
          (find_withChild (h iter dir hdir) hdir hfind hname)

/-- INTERNAL: below a vnode without children the cache has no answer. -/
theorem pathExact_of_no_children {s : Vfs H F δ} {iter : ℕ} {dir : VfsNode H F δ}
    (hdir : s.nodes[iter]? = some dir) (hchildren : dir.children = []) {pieces : List CString} :
    PathExact mounts s iter pieces ↔ Unmounted mounts s.volumes (placeOf dir) pieces := by
  cases pieces with
  | nil => exact Iff.rfl
  | cons piece pieces =>
      have hfind : dir.children.find? (comparable s piece) = none := by rw [hchildren]; rfl
      constructor
      · exact fun h => (h dir hdir).2 hfind
      · intro h dir' hdir'
        obtain rfl := Option.some.inj (hdir.symm.trans hdir')
        refine ⟨fun child hchild => ?_, fun _ => h⟩
        rw [hfind] at hchild
        cases hchild

/-- INTERNAL: **a walk reaches the file** that the names lead to, if the cache is right on the
way. -/
theorem walkPieces_place {s : Vfs H F δ} {iter : ℕ} {dir : VfsNode H F δ}
    (hdir : s.nodes[iter]? = some dir) {pieces : List CString}
    (hexact : PathExact mounts s iter pieces)
    (hres : resolve mounts s.volumes (placeOf dir) pieces = some p) :
    ∃ i t node, walkPieces s iter pieces = (some i, t) ∧ t.nodes[i]? = some node ∧
      placeOf node = p := by
  induction pieces generalizing s iter dir with
  | nil => exact ⟨iter, s, dir, rfl, hdir, Option.some.inj hres⟩
  | cons piece pieces ih =>
      obtain ⟨next, hnext, hrest⟩ := Option.bind_eq_some_iff.mp hres
      obtain ⟨hcached, huncached⟩ := hexact dir hdir
      rw [walkPieces_cons]
      obtain ⟨child, hfind, hrun⟩ | ⟨hfind, hlook, -⟩ | ⟨handle, hfind, hlook, hrun⟩ :=
        vfsLookup_cases hdir piece
      · obtain ⟨node, hnode, hentry, hpieces⟩ := hcached child hfind
        obtain rfl := Option.some.inj (hnext.symm.trans hentry)
        rw [hrun]
        exact ih hnode hpieces hrest
      · rw [namedEntry, (huncached hfind).1, Option.none_or] at hnext
        obtain ⟨handle, hsome, -⟩ := Option.map_eq_some_iff.mp hnext
        cases hlook.symm.trans hsome
      · obtain ⟨hnone, hunmounted⟩ := huncached hfind
        have hfound : (placeOf dir).1.fLookup (placeOf dir).2 piece s.volumes = some handle := hlook
        rw [namedEntry, hnone, Option.none_or, hfound] at hnext
        obtain rfl := Option.some.inj hnext
        rw [hrun]
        have hnew := withChild_new hdir handle
        exact ih (s := withChild s iter dir handle) hnew
          ((pathExact_of_no_children hnew rfl).mpr (hunmounted handle hlook)) hrest

/-- INTERNAL: a walk follows entries. -/
theorem leads_of_walk {s t : Vfs H F δ} (h : ChildrenEntries mounts s) {iter i : ℕ}
    {dir node : VfsNode H F δ} (hdir : s.nodes[iter]? = some dir) {pieces : List CString}
    (hwalk : walkPieces s iter pieces = (some i, t)) (hnode : t.nodes[i]? = some node) :
    Leads mounts s.volumes pieces.length (placeOf dir) (placeOf node) := by
  induction pieces generalizing s iter dir with
  | nil =>
      obtain ⟨hi, rfl⟩ := Prod.mk.inj hwalk
      obtain rfl := Option.some.inj hi
      obtain rfl := Option.some.inj (hdir.symm.trans hnode)
      rfl
  | cons piece pieces ih =>
      rw [walkPieces_cons] at hwalk
      obtain ⟨child, hfind, hrun⟩ | ⟨-, -, hrun⟩ | ⟨handle, -, hlook, hrun⟩ :=
        vfsLookup_cases hdir piece
      · obtain ⟨next, hnext, hentry⟩ := h iter dir hdir child (List.mem_of_find?_eq_some hfind)
        rw [hrun] at hwalk
        exact ⟨placeOf next, hentry, ih h hnext hwalk⟩
      · rw [hrun] at hwalk
        cases (Prod.mk.inj hwalk).1
      · rw [hrun] at hwalk
        exact ⟨(dir.driver, handle), ⟨piece, .inr ⟨handle, hlook, rfl⟩⟩,
          ih (h.withChild hdir hlook) (withChild_new hdir handle) hwalk⟩

/-- INTERNAL: in a tree, a walk that reaches the file that the names lead to was right at each
step. -/
theorem pathExact_of_walk {s t : Vfs H F δ} {root : Place H F δ}
    (htree : IsTree mounts s.volumes root) (h : ChildrenEntries mounts s) {iter i : ℕ}
    {dir node : VfsNode H F δ} (hdir : s.nodes[iter]? = some dir)
    (hbelow : Below mounts s.volumes root (placeOf dir)) {pieces : List CString}
    (hwalk : walkPieces s iter pieces = (some i, t)) (hnode : t.nodes[i]? = some node)
    (hres : resolve mounts s.volumes (placeOf dir) pieces = some (placeOf node)) :
    PathExact mounts s iter pieces := by
  induction pieces generalizing s iter dir with
  | nil => trivial
  | cons piece pieces ih =>
      obtain ⟨next, hnext, hrest⟩ := Option.bind_eq_some_iff.mp hres
      intro dir' hdir'
      obtain rfl := Option.some.inj (hdir.symm.trans hdir')
      rw [walkPieces_cons] at hwalk
      obtain ⟨child, hfind, hrun⟩ | ⟨-, -, hrun⟩ | ⟨handle, hfind, hlook, hrun⟩ :=
        vfsLookup_cases hdir piece
      · rw [hrun] at hwalk
        obtain ⟨cached, hcached, hentry⟩ :=
          h iter dir hdir child (List.mem_of_find?_eq_some hfind)
        have hbelow' := hbelow.tail hentry
        obtain rfl := htree.leads_injective (hbelow.tail (isEntry_of_namedEntry hnext)) hbelow'
          (leads_of_resolve hrest) (leads_of_walk h hcached hwalk hnode)
        refine ⟨fun child' hfind' => ?_, fun hnone => ?_⟩
        · obtain rfl := Option.some.inj (hfind.symm.trans hfind')
          exact ⟨cached, hcached, hnext, ih htree h hcached hbelow' hwalk hrest⟩
        · rw [hfind] at hnone
          cases hnone
      · rw [hrun] at hwalk
        cases (Prod.mk.inj hwalk).1
      · rw [hrun] at hwalk
        have hnew := withChild_new hdir handle
        have hentries := h.withChild hdir hlook
        have hbelow' : Below mounts s.volumes root (dir.driver, handle) :=
          hbelow.tail ⟨piece, .inr ⟨handle, hlook, rfl⟩⟩
        obtain rfl := htree.leads_injective (hbelow.tail (isEntry_of_namedEntry hnext)) hbelow'
          (leads_of_resolve hrest) (leads_of_walk hentries hnew hwalk hnode)
        refine ⟨fun child' hfind' => ?_, fun _ => ⟨?_, fun file hfile => ?_⟩⟩
        · rw [hfind] at hfind'
          cases hfind'
        · cases hmount : mounts (placeOf dir) piece with
          | none => rfl
          | some mounted =>
              rw [namedEntry, hmount, Option.some_or] at hnext
              obtain rfl := Option.some.inj hnext
              exact absurd rfl (htree.apart _ _ _ _ _ hbelow hmount hlook)
        · obtain rfl := Option.some.inj (hlook.symm.trans hfile)
          exact (pathExact_of_no_children hnew rfl).mp
            (ih (s := withChild s iter dir handle) htree hentries hnew hbelow' hwalk hrest)

/-- INTERNAL: a walk over one piece is a lookup. -/
theorem walkPieces_singleton (s : Vfs H F δ) (iter : ℕ) (piece : CString) :
    walkPieces s iter [piece] = vfsLookup s iter piece := by
  rw [walkPieces_cons]
  obtain ⟨found, s'⟩ := vfsLookup s iter piece
  cases found with
  | none => rfl
  | some next => rfl

/-! ## Creating the file -/

/-- The vnode whose driver `VFS_create` asks, and the name of the file that it asks for. -/
def createRequest (s : Vfs H F δ) (path : CString) : Option (VfsNode H F δ × CString) :=
  let file := vfsGetDirAndFname s path
  (file.1.1.bind fun dir => file.2.nodes[dir]?).map fun node => (node, file.1.2)

/-- `VFS_create` asks the driver of the directory `dir` for a file `last`, and then
`VFS_walk_path` resolves the path to the file of that name which the driver finds there. -/
def CreateResolves (s : Vfs H F δ) (path : CString) (attributes : ℕ) (dir : Place H F δ)
    (last : CString) : Prop :=
  ∃ (parent : VfsNode H F δ) (s' : Vfs H F δ) (i : ℕ) (node : VfsNode H F δ),
    createRequest s path = some (parent, last) ∧ placeOf parent = dir ∧
    parent.driver.isNull .fCreate = false ∧
    vfsCreate s path attributes = some s' ∧ (vfsWalkPath s' path).1 = some i ∧
    (vfsWalkPath s' path).2.nodes[i]? = some node ∧ node.driver = dir.1 ∧
    dir.1.fLookup dir.2 last s'.volumes = some node.handle ∧ nodeName node s'.volumes = last

/-- The volumes after the file was created. -/
def createdIn (dir : Place H F δ) (last : CString) (attributes : ℕ) (volumes : δ) : δ :=
  dir.1.fCreate dir.2 last attributes volumes

/-- The path has a slash, the cache is right on the way to the directory, and there the driver
can create files and finds the new one by its name, as does the cache if it has an answer. -/
structure CreateExact (mounts : Place H F δ → CString → Option (Place H F δ)) (s : Vfs H F δ)
    (path : CString) (lead : List CString) (last : CString) (attributes : ℕ)
    (dir : Place H F δ) : Prop where
  hasSlash : slash ∈ path
  way : PathExact mounts s vfsRoot lead
  creates : dir.1.isNull .fCreate = false
  found : ∃ file, dir.1.fLookup dir.2 last (createdIn dir last attributes s.volumes) = some file ∧
    dir.1.fNodeName file (createdIn dir last attributes s.volumes) = last ∧
    ∀ i node child, Cached s vfsRoot lead i → s.nodes[i]? = some node →
      node.children.find? (comparable s last) = some child →
      (s.nodes[child]?).map placeOf = some (dir.1, file)

/-- Creating the file renames none of the vnodes. -/
def KeepsNames (s : Vfs H F δ) (volumes : δ) : Prop :=
  ∀ node ∈ s.nodes, nodeName node volumes = nodeName node s.volumes

variable {s : Vfs H F δ} {root : VfsNode H F δ}

/-- INTERNAL: the cache after a file was created. -/
theorem KeepsNames.extends {t : Vfs H F δ} {volumes' : δ} (h : KeepsNames t volumes') :
    Extends t { t with volumes := volumes' } := by
  refine ⟨fun i node hnode => ⟨node, hnode, List.prefix_rfl⟩, fun i node _ c _ => ?_⟩
  unfold cachedName
  dsimp only
  cases hc : t.nodes[c]? with
  | none => rfl
  | some child => exact congrArg some (h child (List.mem_of_getElem? hc))

theorem KeepsNames.find {t : Vfs H F δ} {volumes' : δ} (h : KeepsNames t volumes') {i : ℕ}
    {dir : VfsNode H F δ} (hdir : t.nodes[i]? = some dir) (name : CString) :
    dir.children.find? (comparable { t with volumes := volumes' } name) =
      dir.children.find? (comparable t name) :=
  List.find?_congr fun c hc => comparable_congr (h.extends.child i dir hdir c hc) name

theorem exists_last_slash {path : CString} (h : slash ∈ path) :
    ∃ lead last, path = lead ++ slash :: last ∧ slash ∉ last := by
  induction path with
  | nil => exact absurd h List.not_mem_nil
  | cons a path ih =>
      by_cases hpath : slash ∈ path
      · obtain ⟨lead, last, rfl, hlast⟩ := ih hpath
        exact ⟨a :: lead, last, rfl, hlast⟩
      · obtain rfl := (List.mem_cons.mp h).resolve_right hpath
        exact ⟨[], path, rfl, hpath⟩

/-- INTERNAL: a path that does not end with a slash, cut at the last one. -/
theorem components_slash {path : CString} (h : slash ∈ path) (hend : path.getLast? ≠ some slash) :
    ∃ dirname last, path = dirname ++ slash :: last ∧ slash ∉ last ∧
      components path = components dirname ++ [last] := by
  obtain ⟨dirname, last, rfl, hlast⟩ := exists_last_slash h
  have hne : last ≠ [] := by
    rintro rfl
    exact hend (List.getLast?_concat ..)
  refine ⟨dirname, last, rfl, hlast, ?_⟩
  rw [components_append, components_singleton hlast hne]

/-- INTERNAL: `VFS_create` and the walk after it, for a path that is cut at a slash: the walk is
a lookup in the vnode of the directory. -/
theorem create_slash (h : ChildrenIn s) (hroot : s.nodes[vfsRoot]? = some root)
    (hfinds : ∀ node ∈ s.nodes, FindsComparable node.driver s.volumes)
    {dirname last : CString} (hlast : Model.slash ∉ last) (attributes : ℕ)
    (hcomp : components (dirname ++ Model.slash :: last) = components dirname ++ [last])
    {i : ℕ} {t : Vfs H F δ} {node : VfsNode H F δ}
    (hwalk : walkPieces s vfsRoot (components dirname) = (some i, t))
    (hnode : t.nodes[i]? = some node)
    (hnames : KeepsNames t (createdIn (placeOf node) last attributes s.volumes)) :
    let s' := { t with volumes := createdIn (placeOf node) last attributes s.volumes }
    createRequest s (dirname ++ Model.slash :: last) = some (node, last) ∧
      vfsCreate s (dirname ++ Model.slash :: last) attributes = some s' ∧
      vfsWalkPath s' (dirname ++ Model.slash :: last) = vfsLookup s' i last := by
  intro s'
  obtain ⟨-, hvol, -, hcached, -⟩ := walkPieces_spec h hfinds hroot hwalk
  have hname := vfsGetDirAndFname_slash s dirname hlast
  rw [vfsWalkPath_eq, hwalk] at hname
  refine ⟨?_, ?_, ?_⟩
  · rw [createRequest, hname]
    dsimp only [Option.bind_some]
    rw [hnode]
    rfl
  · rw [vfsCreate, hname]
    dsimp only
    rw [hnode, Option.map_some, vfsMakeFile, hvol]
    rfl
  · rw [vfsWalkPath_eq, hcomp, walkPieces_append, (hcached.extends hnames.extends).walk]
    exact walkPieces_singleton s' i last

/-- INTERNAL: where the condition holds, the file is created and found. -/
theorem createResolves_of_exact (h : ChildrenIn s) (hroot : s.nodes[vfsRoot]? = some root)
    (hfinds : ∀ node ∈ s.nodes, FindsComparable node.driver s.volumes)
    {dirname last : CString} (hlast : Model.slash ∉ last) {attributes : ℕ}
    (hcomp : components (dirname ++ Model.slash :: last) = components dirname ++ [last])
    {dir : Place H F δ}
    (hdir : resolve mounts s.volumes (placeOf root) (components dirname) = some dir)
    (hnames : KeepsNames (walkPieces s vfsRoot (components dirname)).2
      (createdIn dir last attributes s.volumes))
    (hexact : CreateExact mounts s (dirname ++ Model.slash :: last) (components dirname) last
      attributes dir) :
    CreateResolves s (dirname ++ Model.slash :: last) attributes dir last := by
  obtain ⟨-, hlead, hcreates, file, hfile, hname, hcache⟩ := hexact
  obtain ⟨i, t, node, hwalk, hnode, rfl⟩ := walkPieces_place hroot hlead hdir
  rw [hwalk] at hnames
  obtain ⟨hrequest, hcreate, hagain⟩ :=
    create_slash h hroot hfinds hlast attributes hcomp hwalk hnode hnames
  obtain ⟨-, -, -, -, node', hnode', hend⟩ := walkPieces_spec h hfinds hroot hwalk
  obtain rfl := Option.some.inj (hnode.symm.trans hnode')
  have hfound : node.driver.fLookup node.handle last
      (createdIn (placeOf node) last attributes s.volumes) = some file := hfile
  have hsame := hnames.find hnode last
  generalize hs' : ({ t with volumes := createdIn (placeOf node) last attributes s.volumes } :
    Vfs H F δ) = s' at hcreate hagain hsame
  have hnode₂ : s'.nodes[i]? = some node := by rw [← hs']; exact hnode
  have hvol' : s'.volumes = createdIn (placeOf node) last attributes s.volumes := by rw [← hs']
  rw [← hvol'] at hfound hname
  obtain ⟨child, hfind, hrun⟩ | ⟨-, hnone, -⟩ | ⟨handle, -, hlook, hrun⟩ :=
    vfsLookup_cases hnode₂ last
  · rw [hsame] at hfind
    obtain ⟨hall, rfl⟩ | hempty := hend
    · obtain ⟨cnode, hcnode, hplace⟩ :=
        Option.map_eq_some_iff.mp (hcache i node child hall hnode hfind)
      obtain ⟨hdriver, hhandle⟩ := Prod.mk.inj hplace
      refine ⟨node, s', child, cnode, hrequest, rfl, hcreates, hcreate, ?_, ?_, hdriver, ?_, ?_⟩
      · rw [hagain, hrun]
      · rw [hagain, hrun, ← hs']
        exact hcnode
      · rw [hhandle]
        exact hfound
      · rw [nodeName, hdriver, hhandle]
        exact hname
    · rw [hempty] at hfind
      cases hfind
  · rw [hfound] at hnone
    cases hnone
  · obtain rfl := Option.some.inj (hfound.symm.trans hlook)
    refine ⟨node, s', s'.nodes.length, ⟨file, node.driver, []⟩, hrequest, rfl, hcreates, hcreate,
      ?_, ?_, rfl, hfound, hname⟩
    · rw [hagain, hrun]
    · rw [hagain, hrun]
      exact withChild_new hnode₂ file

/-- INTERNAL: in a tree, a file that is created and found meets the condition. -/
theorem exact_of_createResolves (htree : IsTree mounts s.volumes (placeOf root))
    (h : ChildrenEntries mounts s) (hroot : s.nodes[vfsRoot]? = some root)
    (hfinds : ∀ node ∈ s.nodes, FindsComparable node.driver s.volumes)
    {dirname last : CString} (hlast : Model.slash ∉ last) {attributes : ℕ}
    (hcomp : components (dirname ++ Model.slash :: last) = components dirname ++ [last])
    {dir : Place H F δ}
    (hdir : resolve mounts s.volumes (placeOf root) (components dirname) = some dir)
    (hnames : KeepsNames (walkPieces s vfsRoot (components dirname)).2
      (createdIn dir last attributes s.volumes))
    (hresolves : CreateResolves s (dirname ++ Model.slash :: last) attributes dir last) :
    CreateExact mounts s (dirname ++ Model.slash :: last) (components dirname) last attributes
      dir := by
  obtain ⟨parent, s', j, found, hrequest, rfl, hcreates, hcreate, hj, hfound, hdriver, hlook,
    hname⟩ := hresolves
  have hget := vfsGetDirAndFname_slash s dirname hlast
  rw [vfsWalkPath_eq] at hget
  obtain ⟨reached, t, hwalk⟩ : ∃ reached t,
      walkPieces s vfsRoot (components dirname) = (reached, t) := ⟨_, _, rfl⟩
  rw [hwalk] at hget hnames
  cases reached with
  | none =>
      rw [createRequest, hget] at hrequest
      cases hrequest
  | some i =>
      have hnode : t.nodes[i]? = some parent := by
        rw [createRequest, hget] at hrequest
        obtain ⟨node, hnode, heq⟩ := Option.map_eq_some_iff.mp hrequest
        obtain ⟨rfl, -⟩ := Prod.mk.inj heq
        exact hnode
      obtain ⟨-, hcreate', hagain⟩ := create_slash h.childrenIn hroot hfinds hlast attributes hcomp
        hwalk hnode hnames
      obtain rfl := Option.some.inj (hcreate.symm.trans hcreate')
      rw [hagain] at hj hfound
      refine ⟨by simp, pathExact_of_walk htree h hroot .refl hwalk hnode hdir, hcreates,
        found.handle, hlook, ?_, fun i' node child hcached hnode' hfind => ?_⟩
      · rw [nodeName, hdriver] at hname
        exact hname
      · -- the cached way is the one that was walked
        obtain ⟨hi, rfl⟩ := Prod.mk.inj (hcached.walk.symm.trans hwalk)
        obtain rfl := Option.some.inj hi
        obtain rfl := Option.some.inj (hnode.symm.trans hnode')
        rw [← hnames.find hnode last] at hfind
        rw [vfsLookup_of_find (s := ⟨s.nodes, createdIn (placeOf parent) last attributes s.volumes⟩)
          hnode hfind] at hj hfound
        obtain rfl := Option.some.inj hj
        rw [show s.nodes[child]? = some found from hfound]
        exact congrArg some (Prod.ext hdriver rfl)

/-- INTERNAL: a path without a slash asks for the file in place of its directory. -/
theorem not_createResolves_no_slash (htree : IsTree mounts s.volumes (placeOf root))
    (h : ChildrenEntries mounts s) (hroot : s.nodes[vfsRoot]? = some root) {path : CString}
    (hslash : slash ∉ path) (hne : path ≠ []) (attributes : ℕ) (last : CString) :
    ¬ CreateResolves s path attributes (placeOf root) last := by
  rintro ⟨parent, s', i, node, hrequest, hparent, -⟩
  have hname := vfsGetDirAndFname_no_slash s hslash
  rw [vfsWalkPath_eq, components_singleton hslash hne] at hname
  obtain ⟨reached, t, hwalk⟩ : ∃ reached t, walkPieces s vfsRoot [path] = (reached, t) :=
    ⟨_, _, rfl⟩
  rw [hwalk] at hname
  rw [createRequest, hname] at hrequest
  obtain ⟨file, hfile, heq⟩ := Option.map_eq_some_iff.mp hrequest
  obtain ⟨rfl, -⟩ := Prod.mk.inj heq
  obtain ⟨j, hj, hnode⟩ := Option.bind_eq_some_iff.mp hfile
  obtain rfl : reached = some j := hj
  -- the vnode found lies one step below the root
  obtain ⟨next, hentry, hsame⟩ := leads_of_walk h hroot hwalk hnode
  rw [show next = placeOf file from hsame, hparent] at hentry
  exact htree.root_ne _ .refl hentry

/-- **Create, then resolve.**  For a path that does not end with a slash and whose leading
components name directories, of whatever drivers, `VFS_create` asks for the file in the
directory that they lead to, and `VFS_walk_path` resolves the path to it afterwards, if the
path has a slash, the cache has the right vnodes on the way and the driver finds the new file
by its name; and in a tree of directories only if so.
SRCLINE: vfs.c:176-301 -/
theorem create_resolves_iff (h : ChildrenIn s) (hroot : s.nodes[vfsRoot]? = some root)
    (hfinds : ∀ node ∈ s.nodes, FindsComparable node.driver s.volumes) {path : CString}
    (hend : path.getLast? ≠ some slash) {lead : List CString} {last : CString}
    (hcomp : components path = lead ++ [last]) (attributes : ℕ) {dir : Place H F δ}
    (hdir : resolve mounts s.volumes (placeOf root) lead = some dir)
    (hnames : KeepsNames (walkPieces s vfsRoot lead).2
      (createdIn dir last attributes s.volumes)) :
    (CreateExact mounts s path lead last attributes dir →
      CreateResolves s path attributes dir last) ∧
    (IsTree mounts s.volumes (placeOf root) → ChildrenEntries mounts s →
      CreateResolves s path attributes dir last →
        CreateExact mounts s path lead last attributes dir) := by
  by_cases hslash : slash ∈ path
  · obtain ⟨dirname, last', rfl, hlast, hsplit⟩ := components_slash hslash hend
    obtain ⟨rfl, hsame⟩ := List.append_inj' (hsplit.symm.trans hcomp) rfl
    obtain rfl := List.singleton_inj.mp hsame
    exact ⟨createResolves_of_exact h hroot hfinds hlast hsplit hdir hnames,
      fun htree hentries => exact_of_createResolves htree hentries hroot hfinds hlast hsplit hdir
        hnames⟩
  · have hne : path ≠ [] := by
      rintro rfl
      exact absurd (congrArg List.length hcomp) (by simp [components_nil])
    rw [components_singleton hslash hne] at hcomp
    obtain ⟨hlead, -⟩ := List.append_inj' (show [] ++ [path] = lead ++ [last] from hcomp) rfl
    rw [← hlead] at hdir
    obtain rfl := Option.some.inj hdir
    exact ⟨fun hexact => absurd hexact.hasSlash hslash, fun htree hentries hresolves =>
      absurd hresolves
        (not_createResolves_no_slash htree hentries hroot hslash hne attributes last)⟩

end

/-! The virtual files below the root of a volume, as `VFS_init` mounts them. -/

/-- `VIRT`. -/
def virtName : CString := vfmNodename [] (fun _ => []) .root

/-- The root directory of the volume. -/
def bootRoot : Place BootHandle Unit TreeNames := (bootDriver, .inl [])

/-- The directory of the virtual files. -/
def virtRoot : Place BootHandle Unit TreeNames := (virtualDriver, .inr .root)

/-- It is mounted in the root. -/
def bootMounts (dir : Place BootHandle Unit TreeNames) (name : CString) :
    Option (Place BootHandle Unit TreeNames) :=
  if dir.2 = .inl [] ∧ name = virtName then some virtRoot else none

theorem bootMounts_eq_some {dir file : Place BootHandle Unit TreeNames} {name : CString} :
    bootMounts dir name = some file ↔ (dir.2 = .inl [] ∧ name = virtName) ∧ virtRoot = file := by
  unfold bootMounts
  rw [Option.ite_none_right_eq_some, Option.some_inj]

theorem virtualDriver_lookup {dir handle : BootHandle} {name : CString} {v : TreeNames}
    (h : virtualDriver.fLookup dir name v = some handle) :
    dir = .inr .root ∧ ∃ i, strcmp (v.2.getD i []) name = 0 ∧ handle = .inr (.file i) := by
  cases dir with
  | inl file => cases h
  | inr dir =>
      obtain ⟨node, hnode, rfl⟩ := Option.map_eq_some_iff.mp h
      obtain ⟨rfl, i, hequal, rfl⟩ := vfmLookup_eq_some hnode
      exact ⟨rfl, i, hequal, rfl⟩

/-- INTERNAL: what the two directories have in them. -/
theorem bootMounts_entry {v : TreeNames} (hempty : [] ∉ v.1)
    {dir file : Place BootHandle Unit TreeNames} (hbelow : Below bootMounts v bootRoot dir)
    (h : IsEntry bootMounts v dir file) :
    dir = bootRoot ∧ (file = virtRoot ∨ ∃ name ∈ v.1, file = (bootDriver, .inl name)) ∨
      dir = virtRoot ∧ ∃ i, file = (virtualDriver, .inr (.file i)) := by
  induction hbelow generalizing file with
  | refl =>
      obtain ⟨name, hmount | ⟨handle, hlook, rfl⟩⟩ := h
      · exact .inl ⟨rfl, .inl (bootMounts_eq_some.mp hmount).2.symm⟩
      · obtain ⟨⟨-, hname⟩, rfl⟩ := bootDriver_lookup.mp hlook
        exact .inl ⟨rfl, .inr ⟨name, hname, rfl⟩⟩
  | tail _ hentry ih =>
      obtain ⟨name, hfile⟩ := h
      obtain ⟨-, rfl | ⟨name', hname', rfl⟩⟩ | ⟨-, i, rfl⟩ := ih hentry
      · obtain hmount | ⟨handle, hlook, rfl⟩ := hfile
        · cases (bootMounts_eq_some.mp hmount).1.1
        · obtain ⟨-, i, -, rfl⟩ := virtualDriver_lookup hlook
          exact .inr ⟨rfl, i, rfl⟩
      · obtain hmount | ⟨handle, hlook, -⟩ := hfile
        · obtain rfl := Sum.inl.inj (bootMounts_eq_some.mp hmount).1.1
          exact absurd hname' hempty
        · obtain rfl := Sum.inl.inj (bootDriver_lookup.mp hlook).1.1
          exact absurd hname' hempty
      · obtain hmount | ⟨handle, hlook, -⟩ := hfile
        · cases (bootMounts_eq_some.mp hmount).1.1
        · cases (virtualDriver_lookup hlook).1

theorem bootMounts_isTree {v : TreeNames} (hempty : [] ∉ v.1) : IsTree bootMounts v bootRoot where
  parent dir dir' file hbelow hbelow' h h' := by
    obtain ⟨rfl, hfile⟩ | ⟨rfl, i, rfl⟩ := bootMounts_entry hempty hbelow h
    · obtain ⟨rfl, -⟩ | ⟨rfl, i, rfl⟩ := bootMounts_entry hempty hbelow' h'
      · rfl
      · obtain hfile | ⟨name, -, hfile⟩ := hfile
        · cases (Prod.mk.inj hfile).2
        · cases (Prod.mk.inj hfile).2
    · obtain ⟨rfl, hfile⟩ | ⟨rfl, -⟩ := bootMounts_entry hempty hbelow' h'
      · obtain hfile | ⟨name, -, hfile⟩ := hfile
        · cases (Prod.mk.inj hfile).2
        · cases (Prod.mk.inj hfile).2
      · rfl
  root_ne dir hbelow h := by
    obtain ⟨-, hfile | ⟨name, hname, hfile⟩⟩ | ⟨-, i, hfile⟩ := bootMounts_entry hempty hbelow h
    · cases (Prod.mk.inj hfile).2
    · obtain rfl := Sum.inl.inj (Prod.mk.inj hfile).2
      exact hempty hname
    · cases (Prod.mk.inj hfile).2
  apart dir name file name' handle hbelow hmount hlook hfile := by
    obtain ⟨⟨hroot, -⟩, rfl⟩ := bootMounts_eq_some.mp hmount
    have hentry : IsEntry bootMounts v dir virtRoot := ⟨name, .inl hmount⟩
    obtain ⟨rfl, -⟩ | ⟨rfl, -⟩ := bootMounts_entry hempty hbelow hentry
    · cases (Prod.mk.inj hfile).2.trans (bootDriver_lookup.mp hlook).2.symm
    · cases hroot

theorem bootTree_entries (v : TreeNames) : ChildrenEntries bootMounts (bootTree v) := by
  intro i dir hdir c hc
  match i, hdir with
  | 0, hdir =>
      obtain rfl := Option.some.inj hdir
      obtain rfl : c = 1 := by simpa using hc
      exact ⟨_, rfl, virtName, .inl rfl⟩
  | 1, hdir =>
      obtain rfl := Option.some.inj hdir
      cases hc

theorem bootTree_node {v : TreeNames} {node : VfsNode BootHandle Unit TreeNames}
    (h : node ∈ (bootTree v).nodes) :
    node = ⟨.inl [], bootDriver, [1]⟩ ∨ node = ⟨.inr .root, virtualDriver, []⟩ := by
  simpa [bootTree] using h

theorem bootTree_finds (v : TreeNames) :
    ∀ node ∈ (bootTree v).nodes, FindsComparable node.driver v := by
  intro node hnode dir name file hlook
  obtain rfl | rfl := bootTree_node hnode
  · obtain ⟨-, rfl⟩ := bootDriver_lookup.mp hlook
    exact .inl List.prefix_rfl
  · obtain ⟨-, i, hcmp, rfl⟩ := virtualDriver_lookup hlook
    exact (strcmp_eq_zero_iff _ _).mp hcmp

/-- `/VIRT/A`. -/
def virtPath : CString := slash :: virtName ++ slash :: [0x41]

/-- INTERNAL: creating a file renames no directory. -/
theorem bootTree_keepsNames (v v' : TreeNames) : KeepsNames (bootTree v) v' := by
  intro node hnode
  obtain rfl | rfl := bootTree_node hnode
  · rfl
  · rfl

/-- `VFS_create("/VIRT/A", 0)` where there are no virtual files, and where there is a virtual file
`AB`, which the driver finds by the name `A` as well. -/
theorem create_resolves_iff_slash :
    CreateResolves (bootTree ([], [])) virtPath 0 virtRoot [0x41] ∧
    ¬ CreateResolves (bootTree ([], [[0x41, 0x42]])) virtPath 0 virtRoot [0x41] := by
  have hend : virtPath.getLast? ≠ some slash := by decide
  have hcomp : components virtPath = [virtName] ++ [[0x41]] := rfl
  constructor
  · have hdir : resolve bootMounts ([], []) bootRoot [virtName] = some virtRoot := rfl
    have hway : PathExact bootMounts (bootTree ([], [])) vfsRoot [virtName] := by
      intro dir hdir
      obtain rfl := Option.some.inj hdir
      refine ⟨fun child hfind => ?_, fun hnone => by cases hnone⟩
      obtain rfl := Option.some.inj hfind
      exact ⟨_, rfl, rfl, trivial⟩
    refine (create_resolves_iff (bootTree_entries ([], [])).childrenIn rfl (bootTree_finds ([], []))
      hend hcomp 0 hdir (bootTree_keepsNames ([], []) _)).1
        ⟨by decide, hway, rfl, .inr (.file 0), rfl, rfl, fun i node child hcached hnode hfind => ?_⟩
    obtain ⟨dir, c, hdir, hc, rfl⟩ := hcached
    obtain rfl := Option.some.inj hdir
    obtain rfl := Option.some.inj hc
    obtain rfl := Option.some.inj hnode
    cases hfind
  · intro hresolves
    have hdir : resolve bootMounts ([], [[0x41, 0x42]]) bootRoot [virtName] = some virtRoot := rfl
    have hexact := (create_resolves_iff (bootTree_entries ([], [[0x41, 0x42]])).childrenIn rfl
      (bootTree_finds ([], [[0x41, 0x42]])) hend hcomp 0 hdir
      (bootTree_keepsNames ([], [[0x41, 0x42]]) _)).2 (bootMounts_isTree List.not_mem_nil)
        (bootTree_entries ([], [[0x41, 0x42]])) hresolves
    obtain ⟨file, hfile, hname, -⟩ := hexact.found
    obtain rfl := Option.some.inj hfile
    exact absurd hname (by decide)

/-- `VFS_create("B", 0)` follows a null pointer: it looks for a directory `B`. -/
theorem create_without_slash :
    components [0x42] = [] ++ [[0x42]] ∧ vfsCreate (bootTree ([], [])) [0x42] 0 = none ∧
    ¬ CreateResolves (bootTree ([], [])) [0x42] 0 bootRoot [0x42] := by
  refine ⟨rfl, rfl, ?_⟩
  rintro ⟨parent, s', i, node, -, -, -, hcreate, -⟩
  cases hcreate

end LakeOS.Analysis
